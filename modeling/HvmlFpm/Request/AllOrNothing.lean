import HvmlFpm.Multipart.Pairs
import HvmlFpm.Request.MakeRequest

/-!
# All or nothing

Which requests `make_request` answers with a complete `request_info` or with an empty one. The others end
the worker.
-/

namespace HvmlFpm.Request
open Library Multipart
variable {Vdom : Type}

structure Complete (info : RequestInfo Vdom) : Prop where
  server : info.server.isSome = true
  files : info.files.isSome = true
  vdom : info.vdom.isSome = true
  request : ∃ get post cookie request, info.get = some get ∧ info.post = some post ∧ info.cookie = some cookie ∧
    info.request = some (.object request) ∧
    ∀ key, request key = (cookie.member key).or ((post.member key).or (get.member key))

/-- `make_request` returns, with everything set or with nothing. -/
structure AllOrNothing (made : Making Vdom) : Prop where
  returns : made.stopped? = none
  all : ∀ req, made = .ok req → Complete req.info
  nothing : ∀ req, made = .fail req → req.info = .cleared

theorem objectUnite_get (obj : Members) (v : Variant) (key : CString) :
    objectUnite obj v key = (v.member key).or (obj key) := by
  cases v <;> rfl

section Fields
variable {host : RequestHost Vdom} {input : Input} {server : Members}

theorem readMethod_server {req : Draft Vdom} (set : req.info.server.isSome = true) :
    (readMethod host input server req).All (fun read => read.info.server.isSome = true)
      (fun left => left.info = .cleared) (fun _ _ => True) := by
  rw [readMethod]
  split
  · trivial
  · split_ifs
    · rw [readGet]
      split
      · exact set
      · split
        · exact set
        · rfl
    · rw [readPost]
      split_ifs
      · split
        · exact set
        · split
          · trivial
          · split_ifs
            · rfl
            · rw [decodeBody]
              split
              · exact set
              · split
                · rw [decodeFormData]
                  split
                  · exact set
                  · exact set
                  · trivial
                · rfl
              · exact set
              · exact set
              · exact set
              · rfl
              · rfl
      · exact set
    · exact set

theorem readCookie_server {req : Draft Vdom} (set : req.info.server.isSome = true) :
    (readCookie host server req).All (fun read => read.info.server.isSome = true)
      (fun left => left.info = .cleared) (fun _ _ => True) := by
  rw [readCookie]
  split
  · exact set
  · split
    · exact set
    · trivial

theorem loadVdom_complete {req : Draft Vdom} (set : req.info.server.isSome = true) :
    (loadVdom host server (fillIn req)).All (fun made => Complete made.info)
      (fun left => left.info = .cleared) (fun _ _ => True) := by
  rw [loadVdom]
  split
  · refine ⟨set, rfl, rfl, _, _, _, _, rfl, rfl, rfl, rfl, ?_⟩
    intro key
    rw [objectUnite_get, objectUnite_get, objectUnite_get, Members.empty, Option.or_none]
  · rfl

theorem makeRequest_fields (host : RequestHost Vdom) (input : Input) :
    (makeRequest host input).All (fun req => Complete req.info) (fun left => left.info = .cleared)
      (fun _ _ => True) := by
  rw [makeRequest]
  split
  · rfl
  · apply Outcome.All.bind
    · exact (readMethod_server rfl).bind fun read => readCookie_server
    · exact fun read => loadVdom_complete

end Fields

theorem allOrNothing_iff_returns (host : RequestHost Vdom) (input : Input) :
    AllOrNothing (makeRequest host input) ↔ (makeRequest host input).stopped? = none := by
  have fields := makeRequest_fields host input
  constructor
  · exact AllOrNothing.returns
  · intro returns
    refine ⟨returns, ?_, ?_⟩
    · intro req made
      rw [made] at fields
      exact fields
    · intro req made
      rw [made] at fields
      exact fields

def MethodIs (input : Input) (name : String) : Prop :=
  ∃ method, input.environ (.lit "REQUEST_METHOD") = some method ∧ method.bytes.map toLower = ascii name

def Unencoded (purc : Purc) (environ : CString → Option CString) : Prop :=
  ∃ var ∈ metaVars, var.2 = .string ∧ ∃ value, environ var.1 = some value ∧ purc.isUtf8 value = false

def sentLength (host : RequestHost Vdom) (input : Input) : Nat :=
  castToUint32 host.uninitialised (some (.ulongint ((input.environ (.lit "CONTENT_LENGTH")).elim 0 strtoul)))

def PostedType (host : RequestHost Vdom) (input : Input) (contentType : CString) : Prop :=
  MethodIs input "post" ∧ 0 < sentLength host input ∧ input.environ (.lit "CONTENT_TYPE") = some contentType

/-- The check of the content type reads behind the string, or the multipart decoder does not return. -/
def BodyStops (host : RequestHost Vdom) (input : Input) : Prop :=
  ∃ contentType, PostedType host input contentType ∧
    (checkPostContentType host.pcutils contentType = none ∨
      ∃ checked boundary, checkPostContentType host.pcutils contentType = some checked ∧ checked.ct = .formData ∧
        checked.boundary = some boundary ∧
        (parseContentAsMultipartFormData host.toHost (sentLength host input) boundary input.stdin).stopped? ≠ none)

/-- The query or the content type makes `make_request` return -1 before it looks at the cookie. -/
def RefusedEarly (host : RequestHost Vdom) (input : Input) : Prop :=
  (MethodIs input "get" ∧ ∃ query, input.environ (.lit "QUERY_STRING") = some query ∧
    host.makeObjectFromQueryString query = none) ∨
  ∃ contentType checked, PostedType host input contentType ∧
    checkPostContentType host.pcutils contentType = some checked ∧
    (checked.ct.refused = true ∨ (checked.ct = .formData ∧ checked.boundary = none))

/-- The method is given, the body does not end the worker, and every piece of the cookie has a `=`. -/
structure Survives (host : RequestHost Vdom) (input : Input) : Prop where
  method : (input.environ (.lit "REQUEST_METHOD")).isSome = true
  body : ¬ BodyStops host input
  cookie : RefusedEarly host input ∨
    ∀ cookie, input.environ (.lit "HTTP_COOKIE") = some cookie → EachPaired cookie

section Stops
variable {host : RequestHost Vdom} {input : Input} {server : Members}

theorem decodeBody_cases (host : RequestHost Vdom) (input : Input) (contentLength : Nat)
    (supported : checked.ct.refused = false) (req : Draft Vdom) :
    (checked.ct = .formData ∧ checked.boundary = none ∧
      decodeBody host input contentLength checked req = failed req) ∨
    (¬ (checked.ct = .formData ∧ checked.boundary = none) ∧
      (decodeBody host input contentLength checked req).All
        (fun _ => ∀ boundary, checked.ct = .formData → checked.boundary = some boundary →
          (parseContentAsMultipartFormData host.toHost contentLength boundary input.stdin).stopped? = none)
        (fun _ => False)
        (fun why _ => ∃ boundary, checked.ct = .formData ∧ checked.boundary = some boundary ∧
          (parseContentAsMultipartFormData host.toHost contentLength boundary input.stdin).stopped? = some why)) := by
  rw [decodeBody]
  cases ct : checked.ct with
  | bad => simp [ct, PostContentType.refused] at supported
  | notSupported => simp [ct, PostContentType.refused] at supported
  | formUrlencoded => exact .inr ⟨by simp, by simp [Outcome.All]⟩
  | json => exact .inr ⟨by simp, by simp [Outcome.All]⟩
  | xml => exact .inr ⟨by simp, by simp [Outcome.All]⟩
  | plain => exact .inr ⟨by simp, by simp [Outcome.All]⟩
  | formData =>
      cases found : checked.boundary with
      | none => exact .inl ⟨rfl, rfl, rfl⟩
      | some boundary =>
          refine .inr ⟨by simp, ?_⟩
          simp only [decodeFormData]
          cases parsed : parseContentAsMultipartFormData host.toHost contentLength boundary input.stdin with
          | ok decoded =>
              intro other _ same
              obtain rfl := Option.some.inj same
              rw [parsed]
              rfl
          | fail s =>
              intro other _ same
              obtain rfl := Option.some.inj same
              rw [parsed]
              rfl
          | stop why s => exact ⟨boundary, by simp, rfl, by rw [parsed]; rfl⟩

theorem setMetaVar_none_iff {purc : Purc} {environ : CString → Option CString} (server : Members)
    {var : CString × ValueType} : setMetaVar purc environ server var = none ↔
      var.2 = .string ∧ ∃ value, environ var.1 = some value ∧ purc.isUtf8 value = false := by
  obtain ⟨name, type⟩ := var
  rw [setMetaVar]
  cases value : environ name with
  | none => cases type <;> simp
  | some text =>
      cases type with
      | ulong => simp
      | string => simp [Purc.makeString]

theorem setMetaVars_none_iff {purc : Purc} {environ : CString → Option CString} :
    setMetaVars purc environ = none ↔ Unencoded purc environ := by
  rw [setMetaVars, Unencoded]
  generalize metaVars = vars
  generalize Members.empty = server
  induction vars generalizing server with
  | nil => simp
  | cons var rest ih =>
      rw [List.foldlM_cons]
      cases set : setMetaVar purc environ server var with
      | none => simp [(setMetaVar_none_iff server).1 set]
      | some server' =>
          have fine : ¬ (var.2 = .string ∧ ∃ value, environ var.1 = some value ∧ purc.isUtf8 value = false) := by
            rw [← setMetaVar_none_iff server, set]
            simp
          rw [List.exists_mem_cons_iff, or_iff_right fine]
          exact ih server'

theorem methodIs_of_some {method : CString} (name : String)
    (given : input.environ (.lit "REQUEST_METHOD") = some method) :
    MethodIs input name ↔ method.bytes.map toLower = ascii name := by
  rw [MethodIs, given]
  simp

theorem bodyStops_of_posted {contentType : CString} (posted : PostedType host input contentType) :
    BodyStops host input ↔ checkPostContentType host.pcutils contentType = none ∨
      ∃ checked boundary, checkPostContentType host.pcutils contentType = some checked ∧ checked.ct = .formData ∧
        checked.boundary = some boundary ∧
        (parseContentAsMultipartFormData host.toHost (sentLength host input) boundary input.stdin).stopped? ≠ none := by
  constructor
  · intro ⟨other, otherPosted, stops⟩
    obtain rfl := Option.some.inj (posted.2.2.symm.trans otherPosted.2.2)
    exact stops
  · intro stops
    exact ⟨contentType, posted, stops⟩

theorem refusedEarly_of_posted {contentType : CString} (posted : PostedType host input contentType)
    (notGet : ¬ MethodIs input "get") :
    RefusedEarly host input ↔ ∃ checked, checkPostContentType host.pcutils contentType = some checked ∧
      (checked.ct.refused = true ∨ (checked.ct = .formData ∧ checked.boundary = none)) := by
  constructor
  · rintro (⟨isGet, _⟩ | ⟨other, checked, otherPosted, check, refused⟩)
    · exact absurd isGet notGet
    · obtain rfl := Option.some.inj (posted.2.2.symm.trans otherPosted.2.2)
      exact ⟨checked, check, refused⟩
  · intro ⟨checked, check, refused⟩
    exact .inr ⟨contentType, checked, posted, check, refused⟩

theorem readPost_ends (set : setMetaVars host.purc input.environ = some server) (isPost : MethodIs input "post")
    (notGet : ¬ MethodIs input "get") (req : Draft Vdom) :
    (readPost host input server req).All (fun _ => ¬ BodyStops host input ∧ ¬ RefusedEarly host input)
      (fun _ => ¬ BodyStops host input ∧ RefusedEarly host input) (fun _ _ => BodyStops host input) := by
  have typeHeld := getStringConst_metaVar set (show (CString.lit "CONTENT_TYPE", _) ∈ metaVars by decide +kernel)
  have lengthHeld : castToUint32 host.uninitialised (server (.lit "CONTENT_LENGTH")) = sentLength host input := by
    rw [setMetaVars_get set (show (CString.lit "CONTENT_LENGTH", .ulong) ∈ metaVars by decide +kernel), metaVarValue,
      sentLength]
    cases input.environ (.lit "CONTENT_LENGTH") <;> rfl
  -- Where no body is looked at, the branch can neither stop nor refuse.
  have idle (unposted : ∀ contentType, ¬ PostedType host input contentType) :
      ¬ BodyStops host input ∧ ¬ RefusedEarly host input := by
    constructor
    · rintro ⟨contentType, posted, _⟩
      exact unposted contentType posted
    · rintro (⟨isGet, _⟩ | ⟨contentType, _, posted, _⟩)
      · exact notGet isGet
      · exact unposted contentType posted
  simp only [readPost, lengthHeld, typeHeld]
  by_cases positive : 0 < sentLength host input
  · rw [if_pos positive]
    cases type : input.environ (.lit "CONTENT_TYPE") with
    | none =>
        apply idle
        intro contentType posted
        have held := posted.2.2
        simp [type] at held
    | some contentType =>
        simp only
        have posted : PostedType host input contentType := ⟨isPost, positive, type⟩
        rw [bodyStops_of_posted posted, refusedEarly_of_posted posted notGet]
        cases check : checkPostContentType host.pcutils contentType with
        | none => exact Or.inl rfl
        | some checked =>
            simp only
            by_cases refused : checked.ct.refused = true
            · rw [if_pos refused]
              refine ⟨?_, checked, rfl, .inl refused⟩
              rintro (none | ⟨other, _, same, formData, _⟩)
              · cases none
              · obtain rfl := Option.some.inj same
                simp [formData, PostContentType.refused] at refused
            · rw [if_neg refused]
              rcases decodeBody_cases host input (sentLength host input)
                  (Bool.eq_false_iff.2 refused) { req with printed := req.printed ++ checked.printed } with
                ⟨formData, unbounded, decodes⟩ | ⟨bounded, decodes⟩
              · rw [decodes]
                refine ⟨?_, checked, rfl, .inr ⟨formData, unbounded⟩⟩
                rintro (none | ⟨other, boundary, same, _, found, _⟩)
                · cases none
                · obtain rfl := Option.some.inj same
                  simp [unbounded] at found
              · apply decodes.mono
                · intro _ returns
                  constructor
                  · rintro (none | ⟨other, boundary, same, formData, found, stops⟩)
                    · cases none
                    · obtain rfl := Option.some.inj same
                      exact stops (returns boundary formData found)
                  · rintro ⟨other, same, early | early⟩
                    · obtain rfl := Option.some.inj same
                      exact refused early
                    · obtain rfl := Option.some.inj same
                      exact bounded early
                · exact fun _ never => never.elim
                · rintro why _ ⟨boundary, formData, found, stops⟩
                  exact .inr ⟨checked, boundary, rfl, formData, found, by simp [stops]⟩
  · rw [if_neg positive]
    exact idle fun contentType posted => positive posted.2.1

theorem readMethod_ends (host : RequestHost Vdom) (set : setMetaVars host.purc input.environ = some server)
    (req : Draft Vdom) :
    (readMethod host input server req).All
      (fun _ => (input.environ (.lit "REQUEST_METHOD")).isSome = true ∧ ¬ BodyStops host input ∧
        ¬ RefusedEarly host input)
      (fun _ => (input.environ (.lit "REQUEST_METHOD")).isSome = true ∧ ¬ BodyStops host input ∧
        RefusedEarly host input)
      (fun _ _ => (input.environ (.lit "REQUEST_METHOD")).isSome = false ∨ BodyStops host input) := by
  have methodHeld := getStringConst_metaVar set (show (CString.lit "REQUEST_METHOD", _) ∈ metaVars by decide +kernel)
  have queryHeld := getStringConst_metaVar set (show (CString.lit "QUERY_STRING", _) ∈ metaVars by decide +kernel)
  rw [readMethod, methodHeld]
  cases given : input.environ (.lit "REQUEST_METHOD") with
  | none => exact .inl rfl
  | some method =>
      have get := methodIs_of_some "get" given
      have post := methodIs_of_some "post" given
      simp only
      by_cases isGet : method.bytes.map toLower = ascii "get"
      · have notPost : ¬ MethodIs input "post" := by
          rw [post, isGet]
          decide
        have runs : ¬ BodyStops host input := fun ⟨_, posted, _⟩ => notPost posted.1
        have early : RefusedEarly host input ↔ ∃ query, input.environ (.lit "QUERY_STRING") = some query ∧
            host.makeObjectFromQueryString query = none := by
          constructor
          · rintro (⟨_, refused⟩ | ⟨_, _, posted, _⟩)
            · exact refused
            · exact absurd posted.1 notPost
          · intro refused
            exact .inl ⟨get.2 isGet, refused⟩
        rw [if_pos isGet, readGet, queryHeld, early]
        cases query : input.environ (.lit "QUERY_STRING") with
        | none => exact ⟨rfl, runs, by simp⟩
        | some text =>
            cases made : host.makeObjectFromQueryString text with
            | none =>
                simp only [made]
                exact ⟨rfl, runs, text, rfl, made⟩
            | some obj =>
                simp only [made]
                exact ⟨rfl, runs, by simp [made]⟩
      · rw [if_neg isGet]
        have notGet : ¬ MethodIs input "get" := mt get.1 isGet
        by_cases isPost : method.bytes.map toLower = ascii "post"
        · rw [if_pos isPost]
          apply (readPost_ends set (post.2 isPost) notGet req).mono
          · exact fun _ ends => ⟨rfl, ends⟩
          · exact fun _ ends => ⟨rfl, ends⟩
          · exact fun _ _ stops => .inr stops
        · rw [if_neg isPost]
          have notPost : ¬ MethodIs input "post" := mt post.1 isPost
          refine ⟨rfl, fun ⟨_, posted, _⟩ => notPost posted.1, ?_⟩
          rintro (⟨yes, _⟩ | ⟨_, _, posted, _⟩)
          · exact notGet yes
          · exact notPost posted.1

theorem readCookie_returns_iff (host : RequestHost Vdom) (set : setMetaVars host.purc input.environ = some server)
    (req : Draft Vdom) :
    (∃ read, readCookie host server req = .ok read) ∧
        (∀ cookie, input.environ (.lit "HTTP_COOKIE") = some cookie → EachPaired cookie) ∨
      (∃ why left, readCookie host server req = .stop why left) ∧
        ¬ ∀ cookie, input.environ (.lit "HTTP_COOKIE") = some cookie → EachPaired cookie := by
  have cookieHeld := getStringConst_metaVar set (show (CString.lit "HTTP_COOKIE", _) ∈ metaVars by decide +kernel)
  rw [readCookie, cookieHeld]
  cases cookie : input.environ (.lit "HTTP_COOKIE") with
  | none => exact .inl ⟨⟨req, rfl⟩, by simp⟩
  | some text =>
      simp only [purcMakeObjectFromHttpHeaderValue_eq]
      by_cases paired : EachPaired text
      · rw [if_pos paired]
        exact .inl ⟨⟨_, rfl⟩, by simpa using paired⟩
      · rw [if_neg paired]
        exact .inr ⟨⟨_, _, rfl⟩, by simpa using paired⟩

theorem all_or_nothing_iff (host : RequestHost Vdom) (input : Input) :
    AllOrNothing (makeRequest host input) ↔ Unencoded host.purc input.environ ∨ Survives host input := by
  rw [allOrNothing_iff_returns, ← setMetaVars_none_iff, makeRequest]
  cases set : setMetaVars host.purc input.environ with
  | none => simp [failed, Outcome.stopped?]
  | some server =>
      simp only [reduceCtorEq, false_or]
      have ends := readMethod_ends host set ⟨{ RequestInfo.cleared with server := some (.object server) }, [], []⟩
      cases read : readMethod host input server ⟨{ RequestInfo.cleared with server := some (.object server) }, [], []⟩ with
      | stop why left =>
          rw [read] at ends
          refine iff_of_false (by simp [Outcome.stopped?]) ?_
          intro survives
          rcases ends with missing | stops
          · have given := survives.method
            simp [missing] at given
          · exact survives.body stops
      | fail left =>
          rw [read] at ends
          exact iff_of_true (by simp [Outcome.stopped?]) ⟨ends.1, ends.2.1, .inl ends.2.2⟩
      | ok decoded =>
          rw [read] at ends
          rw [Outcome.ok_bind]
          rcases readCookie_returns_iff host set decoded with
            ⟨⟨req, cookies⟩, paired⟩ | ⟨⟨why, left, cookies⟩, unpaired⟩
          · rw [cookies, Outcome.ok_bind, loadVdom]
            refine iff_of_true ?_ ⟨ends.1, ends.2.1, .inr paired⟩
            split <;> rfl
          · rw [cookies]
            refine iff_of_false (by simp [Outcome.stopped?]) ?_
            intro survives
            rcases survives.cookie with early | paired
            · exact ends.2.2 early
            · exact unpaired paired

end Stops

def noMethod : Input := ⟨fun _ => none, [], []⟩

theorem noMethod_not_all_or_nothing :
    (makeRequest (scriptHost (some ())) noMethod).stopped? = some .nullDereference ∧
      ¬ AllOrNothing (makeRequest (scriptHost (some ())) noMethod) := by
  have stops : (makeRequest (scriptHost (some ())) noMethod).stopped? = some .nullDereference := by
    decide +kernel
  refine ⟨stops, ?_⟩
  intro all
  rw [all.returns] at stops
  cases stops

end HvmlFpm.Request
