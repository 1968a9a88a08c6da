import HvmlFpm.Multipart.Processor
import HvmlFpm.Request.ContentType
import HvmlFpm.Strtol

/-!
# Making a request

`make_request` of `hvml-executor.c`, with the decoders for the bodies of other types than
`multipart/form-data`.
-/

namespace HvmlFpm.Request
open Library Multipart

/-- The libraries and the system below `make_request`. An uninitialised `uint32_t` holds
`uninitialised`. -/
structure RequestHost (Vdom : Type) extends Host where
  pcutils : Pcutils
  malloc : Nat → Bool
  makeObjectFromQueryString : CString → Option Variant
  rwstreamNewForRead : Bool
  loadFromJsonStream : Bytes → Option Variant
  loadHvmlFromFile : Option CString → Option Vdom
  uninitialised : Nat

structure Input where
  environ : CString → Option CString
  fcgiStdin : Bytes
  stdin : Bytes

structure RequestInfo (Vdom : Type) where
  server : Option Variant
  get : Option Variant
  post : Option Variant
  cookie : Option Variant
  files : Option Variant
  request : Option Variant
  vdom : Option Vdom

variable {Vdom : Type}

def RequestInfo.cleared : RequestInfo Vdom := ⟨none, none, none, none, none, none, none⟩

structure Draft (Vdom : Type) where
  info : RequestInfo Vdom
  printed : Bytes
  disk : List TempFile

def releaseRequest (req : Draft Vdom) : Draft Vdom := { req with info := .cleared }

abbrev Making (Vdom : Type) := Outcome Stop (Draft Vdom) (Draft Vdom)

/-- `goto failed`. -/
def failed (req : Draft Vdom) : Making Vdom := .fail (releaseRequest req)

inductive ValueType
  | string | ulong
deriving DecidableEq

def metaVars : List (CString × ValueType) :=
  [(.lit "AUTH_TYPE", .string), (.lit "CONTENT_LENGTH", .ulong), (.lit "CONTENT_TYPE", .string),
    (.lit "GATEWAY_INTERFACE", .string), (.lit "PATH_INFO", .string), (.lit "PATH_TRANSLATED", .string),
    (.lit "QUERY_STRING", .string), (.lit "REMOTE_ADDR", .string), (.lit "REMOTE_HOST", .string),
    (.lit "REMOTE_IDENT", .string), (.lit "REMOTE_USER", .string), (.lit "REQUEST_METHOD", .string),
    (.lit "SCRIPT_NAME", .string), (.lit "SERVER_NAME", .string), (.lit "SERVER_PORT", .ulong),
    (.lit "SERVER_PROTOCOL", .string), (.lit "SERVER_SOFTWARE", .string), (.lit "HTTP_COOKIE", .string),
    (.lit "HTTP_HOST", .string), (.lit "HTTP_REFERER", .string), (.lit "HTTP_USER_AGENT", .string),
    (.lit "DOCUMENT_ROOT", .string), (.lit "REMOTE_PORT", .ulong), (.lit "HTTPS", .string),
    (.lit "REQUEST_URI", .string), (.lit "SCRIPT_FILENAME", .string), (.lit "SERVER_ADMIN", .string),
    (.lit "HTTP_AUTHORIZATION", .string)]

def isDigit (c : UInt8) : Bool := 48 ≤ c && c ≤ 57

/-- `strtoul(value, NULL, 10)` of a 64-bit `unsigned long`. -/
def strtoul (value : CString) : Nat :=
  let text := value.bytes.dropWhile isspace
  let digits := if text.head? = some 45 ∨ text.head? = some 43 then text.tail else text
  let n := (digits.takeWhile isDigit).foldl (fun n c => 10 * n + (c - 48).toNat) 0
  if 2 ^ 64 ≤ n then 2 ^ 64 - 1
  else if text.head? = some 45 then (2 ^ 64 - n) % 2 ^ 64
  else n

/-- The body of the loop over `meta_vars`; a variable of the type `VT_STRING` that is not set gets no
property. -/
def setMetaVar (purc : Purc) (environ : CString → Option CString) (server : Members)
    (var : CString × ValueType) : Option Members :=
  match environ var.1, var.2 with
  | some value, .ulong => some (server.set var.1 (.ulongint (strtoul value)))
  | some value, .string => (purc.makeString value).map fun tmp => server.set var.1 tmp
  | none, .ulong => some (server.set var.1 (.ulongint 0))
  | none, .string => some server

def setMetaVars (purc : Purc) (environ : CString → Option CString) : Option Members :=
  metaVars.foldlM (setMetaVar purc environ) .empty

def getStringConst : Option Variant → Option CString
  | some (.string s) => some s
  | _ => none

/-- `purc_variant_cast_to_uint32` without force leaves `tmp` alone when the value does not fit. -/
def castToUint32 (uninitialised : Nat) : Option Variant → Nat
  | some (.ulongint n) => if n < 2 ^ 32 then n else uninitialised
  | _ => uninitialised

/-! ## The decoders -/

section Decoders
variable (host : RequestHost Vdom) (contentLength : Nat) (fcgiStdin : Bytes)

/-- The buffer that two of the decoders fill from `stdin`, as a string. `FCGI_fread` hands the length on as an `int`,
and a negative one reads nothing. -/
def readContent : Option CString :=
  if host.malloc (contentLength + 1) then
    let content := fcgiStdin.take (toInt contentLength).toNat
    if content.length = contentLength then some (.ofBuffer content) else none
  else none

def parseContentAsFormUrlencoded : Option Variant :=
  (readContent host contentLength fcgiStdin).bind host.makeObjectFromQueryString

def parseContentAsJson : Option Variant :=
  if host.rwstreamNewForRead then host.loadFromJsonStream fcgiStdin else none

def parseContentAsPlain : Option Variant :=
  (readContent host contentLength fcgiStdin).bind host.purc.makeString

end Decoders

/-! ## The phases of `make_request` -/

section Phases
variable (host : RequestHost Vdom) (input : Input)

def decodeFormData (contentLength : Nat) (boundary : CString) (req : Draft Vdom) : Making Vdom :=
  let req := { req with printed := req.printed ++ ascii "boundary: " ++ boundary.bytes ++ ascii "\n" }
  match parseContentAsMultipartFormData host.toHost contentLength boundary input.stdin with
  | .ok decoded =>
      .ok { req with
              info := { req.info with post := some (.object decoded.post), files := some (.object decoded.files) }
              disk := decoded.disk }
  | .fail s => .ok { req with disk := s.disk }
  | .stop why s => .stop why { req with disk := s.disk }

def decodeBody (contentLength : Nat) (checked : Checked) (req : Draft Vdom) : Making Vdom :=
  let setPost (post : Option Variant) : Making Vdom := .ok { req with info := { req.info with post } }
  match checked.ct with
  | .formUrlencoded => setPost (parseContentAsFormUrlencoded host contentLength input.fcgiStdin)
  | .formData =>
      match checked.boundary with
      | some boundary => decodeFormData host input contentLength boundary req
      | none => failed req
  | .json => setPost (parseContentAsJson host input.fcgiStdin)
  | .xml => setPost (parseContentAsPlain host contentLength input.fcgiStdin)
  | .plain => setPost (parseContentAsPlain host contentLength input.fcgiStdin)
  | .bad => failed req
  | .notSupported => failed req

def readPost (server : Members) (req : Draft Vdom) : Making Vdom :=
  let contentLength := castToUint32 host.uninitialised (server (.lit "CONTENT_LENGTH"))
  if 0 < contentLength then
    match getStringConst (server (.lit "CONTENT_TYPE")) with
    | none => .ok req
    | some contentType =>
        match checkPostContentType host.pcutils contentType with
        | none => .stop .outOfBlock req
        | some checked =>
            let req := { req with printed := req.printed ++ checked.printed }
            if checked.ct.refused then failed req
            else decodeBody host input contentLength checked req
  else .ok req

def readGet (server : Members) (req : Draft Vdom) : Making Vdom :=
  match getStringConst (server (.lit "QUERY_STRING")) with
  | none => .ok req
  | some query =>
      match host.makeObjectFromQueryString query with
      | some get => .ok { req with info := { req.info with get := some get } }
      | none => failed req

/-- The method is compared without a test for null. -/
def readMethod (server : Members) (req : Draft Vdom) : Making Vdom :=
  match getStringConst (server (.lit "REQUEST_METHOD")) with
  | none => .stop .nullDereference req
  | some method =>
      if method.bytes.map toLower = ascii "get" then readGet host server req
      else if method.bytes.map toLower = ascii "post" then readPost host input server req
      else .ok req

def readCookie (server : Members) (req : Draft Vdom) : Making Vdom :=
  match getStringConst (server (.lit "HTTP_COOKIE")) with
  | none => .ok req
  | some cookie =>
      match purcMakeObjectFromHttpHeaderValue host.purc cookie with
      | some obj => .ok { req with info := { req.info with cookie := some (.object obj) } }
      | none => .stop .nullDereference req

/-- `purc_variant_object_unite` with overwriting; a value that is no object is only logged. -/
def objectUnite (obj : Members) : Variant → Members
  | .object members => fun key => (members key).or (obj key)
  | _ => obj

/-- The objects that are missing are empty ones, and `request` gets the properties of all three. -/
def fillIn (req : Draft Vdom) : Draft Vdom :=
  let get := req.info.get.getD (.object Members.empty)
  let post := req.info.post.getD (.object Members.empty)
  let cookie := req.info.cookie.getD (.object Members.empty)
  let files := req.info.files.getD (.object Members.empty)
  let request := objectUnite (objectUnite (objectUnite Members.empty get) post) cookie
  { req with
      info := { req.info with get := some get, post := some post, cookie := some cookie, files := some files
                              request := some (.object request) } }

def loadVdom (server : Members) (req : Draft Vdom) : Making Vdom :=
  match host.loadHvmlFromFile (getStringConst (server (.lit "SCRIPT_FILENAME"))) with
  | some vdom => .ok { req with info := { req.info with vdom := some vdom } }
  | none => failed req

/-- A `fail` is the value -1. -/
def makeRequest : Making Vdom :=
  match setMetaVars host.purc input.environ with
  | none => failed ⟨.cleared, [], []⟩
  | some server =>
      ((readMethod host input server ⟨{ RequestInfo.cleared with server := some (.object server) }, [], []⟩).bind
        (readCookie host server)).bind fun req => loadVdom host server (fillIn req)

end Phases
section MetaVars
variable {purc : Purc} {environ : CString → Option CString}

def metaVarValue (environ : CString → Option CString) (var : CString × ValueType) : Option Variant :=
  match environ var.1, var.2 with
  | some value, .ulong => some (.ulongint (strtoul value))
  | some value, .string => some (.string value)
  | none, .ulong => some (.ulongint 0)
  | none, .string => none

theorem setMetaVar_spec {server server' : Members} {var : CString × ValueType}
    (set : setMetaVar purc environ server var = some server') :
    server' var.1 = (metaVarValue environ var).or (server var.1) ∧
      ∀ key, key ≠ var.1 → server' key = server key := by
  obtain ⟨name, type⟩ := var
  rw [setMetaVar] at set
  rw [metaVarValue]
  cases value : environ name with
  | none =>
      cases type with
      | ulong =>
          simp only [value, Option.some.injEq] at set
          subst set
          exact ⟨server.set_same name _, fun key other => server.set_other _ other⟩
      | string =>
          simp only [value, Option.some.injEq] at set
          subst set
          exact ⟨rfl, fun _ _ => rfl⟩
  | some text =>
      cases type with
      | ulong =>
          simp only [value, Option.some.injEq] at set
          subst set
          exact ⟨server.set_same name _, fun key other => server.set_other _ other⟩
      | string =>
          simp only [value] at set
          obtain ⟨tmp, made, rfl⟩ := Option.map_eq_some_iff.1 set
          obtain ⟨-, same⟩ := Option.ite_none_right_eq_some.1 made
          obtain rfl := Option.some.inj same
          exact ⟨server.set_same name _, fun key other => server.set_other _ other⟩

theorem foldlM_setMetaVar {vars : List (CString × ValueType)} {server server' : Members}
    (distinct : (vars.map Prod.fst).Nodup) (set : vars.foldlM (setMetaVar purc environ) server = some server') :
    (∀ var ∈ vars, server' var.1 = (metaVarValue environ var).or (server var.1)) ∧
      ∀ key, key ∉ vars.map Prod.fst → server' key = server key := by
  induction vars generalizing server with
  | nil =>
      obtain rfl : server = server' := by simpa using set
      simp
  | cons first rest ih =>
      rw [List.foldlM_cons] at set
      obtain ⟨between, setFirst, setRest⟩ := Option.bind_eq_some_iff.1 set
      obtain ⟨here, elsewhere⟩ := setMetaVar_spec setFirst
      rw [List.map_cons, List.nodup_cons] at distinct
      obtain ⟨values, others⟩ := ih distinct.2 setRest
      constructor
      · intro var member
        rcases List.mem_cons.1 member with rfl | member
        · rw [others var.1 distinct.1, here]
        · have other : var.1 ≠ first.1 := by
            rintro same
            exact distinct.1 (same ▸ List.mem_map_of_mem member)
          rw [values var member, elsewhere var.1 other]
      · intro key absent
        rw [List.map_cons, List.mem_cons, not_or] at absent
        rw [others key absent.2, elsewhere key absent.1]

theorem metaVars_distinct : (metaVars.map Prod.fst).Nodup := by
  decide +kernel

theorem setMetaVars_get {server : Members} (set : setMetaVars purc environ = some server)
    {var : CString × ValueType} (member : var ∈ metaVars) : server var.1 = metaVarValue environ var := by
  rw [(foldlM_setMetaVar metaVars_distinct set).1 var member, Members.empty, Option.or_none]

theorem getStringConst_metaVar {server : Members} (set : setMetaVars purc environ = some server)
    {name : CString} (member : (name, ValueType.string) ∈ metaVars) :
    getStringConst (server name) = environ name := by
  rw [setMetaVars_get set member, metaVarValue]
  cases environ name <;> rfl

end MetaVars

section Ok
variable {host : RequestHost Vdom} {server : Members} {req req' : Draft Vdom}

theorem readCookie_ok (read : readCookie host server req = .ok req') :
    ∃ cookie, req' = { req with info := { req.info with cookie := cookie } } := by
  rw [readCookie] at read
  cases cookie : getStringConst (server (.lit "HTTP_COOKIE")) with
  | none =>
      simp only [cookie, Outcome.ok.injEq] at read
      exact ⟨req.info.cookie, read.symm⟩
  | some text =>
      cases parsed : purcMakeObjectFromHttpHeaderValue host.purc text with
      | none => simp [cookie, parsed] at read
      | some obj =>
          simp only [cookie, parsed, Outcome.ok.injEq] at read
          exact ⟨some (.object obj), read.symm⟩

theorem loadVdom_ok (load : loadVdom host server req = .ok req') :
    ∃ vdom, req' = { req with info := { req.info with vdom := vdom } } := by
  rw [loadVdom] at load
  cases loaded : host.loadHvmlFromFile (getStringConst (server (.lit "SCRIPT_FILENAME"))) with
  | none => simp [loaded, failed] at load
  | some vdom =>
      simp only [loaded, Outcome.ok.injEq] at load
      exact ⟨some vdom, load.symm⟩

theorem makeRequest_ok {input : Input} (made : makeRequest host input = .ok req) :
    ∃ server decoded cookie vdom, setMetaVars host.purc input.environ = some server ∧
      readMethod host input server ⟨{ RequestInfo.cleared with server := some (.object server) }, [], []⟩ = .ok decoded ∧
      ∃ filled, filled = fillIn { decoded with info := { decoded.info with cookie := cookie } } ∧
        req = { filled with info := { filled.info with vdom := vdom } } := by
  rw [makeRequest] at made
  cases set : setMetaVars host.purc input.environ with
  | none => simp [set, failed] at made
  | some server =>
      simp only [set] at made
      obtain ⟨read, reads, load⟩ := Outcome.bind_eq_ok.1 made
      obtain ⟨decoded, decode, cookies⟩ := Outcome.bind_eq_ok.1 reads
      obtain ⟨cookie, rfl⟩ := readCookie_ok cookies
      obtain ⟨vdom, rfl⟩ := loadVdom_ok load
      exact ⟨server, decoded, cookie, vdom, rfl, decode, _, rfl, rfl⟩

end Ok

def purcScanners : Pcutils where
  getNextToken str delims := nextToken delims.contains str.bytes
  getNextTokenLen str len delims := nextToken delims.contains (str.bytes.take len)

theorem purcScanners_lawful : purcScanners.Lawful := ⟨fun _ _ => rfl, fun _ _ _ => rfl⟩

def scriptHost (script : Option Unit) : RequestHost Unit :=
  { plainHost with
      pcutils := purcScanners, malloc := fun _ => true, makeObjectFromQueryString := fun _ => none
      rwstreamNewForRead := true, loadFromJsonStream := fun _ => none, loadHvmlFromFile := fun _ => script
      uninitialised := 0 }

end HvmlFpm.Request
