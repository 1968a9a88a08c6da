import HvmlFpm.Multipart.Reading
import HvmlFpm.Worker.Executor

namespace HvmlFpm.Worker
open Library Multipart Request
variable {Vdom : Type}

structure Posted (host : RequestHost Vdom) (input : Input) (contentLength : Nat) (checked : Checked) : Prop where
  encoded : (setMetaVars host.purc input.environ).isSome = true
  method : ∃ method, input.environ (.lit "REQUEST_METHOD") = some method ∧
    method.bytes.map toLower = ascii "post"
  length : ∃ length, input.environ (.lit "CONTENT_LENGTH") = some length ∧
    contentLength = castToUint32 host.uninitialised (some (.ulongint (strtoul length)))
  positive : 0 < contentLength
  contentType : ∃ contentType, input.environ (.lit "CONTENT_TYPE") = some contentType ∧
    checkPostContentType host.pcutils contentType = some checked
  supported : checked.ct.refused = false

/-- The parser refuses a byte, a callback fails, the body ends before the closing delimiter, or it is
shorter than announced. -/
def BodyFails (host : Host) (boundary : CString) (contentLength : Nat) (stdin : Bytes) : Prop :=
  (executeChunks (settings host) (reads stdin) (multipartParserInit boundary, .init)).All
    (fun r => r.1.state ≠ .ended ∨ stdin.length < contentLength) (fun _ => True) (fun _ _ => False)

def DecoderFails (host : RequestHost Vdom) (input : Input) (contentLength : Nat) (checked : Checked) : Prop :=
  match checked.ct with
  | .formUrlencoded => parseContentAsFormUrlencoded host contentLength input.fcgiStdin = none
  | .formData => ∃ boundary, checked.boundary = some boundary ∧
      BodyFails host.toHost boundary contentLength input.stdin
  | .json => parseContentAsJson host input.fcgiStdin = none
  | .xml | .plain => parseContentAsPlain host contentLength input.fcgiStdin = none
  | .bad | .notSupported => False

/-- `make_request` returns -1 with nothing set, the answer is 400, and nothing is scheduled. -/
structure AnsweredBadRequest (made : Making Vdom) : Prop where
  refused : ∃ req, made = .fail req ∧ req.info = .cleared
  answered : ∀ (maxExecutions : Int) (turn : Turn Vdom) (loop : Loop Vdom), turn.accepted = true →
    turn.made = made → ∃ next, serve maxExecutions turn loop = .looping next ∧
      next.actions = loop.actions ++ [.sendResp 400]

theorem answeredBadRequest_iff {made : Making Vdom} :
    AnsweredBadRequest made ↔ ∃ req, made = .fail req ∧ req.info = .cleared := by
  constructor
  · intro answered
    exact answered.refused
  · rintro ⟨req, rfl, cleared⟩
    refine ⟨⟨req, rfl, cleared⟩, ?_⟩
    intro maxExecutions turn loop accepted made
    refine ⟨{ loop with ret := -1, actions := loop.actions ++ [.sendResp 400] }, ?_, rfl⟩
    rw [serve, if_pos accepted, made]

section Made
variable {host : RequestHost Vdom} {input : Input} {contentLength : Nat} {checked : Checked}

theorem decodeBody_fails (fails : DecoderFails host input contentLength checked) (req : Draft Vdom) :
    ∃ decoded, decodeBody host input contentLength checked req = .ok decoded := by
  rw [DecoderFails] at fails
  rw [decodeBody]
  cases ct : checked.ct with
  | formUrlencoded => exact ⟨_, rfl⟩
  | json => exact ⟨_, rfl⟩
  | xml => exact ⟨_, rfl⟩
  | plain => exact ⟨_, rfl⟩
  | bad => simp [ct] at fails
  | notSupported => simp [ct] at fails
  | formData =>
      simp only [ct] at fails
      obtain ⟨boundary, found, fails⟩ := fails
      have follows := parse_follows host.toHost contentLength boundary input.stdin
      rw [BodyFails] at fails
      simp only [found, decodeFormData]
      cases run : executeChunks (settings host.toHost) (reads input.stdin) (multipartParserInit boundary, .init) with
      | ok r =>
          rw [run] at follows
          obtain ⟨decoded, -, parsed⟩ := follows
          rw [parsed]
          exact ⟨_, rfl⟩
      | fail left =>
          rw [run] at follows
          obtain ⟨decoded, -, parsed⟩ := follows
          rw [parsed]
          exact ⟨_, rfl⟩
      | stop why left =>
          rw [run] at fails
          exact fails.elim

theorem makeRequest_posted (posted : Posted host input contentLength checked) :
    ∃ server, setMetaVars host.purc input.environ = some server ∧
      makeRequest host input =
        ((decodeBody host input contentLength checked
          ⟨{ RequestInfo.cleared with server := some (.object server) }, checked.printed, []⟩).bind
            (readCookie host server)).bind fun req => loadVdom host server (fillIn req) := by
  obtain ⟨server, set⟩ := Option.isSome_iff_exists.1 posted.encoded
  obtain ⟨method, methodSet, isPost⟩ := posted.method
  obtain ⟨length, lengthSet, same⟩ := posted.length
  obtain ⟨contentType, contentTypeSet, check⟩ := posted.contentType
  have methodHeld : getStringConst (server (.lit "REQUEST_METHOD")) = some method := by
    rw [getStringConst_metaVar set (by decide +kernel), methodSet]
  have lengthHeld : server (.lit "CONTENT_LENGTH") = some (.ulongint (strtoul length)) := by
    have held := setMetaVars_get set (show (CString.lit "CONTENT_LENGTH", .ulong) ∈ metaVars by decide +kernel)
    rw [held, metaVarValue, lengthSet]
  have typeHeld : getStringConst (server (.lit "CONTENT_TYPE")) = some contentType := by
    rw [getStringConst_metaVar set (by decide +kernel), contentTypeSet]
  have notGet : ¬ ascii "post" = ascii "get" := by
    decide
  refine ⟨server, set, ?_⟩
  rw [makeRequest, set]
  simp only [readMethod, methodHeld, notGet, if_false, isPost, if_true, readPost, lengthHeld, ← same,
    posted.positive, typeHeld, check, posted.supported, List.nil_append, Bool.false_eq_true]

theorem undecoded_refused_iff (posted : Posted host input contentLength checked)
    (fails : DecoderFails host input contentLength checked) :
    AnsweredBadRequest (makeRequest host input) ↔
      (∀ cookie, input.environ (.lit "HTTP_COOKIE") = some cookie →
        (purcMakeObjectFromHttpHeaderValue host.purc cookie).isSome = true) ∧
      host.loadHvmlFromFile (input.environ (.lit "SCRIPT_FILENAME")) = none := by
  obtain ⟨server, set, phases⟩ := makeRequest_posted posted
  obtain ⟨decoded, decodes⟩ := decodeBody_fails fails
    ⟨{ RequestInfo.cleared with server := some (.object server) }, checked.printed, []⟩
  have cookieHeld := getStringConst_metaVar set (show (CString.lit "HTTP_COOKIE", _) ∈ metaVars by decide +kernel)
  have scriptHeld := getStringConst_metaVar set (show (CString.lit "SCRIPT_FILENAME", _) ∈ metaVars by decide +kernel)
  rw [answeredBadRequest_iff, phases, decodes, Outcome.ok_bind, readCookie, cookieHeld]
  have loads (req : Draft Vdom) : (∃ left, loadVdom host server (fillIn req) = .fail left ∧ left.info = .cleared) ↔
      host.loadHvmlFromFile (input.environ (.lit "SCRIPT_FILENAME")) = none := by
    rw [loadVdom, scriptHeld]
    cases host.loadHvmlFromFile (input.environ (.lit "SCRIPT_FILENAME")) with
    | none => simp [failed, releaseRequest]
    | some vdom => simp
  cases cookie : input.environ (.lit "HTTP_COOKIE") with
  | none =>
      rw [Outcome.ok_bind, loads]
      simp
  | some text =>
      cases parsed : purcMakeObjectFromHttpHeaderValue host.purc text with
      | none => simp [parsed]
      | some obj =>
          simp only [parsed, Outcome.ok_bind, loads]
          simp [parsed]

end Made

def shortText : Input where
  environ name :=
    if name = .lit "REQUEST_METHOD" then some (.lit "POST")
    else if name = .lit "CONTENT_LENGTH" then some (.lit "5")
    else if name = .lit "CONTENT_TYPE" then some (.lit "text/plain")
    else none
  fcgiStdin := ascii "abc"
  stdin := []

theorem shortText_posted (script : Option Unit) :
    Posted (scriptHost script) shortText 5 ⟨.plain, none, []⟩ where
  encoded := by
    change (setMetaVars plainHost.purc shortText.environ).isSome = true
    decide +kernel
  method := ⟨.lit "POST", by decide +kernel, by decide⟩
  length := by
    refine ⟨.lit "5", by decide +kernel, ?_⟩
    change 5 = castToUint32 0 _
    decide +kernel
  positive := by decide
  contentType := by
    refine ⟨.lit "text/plain", by decide +kernel, ?_⟩
    change checkPostContentType purcScanners _ = _
    decide +kernel
  supported := rfl

theorem shortText_fails (script : Option Unit) :
    DecoderFails (scriptHost script) shortText 5 ⟨.plain, none, []⟩ := by
  rfl

theorem shortText_refused_iff :
    AnsweredBadRequest (makeRequest (scriptHost none) shortText) ↔
      (∀ cookie, shortText.environ (.lit "HTTP_COOKIE") = some cookie →
        (purcMakeObjectFromHttpHeaderValue (scriptHost none).purc cookie).isSome = true) ∧
      (scriptHost none).loadHvmlFromFile (shortText.environ (.lit "SCRIPT_FILENAME")) = none :=
  undecoded_refused_iff (shortText_posted none) (shortText_fails none)

theorem shortText_executed :
    Posted (scriptHost (some ())) shortText 5 ⟨.plain, none, []⟩ ∧
      DecoderFails (scriptHost (some ())) shortText 5 ⟨.plain, none, []⟩ ∧
      ¬ AnsweredBadRequest (makeRequest (scriptHost (some ())) shortText) := by
  refine ⟨shortText_posted _, shortText_fails _, ?_⟩
  intro answered
  obtain ⟨req, refused, -⟩ := answered.refused
  have made : (makeRequest (scriptHost (some ())) shortText).result?.isSome = true := by
    decide +kernel
  simp [refused, Outcome.result?] at made

end HvmlFpm.Worker
