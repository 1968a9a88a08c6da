import HvmlFpm.Worker.BadBody

/-!
# Where a body is read from

`hvml-executor.c` reads the stream that `FCGI_Accept` has set up. `mpart-body-processor.c` does not include
`fcgi_stdio.h`, so that its `stdin` is that of the C library.
-/

namespace HvmlFpm.Worker
open Library Multipart Request
variable {Vdom : Type}

def tmpNamesAside : Variant → Variant
  | .object files => .object fun name => (files name).map withoutTmpName
  | v => v

def SameBody (req req' : Draft Vdom) : Prop :=
  req.info.post = req'.info.post ∧ req.info.files.map tmpNamesAside = req'.info.files.map tmpNamesAside

def handedToParser (host : Host) (p : Parser) (s : Session) (stdin : Bytes) : Bytes :=
  stdin.take 256 ++
    match multipartParserExecute (settings host) p (stdin.take 256) s with
    | .stopped _ _ => []
    | .returned consumed p s =>
        if consumed < (stdin.take 256).length then []
        else if _full : (stdin.take 256).length < 256 then []
        else handedToParser host p s (stdin.drop 256)
termination_by stdin.length
decreasing_by
  simp only [List.length_take, List.length_drop] at _full ⊢
  omega

def handedToDecoder (host : RequestHost Vdom) (input : Input) (contentLength : Nat) (checked : Checked) : Bytes :=
  match checked.ct with
  | .formUrlencoded | .xml | .plain => (readContent host contentLength input.fcgiStdin).elim [] CString.bytes
  | .json => if host.rwstreamNewForRead then input.fcgiStdin else []
  | .formData =>
      checked.boundary.elim [] fun boundary =>
        handedToParser host.toHost (multipartParserInit boundary) .init input.stdin
  | .bad | .notSupported => []

/-- Whatever the standard input of the C library holds, the request is the same, and its decoder gets what
stands in front of the request's own input. -/
structure ReadsOwnInput (host : RequestHost Vdom) (input : Input) : Prop where
  same : ∀ stdin stdin', Outcome.Rel SameBody SameBody (makeRequest host { input with stdin })
    (makeRequest host { input with stdin := stdin' })
  inOrder : ∀ stdin contentLength checked, Posted host { input with stdin } contentLength checked →
    handedToDecoder host { input with stdin } contentLength checked <+: input.fcgiStdin

def DecodesFormData (host : RequestHost Vdom) (input : Input) : Prop :=
  ∃ contentLength checked, Posted host input contentLength checked ∧ checked.ct = .formData ∧ checked.boundary.isSome = true

section Request
variable {host : RequestHost Vdom} {input : Input} {contentLength : Nat} {checked : Checked}

theorem Posted.anyInput (posted : Posted host input contentLength checked) (stdin : Bytes) :
    Posted host { input with stdin } contentLength checked :=
  ⟨posted.encoded, posted.method, posted.length, posted.positive, posted.contentType, posted.supported⟩

theorem decodeBody_anyInput (other : ¬ (checked.ct = .formData ∧ checked.boundary.isSome = true)) (stdin : Bytes)
    (req : Draft Vdom) :
    decodeBody host { input with stdin } contentLength checked req = decodeBody host input contentLength checked req := by
  rw [decodeBody, decodeBody]
  cases ct : checked.ct with
  | formData =>
      cases boundary : checked.boundary with
      | none => rfl
      | some x => exact absurd ⟨ct, by rw [boundary]; rfl⟩ other
  | bad => rfl
  | notSupported => rfl
  | formUrlencoded => rfl
  | json => rfl
  | xml => rfl
  | plain => rfl

theorem readMethod_unposted {server : Members} (set : setMetaVars host.purc input.environ = some server)
    (unposted : ∀ contentLength checked, ¬ Posted host input contentLength checked) (req : Draft Vdom) :
    (∀ stdin, readMethod host { input with stdin } server req = readMethod host input server req) ∧
      (readMethod host input server req).All (fun read => read.printed = req.printed) (fun _ => True) fun _ _ => True := by
  have methodHeld := getStringConst_metaVar set (show (CString.lit "REQUEST_METHOD", _) ∈ metaVars by decide +kernel)
  have typeHeld := getStringConst_metaVar set (show (CString.lit "CONTENT_TYPE", _) ∈ metaVars by decide +kernel)
  have lengthHeld := setMetaVars_get set (show (CString.lit "CONTENT_LENGTH", .ulong) ∈ metaVars by decide +kernel)
  simp only [readMethod, methodHeld]
  cases method : input.environ (.lit "REQUEST_METHOD") with
  | none => exact ⟨fun _ => rfl, trivial⟩
  | some text =>
      simp only
      by_cases isGet : text.bytes.map toLower = ascii "get"
      · rw [if_pos isGet]
        refine ⟨fun _ => if_pos isGet, ?_⟩
        rw [readGet]
        split
        · rfl
        · split
          · rfl
          · trivial
      simp only [isGet, if_false]
      by_cases isPost : text.bytes.map toLower = ascii "post"
      · simp only [isPost, if_true, readPost]
        by_cases positive : 0 < castToUint32 host.uninitialised (server (.lit "CONTENT_LENGTH"))
        · simp only [positive, if_true, typeHeld]
          cases type : input.environ (.lit "CONTENT_TYPE") with
          | none => exact ⟨fun _ => rfl, rfl⟩
          | some contentType =>
              simp only
              cases check : checkPostContentType host.pcutils contentType with
              | none => exact ⟨fun _ => rfl, trivial⟩
              | some checked =>
                  simp only
                  by_cases refused : checked.ct.refused = true
                  · simp only [refused, if_true]
                    exact ⟨fun _ => trivial, trivial⟩
                  · refine absurd ⟨?_, ⟨text, method, isPost⟩, ?_, positive, ⟨contentType, type, check⟩, ?_⟩
                      (unposted _ checked)
                    · rw [set]
                      rfl
                    · cases length : input.environ (.lit "CONTENT_LENGTH") with
                      | none =>
                          -- A length that is not set is 0.
                          rw [lengthHeld, metaVarValue, length] at positive
                          exact absurd positive (by simp [castToUint32])
                      | some text => exact ⟨text, rfl, by rw [lengthHeld, metaVarValue, length]⟩
                    · exact Bool.eq_false_iff.2 refused
        · simp only [positive, if_false]
          exact ⟨fun _ => trivial, rfl⟩
      · simp only [isPost, if_false]
        exact ⟨fun _ => trivial, rfl⟩

theorem makeRequest_anyInput (other : ¬ DecodesFormData host input) (stdin : Bytes) :
    makeRequest host { input with stdin } = makeRequest host input := by
  by_cases called : ∃ contentLength checked, Posted host input contentLength checked
  · obtain ⟨contentLength, checked, posted⟩ := called
    obtain ⟨server, set, phases⟩ := makeRequest_posted posted
    obtain ⟨server', set', phases'⟩ := makeRequest_posted (posted.anyInput stdin)
    obtain rfl := Option.some.inj (set.symm.trans set')
    rw [phases, phases', decodeBody_anyInput]
    rintro ⟨formData, boundary⟩
    exact other ⟨contentLength, checked, posted, formData, boundary⟩
  · rw [makeRequest, makeRequest]
    cases set : setMetaVars host.purc input.environ with
    | none => rfl
    | some server =>
        have unposted : ∀ contentLength checked, ¬ Posted host input contentLength checked := by
          intro contentLength checked posted
          exact called ⟨contentLength, checked, posted⟩
        simp only [(readMethod_unposted set unposted _).1 stdin]

theorem readContent_some {content : CString} (read : readContent host contentLength input.fcgiStdin = some content) :
    content.bytes <+: input.fcgiStdin := by
  rw [readContent] at read
  dsimp only at read
  split at read
  · split at read
    · rw [← Option.some.inj read, CString.bytes_ofBuffer]
      exact (List.takeWhile_prefix _).trans (List.take_prefix _ _)
    · cases read
  · cases read

theorem readContent_prefix : (readContent host contentLength input.fcgiStdin).elim [] CString.bytes <+: input.fcgiStdin := by
  cases read : readContent host contentLength input.fcgiStdin with
  | none => exact List.nil_prefix
  | some content => exact readContent_some read

theorem handedToDecoder_prefix (other : ¬ (checked.ct = .formData ∧ checked.boundary.isSome = true)) :
    handedToDecoder host input contentLength checked <+: input.fcgiStdin := by
  rw [handedToDecoder]
  cases ct : checked.ct with
  | formData =>
      cases boundary : checked.boundary with
      | none => exact List.nil_prefix
      | some x => exact absurd ⟨ct, by rw [boundary]; rfl⟩ other
  | json =>
      simp only
      split_ifs
      · exact List.prefix_refl _
      · exact List.nil_prefix
  | bad => exact List.nil_prefix
  | notSupported => exact List.nil_prefix
  | formUrlencoded => exact readContent_prefix
  | xml => exact readContent_prefix
  | plain => exact readContent_prefix

theorem foreign_byte (stream : Bytes) : ∃ c, ¬ [c] <+: stream := by
  cases stream with
  | nil => exact ⟨0, by simp⟩
  | cons d stream =>
      refine ⟨d + 1, ?_⟩
      rw [List.cons_prefix_cons]
      intro same
      have next := same.1
      grind

theorem first_handed (host : Host) (p : Parser) (s : Session) (c : UInt8) : [c] <+: handedToParser host p s [c] := by
  rw [handedToParser]
  exact List.prefix_append _ _

theorem readsOwnInput_iff (host : RequestHost Vdom) (input : Input) :
    ReadsOwnInput host input ↔ ¬ DecodesFormData host input := by
  constructor
  · rintro reads ⟨contentLength, checked, posted, formData, boundary⟩
    obtain ⟨x, found⟩ := Option.isSome_iff_exists.1 boundary
    obtain ⟨c, foreign⟩ := foreign_byte input.fcgiStdin
    have handed := reads.inOrder [c] contentLength checked (posted.anyInput [c])
    rw [handedToDecoder, formData, found] at handed
    exact foreign ((first_handed host.toHost _ _ c).trans handed)
  · intro other
    constructor
    · intro stdin stdin'
      rw [makeRequest_anyInput other stdin, makeRequest_anyInput other stdin']
      exact Outcome.Rel.refl (fun req => ⟨rfl, rfl⟩) (fun req => ⟨rfl, rfl⟩) _
    · intro stdin contentLength checked posted
      apply handedToDecoder_prefix
      rintro ⟨formData, boundary⟩
      exact other ⟨contentLength, checked, posted.anyInput input.stdin, formData, boundary⟩

end Request

def form : Input where
  environ name :=
    if name = .lit "REQUEST_METHOD" then some (.lit "POST")
    else if name = .lit "CONTENT_LENGTH" then some (.lit "52")
    else if name = .lit "CONTENT_TYPE" then some (.lit "multipart/form-data; boundary=X")
    else none
  fcgiStdin := ascii "X\r\nContent-Disposition: form-data; name=a\r\n\r\nhi\r\nX--"
  stdin := []

def fieldMade (made : Making Vdom) : Option Bool :=
  made.result?.bind fun req => req.info.post.map fun v => (v.member (.lit "a")).isSome

theorem fieldMade_same {made made' : Making Vdom} (same : Outcome.Rel SameBody SameBody made made') :
    fieldMade made = fieldMade made' := by
  cases same with
  | ok bodies => exact congrArg (Option.map fun v : Variant => (v.member (.lit "a")).isSome) bodies.1
  | fail => rfl
  | stop => rfl

theorem form_not_readsOwnInput :
    fieldMade (makeRequest (scriptHost (some ())) form) = some false ∧
      fieldMade (makeRequest (scriptHost (some ())) { form with stdin := form.fcgiStdin }) = some true ∧
      ¬ ReadsOwnInput (scriptHost (some ())) form := by
  have lost : fieldMade (makeRequest (scriptHost (some ())) form) = some false := by decide +kernel
  have kept : fieldMade (makeRequest (scriptHost (some ())) { form with stdin := form.fcgiStdin }) = some true := by
    decide +kernel
  refine ⟨lost, kept, ?_⟩
  intro reads
  have same := fieldMade_same (reads.same [] form.fcgiStdin)
  rw [kept] at same
  exact absurd (lost.symm.trans same) (by decide)

end HvmlFpm.Worker
