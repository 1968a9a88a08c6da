import HvmlFpm.Multipart.Sizes

/-!
# Strings that become variants

`headers_complete_cb` and `part_data_end_cb` make variants of what the body says, and hand them to PurC
without looking at them.
-/

namespace HvmlFpm.Multipart
open Library

def uploadFile (s : Session) : Option (Kvlist × CString × CString) :=
  (fileHeader s).result?.bind fun s => s.headers.bind fun headers =>
    (kvlistGet headers (.lit "Content-Disposition")).bind fun contentDisposition =>
      if strStartsWith contentDisposition (.lit "form-data;") then
        (attrsMapParse .init (contentDisposition.drop 10)).bind fun attrs =>
          (kvlistGet attrs (.lit "name")).bind fun name =>
            (kvlistGet attrs (.lit "filename")).map fun filename => (headers, name, strSanitize filename)
      else none

def uploadStrings (host : Host) (s : Session) : List CString :=
  match uploadFile s, host.mkstemp s.disk.length with
  | some (headers, _, filename), some path =>
      if host.fdopen s.disk.length then
        match kvlistGet headers (.lit "Content-Type") with
        | some contentType => [filename, contentType, path]
        | none => []
      else []
  | _, _ => []

def handedStrings (host : Host) : Call → Session → List CString
  | .headersComplete, s => uploadStrings host s
  | .partDataEnd, s =>
      match s.name, s.fp, s.data with
      | some _, none, some data => [data]
      | _, _, _ => []
  | _, _ => []

section Calls
variable {host : Host}

theorem setByCkey_none_iff {purc : Purc} (requires : purc.abortsOnInvalid = true) (key s : CString) (obj : Members) :
    purc.setByCkey key (purc.makeString s) obj = none ↔ purc.isUtf8 s = false := by
  unfold Purc.setByCkey Purc.makeString
  cases purc.isUtf8 s <;> simp [requires]

theorem fileObject_none_iff {purc : Purc} (requires : purc.abortsOnInvalid = true)
    (filename contentType path : CString) :
    fileObject purc filename contentType path = none ↔
      ∃ str ∈ [filename, contentType, path], purc.isUtf8 str = false := by
  have set (key s : CString) (obj : Members) := setByCkey_none_iff requires key s obj
  rw [fileObject]
  cases first : purc.setByCkey (.lit "name") (purc.makeString filename) .empty with
  | none => simp [(set _ _ _).1 first]
  | some named =>
      have filenameFine : purc.isUtf8 filename ≠ false := by
        rw [ne_eq, ← set (.lit "name") filename .empty, first]
        simp
      rw [Option.bind_some]
      cases second : purc.setByCkey (.lit "type") (purc.makeString contentType) named with
      | none => simp [(set _ _ _).1 second]
      | some typed =>
          have typeFine : purc.isUtf8 contentType ≠ false := by
            rw [ne_eq, ← set (.lit "type") contentType named, second]
            simp
          rw [Option.bind_some, set]
          simp [filenameFine, typeFine]

theorem headersCompleteCb_shape (host : Host) (s : Session) :
    (∃ headers name filename t, uploadFile s = some (headers, name, filename) ∧ HeaderFrame s t ∧
      headersCompleteCb host s =
        (openUpload host headers name filename t).bind fun u => headersMapDelete { u with name := some name }) ∨
    uploadFile s = none ∧
      (headersCompleteCb host s).All (fun _ => True) (fun _ => True) (fun why _ => why ≠ .invalidVariant) := by
  have filed := fileHeader_spec s
  unfold headersCompleteCb uploadFile
  cases filing : fileHeader s with
  | fail t => rw [filing] at filed; exact filed.elim
  | stop why t =>
      rw [filing] at filed
      obtain rfl : why = .nullDereference := filed
      exact .inr ⟨rfl, by simp [Outcome.All]⟩
  | ok t =>
      rw [filing] at filed
      simp only [Outcome.ok_bind, Outcome.result?, Option.bind_some]
      cases headers : t.headers with
      | none => exact .inr ⟨rfl, by simp [Outcome.All]⟩
      | some map =>
          simp only [Option.bind_some]
          cases disposition : kvlistGet map (.lit "Content-Disposition") with
          | none => exact .inr ⟨rfl, trivial⟩
          | some contentDisposition =>
              simp only [Option.bind_some]
              split_ifs
              · cases attributes : attrsMapParse .init (contentDisposition.drop 10) with
                | none => exact .inr ⟨rfl, by simp [Outcome.All]⟩
                | some attrs =>
                    simp only [Option.bind_some]
                    cases named : kvlistGet attrs (.lit "name") with
                    | none => exact .inr ⟨rfl, trivial⟩
                    | some name =>
                        simp only [Option.bind_some]
                        cases upload : kvlistGet attrs (.lit "filename") with
                        | none =>
                            refine .inr ⟨rfl, ?_⟩
                            simp only [Outcome.ok_bind, headersMapDelete, Option.isNone_some, Bool.false_eq_true, if_false]
                            trivial
                        | some filename =>
                            exact .inl ⟨map, name, strSanitize filename, t, rfl, filed, rfl⟩
              · exact .inr ⟨rfl, trivial⟩

theorem openUpload_stops (requires : host.purc.abortsOnInvalid = true) (headers : Kvlist) (name filename : CString)
    (t : Session) : (openUpload host headers name filename t).stopped? = some .invalidVariant ↔
      ∃ path contentType, host.mkstemp t.disk.length = some path ∧ host.fdopen t.disk.length = true ∧
        kvlistGet headers (.lit "Content-Type") = some contentType ∧
        ∃ str ∈ [filename, contentType, path], host.purc.isUtf8 str = false := by
  unfold openUpload
  cases made : host.mkstemp t.disk.length with
  | none => simp [Outcome.stopped?]
  | some path =>
      simp only
      cases opened : host.fdopen t.disk.length with
      | false => simp [Outcome.stopped?]
      | true =>
          simp only [Bool.not_true, Bool.false_eq_true, if_false]
          cases typed : kvlistGet headers (.lit "Content-Type") with
          | none => simp [Outcome.stopped?]
          | some contentType =>
              have invalid := fileObject_none_iff requires filename contentType path
              simp only
              cases object : fileObject host.purc filename contentType path with
              | none => simpa [Outcome.stopped?] using invalid.1 object
              | some file =>
                  have fine : ¬ ∃ str ∈ [filename, contentType, path], host.purc.isUtf8 str = false := by
                    rw [← invalid, object]
                    simp
                  simpa [Outcome.stopped?] using fine

theorem stopped_ne_of_all {x : Step}
    (all : x.All (fun _ => True) (fun _ => True) (fun why _ => why ≠ .invalidVariant)) :
    x.stopped? ≠ some .invalidVariant := by
  cases x with
  | ok t => simp [Outcome.stopped?]
  | fail t => simp [Outcome.stopped?]
  | stop why t => exact fun same => all (Option.some.inj same)

theorem headersComplete_stops (requires : host.purc.abortsOnInvalid = true) (s : Session) :
    (headersCompleteCb host s).stopped? = some .invalidVariant ↔
      ∃ str ∈ uploadStrings host s, host.purc.isUtf8 str = false := by
  rcases headersCompleteCb_shape host s with ⟨headers, name, filename, t, found, frame, shape⟩ | ⟨found, quiet⟩
  · have stops := openUpload_stops requires headers name filename t
    have deletes (u : Session) : (headersMapDelete u).stopped? ≠ some .invalidVariant := by
      rw [headersMapDelete]
      split_ifs <;> simp [Outcome.stopped?]
    have same : (headersCompleteCb host s).stopped? = some .invalidVariant ↔
        (openUpload host headers name filename t).stopped? = some .invalidVariant := by
      rw [shape]
      cases openUpload host headers name filename t with
      | ok u => exact iff_of_false (deletes _) (by simp [Outcome.stopped?])
      | fail left => rfl
      | stop why left => rfl
    rw [same, stops, uploadStrings, found, frame.disk]
    cases made : host.mkstemp s.disk.length with
    | none => simp
    | some path =>
        cases opened : host.fdopen s.disk.length with
        | false => simp
        | true => cases typed : kvlistGet headers (.lit "Content-Type") <;> simp [typed]
  · rw [uploadStrings, found]
    exact iff_of_false (stopped_ne_of_all quiet) (by simp)

theorem partDataEnd_stops (requires : host.purc.abortsOnInvalid = true) (s : Session) :
    (partDataEndCb host s).stopped? = some .invalidVariant ↔
      ∃ str ∈ handedStrings host .partDataEnd s, host.purc.isUtf8 str = false := by
  unfold partDataEndCb handedStrings
  cases named : s.name with
  | none => simp [Outcome.stopped?, named]
  | some name =>
      cases upload : s.fp with
      | some fd =>
          simp only
          cases s.files name <;> simp [Outcome.stopped?, named, upload]
      | none =>
          cases text : s.data with
          | none => simp [Outcome.stopped?, named, upload, text]
          | some data =>
              have invalid := setByCkey_none_iff requires name data s.post
              simp only
              cases set : host.purc.setByCkey name (host.purc.makeString data) s.post with
              | none => simpa [Outcome.stopped?, named, upload, text] using invalid.1 set
              | some post =>
                  have fine : ¬ host.purc.isUtf8 data = false := by
                    rw [← invalid, set]
                    simp
                  simpa [Outcome.stopped?, named, upload, text] using fine

theorem call_stops (requires : host.purc.abortsOnInvalid = true) (k : Call) (s : Session) :
    ((settings host).call k s).stopped? = some .invalidVariant ↔
      ∃ str ∈ handedStrings host k s, host.purc.isUtf8 str = false := by
  cases k with
  | headersComplete => exact headersComplete_stops requires s
  | partDataEnd => exact partDataEnd_stops requires s
  | headerField run =>
      refine iff_of_false (stopped_ne_of_all ?_) (by simp [handedStrings])
      exact (headerFieldCb_spec run s).mono (fun _ _ => trivial) (fun _ _ => trivial) (by rintro _ _ rfl; simp)
  | headerValue run =>
      refine iff_of_false (stopped_ne_of_all ?_) (by simp [handedStrings])
      exact (headerValueCb_spec run s).mono (fun _ _ => trivial) (fun _ _ => trivial) (fun _ _ never => never.elim)
  | partData run =>
      refine iff_of_false (stopped_ne_of_all ?_) (by simp [handedStrings])
      change (partDataCb host run s).All _ _ _
      unfold partDataCb
      split_ifs
      · simp [Outcome.All]
      · split
        · simp only
          split_ifs <;> trivial
        · trivial
        · trivial
  | partDataBegin =>
      refine iff_of_false (stopped_ne_of_all ?_) (by simp [handedStrings])
      change (headersMapNew s).All _ _ _
      unfold headersMapNew
      split_ifs
      · simp [Outcome.All]
      · trivial
  | bodyEnd =>
      refine iff_of_false (stopped_ne_of_all ?_) (by simp [handedStrings])
      trivial

end Calls

section Run
variable {host : Host} {boundary : CString} {chunks : List Bytes}

/-- No call of the run hands an invalid variant to PurC, and a call that would make one fails instead. -/
structure UsesValidVariants (host : Host) (boundary : CString) (chunks : List Bytes) : Prop where
  valid : (executeChunks (settings host) chunks (multipartParserInit boundary, .init)).stopped? ≠ some .invalidVariant
  refused : ∀ e ∈ (tracedRun host boundary chunks).log, ∀ str ∈ handedStrings host e.1 e.2,
    host.purc.isUtf8 str = false → ∃ left, (settings host).call e.1 e.2 = .fail left

theorem run_stops (requires : host.purc.abortsOnInvalid = true) (boundary : CString) (chunks : List Bytes) :
    (executeChunks (settings host) chunks (multipartParserInit boundary, .init)).All (fun _ => True) (fun _ => True)
      (fun why _ => why = .invalidVariant → ∃ e ∈ (tracedRun host boundary chunks).log,
        ∃ str ∈ handedStrings host e.1 e.2, host.purc.isUtf8 str = false) := by
  have recorded (stage stage' : Stage) (k : Call) (t : Traced Session) (_ : stage.next k = some stage') (_ : True) :
      ((traced (settings host)).call k t).All (fun _ => True) (fun _ => True)
        (fun why t => why = .invalidVariant → ∃ e ∈ t.log,
          ∃ str ∈ handedStrings host e.1 e.2, host.purc.isUtf8 str = false) := by
    apply traced_all (I := fun _ => True) (J := fun _ => True)
      (K := fun why _ => why = .invalidVariant → ((settings host).call k t.state).stopped? = some .invalidVariant)
    · cases (settings host).call k t.state with
      | ok s => trivial
      | fail s => trivial
      | stop why s =>
          rintro rfl
          rfl
    · exact fun _ _ => trivial
    · exact fun _ _ => trivial
    · intro why s stops invalid
      exact ⟨(k, t.state), by simp [Traced.record], (call_stops requires k t.state).1 (stops invalid)⟩
  have run := executeChunks_rule (J := fun _ _ => True) recorded (fun _ _ _ => trivial) (fun _ _ _ => by simp)
    boundary chunks (s := .start .init) trivial
  exact tracedRun_all (I := fun _ _ => True) (J := fun _ => True) (run.mono (fun _ _ => trivial) (fun _ _ => trivial)
    fun _ _ stops => stops)

theorem usesValidVariants_iff (host : Host) (requires : host.purc.abortsOnInvalid = true) (boundary : CString)
    (chunks : List Bytes) :
    UsesValidVariants host boundary chunks ↔ ∀ e ∈ (tracedRun host boundary chunks).log,
      ∀ str ∈ handedStrings host e.1 e.2, host.purc.isUtf8 str = true := by
  constructor
  · intro uses e member str handed
    by_contra invalid
    rw [Bool.not_eq_true] at invalid
    obtain ⟨left, fails⟩ := uses.refused e member str handed invalid
    have stops := (call_stops requires e.1 e.2).2 ⟨str, handed, invalid⟩
    rw [fails] at stops
    cases stops
  · intro encoded
    refine ⟨?_, ?_⟩
    · intro stops
      have law := run_stops requires boundary chunks
      cases run : executeChunks (settings host) chunks (multipartParserInit boundary, .init) with
      | ok r =>
          rw [run] at stops
          cases stops
      | fail left =>
          rw [run] at stops
          cases stops
      | stop why left =>
          rw [run] at stops law
          obtain ⟨e, member, str, handed, invalid⟩ := law (Option.some.inj stops)
          simp [encoded e member str handed] at invalid
    · intro e member str handed invalid
      simp [encoded e member str handed] at invalid

end Run

/-! A text that is not ASCII, on a host that takes ASCII only. -/

def asciiHost : Host :=
  { plainHost with purc := { isUtf8 := fun s => s.bytes.all (· < 128), abortsOnInvalid := true } }

def textField (text : Bytes) : Bytes :=
  ascii "--b\r\nContent-Disposition: form-data; name=f\r\n\r\n" ++ text ++ ascii "\r\n--b--\r\n"

theorem asciiText_usesValidVariants_iff :
    UsesValidVariants asciiHost (.lit "--b") [textField (ascii "abc")] ↔
      ∀ e ∈ (tracedRun asciiHost (.lit "--b") [textField (ascii "abc")]).log,
        ∀ str ∈ handedStrings asciiHost e.1 e.2, asciiHost.purc.isUtf8 str = true :=
  usesValidVariants_iff asciiHost rfl (.lit "--b") [textField (ascii "abc")]

theorem byte255_handed_invalid : ¬ UsesValidVariants asciiHost (.lit "--b") [textField [255]] := by
  intro uses
  exact uses.valid (by decide +kernel)

end HvmlFpm.Multipart
