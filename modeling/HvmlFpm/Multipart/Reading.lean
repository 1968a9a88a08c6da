import HvmlFpm.Multipart.Callbacks

/-!
# Reading the body

`parse_content_as_multipart_form_data` feeds the body in reads of 256 bytes. What it hands back is what
the processor holds behind the last read that the parser took, refused or not.
-/

namespace HvmlFpm.Multipart
open Library

def reads (stdin : Bytes) : List Bytes :=
  if _full : (stdin.take 256).length < 256 then [stdin.take 256]
  else stdin.take 256 :: reads (stdin.drop 256)
termination_by stdin.length
decreasing_by
  simp only [List.length_take, List.length_drop] at _full ⊢
  omega

theorem take_short {stdin : Bytes} (short : (stdin.take 256).length < 256) : stdin.take 256 = stdin := by
  apply List.take_of_length_le
  rw [List.length_take] at short
  omega

theorem flatten_reads (stdin : Bytes) : (reads stdin).flatten = stdin := by
  induction stdin using reads.induct with
  | case1 stdin short =>
      have whole := take_short short
      rw [reads, dif_pos short]
      simp [whole]
  | case2 stdin full ih =>
      rw [reads, dif_neg full, List.flatten_cons, ih, List.take_append_drop]

theorem reads_short {stdin : Bytes} (short : stdin.length < 256) : reads stdin = [stdin] := by
  have whole : stdin.take 256 = stdin := List.take_of_length_le (by omega)
  rw [reads, whole, dif_pos short]

variable (host : Host)

theorem readBody_follows (p : Parser) (s : Session) (nrBytes : Nat) (stdin : Bytes) :
    (executeChunks (settings host) (reads stdin) (p, s)).All
      (fun r => readBody host p s nrBytes stdin = .ok ⟨false, r.1, r.2, nrBytes + stdin.length⟩)
      (fun left => ∃ q m, readBody host p s nrBytes stdin = .ok ⟨true, q, left, m⟩ ∧
        m < nrBytes + stdin.length)
      (fun why left => readBody host p s nrBytes stdin = .stop why left) := by
  induction stdin using reads.induct generalizing p s nrBytes with
  | case1 stdin short =>
      have whole := take_short short
      rw [reads, dif_pos short, readBody, whole]
      simp only [executeChunks, Outcome.sequence_singleton]
      cases multipartParserExecute (settings host) p stdin s with
      | stopped why left => rfl
      | returned consumed q left =>
          simp only [Executed.outcome]
          rw [whole] at short
          by_cases refused : consumed < stdin.length
          · simp only [refused, if_true]
            exact ⟨q, nrBytes, rfl, by omega⟩
          · simp only [refused, if_false, short, dif_pos]
            rfl
  | case2 stdin full ih =>
      have split : stdin.length = (stdin.take 256).length + (stdin.drop 256).length := by
        rw [← List.length_append, List.take_append_drop]
      rw [reads, dif_neg full, readBody]
      simp only [executeChunks, Outcome.sequence_cons]
      cases multipartParserExecute (settings host) p (stdin.take 256) s with
      | stopped why left => rfl
      | returned consumed q left =>
          simp only [Executed.outcome]
          by_cases refused : consumed < (stdin.take 256).length
          · simp only [refused, if_true, Outcome.fail_bind]
            exact ⟨q, nrBytes, rfl, by omega⟩
          · simp only [refused, if_false, full, dif_neg, not_false_eq_true, Outcome.ok_bind]
            have rest := ih q left (nrBytes + (stdin.take 256).length)
            rw [Nat.add_assoc, ← split] at rest
            exact rest

theorem readBody_refused (p : Parser) (s : Session) (nrBytes : Nat) (stdin : Bytes) :
    (readBody host p s nrBytes stdin).result?.map BodyRead.refused =
      (executeChunks (settings host) (reads stdin) (p, s)).failed? := by
  have follows := readBody_follows host p s nrBytes stdin
  cases run : executeChunks (settings host) (reads stdin) (p, s) with
  | ok r =>
      rw [run] at follows
      rw [show readBody host p s nrBytes stdin = _ from follows]
      rfl
  | fail t =>
      rw [run] at follows
      obtain ⟨q, m, read, -⟩ := follows
      rw [read]
      rfl
  | stop why t =>
      rw [run] at follows
      rw [show readBody host p s nrBytes stdin = _ from follows]
      rfl

def withoutTmpName : Variant → Variant
  | .object file => .object fun key => if key = .lit "tmp_name" then none else file key
  | v => v

def Decoded.Of (decoded : Decoded) (s : Session) : Prop :=
  decoded.post = s.post ∧ decoded.files = s.files ∧ decoded.disk = s.disk

theorem parse_follows (contentLength : Nat) (boundary : CString) (stdin : Bytes) :
    (executeChunks (settings host) (reads stdin) (multipartParserInit boundary, .init)).All
      (fun r => ∃ decoded, decoded.Of r.2 ∧
        parseContentAsMultipartFormData host contentLength boundary stdin = .ok decoded)
      (fun left => ∃ decoded, decoded.Of left ∧
        parseContentAsMultipartFormData host contentLength boundary stdin = .ok decoded)
      (fun why left => parseContentAsMultipartFormData host contentLength boundary stdin = .stop why left) := by
  apply (readBody_follows host (multipartParserInit boundary) .init 0 stdin).mono
  · intro r read
    rw [parseContentAsMultipartFormData, read, Outcome.ok_bind, mpartBodyProcessorRelease_ok,
      Outcome.ok_map]
    exact ⟨_, ⟨rfl, rfl, rfl⟩, rfl⟩
  · rintro left ⟨q, m, read, -⟩
    rw [parseContentAsMultipartFormData, read, Outcome.ok_bind, mpartBodyProcessorRelease_ok,
      Outcome.ok_map]
    exact ⟨_, ⟨rfl, rfl, rfl⟩, rfl⟩
  · intro why left read
    rw [parseContentAsMultipartFormData, read, Outcome.stop_bind]

variable {host} {contentLength : Nat} {boundary : CString} {stdin : Bytes}

theorem parse_returns
    (goes_on : (executeChunks (settings host) (reads stdin) (multipartParserInit boundary, .init)).stopped? = none) :
    ∃ decoded, parseContentAsMultipartFormData host contentLength boundary stdin = .ok decoded := by
  have follows := parse_follows host contentLength boundary stdin
  cases run : executeChunks (settings host) (reads stdin) (multipartParserInit boundary, .init) with
  | ok r =>
      rw [run] at follows
      obtain ⟨decoded, -, parsed⟩ := follows
      exact ⟨decoded, parsed⟩
  | fail s =>
      rw [run] at follows
      obtain ⟨decoded, -, parsed⟩ := follows
      exact ⟨decoded, parsed⟩
  | stop why s =>
      rw [run] at goes_on
      cases goes_on

theorem parse_all {P : Members → Members → List TempFile → Prop} {decoded : Decoded}
    (law : (executeChunks (settings host) (reads stdin) (multipartParserInit boundary, .init)).All
      (fun r => P r.2.post r.2.files r.2.disk) (fun s => P s.post s.files s.disk) (fun _ _ => True))
    (parsed : parseContentAsMultipartFormData host contentLength boundary stdin = .ok decoded) :
    P decoded.post decoded.files decoded.disk := by
  have follows := parse_follows host contentLength boundary stdin
  cases run : executeChunks (settings host) (reads stdin) (multipartParserInit boundary, .init) with
  | ok r =>
      rw [run] at law follows
      obtain ⟨decoded', ⟨post, files, disk⟩, parsed'⟩ := follows
      obtain rfl := Outcome.ok.inj (parsed.symm.trans parsed')
      rw [post, files, disk]
      exact law
  | fail s =>
      rw [run] at law follows
      obtain ⟨decoded', ⟨post, files, disk⟩, parsed'⟩ := follows
      obtain rfl := Outcome.ok.inj (parsed.symm.trans parsed')
      rw [post, files, disk]
      exact law
  | stop why s =>
      rw [run] at follows
      cases parsed.symm.trans follows

end HvmlFpm.Multipart
