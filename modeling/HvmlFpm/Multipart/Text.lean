import HvmlFpm.Multipart.Sizes
import HvmlFpm.Multipart.Upload

/-!
# The content of a text field

The value of a field is put together from the runs that the parser reports, each taken as a C string.
-/

namespace HvmlFpm.Multipart
open Library

structure OpenText (name : CString) (runs : List Bytes) (s : Session) : Prop where
  named : s.name = some name
  text : s.fp = none
  begun : runs ≠ [] → s.data.isSome = true
  kept : 0 ∉ runs.flatten → s.data.elim [] CString.bytes = runs.flatten

section Callbacks
variable (host : Host) {name : CString} {runs : List Bytes} {s : Session}

theorem bytes_of_nulFree {run : Bytes} (nulFree : 0 ∉ run) : (CString.ofBuffer run).bytes = run :=
  congrArg CString.bytes (CString.ofBuffer_bytes ⟨run, nulFree⟩)

theorem partData_text {J : Session → Prop} {K : Stop → Session → Prop} (runs : List Bytes) (run : Bytes) (s : Session)
    (open_ : OpenText name runs s) :
    ((settings host).call (.partData run) s).All (OpenText name (runs ++ [run])) J K := by
  change (partDataCb host run s).All _ _ _
  rw [partDataCb_text host run open_.named open_.text]
  refine ⟨open_.named, open_.text, fun _ => rfl, ?_⟩
  intro nulFree
  rw [List.flatten_append, List.flatten_singleton] at nulFree ⊢
  rw [List.mem_append, not_or] at nulFree
  have before := open_.kept nulFree.1
  cases data : s.data with
  | none =>
      rw [data] at before
      change (CString.ofBuffer run).bytes = _
      rw [bytes_of_nulFree nulFree.2, ← before]
      rfl
  | some content =>
      rw [data] at before
      change content.bytes ++ (CString.ofBuffer run).bytes = _
      rw [bytes_of_nulFree nulFree.2, ← before]
      rfl

theorem partDataEnd_text (open_ : OpenText name runs s) (begun : runs ≠ [])
    (valid : 0 ∉ runs.flatten → host.purc.isUtf8 (.ofBuffer runs.flatten) = true) :
    ((settings host).call .partDataEnd s).All
      (fun t => 0 ∉ runs.flatten → t.post name = some (.string (.ofBuffer runs.flatten))) (fun _ => False)
      (fun _ _ => 0 ∈ runs.flatten) := by
  obtain ⟨content, data⟩ := Option.isSome_iff_exists.1 (open_.begun begun)
  simp only [Settings.call, settings, partDataEndCb, open_.named, open_.text, data]
  by_cases nul : 0 ∈ runs.flatten
  · split
    · exact nul
    · exact fun nulFree => absurd nul nulFree
  · have whole : content = .ofBuffer runs.flatten := by
      have kept := open_.kept nul
      rw [data] at kept
      exact CString.ext (kept.trans (bytes_of_nulFree nul).symm)
    subst whole
    simp only [Purc.makeString, valid nul, if_true, Purc.setByCkey]
    exact fun _ => Members.set_same ..

theorem header_data (boundary : CString) (chunks : List Bytes) :
    (executeChunks (settings host) chunks (multipartParserInit boundary, .init)).All
      (fun r => stageOf r.1.state = .header → r.2.data = none) (fun _ => True) (fun _ _ => True) := by
  have call : ∀ (stage stage' : Stage) k s, stage.next k = some stage' → (∃ sizes, Agrees stage s ∧ Counted stage sizes s) →
      ((settings host).call k s).All (fun t => ∃ sizes, Agrees stage' t ∧ Counted stage' sizes t) (fun _ => True)
        (fun _ _ => True) := by
    rintro stage stage' k s next ⟨sizes, agrees, counted⟩
    apply ((call_agrees host next agrees).and (call_counted host next agrees counted)).mono
    · rintro t ⟨agrees, counted⟩
      exact ⟨_, agrees, counted⟩
    · exact fun _ _ => trivial
    · exact fun _ _ _ => trivial
  have run := executeChunks_rule call (fun _ _ _ => trivial) (fun _ _ _ => trivial) boundary chunks
    ⟨_, init_agrees, init_counted⟩
  apply run.mono
  · rintro r ⟨stage, fits, sizes, -, counted⟩ header
    rcases fits with rfl | ⟨rfl, data⟩
    · exact (counted.outside (by rw [header]; rfl)).1
    · simp [data, stageOf] at header
  · exact fun _ h => h
  · exact fun _ _ h => h

end Callbacks

def TextBegins (host : Host) (boundary : CString) (chunks : List Bytes) (n : Nat) (name : CString) : Prop :=
  ∃ p s opened, reached host boundary chunks n = .ok (p, s) ∧ p.state = .partDataStart ∧
    headersCompleteCb host s = .ok opened ∧ opened.fp = none ∧ opened.name = some name

def FieldKept (name : CString) (content : Bytes) (outcome : Outcome Stop Session (Parser × Session)) : Prop :=
  if 0 ∈ content then ∃ left, outcome = .fail left
  else ∃ p s, outcome = .ok (p, s) ∧ s.post name = some (.string (.ofBuffer content))

def Reading (boundary name : CString) (content : Bytes) (start : Parser × Session) (left : Bytes) (k : Config Session) :
    Prop :=
  (left = content ++ delimiter boundary ∧ k.parser = start.1 ∧ k.data = start.2) ∨
    (∃ x runs, x ++ left = content ++ delimiter boundary ∧ Scan boundary x runs k.parser k.pending ∧
      OpenText name runs k.data) ∨
    (left = [] ∧ k.parser.state = .partDataAlmostEnd ∧
      (0 ∉ content → k.data.post name = some (.string (.ofBuffer content))))

section Run
variable {host : Host} {boundary name : CString} {content : Bytes} {p : Parser} {s opened : Session}

theorem found_content {x left : Bytes} {runs : List Bytes} (found : Found boundary x runs p)
    (ends : FirstAt (delimiter boundary) (content ++ delimiter boundary) content.length)
    (split : x ++ left = content ++ delimiter boundary) : runs.flatten = content ∧ left = [] := by
  have here := found.first.append (by rw [found.split, List.length_append]) left
  rw [split] at here
  have length := here.unique ends
  rw [found.split, List.append_assoc] at split
  obtain ⟨same, rest⟩ := List.append_inj split length
  exact ⟨same, List.append_cancel_left (rest.trans (List.append_nil _).symm)⟩

theorem scans_reading {x left : Bytes} {runs : List Bytes} {fed : Fed}
    (valid : 0 ∉ content → host.purc.isUtf8 (.ofBuffer content) = true)
    (ends : FirstAt (delimiter boundary) (content ++ delimiter boundary) content.length)
    (split : x ++ left = content ++ delimiter boundary) (scans : fed.Scans boundary x runs) {t : Session}
    (open_ : OpenText name runs t) :
    (perform (settings host) fed t).All (Reading boundary name content (p, s) left) (fun _ => False)
      (fun _ _ => 0 ∈ content) := by
  have ended (q : Parser) (t : Session) (found : Found boundary x runs q) (open_ : OpenText name runs t) :
      ((settings host).call .partDataEnd t).All
        (fun t => 0 ∉ content → t.post name = some (.string (.ofBuffer content))) (fun _ => False)
        (fun _ _ => 0 ∈ content) := by
    obtain ⟨rfl, -⟩ := found_content found ends split
    exact partDataEnd_text host open_ found.begun valid
  apply (perform_scans (partData_text host) ended scans open_).mono
  · rintro k (⟨runs, scan, open_⟩ | ⟨found, stored⟩)
    · exact .inr (.inl ⟨x, runs, split, scan, open_⟩)
    · exact .inr (.inr ⟨(found_content found ends split).2, found.state, stored⟩)
  · exact fun _ h => h
  · exact fun _ _ h => h

theorem run_reading (nonempty : boundary ≠ .empty) (noCR : CR ∉ boundary.bytes) (intact : Intact boundary p)
    (state : p.state = .partDataStart) (noData : s.data = none) (complete : headersCompleteCb host s = .ok opened)
    (text : opened.fp = none) (named : opened.name = some name)
    (valid : 0 ∉ content → host.purc.isUtf8 (.ofBuffer content) = true)
    (ends : FirstAt (delimiter boundary) (content ++ delimiter boundary) content.length) {chunks : List Bytes}
    (whole : chunks.flatten = content ++ delimiter boundary) :
    (executeChunks (settings host) chunks (p, s)).All
      (fun r => Reading boundary name content (p, s) [] ⟨r.1, [], r.2⟩) (fun _ => False) (fun _ _ => 0 ∈ content) := by
  apply executeChunks_ahead (settings host) (I := Reading boundary name content (p, s)) _ _ chunks (p, s)
    (.inl ⟨whole, rfl, rfl⟩)
  · rintro c left k (⟨split, hp, hs⟩ | ⟨x, runs, split, scan, open_⟩ | ⟨nothing, -⟩)
    · obtain ⟨p', pending, s'⟩ := k
      obtain rfl : p' = p := hp
      obtain rfl : s' = s := hs
      have done := (headersCompleteCb_spec host s').of_ok complete
      have open_ : OpenText name [] opened :=
        ⟨named, text, by simp, fun _ => by rw [done.data, noData]; rfl⟩
      simp only [step, Parser.feed, state]
      rw [perform_feedPartData_cons]
      change (Outcome.bind (headersCompleteCb host s') _).All _ _ _
      rw [complete, Outcome.ok_bind]
      exact scans_reading valid ends split (start_scans intact c) open_
    · exact scans_reading valid ends (by rw [← split, List.append_assoc]; rfl) (feed_scans nonempty noCR c scan) open_
    · cases nothing
  · rintro left k (⟨split, hp, hs⟩ | ⟨x, runs, split, scan, open_⟩ | ⟨nothing, behind, stored⟩)
    · have quiet : k.parser.pendingCalls k.pending = [] := by
        simp [Parser.pendingCalls, hp, state]
      rw [flush, quiet]
      exact .inl ⟨split, hp, hs⟩
    · apply (flush_scan (partData_text host) scan open_).mono
      · rintro r ⟨runs, scan, open_⟩
        exact .inr (.inl ⟨x, runs, split, scan, open_⟩)
      · exact fun _ h => h
      · exact fun _ _ h => h
    · have quiet : k.parser.pendingCalls k.pending = [] := by
        simp [Parser.pendingCalls, behind]
      rw [flush, quiet]
      exact .inr (.inr ⟨nothing, behind, stored⟩)

theorem field_ends (nonempty : boundary ≠ .empty) (noCR : CR ∉ boundary.bytes) {chunks : List Bytes} {n length : Nat}
    (begins : TextBegins host boundary chunks n name) (ends : FirstAt (delimiter boundary) (chunks.flatten.drop n) length)
    (content_eq : content = (chunks.flatten.drop n).take length)
    (valid : 0 ∉ content → host.purc.isUtf8 (.ofBuffer content) = true) :
    (reached host boundary chunks (n + length + (delimiter boundary).length)).All
      (fun r => 0 ∉ content → r.2.post name = some (.string (.ofBuffer content))) (fun _ => False)
      (fun _ _ => 0 ∈ content) := by
  obtain ⟨p, s, opened, before, state, complete, text, named⟩ := begins
  have quiet : p.Quiet := by simp [Parser.Quiet, state]
  have intact := (executeChunks_intact (settings_inside host) nonempty _ _).of_ok before
  have noData := (header_data host boundary _).of_ok before (by rw [state]; rfl)
  obtain ⟨rest, behind⟩ := ends.1
  have split : (chunks.flatten.drop n).take (length + (delimiter boundary).length) = content ++ delimiter boundary := by
    rw [List.take_add, ← content_eq, ← behind, List.take_left]
  have text_eq : chunks.flatten.drop n = content ++ delimiter boundary ++ rest := by
    rw [List.append_assoc, behind, content_eq, List.take_append_drop]
  have size : content.length = length := by
    have longer := congrArg List.length behind
    rw [List.length_append, delimiter_length, List.length_drop] at longer
    rw [content_eq, List.length_take]
    omega
  have ends' : FirstAt (delimiter boundary) (content ++ delimiter boundary) content.length := by
    rw [text_eq] at ends
    rw [size]
    exact ends.of_append (by rw [List.length_append, size])
  have whole : (takeBytes (length + (delimiter boundary).length) (dropBytes n chunks)).flatten =
      content ++ delimiter boundary := by
    rw [flatten_takeBytes, flatten_dropBytes, split]
  have rest_eq : n + length + (delimiter boundary).length - n = length + (delimiter boundary).length := by omega
  rw [reached, executeChunks_split n _ (by omega) quiet before, rest_eq]
  apply (run_reading nonempty noCR intact state noData complete text named valid ends' whole).mono
  · rintro r (⟨nothing, -, -⟩ | ⟨x, runs, split, scan, -⟩ | ⟨-, -, stored⟩)
    · have longer := congrArg List.length nothing
      rw [List.length_append, delimiter_length] at longer
      simp at longer
    · rw [List.append_nil] at split
      exact absurd (split ▸ ends'.1) (scan.no_delimiter _)
    · exact stored
  · exact fun _ h => h
  · exact fun _ _ h => h

end Run

/-- A field is kept as it should be exactly where its content has no NUL; with one it is cut or spliced. -/
theorem field_kept_iff (host : Host) {boundary : CString} (nonempty : boundary ≠ .empty) (noCR : CR ∉ boundary.bytes)
    (chunks : List Bytes) {n length : Nat} {name : CString} (begins : TextBegins host boundary chunks n name)
    (ends : FirstAt (delimiter boundary) (chunks.flatten.drop n) length)
    (valid : 0 ∉ (chunks.flatten.drop n).take length →
      host.purc.isUtf8 (.ofBuffer ((chunks.flatten.drop n).take length)) = true) :
    FieldKept name ((chunks.flatten.drop n).take length)
        (reached host boundary chunks (n + length + (delimiter boundary).length)) ↔
      0 ∉ (chunks.flatten.drop n).take length := by
  have run := field_ends nonempty noCR begins ends rfl valid
  rw [FieldKept]
  cases outcome : reached host boundary chunks (n + length + (delimiter boundary).length) with
  | fail left =>
      rw [outcome] at run
      exact run.elim
  | ok r =>
      rw [outcome] at run
      by_cases nul : 0 ∈ (chunks.flatten.drop n).take length
      · simp [nul]
      · rw [if_neg nul]
        exact iff_of_true ⟨r.1, r.2, rfl, run nul⟩ nul
  | stop why left =>
      rw [outcome] at run
      change 0 ∈ _ at run
      simp [run]

def fieldBody (content : Bytes) : Bytes :=
  ascii "--b\r\nContent-Disposition: form-data; name=a\r\n\r\n" ++ content ++ ascii "\r\n--b"

theorem fieldBody_begins (content : Bytes) (rest : List Bytes) :
    TextBegins plainHost (.lit "--b") (fieldBody content :: rest) 47 (.lit "a") := by
  have first : takeBytes 47 (fieldBody content :: rest) =
      [ascii "--b\r\nContent-Disposition: form-data; name=a\r\n\r\n"] := by
    rw [takeBytes, if_pos (by simp [fieldBody, ascii])]
    rfl
  have evaluated : ((executeChunks (settings plainHost) [ascii "--b\r\nContent-Disposition: form-data; name=a\r\n\r\n"]
      (multipartParserInit (.lit "--b"), .init)).result?.bind fun r =>
        (headersCompleteCb plainHost r.2).result?.map fun opened => (r.1.state, opened.fp, opened.name)) =
          some (.partDataStart, none, some (.lit "a")) := by
    decide +kernel
  obtain ⟨⟨p, s⟩, run, completed⟩ := Option.bind_eq_some_iff.1 evaluated
  obtain ⟨opened, complete, e⟩ := Option.map_eq_some_iff.1 completed
  obtain ⟨state, text, named⟩ := by simpa only [Prod.mk.injEq] using e
  refine ⟨p, s, opened, ?_, state, Outcome.result?_eq_some.1 complete, text, named⟩
  rw [reached, first]
  exact Outcome.result?_eq_some.1 run

theorem cutField_kept_iff :
    FieldKept (.lit "a") (ascii "h\ri") (reached plainHost (.lit "--b") [fieldBody (ascii "h\ri")] 55) ↔
      0 ∉ ascii "h\ri" := by
  have ends : FirstAt (delimiter (.lit "--b")) ([fieldBody (ascii "h\ri")].flatten.drop 47) 3 := by
    constructor <;> decide +kernel
  exact field_kept_iff plainHost (by decide +kernel) (by decide +kernel) [fieldBody (ascii "h\ri")]
    (fieldBody_begins _ []) ends (by decide +kernel)

theorem nulField_not_kept :
    TextBegins plainHost (.lit "--b") [fieldBody [120, 0, 121]] 47 (.lit "a") ∧
      FirstAt (delimiter (.lit "--b")) ([fieldBody [120, 0, 121]].flatten.drop 47) 3 ∧
      ¬ FieldKept (.lit "a") [120, 0, 121] (reached plainHost (.lit "--b") [fieldBody [120, 0, 121]] 55) := by
  refine ⟨fieldBody_begins _ [], by constructor <;> decide +kernel, ?_⟩
  have taken : (reached plainHost (.lit "--b") [fieldBody [120, 0, 121]] 55).result?.isSome = true := by decide +kernel
  rw [FieldKept, if_pos (by decide)]
  rintro ⟨left, refused⟩
  simp [refused, Outcome.result?] at taken

end HvmlFpm.Multipart
