import HvmlFpm.Multipart.Feed
import HvmlFpm.Multipart.Processor

namespace HvmlFpm.Multipart
open Library

/-- Only the header fields differ, and the headers map is there as before. -/
structure HeaderFrame (s t : Session) : Prop where
  headers : t.headers.isSome = s.headers.isSome
  post : t.post = s.post
  files : t.files = s.files
  name : t.name = s.name
  data : t.data = s.data
  dataLen : t.dataLen = s.dataLen
  fp : t.fp = s.fp
  disk : t.disk = s.disk

theorem HeaderFrame.refl (s : Session) : HeaderFrame s s := ⟨rfl, rfl, rfl, rfl, rfl, rfl, rfl, rfl⟩

theorem fileHeader_spec (s : Session) :
    (fileHeader s).All (HeaderFrame s) (fun _ => False) (fun why _ => why = .nullDereference) := by
  unfold fileHeader addNewHeader
  split_ifs with complete
  · obtain ⟨named, valued⟩ := complete
    obtain ⟨name, name_eq⟩ := Option.isSome_iff_exists.1 named
    obtain ⟨value, value_eq⟩ := Option.isSome_iff_exists.1 valued
    rw [name_eq, value_eq]
    cases headers : s.headers with
    | none => rfl
    | some map => exact ⟨by simp [headers], rfl, rfl, rfl, rfl, rfl, rfl, rfl⟩
  · exact .refl s

theorem headerFieldCb_spec (run : Bytes) (s : Session) :
    (headerFieldCb run s).All (HeaderFrame s) (fun _ => False) (fun why _ => why = .nullDereference) := by
  apply (fileHeader_spec s).map
  intro t frame
  split <;> exact ⟨frame.headers, frame.post, frame.files, frame.name, frame.data, frame.dataLen,
    frame.fp, frame.disk⟩

theorem headerValueCb_spec (run : Bytes) (s : Session) :
    (headerValueCb run s).All (HeaderFrame s) (HeaderFrame s) (fun _ _ => False) := by
  unfold headerValueCb
  split
  · exact .refl s
  · exact ⟨rfl, rfl, rfl, rfl, rfl, rfl, rfl, rfl⟩
  · exact ⟨rfl, rfl, rfl, rfl, rfl, rfl, rfl, rfl⟩

structure HeadersDone (s t : Session) : Prop where
  headers : t.headers = none
  data : t.data = s.data
  dataLen : t.dataLen = s.dataLen
  named : ∃ name, t.name = some name ∧
    (t.fp = none ∧ t.files = s.files ∧ t.disk = s.disk ∧ t.post = s.post.set name .null ∨
      ∃ path file, t.fp = some s.disk.length ∧ t.disk = s.disk ++ [⟨path, []⟩] ∧
        t.files = s.files.set name (.object file) ∧ t.post = s.post)

theorem openUpload_spec (host : Host) (headers : Kvlist) (name filename : CString) (s : Session) :
    (openUpload host headers name filename s).All
      (fun t => ∃ path file, t = { s with fp := some s.disk.length, disk := s.disk ++ [⟨path, []⟩]
                                          files := s.files.set name (.object file) })
      (fun _ => True) (fun why _ => why = .invalidVariant) := by
  unfold openUpload
  split
  · trivial
  · next path _ =>
    simp only
    split_ifs
    · trivial
    split
    · trivial
    split
    · rfl
    · next file _ => exact ⟨path, file, rfl⟩

theorem headersCompleteCb_spec (host : Host) (s : Session) :
    (headersCompleteCb host s).All (HeadersDone s) (fun _ => True)
      (fun why _ => why = .nullDereference ∨ why = .invalidVariant) := by
  have filed := (fileHeader_spec s).mono (fun _ h => h) (fun _ _ => trivial)
    (fun why _ h => (Or.inl h : why = .nullDereference ∨ why = .invalidVariant))
  apply filed.bind
  intro t frame
  split
  · exact .inl rfl
  next headers headers_eq =>
  split
  · trivial
  split_ifs
  · split
    · exact .inl rfl
    split
    · trivial
    next name _ =>
    simp only
    split
    · next filename _ =>
      have opened := (openUpload_spec host headers name (strSanitize filename) t).mono (fun _ h => h)
        (fun _ h => h) (fun why _ h => (Or.inr h : why = .nullDereference ∨ why = .invalidVariant))
      apply opened.bind
      rintro _ ⟨path, file, rfl⟩
      simp only [headersMapDelete, headers_eq, Option.isNone_some]
      exact {
        headers := rfl
        data := frame.data
        dataLen := frame.dataLen
        named := ⟨name, rfl, .inr ⟨path, file, by simp [frame.disk], by simp [frame.disk],
          by simp [frame.files], frame.post⟩⟩ }
    · simp only [Outcome.ok_bind, headersMapDelete, headers_eq, Option.isNone_some]
      exact {
        headers := rfl
        data := frame.data
        dataLen := frame.dataLen
        named := ⟨name, rfl, .inl ⟨rfl, frame.files, frame.disk, by simp [frame.post]⟩⟩ }
  · trivial

section Parts
variable (host : Host) {s : Session} {name : CString}

theorem partDataCb_upload (run : Bytes) {fd : Nat} (named : s.name = some name) (upload : s.fp = some fd) :
    (partDataCb host run s).All
      (fun t => t = { s with disk := s.disk.modify fd (·.write run), dataLen := s.dataLen + run.length })
      (fun _ => True) (fun _ _ => False) := by
  unfold partDataCb
  simp only [named, Option.isNone_some, Bool.false_eq_true, if_false, upload]
  split_ifs with short
  · trivial
  · have whole : run.take (host.fwrite fd (s.contentOf fd) run) = run :=
      List.take_of_length_le (by omega)
    simp only [Outcome.All, whole]

theorem partDataCb_text (run : Bytes) (named : s.name = some name) (text : s.fp = none) :
    partDataCb host run s = .ok { s with
      data := some (s.data.elim (.ofBuffer run) (· ++ .ofBuffer run))
      dataLen := s.data.elim run.length fun _ => s.dataLen + run.length } := by
  unfold partDataCb
  simp only [named, Option.isNone_some, Bool.false_eq_true, if_false, text]
  cases data : s.data <;> rfl

theorem partDataEndCb_upload {fd : Nat} {file : Variant} (named : s.name = some name)
    (upload : s.fp = some fd) (entry : s.files name = some file) :
    partDataEndCb host s =
      .ok { s with files := s.files.set name (setSize file s.dataLen), fp := none, name := none } := by
  simp only [partDataEndCb, named, upload, entry]

theorem partDataEndCb_text (named : s.name = some name) (text : s.fp = none) :
    (partDataEndCb host s).All
      (fun t => ∃ post, t = { s with post := post, data := none, name := none })
      (fun _ => False) (fun why _ => why = .invalidVariant) := by
  simp only [partDataEndCb, named, text]
  cases data : s.data with
  | none =>
      refine ⟨s.post, ?_⟩
      rw [← data]
  | some content =>
      simp only
      split
      · rfl
      · next post _ => exact ⟨post, rfl⟩

end Parts

theorem mpartBodyProcessorRelease_ok (s : Session) :
    mpartBodyProcessorRelease s = .ok { Session.init with disk := s.disk } := by
  unfold mpartBodyProcessorRelease headersMapDelete
  cases s.headers <;> rfl

end HvmlFpm.Multipart
