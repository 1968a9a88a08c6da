import HvmlFpm.Multipart.Protocol

/-!
# Runs in pieces

A chunk's end cuts a run of bytes, and its callback is called for each piece. Two calls leave what one
call with the whole run leaves, unless a NUL stands before the rest of a run that is kept as a string.
-/

namespace HvmlFpm.Multipart
open Library

theorem CString_append_assoc (s t u : CString) : s ++ t ++ u = s ++ (t ++ u) :=
  CString.ext (List.append_assoc ..)

def Session.named (s : Session) (buf : Bytes) : Session :=
  match s.lastHeaderName with
  | none => { s with lastHeaderName := some (.ofBuffer buf), lastHeaderNameLen := buf.length }
  | some name =>
      { s with lastHeaderName := some (name ++ .ofBuffer buf)
               lastHeaderNameLen := s.lastHeaderNameLen + buf.length }

theorem headerFieldCb_eq (buf : Bytes) (s : Session) :
    headerFieldCb buf s = (fileHeader s).map fun s => s.named buf := rfl

theorem named_append {x y : Bytes} (nuls : CString.NulsLast (x ++ y)) (s : Session) :
    (s.named x).named y = s.named (x ++ y) := by
  have joined := CString.ofBuffer_append nuls
  unfold Session.named
  cases s.lastHeaderName with
  | none => simp [joined]
  | some name => simp [joined, CString_append_assoc, Nat.add_assoc]

@[simp] theorem named_lastHeaderValue (s : Session) (buf : Bytes) :
    (s.named buf).lastHeaderValue = s.lastHeaderValue := by
  unfold Session.named
  split <;> rfl

@[simp] theorem named_lastHeaderName_isSome (s : Session) (buf : Bytes) :
    (s.named buf).lastHeaderName.isSome = true := by
  unfold Session.named
  split <;> rfl

theorem named_frame (s : Session) (buf : Bytes) : HeaderFrame s (s.named buf) := by
  unfold Session.named
  split <;> exact ⟨rfl, rfl, rfl, rfl, rfl, rfl, rfl, rfl⟩

theorem fileHeader_incomplete {s : Session} (value : s.lastHeaderValue = none) : fileHeader s = .ok s := by
  simp [fileHeader, value]

def Even (s : Session) : Prop := s.lastHeaderName.isSome = s.lastHeaderValue.isSome

def Half (s : Session) : Prop := s.lastHeaderName.isSome ∧ s.lastHeaderValue = none

def Blank (s : Session) : Prop := s.lastHeaderName = none ∧ s.lastHeaderValue = none

theorem Blank.even {s : Session} (blank : Blank s) : Even s := by
  rw [Even, blank.1, blank.2]

theorem fileHeader_even {s t : Session} (even : Even s) (filed : fileHeader s = .ok t) : Blank t := by
  unfold fileHeader addNewHeader at filed
  split_ifs at filed with complete
  · split at filed
    · split at filed
      · cases filed
        exact ⟨rfl, rfl⟩
      · cases filed
    · cases filed
  · cases filed
    rw [Even] at even
    cases name : s.lastHeaderName <;> cases value : s.lastHeaderValue <;> simp_all [Blank]

theorem fileHeader_ok {s : Session} (headers : s.headers.isSome) : ∃ t, fileHeader s = .ok t := by
  obtain ⟨map, headers⟩ := Option.isSome_iff_exists.1 headers
  unfold fileHeader addNewHeader
  split_ifs with complete
  · obtain ⟨name, name_eq⟩ := Option.isSome_iff_exists.1 complete.1
    obtain ⟨value, value_eq⟩ := Option.isSome_iff_exists.1 complete.2
    simp [name_eq, value_eq, headers]
  · exact ⟨s, rfl⟩

theorem headerFieldCb_even {s t : Session} {x : Bytes} (even : Even s)
    (called : headerFieldCb x s = .ok t) :
    ∃ filed, fileHeader s = .ok filed ∧ Blank filed ∧ t = filed.named x ∧ Half t := by
  rw [headerFieldCb_eq] at called
  obtain ⟨filed, h, rfl⟩ := Outcome.map_eq_ok.1 called
  have blank := fileHeader_even even h
  exact ⟨filed, h, blank, rfl, by simp [Half, blank.2]⟩

theorem headerFieldCb_append {s t : Session} {x y : Bytes} (even : Even s)
    (called : headerFieldCb x s = .ok t) (nuls : CString.NulsLast (x ++ y)) :
    headerFieldCb y t = headerFieldCb (x ++ y) s := by
  obtain ⟨filed, h, blank, rfl, half⟩ := headerFieldCb_even even called
  rw [headerFieldCb_eq, headerFieldCb_eq, fileHeader_incomplete half.2, h, Outcome.ok_map, Outcome.ok_map,
    named_append nuls]

theorem headerValueCb_append {s t : Session} {x y : Bytes} (called : headerValueCb x s = .ok t)
    (nuls : CString.NulsLast (x ++ y)) : headerValueCb y t = headerValueCb (x ++ y) s := by
  have joined := CString.ofBuffer_append nuls
  unfold headerValueCb at called
  split at called
  · cases called
  · next name name_eq value_eq =>
    cases called
    simp [headerValueCb, name_eq, value_eq, joined]
  · next name value name_eq value_eq =>
    cases called
    simp [headerValueCb, name_eq, value_eq, joined, CString_append_assoc, Nat.add_assoc]

theorem headerValueCb_half {s : Session} (half : Half s) (x : Bytes) :
    ∃ t, headerValueCb x s = .ok t ∧ Even t ∧ t.lastHeaderName.isSome := by
  obtain ⟨name, name_eq⟩ := Option.isSome_iff_exists.1 half.1
  simp [headerValueCb, name_eq, half.2, Even]

section Data
variable {host : Host} {s t : Session} {x y : Bytes} {name : CString}

variable (total : ∀ fd old buf, host.fwrite fd old buf = buf.length)
include total

theorem partDataCb_total {fd : Nat} (named : s.name = some name) (upload : s.fp = some fd) (x : Bytes) :
    partDataCb host x s =
      .ok { s with disk := s.disk.modify fd (·.write x), dataLen := s.dataLen + x.length } := by
  simp [partDataCb, named, upload, total]

theorem partDataCb_ok (named : s.name = some name) (x : Bytes) : ∃ t, partDataCb host x s = .ok t := by
  cases fp : s.fp with
  | none => exact ⟨_, partDataCb_text host x named fp⟩
  | some fd => exact ⟨_, partDataCb_total total named fp x⟩

theorem partDataCb_append (named : s.name = some name) (called : partDataCb host x s = .ok t)
    (nuls : s.fp = none → CString.NulsLast (x ++ y)) :
    partDataCb host y t = partDataCb host (x ++ y) s := by
  cases fp : s.fp with
  | none =>
      have joined := CString.ofBuffer_append (nuls fp)
      rw [partDataCb_text host x named fp] at called
      have first := Outcome.ok.inj called
      have named' : t.name = some name := by rw [← first]; exact named
      have fp' : t.fp = none := by rw [← first]; exact fp
      rw [partDataCb_text host y named' fp', partDataCb_text host (x ++ y) named fp, ← first]
      cases s.data with
      | none => simp [joined]
      | some data => simp [joined, CString_append_assoc, Nat.add_assoc]
  | some fd =>
      rw [partDataCb_total total named fp x] at called
      have first := Outcome.ok.inj called
      have named' : t.name = some name := by rw [← first]; exact named
      have fp' : t.fp = some fd := by rw [← first]; exact fp
      rw [partDataCb_total total named' fp' y, partDataCb_total total named fp (x ++ y), ← first]
      have write_write : (TempFile.write · y) ∘ (TempFile.write · x) = (TempFile.write · (x ++ y)) := by
        funext file
        simp [TempFile.write]
      simp [List.modify_modify_eq, write_write, Nat.add_assoc]

end Data

/-! ## A name that is left over

Behind the headers of a part no callback looks at the last header's name. -/

/-- What a request gets of the processor. -/
def Seen (s t : Session) : Prop := t.post = s.post ∧ t.files = s.files ∧ t.disk = s.disk

theorem Seen.refl (s : Session) : Seen s s := ⟨rfl, rfl, rfl⟩

theorem Seen.symm {s t : Session} (h : Seen s t) : Seen t s := ⟨h.1.symm, h.2.1.symm, h.2.2.symm⟩

theorem Seen.trans {s t u : Session} (h : Seen s t) (h' : Seen t u) : Seen s u :=
  ⟨h'.1.trans h.1, h'.2.1.trans h.2.1, h'.2.2.trans h.2.2⟩

theorem HeaderFrame.seen {s t : Session} (frame : HeaderFrame s t) : Seen s t :=
  ⟨frame.post, frame.files, frame.disk⟩

/-- `t` still holds `w` as the name of a header that `s` does not have. -/
structure Apart (w : Bytes) (s t : Session) : Prop where
  blank : Blank s
  left_over : t = { s with lastHeaderName := some (.ofBuffer w), lastHeaderNameLen := w.length }

theorem Apart.seen {w : Bytes} {s t : Session} (apart : Apart w s t) : Seen s t := by
  rw [apart.left_over]
  exact ⟨rfl, rfl, rfl⟩

theorem apart_iff {w : Bytes} {s t : Session} (blank : Blank s) :
    Apart w s t ↔ headerFieldCb w s = .ok t := by
  have named : s.named w = { s with lastHeaderName := some (.ofBuffer w), lastHeaderNameLen := w.length } := by
    rw [Session.named, blank.1]
  rw [headerFieldCb_eq, fileHeader_incomplete blank.2, Outcome.ok_map, named]
  exact ⟨fun apart => by rw [apart.left_over], fun e => ⟨blank, (Outcome.ok.inj e).symm⟩⟩

section Apart
variable (host : Host) {w : Bytes} {s t : Session}

theorem openUpload_apart (headers : Kvlist) (name filename : CString) (apart : Apart w s t) :
    Outcome.Rel Seen (Apart w) (openUpload host headers name filename s)
      (openUpload host headers name filename t) := by
  obtain ⟨blank, rfl⟩ := apart
  unfold openUpload
  cases host.mkstemp s.disk.length with
  | none => exact .fail ⟨rfl, rfl, rfl⟩
  | some path =>
      simp only
      split_ifs
      · exact .fail ⟨rfl, rfl, rfl⟩
      cases kvlistGet headers (.lit "Content-Type") with
      | none => exact .fail ⟨rfl, rfl, rfl⟩
      | some contentType =>
          simp only
          cases fileObject host.purc filename contentType path with
          | none => exact .stop ⟨rfl, rfl, rfl⟩
          | some file => exact .ok ⟨blank, rfl⟩

theorem headersMapDelete_apart {s t : Session} (apart : Apart w s t) :
    Outcome.Rel Seen (Apart w) (headersMapDelete s) (headersMapDelete t) := by
  obtain ⟨blank, rfl⟩ := apart
  unfold headersMapDelete
  cases s.headers with
  | none => exact .stop ⟨rfl, rfl, rfl⟩
  | some map => exact .ok ⟨blank, rfl⟩

theorem headersComplete_apart (apart : Apart w s t) :
    Outcome.Rel Seen (Apart w) (headersCompleteCb host s) (headersCompleteCb host t) := by
  have filed := fileHeader_incomplete apart.blank.2
  have value : t.lastHeaderValue = none := by rw [apart.left_over]; exact apart.blank.2
  have headers : t.headers = s.headers := by rw [apart.left_over]
  unfold headersCompleteCb
  rw [filed, fileHeader_incomplete value, Outcome.ok_bind, Outcome.ok_bind, headers]
  cases s.headers with
  | none => exact .stop apart.seen
  | some map =>
      simp only
      cases kvlistGet map (.lit "Content-Disposition") with
      | none => exact .fail apart.seen
      | some contentDisposition =>
          simp only
          split_ifs
          · cases attrsMapParse .init (contentDisposition.drop 10) with
            | none => exact .stop apart.seen
            | some attrs =>
                simp only
                cases kvlistGet attrs (.lit "name") with
                | none => exact .fail apart.seen
                | some name =>
                    simp only
                    refine Outcome.Rel.bind (R := Apart w) ?_ ?_
                    · cases kvlistGet attrs (.lit "filename") with
                      | none =>
                          obtain ⟨blank, rfl⟩ := apart
                          exact .ok ⟨blank, rfl⟩
                      | some filename => exact openUpload_apart host map name (strSanitize filename) apart
                    · rintro a b ⟨blank, rfl⟩
                      exact headersMapDelete_apart ⟨blank, rfl⟩
          · exact .fail apart.seen

theorem partData_apart (run : Bytes) (apart : Apart w s t) :
    Outcome.Rel Seen (Apart w) (partDataCb host run s) (partDataCb host run t) := by
  obtain ⟨blank, rfl⟩ := apart
  unfold partDataCb
  cases s.name with
  | none => exact .stop ⟨rfl, rfl, rfl⟩
  | some name =>
      cases s.fp with
      | none => cases s.data <;> exact .ok ⟨blank, rfl⟩
      | some fd =>
          simp only [Option.isNone_some, Bool.false_eq_true, if_false, Session.contentOf]
          by_cases short : host.fwrite fd ((s.disk[fd]?.map TempFile.content).getD []) run < run.length
          · simp only [short, if_true]
            exact .fail ⟨rfl, rfl, rfl⟩
          · simp only [short, if_false]
            exact .ok ⟨blank, rfl⟩

theorem partDataBegin_apart (apart : Apart w s t) :
    Outcome.Rel Seen (Apart w) (partDataBeginCb s) (partDataBeginCb t) := by
  obtain ⟨blank, rfl⟩ := apart
  unfold partDataBeginCb headersMapNew
  cases s.headers with
  | none => exact .ok ⟨blank, rfl⟩
  | some map => exact .stop ⟨rfl, rfl, rfl⟩

theorem partDataEnd_apart (apart : Apart w s t) :
    Outcome.Rel Seen (Apart w) (partDataEndCb host s) (partDataEndCb host t) := by
  obtain ⟨blank, rfl⟩ := apart
  unfold partDataEndCb
  cases s.name with
  | none => exact .stop ⟨rfl, rfl, rfl⟩
  | some name =>
      cases s.fp with
      | some fd =>
          simp only
          cases s.files name with
          | none => exact .stop ⟨rfl, rfl, rfl⟩
          | some file => exact .ok ⟨blank, rfl⟩
      | none =>
          cases s.data with
          | none => exact .ok ⟨blank, rfl⟩
          | some data =>
              simp only
              cases host.purc.setByCkey name (host.purc.makeString data) s.post with
              | none => exact .stop ⟨rfl, rfl, rfl⟩
              | some post => exact .ok ⟨blank, rfl⟩

end Apart
end HvmlFpm.Multipart
