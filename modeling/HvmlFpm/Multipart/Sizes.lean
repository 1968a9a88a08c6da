import Mathlib.Algebra.Order.Ring.Nat
import HvmlFpm.Multipart.Protocol

/-!
# The size of an upload

`data_len` counts the data of text parts and uploads alike. Here it is followed over a whole body.
-/

namespace HvmlFpm.Multipart
open Library

structure PartSize where
  upload : Bool
  length : Nat
deriving DecidableEq

structure Tally where
  done : List PartSize
  current : Nat

def Tally.add (tally : Tally) : Call × Session → Tally
  | (.headersComplete, _) => { tally with current := 0 }
  | (.partData run, _) => { tally with current := tally.current + run.length }
  | (.partDataEnd, s) => { done := ⟨s.fp.isSome, tally.current⟩ :: tally.done, current := 0 }
  | _ => tally

def tally (log : List (Call × Session)) : Tally := log.foldl Tally.add ⟨[], 0⟩

theorem tally_snoc (log : List (Call × Session)) (e : Call × Session) :
    tally (log ++ [e]) = (tally log).add e := by
  simp [tally]

/-- The parts back to the last text part, which is the last of them. -/
def sinceText : List PartSize → List PartSize
  | [] => []
  | part :: earlier => if part.upload then part :: sinceText earlier else [part]

def carry (parts : List PartSize) : Nat := ((sinceText parts).map PartSize.length).sum

@[simp] theorem carry_upload (n : Nat) (parts : List PartSize) :
    carry (⟨true, n⟩ :: parts) = carry parts + n := by
  simp [carry, sinceText, Nat.add_comm]

@[simp] theorem carry_text (n : Nat) (parts : List PartSize) : carry (⟨false, n⟩ :: parts) = n := by
  simp [carry, sinceText]

theorem carry_eq_zero {parts : List PartSize} :
    carry parts = 0 ↔ ∀ part ∈ sinceText parts, part.length = 0 := by
  simp [carry, List.sum_eq_zero_iff_forall_eq_nat]

structure Counted (stage : Stage) (sizes : Tally) (s : Session) : Prop where
  outside : stage.inPart = false → s.data = none ∧ s.dataLen = carry sizes.done
  opened : stage = .opened → s.data = none ∧ s.dataLen = carry sizes.done ∧ sizes.current = 0
  upload : stage.inPart → ∀ fd, s.fp = some fd → s.data = none ∧
    s.dataLen = carry sizes.done + sizes.current ∧ (s.contentOf fd).length = sizes.current ∧
      fd < s.disk.length
  text : stage = .data → s.fp = none → s.data.isSome ∧ s.dataLen = sizes.current

theorem init_counted : Counted .preamble ⟨[], 0⟩ .init where
  outside := fun _ => ⟨rfl, rfl⟩
  opened := nofun
  upload := nofun
  text := nofun

theorem counted_outside {stage : Stage} {sizes : Tally} {s : Session} (outside : stage.inPart = false)
    (data : s.data = none) (dataLen : s.dataLen = carry sizes.done) : Counted stage sizes s where
  outside := fun _ => ⟨data, dataLen⟩
  opened := by rintro rfl; cases outside
  upload := fun inPart => by simp [outside] at inPart
  text := by rintro rfl; cases outside

theorem contentOf_modify {s t : Session} {fd : Nat} {run : Bytes} (bound : fd < s.disk.length)
    (written : t.disk = s.disk.modify fd (·.write run)) : t.contentOf fd = s.contentOf fd ++ run := by
  simp [Session.contentOf, written, bound, TempFile.write]

section Callbacks
variable (host : Host) {stage : Stage} {sizes : Tally} {s : Session}

theorem headersComplete_counted (counted : Counted .header sizes s) :
    (headersCompleteCb host s).All (Counted .opened (sizes.add (.headersComplete, s))) (fun _ => True)
      (fun _ _ => True) := by
  obtain ⟨data, dataLen⟩ := counted.outside rfl
  apply (headersCompleteCb_spec host s).mono
  · intro t done
    have data' := done.data.trans data
    have dataLen' := done.dataLen.trans dataLen
    obtain ⟨name, -, kind⟩ := done.named
    refine ⟨nofun, fun _ => ⟨data', dataLen', rfl⟩, ?_, nofun⟩
    intro _ fd open_
    rcases kind with ⟨closed, -⟩ | ⟨path, file, opened, disk, -⟩
    · simp [closed] at open_
    · obtain rfl : s.disk.length = fd := Option.some.inj (opened.symm.trans open_)
      exact ⟨data', by simp [Tally.add, dataLen'], by simp [Session.contentOf, disk, Tally.add],
        by simp [disk]⟩
  · exact fun _ _ => trivial
  · exact fun _ _ _ => trivial

theorem partData_counted (inPart : stage.inPart) (run : Bytes) (agrees : Agrees stage s)
    (counted : Counted stage sizes s) :
    (partDataCb host run s).All (Counted .data (sizes.add (.partData run, s))) (fun _ => True)
      (fun _ _ => True) := by
  obtain ⟨name, named⟩ := Option.isSome_iff_exists.1 (agrees.name_iff.2 inPart)
  cases upload : s.fp with
  | none =>
      rw [partDataCb_text host run named upload]
      refine ⟨nofun, nofun, fun _ fd open_ => by simp [upload] at open_, fun _ _ => ⟨rfl, ?_⟩⟩
      cases stage <;> cases inPart
      · obtain ⟨data, -, fresh⟩ := counted.opened rfl
        simp [data, Tally.add, fresh]
      · obtain ⟨data, dataLen⟩ := counted.text rfl upload
        obtain ⟨content, data⟩ := Option.isSome_iff_exists.1 data
        simp [data, Tally.add, dataLen]
  | some fd =>
      obtain ⟨data, dataLen, length, bound⟩ := counted.upload inPart fd upload
      apply (partDataCb_upload host run named upload).mono
      · rintro _ rfl
        refine ⟨nofun, nofun, ?_, fun _ closed => by simp [upload] at closed⟩
        intro _ fd' open_
        obtain rfl : fd = fd' := Option.some.inj (upload.symm.trans open_)
        refine ⟨data, ?_, ?_, by simpa using bound⟩
        · simp only [Tally.add, dataLen]
          omega
        · rw [contentOf_modify bound rfl, List.length_append, length]
          rfl
      · exact fun _ _ => trivial
      · exact fun _ _ _ => trivial

theorem partDataEnd_counted (agrees : Agrees .data s) (counted : Counted .data sizes s) :
    (partDataEndCb host s).All (Counted .between (sizes.add (.partDataEnd, s))) (fun _ => True)
      (fun _ _ => True) := by
  obtain ⟨name, named⟩ := Option.isSome_iff_exists.1 (agrees.name_iff.2 rfl)
  cases upload : s.fp with
  | none =>
      obtain ⟨-, dataLen⟩ := counted.text rfl upload
      apply (partDataEndCb_text host named upload).mono
      · rintro _ ⟨post, rfl⟩
        exact counted_outside rfl rfl (by simp [Tally.add, upload, dataLen])
      · exact fun _ _ => trivial
      · exact fun _ _ _ => trivial
  | some fd =>
      obtain ⟨data, dataLen, -, -⟩ := counted.upload rfl fd upload
      obtain ⟨name', file, named', entry⟩ := agrees.fp_named (by simp [upload])
      rw [partDataEndCb_upload host named' upload entry]
      exact counted_outside rfl data (by simp [Tally.add, upload, dataLen])

theorem call_counted {stage' : Stage} {k : Call} (next : stage.next k = some stage')
    (agrees : Agrees stage s) (counted : Counted stage sizes s) :
    ((settings host).call k s).All (Counted stage' (sizes.add (k, s))) (fun _ => True)
      (fun _ _ => True) := by
  have framed (t : Session) (frame : HeaderFrame s t) (header : stage = .header) :
      Counted .header sizes t := by
    obtain ⟨data, dataLen⟩ := counted.outside (header ▸ rfl)
    exact counted_outside rfl (frame.data.trans data) (frame.dataLen.trans dataLen)
  have begun (outside : stage.inPart = false) :
      (partDataBeginCb s).All (Counted .header sizes) (fun _ => True) (fun _ _ => True) := by
    obtain ⟨data, dataLen⟩ := counted.outside outside
    unfold partDataBeginCb headersMapNew
    split_ifs
    · trivial
    · exact counted_outside rfl data dataLen
  cases stage <;> cases k <;> cases next
  case preamble.partDataBegin => exact begun rfl
  case header.headerField run =>
    exact (headerFieldCb_spec run s).mono (fun t frame => framed t frame rfl) (fun _ _ => trivial)
      (fun _ _ _ => trivial)
  case header.headerValue run =>
    exact (headerValueCb_spec run s).mono (fun t frame => framed t frame rfl) (fun _ _ => trivial)
      (fun _ _ _ => trivial)
  case header.headersComplete => exact headersComplete_counted host counted
  case opened.partData run => exact partData_counted host rfl run agrees counted
  case data.partData run => exact partData_counted host rfl run agrees counted
  case data.partDataEnd => exact partDataEnd_counted host agrees counted
  case between.partDataBegin => exact begun rfl
  case between.bodyEnd =>
    obtain ⟨data, dataLen⟩ := counted.outside rfl
    exact counted_outside rfl data dataLen

end Callbacks

def SizeExact (host : Host) (fd : Nat) (s : Session) : Prop :=
  ∃ name file after, s.name = some name ∧ partDataEndCb host s = .ok after ∧
    after.files name = some (.object file) ∧
      file (.lit "size") = some (.ulongint (s.contentOf fd).length)

theorem sizeExact_iff (host : Host) {sizes : Tally} {s : Session} {fd : Nat} (agrees : Agrees .data s)
    (counted : Counted .data sizes s) (upload : s.fp = some fd) :
    SizeExact host fd s ↔ ∀ part ∈ sinceText sizes.done, part.length = 0 := by
  obtain ⟨-, dataLen, length, -⟩ := counted.upload rfl fd upload
  obtain ⟨name, file, named, entry⟩ := agrees.fp_named (by simp [upload])
  have ended := partDataEndCb_upload host named upload entry
  rw [← carry_eq_zero, SizeExact, length]
  constructor
  · rintro ⟨name', file', after, named', ended', entry', size⟩
    obtain rfl : name = name' := Option.some.inj (named.symm.trans named')
    obtain rfl := Outcome.ok.inj (ended.symm.trans ended')
    simp only [Members.set_same, setSize, Option.some.injEq, Variant.object.injEq] at entry'
    subst entry'
    simp only [Members.set_same, Option.some.injEq, Variant.ulongint.injEq] at size
    omega
  · intro fresh
    refine ⟨name, _, _, named, ended, Members.set_same .., ?_⟩
    rw [Members.set_same, dataLen, fresh, Nat.zero_add]

def tracedRun (host : Host) (boundary : CString) (chunks : List Bytes) : Traced Session :=
  (executeChunks (traced (settings host)) chunks (multipartParserInit boundary, .start .init)).final

theorem tracedRun_all {host : Host} {boundary : CString} {chunks : List Bytes} {I : Parser → Traced Session → Prop}
    {J : Traced Session → Prop} {K : Stop → Traced Session → Prop}
    (run : (executeChunks (traced (settings host)) chunks (multipartParserInit boundary, .start .init)).All
      (fun r => I r.1 r.2) J K) :
    (executeChunks (settings host) chunks (multipartParserInit boundary, .init)).All
      (fun r => I r.1 ⟨r.2, (tracedRun host boundary chunks).log⟩) (fun s => J ⟨s, (tracedRun host boundary chunks).log⟩)
      (fun why s => K why ⟨s, (tracedRun host boundary chunks).log⟩) := by
  have same {t : Traced Session} {s : Session} (state : t.state = s) (final : t = tracedRun host boundary chunks) :
      (⟨s, (tracedRun host boundary chunks).log⟩ : Traced Session) = t := by
    rw [← state, ← final]
  apply (executeChunks_traced (settings host) chunks (multipartParserInit boundary) .init).all_right
    (run.and (Outcome.all_final _))
  · rintro ⟨p, t⟩ ⟨_, s⟩ ⟨rfl, state⟩ ⟨holds, final⟩
    rw [same state final]
    exact holds
  · rintro t s state ⟨holds, final⟩
    rw [same state final]
    exact holds
  · rintro why t s state ⟨holds, final⟩
    rw [same state final]
    exact holds

/-- A finished upload has its exact size if and only if the parts back to the last text part are
empty. -/
def SizeLaw (host : Host) (before : List (Call × Session)) (k : Call) (s : Session) : Prop :=
  k = .partDataEnd → ∀ fd, s.fp = some fd →
    (SizeExact host fd s ↔ ∀ part ∈ sinceText (tally before).done, part.length = 0)

structure Measured (host : Host) (stage : Stage) (t : Traced Session) : Prop where
  agrees : Agrees stage t.state
  counted : Counted stage (tally t.log) t.state
  each : t.Each (SizeLaw host)

theorem call_measured (host : Host) {stage stage' : Stage} {k : Call} {t : Traced Session}
    (next : stage.next k = some stage') (measured : Measured host stage t) :
    ((traced (settings host)).call k t).All (Measured host stage') (Traced.Each (SizeLaw host))
      (fun _ => Traced.Each (SizeLaw host)) := by
  have law : SizeLaw host t.log k t.state := by
    rintro rfl fd upload
    cases stage <;> cases next
    exact sizeExact_iff host measured.agrees measured.counted upload
  have each (s : Session) := each_record measured.each k s law
  have agrees := call_agrees host next measured.agrees
  have counted := call_counted host next measured.agrees measured.counted
  apply traced_all (agrees.and counted)
  · rintro s ⟨agrees', counted'⟩
    refine ⟨agrees', ?_, each s⟩
    rw [Traced.record, tally_snoc]
    exact counted'
  · exact fun s _ => each s
  · exact fun _ s _ => each s

theorem run_sizeLaw (host : Host) (boundary : CString) (chunks : List Bytes) :
    (tracedRun host boundary chunks).Each (SizeLaw host) := by
  have start : Measured host .preamble (.start .init) := ⟨init_agrees, init_counted, each_start _ _⟩
  have run := executeChunks_rule (fun _ _ _ _ next measured => call_measured host next measured)
    (fun _ _ measured => measured.each) (fun _ _ measured => measured.each) boundary chunks start
  apply Outcome.All.final
  apply run.mono
  · rintro r ⟨stage, -, measured⟩
    exact measured.each
  · exact fun _ each => each
  · exact fun _ _ each => each

theorem stored_size_exact_iff (host : Host) (boundary : CString) (chunks : List Bytes) :
    (tracedRun host boundary chunks).Each fun before k s => k = .partDataEnd →
      ∀ fd, s.fp = some fd →
        (SizeExact host fd s ↔ ∀ part ∈ sinceText (tally before).done, part.length = 0) :=
  run_sizeLaw host boundary chunks

def textThenUpload : Bytes :=
  ascii "--b\r\nContent-Disposition: form-data; name=a\r\n\r\nhi\r\n" ++
  ascii "--b\r\nContent-Disposition: form-data; name=f; filename=x\r\nContent-Type: t\r\n\r\nabc\r\n" ++
  ascii "--b--\r\n"

theorem textThenUpload_size_not_exact :
    ¬ (tracedRun plainHost (.lit "--b") [textThenUpload]).Each fun _ k s => k = .partDataEnd →
      ∀ fd, s.fp = some fd → SizeExact plainHost fd s := by
  intro allExact
  have law := run_sizeLaw plainHost (.lit "--b") [textThenUpload]
  have ended : ((tracedRun plainHost (.lit "--b") [textThenUpload]).log[13]?).map
      (fun e => (e.1, e.2.fp)) = some (.partDataEnd, some 0) := by
    decide +kernel
  have parts : (tally ((tracedRun plainHost (.lit "--b") [textThenUpload]).log.take 13)).done =
      [⟨false, 2⟩] := by
    decide +kernel
  generalize tracedRun plainHost (.lit "--b") [textThenUpload] = t at *
  obtain ⟨⟨k, s⟩, entry, e⟩ := Option.map_eq_some_iff.1 ended
  obtain ⟨rfl, upload⟩ := Prod.mk.inj e
  obtain ⟨bound, at_13⟩ := List.getElem?_eq_some_iff.1 entry
  have split : t.log = t.log.take 13 ++ (.partDataEnd, s) :: t.log.drop 14 := by
    rw [← at_13, List.getElem_cons_drop, List.take_append_drop]
  have stored := allExact _ _ _ _ split rfl 0 upload
  have empty := (law _ _ _ _ split rfl 0 upload).1 stored
  rw [parts] at empty
  exact absurd (empty ⟨false, 2⟩ (by simp [sinceText])) (by simp)

end HvmlFpm.Multipart
