import HvmlFpm.Fcgi.Writer

namespace HvmlFpm.Fcgi
open Library

structure Writer.Open (type : UInt8) (w : Writer) : Prop where
  type_eq : w.type = type
  isClosed : w.isClosed = false
  wasFCloseCalled : w.wasFCloseCalled = false
  rawWrite : w.rawWrite = false
  errno : w.errno = 0
  aligned : w.stop % 8 = 0
  more : headerLen < w.stop
  small : w.stop ≤ 2 ^ 16
  fits : headerLen + w.buffered.length ≤ w.stop

/-- A record with a content of a stream, and as long as a multiple of 8. -/
structure Record.Carries (type : UInt8) (requestId : Nat) (record : Record) : Prop where
  type_eq : record.type = type
  requestId_eq : record.requestId = requestId
  content : record.content ≠ []
  aligned : record.encode.length % 8 = 0

structure Sends (c : Connection) (bytes : Bytes) (c' : Connection) : Prop where
  written : c'.written = c.written ++ bytes
  writable : c'.Writable
  arriving : c'.arriving = c.arriving
  ending : c'.ending = c.ending

section Sends
variable {c c' c'' : Connection} {x y : Bytes}

theorem Sends.refl (writable : c.Writable) : Sends c [] c := ⟨(List.append_nil _).symm, writable, rfl, rfl⟩

theorem Sends.trans (first : Sends c x c') (second : Sends c' y c'') : Sends c (x ++ y) c'' := by
  refine ⟨?_, second.writable, second.arriving.trans first.arriving, second.ending.trans first.ending⟩
  rw [second.written, first.written, List.append_assoc]

theorem Connection.Writable.sends (writable : c.Writable) (buf : Bytes) :
    ∃ c', c.write buf = (none, c') ∧ Sends c buf c' := by
  obtain ⟨c', goes, writable', written, arriving, ending⟩ := writable.write buf
  exact ⟨c', goes, written, writable', arriving, ending⟩

end Sends

section Open
variable {type : UInt8} {requestId : Nat} {w : Writer} {c : Connection}

theorem Writer.Open.wrNext (open' : w.Open type) : w.wrNext = headerLen + w.buffered.length := by
  rw [Writer.wrNext, open'.rawWrite]
  rfl

theorem Writer.Open.record (open' : w.Open type) (bound : requestId < 2 ^ 16) (some : w.buffered ≠ []) :
    ∃ record : Record, record.Carries type requestId ∧ record.content = w.buffered ∧
      record.encode = w.encapsulated requestId ∧ (w.encapsulated requestId).length ≤ w.stop := by
  have fits := open'.fits
  have small := open'.small
  have ge := le_alignInt8 w.buffered.length
  have lt := alignInt8_lt w.buffered.length
  have aligned := open'.aligned
  have raw : ¬ w.rawWrite = true := by simp [open'.rawWrite]
  refine ⟨⟨w.type, requestId, w.buffered, w.padding, 0, bound, ?_, ?_⟩, ⟨open'.type_eq, rfl, some, ?_⟩, rfl, ?_, ?_⟩
  · rw [headerLen] at fits
    omega
  · rw [Writer.padding, List.length_replicate]
    omega
  · rw [Record.encode, List.length_append, Header.length_bytes, List.length_append]
    change (headerLen + (w.buffered.length + w.padding.length)) % 8 = 0
    rw [Writer.padding, List.length_replicate, headerLen]
    rw [alignInt8] at ge lt ⊢
    omega
  · rw [Writer.encapsulated, if_neg raw, if_neg some]
    rfl
  · rw [Writer.encapsulated, if_neg raw, if_neg some, List.length_append, Header.length_bytes, List.length_append,
      Writer.padding, List.length_replicate]
    rw [headerLen] at fits ⊢
    rw [alignInt8] at ge lt ⊢
    omega

theorem emptyBuff_open (open' : w.Open type) (bound : requestId < 2 ^ 16) (writable : c.Writable) :
    ∃ records c', w.emptyBuff requestId c =
        ({ w with buffered := [], isAnythingWritten := w.isAnythingWritten || !records.isEmpty }, c') ∧
      Sends c (encodeAll records) c' ∧ (∀ record ∈ records, record.Carries type requestId) ∧
      records.flatMap Record.content = w.buffered := by
  have raw : ¬ w.rawWrite = true := by simp [open'.rawWrite]
  by_cases none : w.buffered = []
  · have empty : w.encapsulated requestId = [] := by rw [Writer.encapsulated, if_neg raw, if_pos none]
    refine ⟨[], c, ?_, .refl writable, by simp, none.symm⟩
    rw [Writer.emptyBuff, if_pos empty, List.isEmpty_nil, Bool.not_true, Bool.or_false, ← none]
  · obtain ⟨record, carries, content, encode, -⟩ := open'.record bound none
    obtain ⟨c', goes, sends⟩ := writable.sends (w.encapsulated requestId)
    have some : ¬ w.encapsulated requestId = [] := encode ▸ record.encode_ne_nil
    refine ⟨[record], c', ?_, ?_, ?_, ?_⟩
    · rw [Writer.emptyBuff, if_neg some, goes]
      simp
    · rw [encodeAll_cons, encodeAll_nil, List.append_nil, encode]
      exact sends
    · intro other member
      rw [List.mem_singleton.1 member]
      exact carries
    · rw [List.flatMap_cons, List.flatMap_nil, List.append_nil, content]

theorem putStrLoop_open {fuel : Nat} (str : Bytes) (open' : w.Open type) (bound : requestId < 2 ^ 16)
    (writable : c.Writable) (enough : str.length + (if w.room = 0 then 1 else 0) < fuel) :
    ∃ records w' c', w.putStrLoop requestId fuel str c = (true, w', c') ∧ w'.Open type ∧
      Sends c (encodeAll records) c' ∧ (∀ record ∈ records, record.Carries type requestId) ∧
      records.flatMap Record.content ++ w'.buffered = w.buffered ++ str ∧
      w'.isAnythingWritten = (w.isAnythingWritten || !records.isEmpty) := by
  induction fuel generalizing str w c with
  | zero => simp at enough
  | succ fuel ih =>
      have room : w.room = w.stop - (headerLen + w.buffered.length) := by rw [Writer.room, open'.wrNext]
      have fits := open'.fits
      have more := open'.more
      rw [Writer.putStrLoop]
      by_cases within : str.length ≤ w.room
      · rw [if_pos within]
        refine ⟨[], _, c, rfl, { open' with fits := ?_ }, .refl writable, by simp, rfl, (Bool.or_false _).symm⟩
        change headerLen + (w.buffered ++ str).length ≤ w.stop
        rw [List.length_append]
        omega
      · rw [if_neg within]
        dsimp only
        rw [if_neg (by simp [open'.isClosed])]
        have filled : { w with buffered := w.buffered ++ str.take w.room }.Open type := by
          refine { open' with fits := ?_ }
          change headerLen + (w.buffered ++ str.take w.room).length ≤ w.stop
          rw [List.length_append, List.length_take]
          omega
        obtain ⟨records, c₁, empties, sends, carry, contents⟩ := emptyBuff_open filled bound writable
        rw [empties]
        have emptied : { w with buffered := [], isAnythingWritten := w.isAnythingWritten || !records.isEmpty }.Open type :=
          { open' with fits := Nat.le_of_lt more }
        have room' : Writer.room { w with
            buffered := [], isAnythingWritten := w.isAnythingWritten || !records.isEmpty } = w.stop - headerLen := by
          rw [Writer.room, emptied.wrNext]
          rfl
        have pos : w.stop - headerLen ≠ 0 := by omega
        obtain ⟨records', w', c', goes, open'', sends', carry', contents', written⟩ :=
          ih (str.drop w.room) emptied sends.writable (by
            rw [room', if_neg pos, List.length_drop]
            split_ifs at enough <;> omega)
        refine ⟨records ++ records', w', c', goes, open'', ?_, ?_, ?_, ?_⟩
        · rw [encodeAll_append]
          exact sends.trans sends'
        · intro record member
          rcases List.mem_append.1 member with here | there
          · exact carry record here
          · exact carry' record there
        · rw [List.flatMap_append, List.append_assoc, contents', contents]
          change w.buffered ++ str.take w.room ++ ([] ++ str.drop w.room) = _
          rw [List.nil_append, List.append_assoc, List.take_append_drop]
        · rw [written]
          cases records with
          | nil => simp
          | cons record records => simp

theorem putStr_open (open' : w.Open type) (bound : requestId < 2 ^ 16) (writable : c.Writable) (str : Bytes) :
    ∃ records w' c', w.putStr requestId str c = (true, w', c') ∧ w'.Open type ∧
      Sends c (encodeAll records) c' ∧ (∀ record ∈ records, record.Carries type requestId) ∧
      records.flatMap Record.content ++ w'.buffered = w.buffered ++ str ∧
      w'.isAnythingWritten = (w.isAnythingWritten || !records.isEmpty) :=
  putStrLoop_open str open' bound writable (by split_ifs <;> omega)

end Open

structure Writer.Raw (w : Writer) : Prop where
  isClosed : w.isClosed = false
  rawWrite : w.rawWrite = true
  errno : w.errno = 0
  some : 0 < w.stop
  fits : w.buffered.length ≤ w.stop

section Raw
variable {requestId : Nat} {w : Writer} {c : Connection}

theorem Writer.Raw.wrNext (raw : w.Raw) : w.wrNext = w.buffered.length := by
  rw [Writer.wrNext, if_pos raw.rawWrite, Nat.zero_add]

theorem emptyBuff_raw (requestId : Nat) (raw : w.Raw) (writable : c.Writable) :
    ∃ w' c', w.emptyBuff requestId c = (w', c') ∧ w'.Raw ∧ w'.buffered = [] ∧ w'.stop = w.stop ∧ w'.type = w.type ∧
      Sends c w.buffered c' := by
  have whole : w.encapsulated requestId = w.buffered := if_pos raw.rawWrite
  by_cases none : w.buffered = []
  · refine ⟨w, c, ?_, raw, none, rfl, rfl, none ▸ .refl writable⟩
    rw [Writer.emptyBuff, if_pos (whole.trans none)]
  · obtain ⟨c', goes, sends⟩ := writable.sends (w.encapsulated requestId)
    refine ⟨{ w with buffered := [], isAnythingWritten := true }, c', ?_, { raw with fits := Nat.zero_le _ }, rfl, rfl, rfl,
      whole ▸ sends⟩
    rw [Writer.emptyBuff, if_neg (by rwa [whole]), goes]

theorem putStrLoop_raw {fuel : Nat} (requestId : Nat) (str : Bytes) (raw : w.Raw) (writable : c.Writable)
    (enough : str.length + (if w.room = 0 then 1 else 0) < fuel) :
    ∃ w' c' sent, w.putStrLoop requestId fuel str c = (true, w', c') ∧ w'.Raw ∧ w'.stop = w.stop ∧ w'.type = w.type ∧
      Sends c sent c' ∧ sent ++ w'.buffered = w.buffered ++ str := by
  induction fuel generalizing str w c with
  | zero => simp at enough
  | succ fuel ih =>
      have room : w.room = w.stop - w.buffered.length := by rw [Writer.room, raw.wrNext]
      have fits := raw.fits
      rw [Writer.putStrLoop]
      by_cases within : str.length ≤ w.room
      · rw [if_pos within]
        refine ⟨_, c, [], rfl, { raw with fits := ?_ }, rfl, rfl, .refl writable, rfl⟩
        change (w.buffered ++ str).length ≤ w.stop
        rw [List.length_append]
        omega
      · rw [if_neg within]
        dsimp only
        rw [if_neg (by simp [raw.isClosed])]
        have filled : { w with buffered := w.buffered ++ str.take w.room }.Raw := by
          refine { raw with fits := ?_ }
          change (w.buffered ++ str.take w.room).length ≤ w.stop
          rw [List.length_append, List.length_take]
          omega
        obtain ⟨w₁, c₁, empties, raw₁, none, stop, type, sends⟩ := emptyBuff_raw requestId filled writable
        have room₁ : w₁.room = w.stop := by
          rw [Writer.room, raw₁.wrNext, none, stop]
          rfl
        have pos := raw.some
        obtain ⟨w', c', sent, goes, raw', stop', type', sends', same⟩ :=
          ih (str.drop w.room) raw₁ sends.writable (by
            rw [room₁, if_neg (by omega), List.length_drop]
            split_ifs at enough <;> omega)
        rw [empties]
        refine ⟨w', c', _, goes, raw', stop'.trans stop, type'.trans type, sends.trans sends', ?_⟩
        rw [List.append_assoc, same, none]
        change w.buffered ++ str.take w.room ++ ([] ++ str.drop w.room) = _
        rw [List.nil_append, List.append_assoc, List.take_append_drop]

theorem putStr_raw (requestId : Nat) (str : Bytes) (raw : w.Raw) (writable : c.Writable) :
    ∃ w' c' sent, w.putStr requestId str c = (true, w', c') ∧ w'.Raw ∧ w'.stop = w.stop ∧ w'.type = w.type ∧
      Sends c sent c' ∧ sent ++ w'.buffered = w.buffered ++ str :=
  putStrLoop_raw requestId str raw writable (by split_ifs <;> omega)

end Raw

def eofBytes (type : UInt8) (requestId : Nat) : Bytes := (makeHeader type requestId 0 0).bytes

def Writer.Silent (w : Writer) : Prop :=
  w.type = RecordType.stderr ∧ w.buffered = [] ∧ w.isAnythingWritten = false

instance (w : Writer) : Decidable w.Silent := inferInstanceAs (Decidable (_ ∧ _ ∧ _))

section Close
variable {request : Request} {w : Writer} {c : Connection}

def closeBytes (request : Request) (w : Writer) : Bytes :=
  (if w.Silent then [] else eofBytes w.type request.requestId) ++
    (if request.nWriters = 1 then endRequestRecord request.requestId request.appStatus .requestComplete else [])

theorem writeCloseRecords_raw (request : Request) (raw : { w with rawWrite := true }.Raw) (writable : c.Writable) :
    ∃ w' c' sent, w.writeCloseRecords request c = (w', c') ∧ w'.Raw ∧ Sends c sent c' ∧
      sent ++ w'.buffered = w.buffered ++ closeBytes request w := by
  have first : ∃ w' c' sent,
      (if w.Silent then (({ w with rawWrite := true } : Writer), c)
        else (Writer.putStr request.requestId (eofBytes w.type request.requestId) { w with rawWrite := true } c).2) =
        (w', c') ∧ w'.Raw ∧ Sends c sent c' ∧
      sent ++ w'.buffered = w.buffered ++ (if w.Silent then [] else eofBytes w.type request.requestId) := by
    by_cases silent : w.Silent
    · refine ⟨_, c, [], if_pos silent, raw, .refl writable, ?_⟩
      rw [if_pos silent, List.append_nil]
      rfl
    · obtain ⟨w', c', sent, goes, raw', -, -, sends, same⟩ :=
        putStr_raw request.requestId (eofBytes w.type request.requestId) raw writable
      refine ⟨w', c', sent, ?_, raw', sends, ?_⟩
      · rw [if_neg silent, goes]
      · rw [if_neg silent]
        exact same
  obtain ⟨w₁, c₁, sent, goes, raw₁, sends, same⟩ := first
  have behind : w.writeCloseRecords request c =
      if request.nWriters = 1 then
        (w₁.putStr request.requestId (endRequestRecord request.requestId request.appStatus .requestComplete) c₁).2
      else (w₁, c₁) := by
    rw [Writer.writeCloseRecords]
    exact congrArg (fun x : Writer × Connection => if request.nWriters = 1 then
      (x.1.putStr request.requestId (endRequestRecord request.requestId request.appStatus .requestComplete) x.2).2
      else x) goes
  rw [behind, closeBytes]
  by_cases last : request.nWriters = 1
  · obtain ⟨w₂, c₂, sent₂, goes₂, raw₂, -, -, sends₂, same₂⟩ := putStr_raw request.requestId
      (endRequestRecord request.requestId request.appStatus .requestComplete) raw₁ sends.writable
    refine ⟨w₂, c₂, sent ++ sent₂, ?_, raw₂, sends.trans sends₂, ?_⟩
    · rw [if_pos last]
      exact congrArg Prod.snd goes₂
    · rw [if_pos last, List.append_assoc, same₂, ← List.append_assoc, same, List.append_assoc]
  · refine ⟨w₁, c₁, sent, if_neg last, raw₁, sends, ?_⟩
    rw [if_neg last, List.append_nil, same]

theorem fclose_open {type : UInt8} (open' : w.Open type) (bound : request.requestId < 2 ^ 16) (writable : c.Writable) :
    ∃ w' c', w.fclose request c = (true, w', { request with nWriters := request.nWriters - 1 }, c') ∧
      w'.isClosed = true ∧ w'.wasFCloseCalled = true ∧ w'.room = 0 ∧ w'.errno = 0 ∧
      Sends c (w.encapsulated request.requestId ++ closeBytes request w) c' := by
  have short : (w.encapsulated request.requestId).length ≤ w.stop ∧
      (w.encapsulated request.requestId = [] ↔ w.buffered = []) := by
    have raw : ¬ w.rawWrite = true := by simp [open'.rawWrite]
    by_cases none : w.buffered = []
    · rw [Writer.encapsulated, if_neg raw, if_pos none]
      exact ⟨Nat.zero_le _, fun _ => none, fun _ => rfl⟩
    · obtain ⟨record, -, -, encode, le⟩ := open'.record bound none
      refine ⟨le, fun nothing => absurd (encode.trans nothing) record.encode_ne_nil, fun nothing => absurd nothing none⟩
  have raw : Writer.Raw { w with buffered := w.encapsulated request.requestId, rawWrite := true } :=
    ⟨open'.isClosed, rfl, open'.errno, Nat.lt_of_le_of_lt (Nat.zero_le _) open'.more, short.1⟩
  obtain ⟨w₁, c₁, sent, goes, raw₁, sends, same⟩ := writeCloseRecords_raw request
    (w := { w with buffered := w.encapsulated request.requestId }) raw writable
  obtain ⟨w₂, c₂, empties, raw₂, none, -, -, sends₂⟩ := emptyBuff_raw request.requestId raw₁ sends.writable
  have bytes : closeBytes request { w with buffered := w.encapsulated request.requestId } = closeBytes request w := by
    have silent : Writer.Silent { w with buffered := w.encapsulated request.requestId } ↔ w.Silent := by
      simp only [Writer.Silent, short.2]
    simp only [closeBytes, silent]
  rw [Writer.fclose, if_neg (by simp [open'.wasFCloseCalled])]
  dsimp only
  rw [goes]
  dsimp only
  rw [empties]
  refine ⟨{ w₂ with wasFCloseCalled := true, isClosed := true, stop := w₂.wrNext }, c₂, ?_, rfl, rfl, ?_, raw₂.errno, ?_⟩
  · rw [raw₂.errno]
    rfl
  · exact Nat.sub_self _
  · have all := sends.trans sends₂
    rwa [same, bytes] at all

end Close

end HvmlFpm.Fcgi
