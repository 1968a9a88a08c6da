import HvmlFpm.Fcgi.Demux

/-!
# What the writers share with the reader

The writers of a request write to the connection that its reader reads from, and they count themselves in it. A reader
goes the same way whatever they do there, and what it writes itself is the same.
-/

namespace HvmlFpm.Fcgi
open Library

structure Shared where
  appStatus : Int
  nWriters : Nat
  writes : List OsWrite
  written : Bytes

def Shared.Writable (s : Shared) : Prop := ∀ errno, .failed errno ∉ s.writes

def Reader.beside (r : Reader) (s : Shared) : Reader :=
  { r with
      request := { r.request with appStatus := s.appStatus, nWriters := s.nWriters }
      connection := { r.connection with writes := s.writes, written := s.written } }

def Reader.shared (r : Reader) : Shared :=
  ⟨r.request.appStatus, r.request.nWriters, r.connection.writes, r.connection.written⟩

@[simp] theorem Reader.beside_shared (r : Reader) : r.beside r.shared = r := rfl

@[simp] theorem Reader.shared_beside (r : Reader) (s : Shared) : (r.beside s).shared = s := rfl

@[simp] theorem Reader.beside_beside (r : Reader) (s s' : Shared) : (r.beside s).beside s' = r.beside s' := rfl

structure Shared.Sends (s : Shared) (response : Bytes) (s' : Shared) : Prop where
  appStatus : s'.appStatus = s.appStatus
  nWriters : s'.nWriters = s.nWriters
  written : s'.written = s.written ++ response
  writable : s'.Writable

section Sends
variable {s s' s'' : Shared} {x y : Bytes}

theorem Shared.Sends.refl (writable : s.Writable) : s.Sends [] s := ⟨rfl, rfl, (List.append_nil _).symm, writable⟩

theorem Shared.Sends.trans (first : s.Sends x s') (second : s'.Sends y s'') : s.Sends (x ++ y) s'' := by
  refine ⟨second.appStatus.trans first.appStatus, second.nWriters.trans first.nWriters, ?_, second.writable⟩
  rw [second.written, first.written, List.append_assoc]

end Sends

/-- From `r`, what `f` gives does not depend on what is shared, and neither does what it writes. -/
def Steady {β : Type} (act : β → Shared → β) (f : Reader → β) (r : Reader) : Prop :=
  ∃ b response, ∀ s, s.Writable → ∃ s', s.Sends response s' ∧ f (r.beside s) = act b s'

def besideAnswer {α : Type} (x : α × Reader) (s : Shared) : α × Reader := (x.1, x.2.beside s)

def Turn.beside : Turn → Shared → Turn
  | .returns r, s => .returns (r.beside s)
  | .continues r header, s => .continues (r.beside s) header

theorem Steady.quiet {β : Type} {act : β → Shared → β} {f : Reader → β} {r : Reader} (b : β)
    (same : ∀ s, f (r.beside s) = act b s) : Steady act f r :=
  ⟨b, [], fun s writable => ⟨s, .refl writable, same s⟩⟩

theorem Steady.congr {β : Type} {act : β → Shared → β} {f g : Reader → β} {r t : Reader} (steady : Steady act g t)
    (same : ∀ s, f (r.beside s) = g (t.beside s)) : Steady act f r := by
  obtain ⟨b, response, goes⟩ := steady
  refine ⟨b, response, fun s writable => ?_⟩
  rw [same s]
  exact goes s writable

theorem Steady.andThen {β γ : Type} {act : β → Shared → β} {f : Reader → β} {g : β → γ} {r : Reader}
    (first : Steady act f r) (act' : γ → Shared → γ)
    (second : ∀ b, ∃ c response, ∀ s, s.Writable → ∃ s', s.Sends response s' ∧ g (act b s) = act' c s') :
    Steady act' (fun r => g (f r)) r := by
  obtain ⟨b, x, goes⟩ := first
  obtain ⟨c, y, goes'⟩ := second b
  refine ⟨c, x ++ y, fun s writable => ?_⟩
  obtain ⟨s', sends, same⟩ := goes s writable
  obtain ⟨s'', sends', same'⟩ := goes' s' sends.writable
  exact ⟨s'', sends.trans sends', (congrArg g same).trans same'⟩

section Loop
variable {process : Header → Reader → Status × Reader} {r : Reader} {header : Bytes}

theorem interpreted_beside (x : Status × Reader) (s : Shared) :
    interpreted (besideAnswer x s) = (interpreted x).beside s := by
  obtain ⟨status, r⟩ := x
  cases status with
  | streamRecord =>
      change (if r.contentLen = 0 then _ else _) = Turn.beside (if r.contentLen = 0 then _ else _) s
      split_ifs <;> rfl
  | skip => rfl
  | beginRecord => rfl
  | mgmtRecord => rfl
  | error errno => rfl

variable (steady : ∀ header r, Steady besideAnswer (process header) r)
include steady

theorem behindRecord_steady (r : Reader) (header : Bytes) :
    Steady Turn.beside (fun r => behindRecord process r header) r := by
  by_cases eor : r.eorStop = true
  · refine .quiet (.returns { r with avail := [], isClosed := true }) fun s => ?_
    rw [behindRecord_eor (r := r.beside s) eor]
    rfl
  · have next : Steady Turn.beside
        (fun r => interpreted (process
          (.ofBytes (header ++ r.rest.take (min (headerLen - header.length) r.rest.length)))
          { r with
              rest := r.rest.drop (min (headerLen - header.length) r.rest.length), eorStop := true, avail := [] })) r := by
      obtain ⟨x, response, goes⟩ :=
        steady (.ofBytes (header ++ r.rest.take (min (headerLen - header.length) r.rest.length)))
        { r with rest := r.rest.drop (min (headerLen - header.length) r.rest.length), eorStop := true, avail := [] }
      refine ⟨interpreted x, response, fun s writable => ?_⟩
      obtain ⟨s', sends, same⟩ := goes s writable
      exact ⟨s', sends, (congrArg interpreted same).trans (interpreted_beside x s')⟩
    by_cases few : (header ++ r.rest.take (min (headerLen - header.length) r.rest.length)).length < headerLen
    · refine .quiet (.continues { r with rest := r.rest.drop (min (headerLen - header.length) r.rest.length) }
        (header ++ r.rest.take (min (headerLen - header.length) r.rest.length))) fun s => ?_
      rw [behindRecord]
      exact (if_neg (c := r.eorStop = true) eor).trans (if_pos few)
    · refine next.congr fun s => ?_
      rw [behindRecord]
      exact (if_neg (c := r.eorStop = true) eor).trans (if_neg few)

theorem behindContent_steady (r : Reader) (header : Bytes) :
    Steady Turn.beside (fun r => behindContent process r header) r := by
  rcases Nat.lt_or_ge r.rest.length r.paddingLen with few | enough
  · refine .quiet (.continues { r with paddingLen := r.paddingLen - r.rest.length, rest := [] } header) fun s => ?_
    rw [behindContent_few (r := r.beside s) few]
    rfl
  · refine (behindRecord_steady steady { r with paddingLen := 0, rest := r.rest.drop r.paddingLen } header).congr fun s => ?_
    rw [behindContent_enough (r := r.beside s) enough]
    rfl

theorem filledTurn_steady (r : Reader) (header : Bytes) :
    Steady Turn.beside (fun r => filledTurn process r header) r := by
  rcases Nat.eq_zero_or_pos r.contentLen with none | some
  · refine (behindContent_steady steady r header).congr fun s => ?_
    rw [filledTurn_behind (r := r.beside s) none]
  · cases skip : r.skip with
    | false =>
        refine .quiet (.returns { r with
          contentLen := r.contentLen - min r.contentLen r.rest.length
          avail := r.rest.take (min r.contentLen r.rest.length)
          rest := r.rest.drop (min r.contentLen r.rest.length) }) fun s => ?_
        rw [filledTurn_deliver (r := r.beside s) skip some]
        rfl
    | true =>
        rcases Nat.lt_or_ge r.rest.length r.contentLen with few | enough
        · refine .quiet (.continues { r with contentLen := r.contentLen - r.rest.length, rest := [] } header) fun s => ?_
          rw [filledTurn_few (r := r.beside s) skip few]
          rfl
        · refine (behindContent_steady steady
            { r with contentLen := 0, skip := false, rest := r.rest.drop r.contentLen } header).congr fun s => ?_
          rw [filledTurn_enough (r := r.beside s) skip some enough]
          rfl

omit steady in
theorem refill_beside (r : Reader) (s : Shared) : refill (r.beside s) =
    match refill r with
    | .ok r => .ok (r.beside s)
    | .error r => .error (r.beside s) := by
  by_cases none : r.rest = []
  · have none' : (r.beside s).rest = [] := none
    rw [refill, refill, if_pos none, if_pos none']
    cases found : readPieces (bufferSize 8192) r.connection.arriving with
    | some piece =>
        have found' : readPieces (bufferSize 8192) (r.beside s).connection.arriving = some piece := found
        rw [found']
        rfl
    | none =>
        have found' : readPieces (bufferSize 8192) (r.beside s).connection.arriving = Option.none := found
        rw [found']
        cases ending : r.connection.ending with
        | closed =>
            have ending' : (r.beside s).connection.ending = .closed := ending
            rw [ending']
            rfl
        | failed errno =>
            have ending' : (r.beside s).connection.ending = .failed errno := ending
            rw [ending']
            rfl
  · rw [refill_of_rest none, refill_of_rest (r := r.beside s) none]

theorem fillTurn_steady (r : Reader) (header : Bytes) :
    Steady Turn.beside (fun r => fillTurn process r header) r := by
  cases filled : refill r with
  | ok r' =>
      refine (filledTurn_steady steady r' header).congr fun s => ?_
      rw [fillTurn, refill_beside, filled]
  | error r' =>
      refine .quiet (.returns r') fun s => ?_
      rw [fillTurn, refill_beside, filled]
      rfl

def Turn.onwards (loop : Reader → Bytes → Reader) : Turn → Reader
  | .returns r => r
  | .continues r header => loop r header

theorem fillLoop_steady (fuel : Nat) (r : Reader) (header : Bytes) :
    Steady Reader.beside (fun r => fillLoop process fuel r header) r := by
  induction fuel generalizing r header with
  | zero => exact .quiet r fun s => rfl
  | succ fuel ih =>
      have next := (fillTurn_steady steady r header).andThen Reader.beside
        (g := Turn.onwards (fillLoop process fuel)) fun turn => by
          cases turn with
          | returns t => exact ⟨t, [], fun s writable => ⟨s, .refl writable, rfl⟩⟩
          | continues t header' => exact ih t header'
      refine next.congr fun s => ?_
      rw [fillLoop]
      cases fillTurn process (r.beside s) header with
      | returns t => rfl
      | continues t header' => rfl

theorem fillBuff_steady (r : Reader) : Steady Reader.beside (fillBuff process) r :=
  fillLoop_steady steady (r.left + 1) r []

end Loop

section Reading
variable {fill : Reader → Reader} {r e : Reader} {bs : Bytes} (steady : ∀ r, Steady Reader.beside fill r)

theorem fromBuffer_beside (r : Reader) (s : Shared) : fromBuffer (r.beside s) = besideAnswer (fromBuffer r) s := by
  cases available : r.avail with
  | nil =>
      have none : (r.beside s).avail = [] := available
      rw [fromBuffer, fromBuffer, available, none]
      rfl
  | cons c avail =>
      have some : (r.beside s).avail = c :: avail := available
      rw [fromBuffer, fromBuffer, available, some]
      rfl

include steady

theorem getChar_steady (r : Reader) : Steady besideAnswer (getChar fill) r := by
  cases closed : r.isClosed with
  | true =>
      refine .quiet (none, r) fun s => ?_
      rw [getChar_closed (r := r.beside s) closed]
      rfl
  | false =>
      by_cases empty : r.avail = []
      · have next := (steady r).andThen besideAnswer
          (g := fun f => if f.isClosed then (none, f) else fromBuffer f) fun f => by
            refine ⟨if f.isClosed then (none, f) else fromBuffer f, [], fun s writable => ⟨s, .refl writable, ?_⟩⟩
            change (if f.isClosed then (none, f.beside s) else fromBuffer (f.beside s)) = _
            rw [fromBuffer_beside]
            split_ifs <;> rfl
        refine next.congr fun s => ?_
        rw [getChar_fill (r := r.beside s) closed empty]
      · refine .quiet (fromBuffer r) fun s => ?_
        rw [getChar_avail (r := r.beside s) closed empty, fromBuffer_beside]

theorem pulls_steady (n : Nat) (r : Reader) : Steady besideAnswer (pulls (getChar fill) n) r := by
  induction n generalizing r with
  | zero => exact .quiet ([], r) fun s => rfl
  | succ n ih =>
      have next := (getChar_steady steady r).andThen besideAnswer
        (g := fun x => x.1.elim (([] : Bytes), x.2)
          fun b => (b :: (pulls (getChar fill) n x.2).1, (pulls (getChar fill) n x.2).2)) fun x => by
          obtain ⟨given, t⟩ := x
          cases given with
          | none => exact ⟨([], t), [], fun s writable => ⟨s, .refl writable, rfl⟩⟩
          | some b =>
              obtain ⟨x, response, goes⟩ := ih t
              refine ⟨(b :: x.1, x.2), response, fun s writable => ?_⟩
              obtain ⟨s', sends, same⟩ := goes s writable
              exact ⟨s', sends, congrArg (fun x => (b :: x.1, x.2)) same⟩
      refine next.congr fun s => ?_
      rw [pulls]
      cases getChar fill (r.beside s) with
      | mk given t => cases given <;> rfl

end Reading

/-- The stream yields `bs`, and `replies` are written for it, whatever the writers do. -/
def Streams (fill : Reader → Reader) (r : Reader) (bs replies : Bytes) (t : Reader) : Prop :=
  ∀ s, s.Writable → ∃ s', s.Sends replies s' ∧ Yields (getChar fill) (r.beside s) bs (t.beside s')

section Streams
variable {fill : Reader → Reader} {r e : Reader} {bs : Bytes} (steady : ∀ r, Steady Reader.beside fill r)
include steady

theorem exists_streams (yields : Yields (getChar fill) r bs e) (writable : r.connection.Writable) :
    ∃ replies t, Streams fill r bs replies t := by
  induction yields with
  | @nil r e ends =>
      obtain ⟨x, response, goes⟩ := getChar_steady steady r
      obtain ⟨s', -, same⟩ := goes r.shared writable
      have none : x.1 = Option.none := congrArg Prod.fst (same.symm.trans ends)
      refine ⟨response, x.2, fun s writable => ?_⟩
      obtain ⟨s', sends, same⟩ := goes s writable
      exact ⟨s', sends, .nil (same.trans (Prod.ext none rfl))⟩
  | @cons r t e c bs gives rest ih =>
      obtain ⟨x, response, goes⟩ := getChar_steady steady r
      obtain ⟨s', sends, same⟩ := goes r.shared writable
      have same := same.symm.trans gives
      have some : x.1 = Option.some c := congrArg Prod.fst same
      have next : x.2.beside s' = t := congrArg Prod.snd same
      obtain ⟨replies, e', streams⟩ := ih (next ▸ sends.writable)
      refine ⟨response ++ replies, e', fun s writable => ?_⟩
      obtain ⟨s₁, sends₁, same⟩ := goes s writable
      obtain ⟨s₂, sends₂, rest⟩ := streams s₁ sends₁.writable
      rw [← next, Reader.beside_beside] at rest
      exact ⟨s₂, sends₁.trans sends₂, .cons (same.trans (Prod.ext some rfl)) rest⟩

end Streams

/-! ## The processing of headers -/

theorem Shared.Writable.sends {s : Shared} (writable : s.Writable) (buf : Bytes) (r : Reader) :
    ∃ s', s.Sends buf s' ∧ (r.beside s).write buf = (none, r.beside s') := by
  obtain ⟨left, goes, succeeds⟩ := writeItAll_writable writable buf
  refine ⟨{ s with writes := left, written := s.written ++ buf }, ⟨rfl, rfl, rfl, succeeds⟩, ?_⟩
  have wrote : (r.beside s).connection.write buf =
      (none, { (r.beside s).connection with writes := left, written := s.written ++ buf }) := by
    have writes : (r.beside s).connection.writes = s.writes := rfl
    rw [Connection.write, writes, goes]
    rfl
  rw [Reader.write, wrote]
  rfl

theorem respond_steady (response : Bytes) (status : Status) (r : Reader) :
    Steady besideAnswer (respond response status) r := by
  refine ⟨(status, r), response, fun s writable => ?_⟩
  obtain ⟨s', sends, wrote⟩ := writable.sends response r
  refine ⟨s', sends, ?_⟩
  rw [respond, wrote]
  rfl

theorem fillRecord_steady (r : Reader) : Steady Reader.beside fillRecord r :=
  fillBuff_steady (fun _ r => .quiet (.error 0, r) fun _ => rfl) r

theorem getStr_steady (n : Nat) (r : Reader) : Steady besideAnswer (getStr fillRecord n) r := by
  refine (pulls_steady fillRecord_steady n r).congr fun s => ?_
  exact getStr_eq_pulls feeds_record trivial

theorem readParams_steady (params : Params) (r : Reader) : Steady besideAnswer (readParams fillRecord params) r := by
  obtain ⟨bs, e, yields⟩ := feeds_record.yields (r := r.beside ⟨0, 0, [], []⟩) trivial
  obtain ⟨replies, t, streams⟩ := exists_streams fillRecord_steady yields fun errno member => by cases member
  refine ⟨(⟨(parsePairs bs).complete, params.putAll ((parsePairs bs).pairs.map NameValue.entry), (parsePairs bs).fits⟩,
    if (parsePairs bs).complete then t else t.setError paramsError), replies, fun s writable => ?_⟩
  obtain ⟨s', sends, yields⟩ := streams s writable
  refine ⟨s', sends, (readParams_yields feeds_record trivial yields params).trans ?_⟩
  split_ifs <;> rfl

theorem processManagementRecord_steady (type : UInt8) (r : Reader) :
    Steady besideAnswer (processManagementRecord type) r := by
  by_cases values : type = RecordType.getValues
  · have next := (readParams_steady (newParams 3 (by decide)) r).andThen besideAnswer
      (g := fun x =>
        let r := { x.2 with fault := x.2.fault || !x.1.fits }
        if r.errno ≠ 0 ∨ r.contentLen ≠ 0 then (.error protocolError, r)
        else
          respond (valuesResponse r.stack x.1.params.vec) .mgmtRecord
            { r with fault := r.fault || !responseFits x.1.params.vec }) fun x => by
        by_cases failed : x.2.errno ≠ 0 ∨ x.2.contentLen ≠ 0
        · exact ⟨(.error protocolError, { x.2 with fault := x.2.fault || !x.1.fits }), [],
            fun s writable => ⟨s, .refl writable, if_pos failed⟩⟩
        · obtain ⟨y, response, goes⟩ := respond_steady (valuesResponse x.2.stack x.1.params.vec) .mgmtRecord
            { x.2 with fault := x.2.fault || !x.1.fits || !responseFits x.1.params.vec }
          refine ⟨y, response, fun s writable => ?_⟩
          obtain ⟨s', sends, same⟩ := goes s writable
          exact ⟨s', sends, (if_neg failed).trans same⟩
    refine next.congr fun s => ?_
    rw [processManagementRecord, if_pos values]
  · refine (respond_steady ((makeHeader RecordType.unknownType 0 headerLen 0).bytes ++ makeUnknownTypeBody type)
      .mgmtRecord r).congr fun s => ?_
    rw [processManagementRecord, if_neg values]

theorem processBeginRecord_steady (requestId : Nat) (r : Reader) :
    Steady besideAnswer (processBeginRecord requestId) r := by
  by_cases invalid : requestId = 0 ∨ r.contentLen ≠ 8
  · exact .quiet (.error protocolError, r) fun s => if_pos invalid
  · by_cases begun : r.request.isBeginProcessed = true
    · refine (respond_steady (endRequestRecord requestId 0 .cantMpxConn) .skip r).congr fun s => ?_
      exact (if_neg (c := requestId = 0 ∨ r.contentLen ≠ 8) invalid).trans (if_pos begun)
    · have next := (getStr_steady 8 { r with request := { r.request with requestId } }).andThen besideAnswer
        (g := fun x => if x.1.length = 8 then (Status.beginRecord, { x.2 with request := x.2.request.begin x.1 })
          else (Status.error protocolError, x.2)) fun x => by
          by_cases whole : x.1.length = 8
          · exact ⟨(.beginRecord, { x.2 with request := x.2.request.begin x.1 }), [],
              fun s writable => ⟨s, .refl writable, if_pos whole⟩⟩
          · exact ⟨(.error protocolError, x.2), [], fun s writable => ⟨s, .refl writable, if_neg whole⟩⟩
      refine next.congr fun s => ?_
      exact (if_neg (c := requestId = 0 ∨ r.contentLen ≠ 8) invalid).trans (if_neg begun)

theorem processHeader_steady (header : Header) (r : Reader) : Steady besideAnswer (processHeader header) r := by
  have eq (s : Shared) := processHeader_eq header (r.beside s)
  by_cases version : header.version ≠ 1
  · exact .quiet (.error unsupportedVersion, r) fun s => (eq s).trans (if_pos version)
  · by_cases begins : header.type = RecordType.beginRequest
    · refine (processBeginRecord_steady header.requestId (r.announced header)).congr fun s => ?_
      exact (eq s).trans ((if_neg version).trans (if_pos begins))
    · by_cases management : header.requestId = 0
      · refine (processManagementRecord_steady header.type (r.announced header)).congr fun s => ?_
        exact (eq s).trans ((if_neg version).trans ((if_neg begins).trans (if_pos management)))
      · refine .quiet
          (if header.requestId ≠ r.request.requestId then (.skip, r.announced header)
            else if header.type ≠ r.type then (.error protocolError, r.announced header)
            else (.streamRecord, r.announced header)) fun s => ?_
        refine (eq s).trans ((if_neg version).trans ((if_neg begins).trans ((if_neg management).trans ?_)))
        change (if header.requestId ≠ r.request.requestId then _ else if header.type ≠ r.type then _ else _) = _
        split_ifs <;> rfl

theorem fillBuffProc_steady (r : Reader) : Steady Reader.beside fillBuffProc r := fillBuff_steady processHeader_steady r

end HvmlFpm.Fcgi
