import HvmlFpm.Fcgi.Demux
import HvmlFpm.Library.Program

/-!
# Programs that read

For a program that reads, a stream is nothing but the bytes that it has not read yet: every call takes a segment of
them. How the bytes came to the reader makes no difference to it.
-/

namespace HvmlFpm.Fcgi
open Library

inductive ReadCall
  | getChar
  | getStr (n : Nat)
  | getLine (n : Nat)
  | fread (size nmemb : Nat)
  | hasSeenEOF

def ReadCall.Answer : ReadCall → Type
  | .getChar => Option UInt8
  | .getStr _ => Bytes
  | .getLine _ => Option Bytes
  | .fread _ _ => Bytes × Nat
  | .hasSeenEOF => Bool

def ReadCall.perform (fill : Reader → Reader) : (c : ReadCall) → Reader → c.Answer × Reader
  | .getChar, r => Fcgi.getChar fill r
  | .getStr n, r => Fcgi.getStr fill n r
  | .getLine n, r => Fcgi.getLine fill n r
  | .fread size nmemb, r => Fcgi.fread fill size nmemb r
  | .hasSeenEOF, r => (r.isClosed, r)

structure Unread where
  bytes : Bytes
  ended : Bool

def Unread.take (u : Unread) (n : Nat) : Bytes × Unread :=
  if n ≤ u.bytes.length then (u.bytes.take n, { u with bytes := u.bytes.drop n }) else (u.bytes, ⟨[], true⟩)

def ReadCall.asks : ReadCall → Bytes → Nat
  | .getChar, _ => 1
  | .getStr n, _ => n
  | .getLine n, bytes => min (n - 1) (bytes.findIdx (· == 10) + 1)
  | .fread size nmemb, _ => itemBytes size nmemb
  | .hasSeenEOF, _ => 0

def ReadCall.answers : (c : ReadCall) → Unread → Bytes → c.Answer
  | .getChar, _, segment => segment.head?
  | .getStr _, _, segment => segment
  | .getLine n, _, segment => if segment = [] ∧ 0 < n - 1 then none else some segment
  | .fread size _, _, segment => (segment, segment.length / size)
  | .hasSeenEOF, u, _ => u.ended

def ReadCall.read (c : ReadCall) (u : Unread) : c.Answer × Unread :=
  (c.answers u (u.take (c.asks u.bytes)).1, (u.take (c.asks u.bytes)).2)

section Reads
variable {fill : Reader → Reader} {P : Reader → Prop} {r e : Reader} {u : Unread} {bs : Bytes}

/-- The reader yields the bytes, and is closed once it has been asked for more. -/
structure Holds (fill : Reader → Reader) (P : Reader → Prop) (e : Reader) (r : Reader) (u : Unread) : Prop where
  kept : P r
  yields : Yields (getChar fill) r u.bytes e
  closed : r.isClosed = u.ended

theorem getLineLoop_eq_pulls (yields : Yields (getChar fill) r bs e) (n : Nat) :
    getLineLoop fill n r = pulls (getChar fill) (min n (bs.findIdx (· == 10) + 1)) r := by
  induction n generalizing r bs with
  | zero => rw [Nat.zero_min]; rfl
  | succ n ih =>
      rw [getLineLoop]
      cases yields with
      | nil ends =>
          have asks : min (n + 1) (List.findIdx (· == 10) ([] : Bytes) + 1) = 0 + 1 := by
            rw [List.findIdx_nil]
            omega
          rw [asks, pulls, ends]
      | @cons _ s _ c bs gives rest =>
          rw [gives]
          by_cases newline : c = 10
          · have asks : min (n + 1) (List.findIdx (· == 10) (c :: bs) + 1) = 0 + 1 := by
              rw [List.findIdx_cons, newline]
              simp
            rw [asks, pulls, gives]
            simp [newline, pulls]
          · have asks : min (n + 1) (List.findIdx (· == 10) (c :: bs) + 1) = min n (bs.findIdx (· == 10) + 1) + 1 := by
              have other : (c == 10) = false := by simp [newline]
              rw [List.findIdx_cons, other, cond_false]
              omega
            rw [asks, pulls, gives]
            simp only [newline, if_false, ih rest]

theorem getChar_open {c : UInt8} {s : Reader} (gives : getChar fill r = (some c, s)) :
    r.isClosed = false ∧ s.isClosed = false := by
  have after {f : Reader} (open' : f.isClosed = false) (gives : fromBuffer f = (some c, s)) : s.isClosed = false := by
    rw [fromBuffer] at gives
    cases available : f.avail with
    | nil => simp [available] at gives
    | cons c' avail =>
        rw [available] at gives
        obtain ⟨-, rfl⟩ := Prod.mk.inj gives
        exact open'
  cases now : r.isClosed with
  | true => simp [getChar_closed now] at gives
  | false =>
      refine ⟨rfl, ?_⟩
      by_cases empty : r.avail = []
      · rw [getChar_fill now empty] at gives
        cases still : (fill r).isClosed with
        | true =>
            rw [if_pos still] at gives
            cases (Prod.mk.inj gives).1
        | false =>
            rw [if_neg (by simp [still])] at gives
            exact after still gives
      · rw [getChar_avail now empty] at gives
        exact after now gives

theorem pulls_isClosed {n : Nat} (yields : Yields (getChar fill) r bs e) (within : n ≤ bs.length) :
    (pulls (getChar fill) n r).2.isClosed = r.isClosed := by
  induction n generalizing r bs with
  | zero => rfl
  | succ n ih =>
      cases yields with
      | nil ends => simp at within
      | cons gives rest =>
          obtain ⟨open', open''⟩ := getChar_open gives
          rw [pulls, gives]
          exact (ih rest (Nat.le_of_succ_le_succ within)).trans (open''.trans open'.symm)

variable (feeds : Feeds fill P)
include feeds

theorem Holds.pulls (holds : Holds fill P e r u) (n : Nat) :
    (pulls (getChar fill) n r).1 = (u.take n).1 ∧ Holds fill P e (pulls (getChar fill) n r).2 (u.take n).2 := by
  have kept := pulls_keeps feeds holds.kept n
  rw [Unread.take]
  by_cases within : n ≤ u.bytes.length
  · have same := (pulls_isClosed holds.yields within).trans holds.closed
    obtain ⟨s, taken, rest⟩ := holds.yields.pulls_within within
    rw [if_pos within]
    rw [taken] at kept same ⊢
    exact ⟨rfl, kept, rest, same⟩
  · have all := holds.yields.pulls_beyond (Nat.lt_of_not_le within)
    have closed := feeds.ends_closed holds.kept holds.yields
    rw [if_neg within]
    rw [all] at kept ⊢
    exact ⟨rfl, kept, .nil (getChar_closed closed), closed⟩

theorem perform_eq (holds : P r) (yields : Yields (getChar fill) r bs e) (c : ReadCall) :
    c.perform fill r =
      (c.answers ⟨bs, r.isClosed⟩ (pulls (getChar fill) (c.asks bs) r).1, (pulls (getChar fill) (c.asks bs) r).2) := by
  cases c with
  | getChar =>
      have one : pulls (getChar fill) 1 r = ((getChar fill r).1.toList, (getChar fill r).2) := by
        rw [pulls]
        cases getChar fill r with
        | mk given s => cases given <;> rfl
      rw [ReadCall.perform, ReadCall.asks, one, ReadCall.answers]
      cases getChar fill r with
      | mk given s => cases given <;> rfl
  | getStr n => exact getStr_eq_pulls feeds holds
  | getLine n =>
      rw [ReadCall.perform, getLine, getLineLoop_eq_pulls yields]
      rfl
  | fread size nmemb =>
      rw [ReadCall.perform, fread]
      by_cases none : size * nmemb % 2 ^ 64 = 0
      · have nothing : itemBytes size nmemb = 0 := by
          rw [itemBytes]
          split_ifs <;> omega
        rw [if_pos none, ReadCall.asks, nothing]
        exact congrArg (fun n => ((([], n) : Bytes × Nat), r)) (Nat.zero_div size).symm
      · rw [if_neg none, getStr_eq_pulls feeds holds]
        rfl
  | hasSeenEOF => rfl

theorem Holds.perform (holds : Holds fill P e r u) (c : ReadCall) :
    (c.perform fill r).1 = (c.read u).1 ∧ Holds fill P e (c.perform fill r).2 (c.read u).2 := by
  obtain ⟨segment, left⟩ := holds.pulls feeds (c.asks u.bytes)
  rw [ReadCall.read, ← segment, perform_eq feeds holds.kept holds.yields c, holds.closed]
  exact ⟨rfl, left⟩

end Reads

def Reader.Clean (r : Reader) : Prop := r.isClosed = true ∨ r.errno = 0

def Turn.Clean : Turn → Prop
  | .returns r => r.Clean
  | .continues r _ => r.errno = 0

section Clean
variable {process : Header → Reader → Status × Reader} {r : Reader}

theorem interpreted_clean {x : Status × Reader} (clean : x.2.errno = 0 ∨ ∃ errno, x.1 = .error errno) :
    (interpreted x).Clean := by
  obtain ⟨status, r⟩ := x
  cases status with
  | error errno => exact .inl rfl
  | streamRecord =>
      have none : r.errno = 0 := clean.resolve_right (by simp)
      rw [interpreted]
      dsimp only
      split_ifs
      · exact .inl rfl
      · exact none
  | skip => exact clean.resolve_right (by simp)
  | beginRecord => exact .inr (clean.resolve_right (by simp))
  | mgmtRecord => exact clean.resolve_right (by simp)

variable (clean : ∀ header r, r.errno = 0 →
  (process header r).2.errno = 0 ∨ ∃ errno, (process header r).1 = .error errno)
include clean

theorem behindRecord_clean (none : r.errno = 0) (header : Bytes) : (behindRecord process r header).Clean := by
  rw [behindRecord]
  split_ifs
  · exact .inl rfl
  · dsimp only
    split_ifs
    · exact none
    · exact interpreted_clean (clean _ _ none)

theorem behindContent_clean (none : r.errno = 0) (header : Bytes) : (behindContent process r header).Clean := by
  rw [behindContent]
  split_ifs
  · dsimp only
    split_ifs
    · exact none
    · exact behindRecord_clean clean (r := { r with
        paddingLen := r.paddingLen - min r.paddingLen r.rest.length
        rest := r.rest.drop (min r.paddingLen r.rest.length) }) none header
  · exact behindRecord_clean clean none header

theorem filledTurn_clean (none : r.errno = 0) (header : Bytes) : (filledTurn process r header).Clean := by
  rw [filledTurn]
  split_ifs
  · dsimp only
    split_ifs
    · exact none
    · exact behindContent_clean clean (r := { r with
        contentLen := r.contentLen - min r.contentLen r.rest.length
        rest := r.rest.drop (min r.contentLen r.rest.length)
        skip := false }) none header
    · exact .inr none
  · exact behindContent_clean clean none header

omit clean in
theorem refill_clean (r : Reader) :
    (∃ r', refill r = .error r' ∧ r'.isClosed = true) ∨ ∃ r', refill r = .ok r' ∧ r'.errno = r.errno := by
  by_cases none : r.rest = []
  · cases read : readPieces (bufferSize 8192) r.connection.arriving with
    | some found =>
        refine .inr ⟨{ r with rest := found.1, connection := { r.connection with arriving := found.2 } }, ?_, rfl⟩
        rw [refill, if_pos none, read]
    | none =>
        left
        rw [refill_end none (readPieces_none.1 read)]
        exact ⟨_, rfl, rfl⟩
  · exact .inr ⟨r, refill_of_rest none, rfl⟩

theorem fillTurn_clean (none : r.errno = 0) (header : Bytes) : (fillTurn process r header).Clean := by
  rcases refill_clean r with ⟨r', filled, closed⟩ | ⟨r', filled, same⟩
  · rw [fillTurn_error filled]
    exact .inl closed
  · rw [fillTurn_ok filled]
    exact filledTurn_clean clean (same.trans none) header

theorem fillLoop_clean (fuel : Nat) (none : r.errno = 0) (header : Bytes) : (fillLoop process fuel r header).Clean := by
  induction fuel generalizing r header with
  | zero => exact .inr none
  | succ fuel ih =>
      have next := fillTurn_clean clean none header
      rw [fillLoop]
      cases turn : fillTurn process r header with
      | returns r' =>
          rw [turn] at next
          exact next
      | continues r' header' =>
          rw [turn] at next
          exact ih next header'

omit clean in
theorem Reader.Clean.none (clean : r.Clean) (open' : r.isClosed = false) : r.errno = 0 :=
  clean.resolve_left (by simp [open'])

theorem getChar_clean (ok : r.Clean) : (getChar (fillBuff process) r).2.Clean := by
  have buffer {r : Reader} (ok : r.Clean) : (fromBuffer r).2.Clean := by
    rw [fromBuffer]
    cases r.avail with
    | nil => exact ok
    | cons c avail => exact ok
  cases closed : r.isClosed with
  | true => rwa [getChar_closed closed]
  | false =>
      by_cases empty : r.avail = []
      · have filled : (fillBuff process r).Clean := fillLoop_clean clean _ (ok.none closed) []
        rw [getChar_fill closed empty]
        split_ifs
        · exact filled
        · exact buffer filled
      · rw [getChar_avail closed empty]
        exact buffer ok

theorem pulls_clean (ok : r.Clean) (n : Nat) : (pulls (getChar (fillBuff process)) n r).2.Clean := by
  induction n generalizing r with
  | zero => exact ok
  | succ n ih =>
      have next := getChar_clean clean ok
      rw [pulls]
      cases pulled : getChar (fillBuff process) r with
      | mk given s =>
          rw [pulled] at next
          cases given with
          | none => exact next
          | some c => exact ih next

end Clean

section Header
variable {r : Reader}

theorem respond_clean (response : Bytes) (status : Status) (none : r.errno = 0) :
    (respond response status r).2.errno = 0 ∨ ∃ errno, (respond response status r).1 = .error errno := by
  rw [respond]
  cases wrote : r.write response with
  | mk error r' =>
      cases error with
      | none =>
          have same : r' = (r.write response).2 := by rw [wrote]
          rw [same]
          exact .inl none
      | some errno => exact .inr ⟨-1, rfl⟩

theorem processManagementRecord_clean (type : UInt8) (none : r.errno = 0) :
    (processManagementRecord type r).2.errno = 0 ∨ ∃ errno, (processManagementRecord type r).1 = .error errno := by
  rw [processManagementRecord]
  split_ifs
  · cases readParams fillRecord (newParams 3 (by decide)) r with
    | mk read r =>
        dsimp only
        split_ifs with failed
        · exact .inr ⟨protocolError, rfl⟩
        · exact respond_clean (r := { r with fault := _ }) _ _ (not_not.1 fun some => failed (.inl some))
  · exact respond_clean _ _ none

theorem processBeginRecord_clean (requestId : Nat) (none : r.errno = 0) :
    (processBeginRecord requestId r).2.errno = 0 ∨ ∃ errno, (processBeginRecord requestId r).1 = .error errno := by
  rw [processBeginRecord]
  split_ifs
  · exact .inr ⟨protocolError, rfl⟩
  · exact respond_clean _ _ none
  · have pulled : getStr fillRecord 8 { r with request := { r.request with requestId } } = pulls (getChar fillRecord) 8 _ :=
      getStr_eq_pulls feeds_record trivial
    obtain ⟨bs, e, yields⟩ := feeds_record.yields (r := { r with request := { r.request with requestId } }) trivial
    have clean := @pulls_clean (fun _ r => (.error 0, r)) { r with request := { r.request with requestId } }
      (fun _ _ none => .inl none) (.inr none) 8
    have body := yields.pulls_fst 8
    rw [pulled]
    change (pulls (getChar fillRecord) 8 { r with request := { r.request with requestId } }).2.Clean at clean
    cases given : pulls (getChar fillRecord) 8 { r with request := { r.request with requestId } } with
    | mk content r' =>
        rw [given] at clean body
        dsimp only at body ⊢
        split_ifs with whole
        · have within : 8 ≤ bs.length := by
            rw [body, List.length_take] at whole
            omega
          have still := pulls_isClosed yields within
          rw [given] at still
          have open' : r.isClosed = false := by
            cases closed : r.isClosed with
            | false => rfl
            | true =>
                have nothing : bs = [] := (yields.unique (.nil (getChar_closed closed))).1
                simp [nothing] at within
          exact .inl (clean.none (still.trans open'))
        · exact .inr ⟨protocolError, rfl⟩

theorem processHeader_clean (header : Header) (r : Reader) (none : r.errno = 0) :
    (processHeader header r).2.errno = 0 ∨ ∃ errno, (processHeader header r).1 = .error errno := by
  rw [processHeader_eq]
  split_ifs
  · exact .inl none
  · exact processBeginRecord_clean _ none
  · exact processManagementRecord_clean _ none
  · exact .inl none
  · exact .inl none
  · exact .inl none

theorem pulls_fillBuffProc_clean (n : Nat) (ok : r.Clean) : (pulls (getChar fillBuffProc) n r).2.Clean :=
  pulls_clean processHeader_clean ok n

end Header

/-! ## Programs -/

section Programs
variable {α : Type} {request : Request} {type : UInt8} {r r' : Reader}

def hiRecord : Record := .brief RecordType.stdin 7 (ascii "hi") []

def hiReader (pieces : List Bytes) : Reader :=
  newReader ⟨7, 1, false, true, 0, 2⟩ ⟨pieces, .closed, [], []⟩ (fun _ => 0) RecordType.stdin

theorem Reader.Serves.alike (serves : r.Serves request type) (alike : Alike r r') : r'.Serves request type :=
  serves_stable request type r r' (congrArg Reader.frame alike.whole.symm : r'.whole.frame = r.whole.frame) serves

theorem perform_alike (serves : r.Serves request type) (alike : Alike r r') (c : ReadCall) :
    (c.perform fillBuffProc r).1 = (c.perform fillBuffProc r').1 ∧
      (c.perform fillBuffProc r).2.Serves request type ∧ Alike (c.perform fillBuffProc r).2 (c.perform fillBuffProc r').2 := by
  have feeds := feeds_fillBuffProc request type
  have serves' := serves.alike alike
  obtain ⟨bytes, e, yields⟩ := feeds.yields serves
  obtain ⟨e', yields', -⟩ := alike.yields lawful_processHeader yields
  obtain ⟨segment, left⟩ :=
    pulls_simulated (fun _ _ alike => getChar_alike lawful_processHeader alike) alike (c.asks bytes)
  rw [perform_eq feeds serves yields, perform_eq feeds serves' yields', alike.isClosed]
  exact ⟨congrArg (c.answers ⟨bytes, r'.isClosed⟩) segment, pulls_keeps feeds serves _, left⟩

/-- Nor can it tell in which pieces the bytes have come to the reader, and how many of them are in its buffer. -/
theorem program_blind (serves : r.Serves request type) (alike : Alike r r') (p : Program ReadCall ReadCall.Answer α) :
    (p.exec (ReadCall.perform fillBuffProc) r).1 = (p.exec (ReadCall.perform fillBuffProc) r').1 ∧
      Alike (p.exec (ReadCall.perform fillBuffProc) r).2 (p.exec (ReadCall.perform fillBuffProc) r').2 := by
  obtain ⟨result, -, left⟩ := p.exec_simulated (R := fun r r' => r.Serves request type ∧ Alike r r')
    (fun c _ _ related => perform_alike related.1 related.2 c) ⟨serves, alike⟩
  exact ⟨result, left⟩

theorem hi_program_blind :
    (getStr fillBuffProc 2 (hiReader [hiRecord.encode])).1 =
      (getStr fillBuffProc 2 (hiReader [hiRecord.encode.take 9, hiRecord.encode.drop 9])).1 :=
  have alike : Alike (hiReader [hiRecord.encode]) (hiReader [hiRecord.encode.take 9, hiRecord.encode.drop 9]) :=
    ⟨rfl, .inl rfl, .inl rfl⟩
  (program_blind ⟨rfl, rfl, rfl⟩ alike (.call (.getStr 2) .done)).1

end Programs

end HvmlFpm.Fcgi
