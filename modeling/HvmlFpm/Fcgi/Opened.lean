import HvmlFpm.Fcgi.Process

/-!
# A record and what is behind it

A reader that has all bytes in its buffer takes a record as a whole: it interprets the header, makes the content
available or skips it, and is left before the next header.
-/

namespace HvmlFpm.Fcgi
open Library

structure Reader.AtHeader (w : Reader) : Prop where
  avail : w.avail = []
  arriving : w.connection.arriving = []
  contentLen : w.contentLen = 0
  paddingLen : w.paddingLen = 0
  eorStop : w.eorStop = false
  isClosed : w.isClosed = false

def Reader.opened (w : Reader) (content padding tail : Bytes) : Reader :=
  { w with rest := content ++ (padding ++ tail), contentLen := content.length, paddingLen := padding.length }

def Reader.passed (w : Reader) (content tail : Bytes) : Reader :=
  { w with rest := tail, skip := if content = [] then w.skip else false }

theorem Reader.whole_self {r : Reader} (empty : r.avail = []) (arrived : r.connection.arriving = []) : r.whole = r := by
  obtain ⟨avail, rest, isClosed, errno, type, eorStop, skip, contentLen, paddingLen, request, connection, stack,
    fault⟩ := r
  obtain ⟨arriving, ending, writes, written⟩ := connection
  obtain rfl : avail = [] := empty
  obtain rfl : arriving = [] := arrived
  simp [Reader.whole, Reader.ahead]

section Record
variable {process : Header → Reader → Status × Reader} {w filled : Reader} {content padding tail bs : Bytes}
  {record : Record}

theorem Reader.AtHeader.passed (before : w.AtHeader) (content tail : Bytes) : (w.passed content tail).AtHeader :=
  ⟨before.avail, before.arriving, before.contentLen, before.paddingLen, before.eorStop, before.isClosed⟩

theorem Reader.AtHeader.left (before : w.AtHeader) : w.left = w.rest.length := by
  rw [Reader.left, before.arriving]
  simp

theorem header_turn (before : w.AtHeader) (rest : w.rest = record.encode ++ tail) :
    fillTurn process w [] =
      interpreted (process record.header { w with rest := record.content ++ (record.padding ++ tail), eorStop := true }) := by
  have some : w.rest ≠ [] := by
    rw [rest]
    exact List.append_ne_nil_of_left_ne_nil record.encode_ne_nil tail
  have bytes : w.rest = record.header.bytes ++ (record.content ++ (record.padding ++ tail)) := by
    rw [rest, Record.encode, List.append_assoc, List.append_assoc]
  have enough : headerLen ≤ ([] : Bytes).length + w.rest.length := by
    rw [bytes, List.length_append, Header.length_bytes]
    omega
  have whole : headerLen - ([] : Bytes).length = record.header.bytes.length := rfl
  rw [fillTurn_ok (refill_of_rest some), filledTurn_record before.contentLen before.paddingLen,
    behindRecord_enough before.eorStop (by decide) enough, whole, bytes, List.take_left, List.drop_left, List.nil_append,
    Header.ofBytes_bytes]
  rw [← before.avail]

theorem fills_opened (before : w.AtHeader) (dropped : w.skip = true ∨ content = [])
    (fills : Fills process (w.passed content tail) [] filled) : Fills process (w.opened content padding tail) [] filled := by
  by_cases nothing : content ++ (padding ++ tail) = []
  · obtain ⟨noContent, others⟩ := List.append_eq_nil_iff.1 nothing
    obtain ⟨noPadding, noTail⟩ := List.append_eq_nil_iff.1 others
    have same : w.opened content padding tail = w.passed content tail := by
      simp [Reader.opened, Reader.passed, noContent, noPadding, noTail, before.contentLen, before.paddingLen]
    rwa [same]
  · have turn : fillTurn process (w.opened content padding tail) [] = behindRecord process (w.passed content tail) [] := by
      rw [fillTurn_ok (refill_of_rest nothing)]
      have padded (v : Reader) (paddingLen : v.paddingLen = padding.length) (rest : v.rest = padding ++ tail) :
          behindContent process v [] = behindRecord process { v with paddingLen := 0, rest := tail } [] := by
        rw [behindContent_enough (by rw [rest, paddingLen]; simp), rest, paddingLen, List.drop_left]
      by_cases none : content = []
      · subst none
        have same : { w.opened [] padding tail with paddingLen := 0, rest := tail } = w.passed [] tail := by
          simp [Reader.opened, Reader.passed, before.contentLen, before.paddingLen]
        rw [filledTurn_behind rfl, padded _ rfl rfl, same]
      · have skip := dropped.resolve_right none
        have enough : (w.opened content padding tail).contentLen ≤ (w.opened content padding tail).rest.length := by
          simp [Reader.opened]
        have drop : (w.opened content padding tail).rest.drop (w.opened content padding tail).contentLen = padding ++ tail :=
          List.drop_left
        have same : { w.opened content padding tail with contentLen := 0, skip := false, paddingLen := 0, rest := tail } =
            w.passed content tail := by
          simp [Reader.opened, Reader.passed, none, before.contentLen, before.paddingLen]
        rw [filledTurn_enough (r := w.opened content padding tail) skip (List.length_pos_iff.2 none) enough,
          padded _ rfl drop, same]
    by_cases last : tail = []
    · subst last
      have few : ([] : Bytes).length + (w.passed content []).rest.length < headerLen := Nat.succ_pos 7
      rw [behindRecord_few (r := w.passed content []) before.eorStop few] at turn
      exact .continues turn fills
    · refine fills.of_turn (turn.trans ?_)
      rw [fillTurn_ok (refill_of_rest (r := w.passed content tail) last),
        filledTurn_record (r := w.passed content tail) before.contentLen before.paddingLen]

theorem fillBuff_opened (lawful : Lawful process) (before : w.AtHeader) (dropped : w.skip = true ∨ content = []) :
    fillBuff process (w.opened content padding tail) = fillBuff process (w.passed content tail) :=
  fillBuff_of_fills lawful before.avail before.isClosed
    (fills_opened before dropped (fillBuff_fills lawful before.avail before.isClosed))

theorem yields_of_fill {v w e : Reader} {fill : Reader → Reader} (filled : fill v = fill w) (empty : v.avail = [])
    (empty' : w.avail = []) (open' : v.isClosed = false) (open'' : w.isClosed = false)
    (yields : Yields (getChar fill) w bs e) : Yields (getChar fill) v bs e := by
  have same : getChar fill v = getChar fill w := by rw [getChar_fill open' empty, getChar_fill open'' empty', filled]
  cases yields with
  | nil ends => exact .nil (same.trans ends)
  | cons gives rest => exact .cons (same.trans gives) rest

theorem yields_dropped {e : Reader} (padding : Bytes) (lawful : Lawful process) (before : w.AtHeader)
    (dropped : w.skip = true ∨ content = [])
    (yields : Yields (getChar (fillBuff process)) (w.passed content tail) bs e) :
    Yields (getChar (fillBuff process)) (w.opened content padding tail) bs e :=
  yields_of_fill (fillBuff_opened lawful before dropped) before.avail before.avail before.isClosed before.isClosed yields

theorem Reader.passed_taken (content : Bytes) (taken : w.skip = false) : w.passed content tail = { w with rest := tail } := by
  rw [Reader.passed, taken, ite_self, ← taken]

theorem yields_content {e r : Reader} (lawful : Lawful process) (before : w.AtHeader) (taken : w.skip = false)
    (sound : r.Sound) (same : r.whole = w.opened content padding tail)
    (yields : Yields (getChar (fillBuff process)) { w with rest := tail } bs e) :
    ∃ e', Yields (getChar (fillBuff process)) r (content ++ bs) e' ∧ Alike e e' := by
  induction content generalizing r with
  | nil =>
      have alike : Alike (w.opened [] padding tail) r :=
        ⟨(Reader.whole_self (r := w.opened [] padding tail) before.avail before.arriving).trans same.symm,
          .inl before.avail, sound⟩
      rw [← Reader.passed_taken [] taken] at yields
      exact alike.yields lawful (yields_dropped padding lawful before (.inr rfl) yields)
  | cons c content ih =>
      have ahead : r.ahead = c :: (content ++ (padding ++ tail)) := congrArg Reader.rest same
      have open' : r.isClosed = false := (congrArg Reader.isClosed same).trans before.isClosed
      have taken' : r.skip = false := (congrArg Reader.skip same).trans taken
      have some : 0 < r.whole.contentLen := by
        rw [same]
        exact Nat.succ_pos _
      obtain ⟨s, gives, behind, sound'⟩ := getChar_ready process sound open' taken' some ahead
      obtain ⟨e', rest, alike⟩ := ih sound' (behind.trans (by rw [same]; rfl))
      exact ⟨e', .cons gives rest, alike⟩

end Record

section Opened
variable {process : Header → Reader → Status × Reader} {w e : Reader} {content padding tail bs : Bytes}

theorem yields_opened (padding : Bytes) (lawful : Lawful process) (before : w.AtHeader)
    (yields : Yields (getChar (fillBuff process)) (w.passed content tail) bs e) :
    ∃ e', Yields (getChar (fillBuff process)) (w.opened content padding tail)
      ((if w.skip then [] else content) ++ bs) e' ∧ Alike e e' := by
  cases skip : w.skip with
  | true =>
      have dropped := yields_dropped padding lawful before (.inl skip) yields
      have sound : e.Sound := (yields.keeps (I := Reader.Sound)
        (fun s sound => (getChar_alike lawful ⟨rfl, sound, sound⟩).2.left) (.inl before.avail))
      exact ⟨e, dropped, rfl, sound, sound⟩
  | false =>
      rw [Reader.passed_taken content skip] at yields
      exact yields_content (r := w.opened content padding tail) lawful before skip (.inl before.avail)
        (Reader.whole_self (r := w.opened content padding tail) before.avail before.arriving) yields

theorem yields_of_turn {x : Reader} (lawful : Lawful process) (before : w.AtHeader)
    (turn : fillTurn process w [] = .continues x []) (empty : x.avail = []) (open' : x.isClosed = false)
    (yields : Yields (getChar (fillBuff process)) x bs e) : Yields (getChar (fillBuff process)) w bs e := by
  have filled : fillBuff process w = fillBuff process x :=
    fillBuff_of_fills lawful before.avail before.isClosed (.continues turn (fillBuff_fills lawful empty open'))
  exact yields_of_fill filled before.avail empty before.isClosed open' yields

theorem yields_stop {x : Reader} (lawful : Lawful process) (before : w.AtHeader) (turn : fillTurn process w [] = .returns x)
    (closed : x.isClosed = true) : Yields (getChar (fillBuff process)) w [] x := by
  have filled : fillBuff process w = x := fillBuff_of_fills lawful before.avail before.isClosed (.returns turn)
  apply Yields.nil
  rw [getChar_fill before.isClosed before.avail, filled, if_pos closed]

theorem Reader.reopened (before : w.AtHeader) :
    { w.opened content padding tail with eorStop := false, isClosed := false } = w.opened content padding tail := by
  simp [Reader.opened, before.eorStop, before.isClosed]

end Opened

def Reader.inRecord (w : Reader) (content padding tail : Bytes) : Reader :=
  { w.opened content padding tail with eorStop := true }

def WantsMore (skip : Bool) (content padding tail : Bytes) : Prop :=
  (skip = false ∨ content = []) ∧ padding = [] ∧ tail = []

instance (skip : Bool) (content padding tail : Bytes) : Decidable (WantsMore skip content padding tail) :=
  inferInstanceAs (Decidable (_ ∧ _ ∧ _))

def Reader.stopped (w : Reader) (content padding tail : Bytes) : Reader :=
  if WantsMore w.skip content padding tail then
    { w with rest := [], eorStop := true }.setError w.connection.ending.errno
  else { w.passed content tail with eorStop := true, isClosed := true }

section Inner
variable {w e : Reader} {content padding tail : Bytes}

theorem fillRecord_turn {r filled : Reader} (turn : fillTurn (fun _ r => (.error 0, r)) r [] = .returns filled) :
    fillRecord r = filled := by
  rw [fillRecord, fillBuff, fillLoop, turn]

theorem fillRecord_padding (before : w.AtHeader) (rest : padding ++ tail ≠ []) :
    fillRecord (w.inRecord [] padding tail) = { w with rest := tail, eorStop := true, isClosed := true } := by
  apply fillRecord_turn
  have enough : (w.inRecord [] padding tail).paddingLen ≤ (w.inRecord [] padding tail).rest.length := by
    simp [Reader.inRecord, Reader.opened]
  rw [fillTurn_ok (refill_of_rest (r := w.inRecord [] padding tail) rest), filledTurn_behind rfl, behindContent_enough enough,
    behindRecord_eor rfl]
  simp [Reader.inRecord, Reader.opened, before.avail, before.contentLen, before.paddingLen]

theorem fillRecord_skipped (before : w.AtHeader) (skip : w.skip = true) (some : content ≠ []) :
    fillRecord (w.inRecord content padding tail) =
      { w with rest := tail, skip := false, eorStop := true, isClosed := true } := by
  apply fillRecord_turn
  have enough : (w.inRecord content padding tail).contentLen ≤ (w.inRecord content padding tail).rest.length := by
    simp [Reader.inRecord, Reader.opened]
  have filled : (w.inRecord content padding tail).rest ≠ [] := List.append_ne_nil_of_left_ne_nil some _
  rw [fillTurn_ok (refill_of_rest filled),
    filledTurn_enough (r := w.inRecord content padding tail) skip (List.length_pos_iff.2 some) enough,
    behindContent_enough (by simp [Reader.inRecord, Reader.opened]), behindRecord_eor rfl]
  simp [Reader.inRecord, Reader.opened, before.avail, before.contentLen, before.paddingLen]

theorem fillRecord_end (before : w.AtHeader) :
    fillRecord (w.inRecord [] [] []) = { w with rest := [], eorStop := true }.setError w.connection.ending.errno := by
  apply fillRecord_turn
  rw [fillTurn_error (refill_end (r := w.inRecord [] [] []) rfl (congrArg List.flatten before.arriving))]
  simp [Reader.inRecord, Reader.opened, Reader.setError, before.contentLen, before.paddingLen]

theorem fillRecord_stopped (before : w.AtHeader) (dropped : w.skip = true ∨ content = []) :
    fillRecord (w.inRecord content padding tail) = w.stopped content padding tail := by
  rw [Reader.stopped]
  by_cases wants : WantsMore w.skip content padding tail
  · obtain ⟨ends, rfl, rfl⟩ := wants
    obtain rfl : content = [] := by
      rcases ends with taken | none
      · exact dropped.resolve_left (by simp [taken])
      · exact none
    rw [if_pos ⟨.inr rfl, rfl, rfl⟩, fillRecord_end before]
  · rw [if_neg wants]
    by_cases none : content = []
    · subst none
      have rest : padding ++ tail ≠ [] := by
        intro nothing
        obtain ⟨noPadding, noTail⟩ := List.append_eq_nil_iff.1 nothing
        exact wants ⟨.inr rfl, noPadding, noTail⟩
      rw [fillRecord_padding before rest, Reader.passed, if_pos rfl]
    · rw [fillRecord_skipped before (dropped.resolve_right none) none, Reader.passed, if_neg none]

theorem inRecord_yields (content padding tail : Bytes) (before : w.AtHeader) :
    ∃ e, Yields (getChar fillRecord) (w.inRecord content padding tail) (if w.skip then [] else content) e ∧
      e.avail = [] ∧ e.whole = (w.stopped content padding tail).whole := by
  cases skip : w.skip with
  | true =>
      have ends := skipped_yields (r := w.inRecord content padding tail) (.inl before.avail) before.isClosed skip
      have stopped : fillRecord (w.inRecord content padding tail) = w.stopped content padding tail :=
        fillRecord_stopped before (.inl skip)
      refine ⟨_, ends, ?_, by rw [stopped]⟩
      exact (fillRecord_dry (r := w.inRecord content padding tail) before.avail before.isClosed (.inl skip)).2
  | false =>
      obtain ⟨s, -, open', -, whole, yields⟩ :=
        record_yields (r := w.inRecord content padding tail) (.inl before.avail) before.isClosed skip
      have all : (w.inRecord content padding tail).whole = w.inRecord content padding tail :=
        Reader.whole_self (r := w.inRecord content padding tail) before.avail before.arriving
      have count : min (w.inRecord content padding tail).contentLen (w.inRecord content padding tail).rest.length =
          content.length := by
        simp [Reader.inRecord, Reader.opened]
      rw [← Reader.whole_rest, all] at yields whole
      rw [count] at whole
      have behind : s.whole = w.inRecord [] padding tail := by
        rw [whole]
        simp [Reader.behind, Reader.inRecord, Reader.opened]
      have spent : s.contentLen + s.avail.length = 0 := congrArg Reader.contentLen behind
      have empty : s.avail = [] := List.eq_nil_of_length_eq_zero (by omega)
      have content_eq : (w.inRecord content padding tail).rest.take (w.inRecord content padding tail).contentLen = content :=
        List.take_left
      rw [content_eq] at yields
      refine ⟨_, yields, (fillRecord_dry empty open' (.inr (.inl (by omega)))).2, ?_⟩
      have alike := (fillBuff_alike lawful_error empty rfl open' s.whole_whole.symm).1
      have same : w.stopped [] padding tail = w.stopped content padding tail := by
        simp only [Reader.stopped, WantsMore, skip, true_or, true_and, Reader.passed_taken _ skip]
      change (fillRecord s).whole = (fillRecord s.whole).whole at alike
      rw [alike, behind, fillRecord_stopped before (.inr rfl), same]

end Inner

end HvmlFpm.Fcgi
