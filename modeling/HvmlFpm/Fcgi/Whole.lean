import HvmlFpm.Fcgi.Fill

/-!
# What the pieces have no part in

A reader is as good as one that has everything that is still to come in its buffer: filling the buffer leaves two
readers alike that were alike before. The loop is followed turn by turn; where a turn runs out of bytes, the whole
reader goes on in the same turn.
-/

namespace HvmlFpm.Fcgi
open Library

def Reader.ahead (r : Reader) : Bytes := r.avail ++ (r.rest ++ r.connection.arriving.flatten)

/-- The reader with all bytes in its buffer, and none of them made available. -/
def Reader.whole (r : Reader) : Reader :=
  { r with
      avail := [], rest := r.ahead, contentLen := r.contentLen + r.avail.length
      connection := { r.connection with arriving := [] } }

def Reader.Sound (r : Reader) : Prop := r.avail = [] ∨ (r.skip = false ∧ r.isClosed = false)

def Turn.Agree : Turn → Turn → Prop
  | .returns r, .returns r' => r.whole = r'.whole ∧ r.Sound ∧ r'.Sound ∧ (r.avail = [] ↔ r'.avail = [])
  | .continues r header, .continues r' header' =>
      r.whole = r'.whole ∧ r.avail = [] ∧ r'.avail = [] ∧ header = header' ∧ header.length < headerLen
  | _, _ => False

section Process
variable (process : Header → Reader → Status × Reader)

structure Lawful : Prop where
  status : ∀ header r r', r.avail = [] → r'.avail = [] → r.whole = r'.whole →
    (process header r).1 = (process header r').1
  alike : ∀ header r r', r.avail = [] → r'.avail = [] → r.whole = r'.whole →
    (process header r).2.whole = (process header r').2.whole
  empty : ∀ header r, r.avail = [] → (process header r).2.avail = []
  shorter : ∀ header r, r.avail = [] → (process header r).2.left ≤ r.left

/-- The first turn has run out of bytes, and the second one is what is left of it with all bytes at hand. -/
def Turn.Restarts (t t' : Turn) : Prop :=
  ∃ s header, t = .continues s header ∧ s.avail = [] ∧ header.length < headerLen ∧
    t' = filledTurn process s.whole header ∧ (s.ahead = [] → t' = .continues s.whole header)

def Turn.Follows (t t' : Turn) : Prop := t.Agree t' ∨ t.Restarts process t'

end Process

section Whole
variable (r : Reader)

@[simp] theorem Reader.whole_avail : r.whole.avail = [] := rfl
@[simp] theorem Reader.whole_rest : r.whole.rest = r.ahead := rfl
@[simp] theorem Reader.whole_arriving : r.whole.connection.arriving = [] := rfl
@[simp] theorem Reader.whole_isClosed : r.whole.isClosed = r.isClosed := rfl
@[simp] theorem Reader.whole_errno : r.whole.errno = r.errno := rfl
@[simp] theorem Reader.whole_skip : r.whole.skip = r.skip := rfl
@[simp] theorem Reader.whole_eorStop : r.whole.eorStop = r.eorStop := rfl
@[simp] theorem Reader.whole_paddingLen : r.whole.paddingLen = r.paddingLen := rfl
@[simp] theorem Reader.whole_request : r.whole.request = r.request := rfl

@[simp] theorem Reader.whole_ahead : r.whole.ahead = r.ahead := by
  simp [Reader.ahead, Reader.whole]

@[simp] theorem Reader.whole_whole : r.whole.whole = r.whole := by
  simp [Reader.ahead, Reader.whole]

theorem Reader.whole_contentLen : r.whole.contentLen = r.contentLen + r.avail.length := rfl

variable {r}

theorem Reader.ahead_of_empty (empty : r.avail = []) : r.ahead = r.rest ++ r.connection.arriving.flatten := by
  simp [Reader.ahead, empty]

theorem Reader.length_ahead (r : Reader) : r.ahead.length = r.avail.length + r.left := by
  rw [Reader.ahead, Reader.left, List.length_append, List.length_append]

theorem Reader.left_of_empty (empty : r.avail = []) : r.left = r.ahead.length := by
  rw [Reader.length_ahead, empty, List.length_nil, Nat.zero_add]

theorem Reader.delivered_whole (r : Reader) (empty : r.avail = []) :
    { r with
        contentLen := r.contentLen - min r.contentLen r.rest.length
        avail := r.rest.take (min r.contentLen r.rest.length)
        rest := r.rest.drop (min r.contentLen r.rest.length) }.whole = r.whole := by
  have all (n : Nat) : r.rest.take n ++ (r.rest.drop n ++ r.connection.arriving.flatten) =
      r.rest ++ r.connection.arriving.flatten := by rw [← List.append_assoc, List.take_append_drop]
  simp [Reader.whole, Reader.ahead, empty, all]

theorem Reader.sound_whole : r.whole.Sound := .inl rfl

end Whole

section Refill
variable {r r' : Reader}

theorem refill_of_rest (some : r.rest ≠ []) : refill r = .ok r := if_neg some

theorem refill_ok (empty : r.avail = []) (filled : refill r = .ok r') :
    r'.whole = r.whole ∧ r'.avail = [] ∧ r'.rest ≠ [] ∧ r'.left = r.left := by
  unfold refill at filled
  by_cases none : r.rest = []
  · rw [if_pos none] at filled
    cases read : readPieces (bufferSize 8192) r.connection.arriving with
    | none =>
        rw [read] at filled
        cases ending : r.connection.ending <;> simp [ending] at filled
    | some found =>
        obtain ⟨buf, arriving⟩ := found
        simp only [read, Except.ok.injEq] at filled
        subst filled
        have flatten := readPieces_flatten read
        refine ⟨?_, empty, readPieces_ne_nil (by decide) read, ?_⟩
        · simp [Reader.whole, Reader.ahead, empty, none, flatten]
        · rw [Reader.left, Reader.left, none, ← flatten, List.length_append]
          simp
  · rw [if_neg none, Except.ok.injEq] at filled
    subst filled
    exact ⟨rfl, empty, none, rfl⟩

def Ending.errno : Ending → Int
  | .closed => protocolError
  | .failed errno => errno.val

theorem refill_end (none : r.rest = []) (last : r.connection.arriving.flatten = []) :
    refill r = .error (r.setError r.connection.ending.errno) := by
  rw [refill, if_pos none, readPieces_none.2 last]
  cases r.connection.ending <;> rfl

theorem refill_error (empty : r.avail = []) (failed : refill r = .error r') :
    r.ahead = [] ∧ r' = r.setError r.connection.ending.errno := by
  by_cases none : r.rest = []
  · cases read : readPieces (bufferSize 8192) r.connection.arriving with
    | none =>
        have last := readPieces_none.1 read
        rw [refill_end none last, Except.error.injEq] at failed
        exact ⟨by simp [Reader.ahead, empty, none, last], failed.symm⟩
    | some found => simp [refill, none, read] at failed
  · simp [refill, none] at failed

variable {process : Header → Reader → Status × Reader} {header : Bytes}

theorem fillTurn_ok (filled : refill r = .ok r') : fillTurn process r header = filledTurn process r' header := by
  rw [fillTurn, filled]

theorem fillTurn_error (failed : refill r = .error r') : fillTurn process r header = .returns r' := by
  rw [fillTurn, failed]

end Refill

section Turns
variable {process : Header → Reader → Status × Reader} {r : Reader} {header : Bytes}

theorem interpreted_agree {x x' : Status × Reader} (status : x.1 = x'.1) (alike : x.2.whole = x'.2.whole)
    (empty : x.2.avail = []) (empty' : x'.2.avail = []) : (interpreted x).Agree (interpreted x') := by
  obtain ⟨given, s⟩ := x
  obtain ⟨given', s'⟩ := x'
  obtain rfl : given = given' := status
  replace alike : s.whole = s'.whole := alike
  replace empty : s.avail = [] := empty
  replace empty' : s'.avail = [] := empty'
  have reopened : { s with eorStop := false, isClosed := false }.whole =
      { s' with eorStop := false, isClosed := false }.whole :=
    congrArg (fun w : Reader => { w with eorStop := false, isClosed := false }) alike
  cases given with
  | streamRecord =>
      have same : s.contentLen = s'.contentLen := by
        simpa [Reader.whole, empty, empty'] using congrArg Reader.contentLen alike
      by_cases none : s.contentLen = 0
      · have none' : s'.contentLen = 0 := same ▸ none
        simp only [interpreted, none, none', if_true]
        refine ⟨?_, .inl rfl, .inl rfl, by simp⟩
        have closed := congrArg (fun w : Reader => { w with isClosed := true }) reopened
        simpa [Reader.whole, Reader.ahead, empty, empty', none, none'] using closed
      · have some : s'.contentLen ≠ 0 := same ▸ none
        simp only [interpreted, none, some, if_false]
        exact ⟨reopened, empty, empty', rfl, by decide⟩
  | skip => exact ⟨congrArg (fun w : Reader => { w with skip := true }) reopened, empty, empty', rfl, by decide⟩
  | beginRecord => exact ⟨reopened, .inl empty, .inl empty', fun _ => empty', fun _ => empty⟩
  | mgmtRecord => exact ⟨reopened, empty, empty', rfl, by decide⟩
  | error errno =>
      exact ⟨congrArg (fun w : Reader => w.setError errno) reopened, .inl empty, .inl empty', fun _ => empty', fun _ => empty⟩

theorem behindRecord_few (going : r.eorStop = false) (few : header.length + r.rest.length < headerLen) :
    behindRecord process r header = .continues { r with rest := [] } (header ++ r.rest) := by
  have all : min (headerLen - header.length) r.rest.length = r.rest.length := by omega
  rw [behindRecord, if_neg (by simp [going])]
  simp only [all, List.take_length, List.drop_length, List.length_append, few, if_true]

theorem behindRecord_enough (going : r.eorStop = false) (short : header.length < headerLen)
    (enough : headerLen ≤ header.length + r.rest.length) :
    behindRecord process r header =
      interpreted (process (.ofBytes (header ++ r.rest.take (headerLen - header.length)))
        { r with rest := r.rest.drop (headerLen - header.length), eorStop := true, avail := [] }) := by
  have part : min (headerLen - header.length) r.rest.length = headerLen - header.length := by omega
  have full : ¬ header.length + (headerLen - header.length) < headerLen := by omega
  rw [behindRecord, if_neg (by simp [going])]
  simp only [part, List.length_append, List.length_take, full, if_false]

theorem behindRecord_eor (eor : r.eorStop = true) :
    behindRecord process r header = .returns { r with avail := [], isClosed := true } := if_pos eor

theorem behindRecord_prefix {x y : Bytes} (going : r.eorStop = false) (few : header.length + x.length < headerLen) :
    behindRecord process { r with rest := x ++ y } header = behindRecord process { r with rest := y } (header ++ x) := by
  rcases Nat.lt_or_ge (header.length + (x ++ y).length) headerLen with less | enough
  · have rest : (header ++ x).length + y.length < headerLen := by
      rw [List.length_append] at less ⊢
      omega
    rw [behindRecord_few (r := { r with rest := x ++ y }) going less,
      behindRecord_few (r := { r with rest := y }) going rest, List.append_assoc]
  · have left : headerLen - header.length = x.length + (headerLen - (header ++ x).length) := by
      rw [List.length_append]
      omega
    have short : (header ++ x).length < headerLen := by rwa [List.length_append]
    have rest : headerLen ≤ (header ++ x).length + y.length := by
      rw [List.length_append] at enough ⊢
      omega
    rw [behindRecord_enough (r := { r with rest := x ++ y }) going (by omega) enough,
      behindRecord_enough (r := { r with rest := y }) going short rest]
    simp only [left, List.take_length_add_append, List.drop_length_add_append, List.append_assoc]

theorem behindContent_few (few : r.rest.length < r.paddingLen) :
    behindContent process r header = .continues { r with paddingLen := r.paddingLen - r.rest.length, rest := [] } header := by
  have all : min r.paddingLen r.rest.length = r.rest.length := by omega
  have some : 0 < r.paddingLen - r.rest.length := by omega
  rw [behindContent, if_pos (by omega)]
  simp only [all, some, if_true, List.drop_length]

theorem behindContent_enough (enough : r.paddingLen ≤ r.rest.length) :
    behindContent process r header =
      behindRecord process { r with paddingLen := 0, rest := r.rest.drop r.paddingLen } header := by
  rw [behindContent]
  by_cases some : 0 < r.paddingLen
  · have part : min r.paddingLen r.rest.length = r.paddingLen := by omega
    rw [if_pos some]
    simp only [part, Nat.sub_self, Nat.lt_irrefl, if_false]
  · have none : r.paddingLen = 0 := by omega
    rw [if_neg some]
    simp only [none, List.drop_zero]
    rw [← none]

theorem behindContent_prefix {x y : Bytes} {n : Nat} (within : x.length ≤ n) :
    behindContent process { r with paddingLen := n, rest := x ++ y } header =
      behindContent process { r with paddingLen := n - x.length, rest := y } header := by
  rcases Nat.lt_or_ge (x ++ y).length n with less | enough
  · have rest : y.length < n - x.length := by
      rw [List.length_append] at less
      omega
    rw [behindContent_few (r := { r with paddingLen := n, rest := x ++ y }) less,
      behindContent_few (r := { r with paddingLen := n - x.length, rest := y }) rest]
    simp only [List.length_append, Nat.sub_sub]
  · have rest : n - x.length ≤ y.length := by
      rw [List.length_append] at enough
      omega
    rw [behindContent_enough (r := { r with paddingLen := n, rest := x ++ y }) enough,
      behindContent_enough (r := { r with paddingLen := n - x.length, rest := y }) rest]
    simp only [List.drop_append, List.drop_eq_nil_of_le within, List.nil_append]

theorem filledTurn_few (skip : r.skip = true) (few : r.rest.length < r.contentLen) :
    filledTurn process r header = .continues { r with contentLen := r.contentLen - r.rest.length, rest := [] } header := by
  have all : min r.contentLen r.rest.length = r.rest.length := by omega
  have some : 0 < r.contentLen - r.rest.length := by omega
  rw [filledTurn, if_pos (by omega)]
  simp only [skip, all, some, if_true, List.drop_length]

theorem filledTurn_enough (skip : r.skip = true) (some : 0 < r.contentLen) (enough : r.contentLen ≤ r.rest.length) :
    filledTurn process r header =
      behindContent process { r with contentLen := 0, skip := false, rest := r.rest.drop r.contentLen } header := by
  have part : min r.contentLen r.rest.length = r.contentLen := by omega
  rw [filledTurn, if_pos some]
  simp only [skip, part, if_true, Nat.sub_self, Nat.lt_irrefl, if_false]

theorem filledTurn_deliver (taken : r.skip = false) (some : 0 < r.contentLen) :
    filledTurn process r header =
      .returns { r with
                  contentLen := r.contentLen - min r.contentLen r.rest.length
                  avail := r.rest.take (min r.contentLen r.rest.length)
                  rest := r.rest.drop (min r.contentLen r.rest.length) } := by
  rw [filledTurn, if_pos some]
  simp [taken]

theorem filledTurn_behind (none : r.contentLen = 0) : filledTurn process r header = behindContent process r header := by
  rw [filledTurn, if_neg (by omega)]

theorem filledTurn_prefix {x y : Bytes} {n : Nat} (skip : r.skip = true) (within : x.length < n) :
    filledTurn process { r with contentLen := n, rest := x ++ y } header =
      filledTurn process { r with contentLen := n - x.length, rest := y } header := by
  rcases Nat.lt_or_ge (x ++ y).length n with less | enough
  · have rest : y.length < n - x.length := by
      rw [List.length_append] at less
      omega
    rw [filledTurn_few (r := { r with contentLen := n, rest := x ++ y }) skip less,
      filledTurn_few (r := { r with contentLen := n - x.length, rest := y }) skip rest]
    simp only [List.length_append, Nat.sub_sub]
  · have rest : n - x.length ≤ y.length := by
      rw [List.length_append] at enough
      omega
    have some : 0 < n := by omega
    have some' : 0 < n - x.length := by omega
    rw [filledTurn_enough (r := { r with contentLen := n, rest := x ++ y }) skip some enough,
      filledTurn_enough (r := { r with contentLen := n - x.length, rest := y }) skip some' rest]
    simp only [List.drop_append, List.drop_eq_nil_of_le (Nat.le_of_lt within), List.nil_append]

theorem filledTurn_record (content : r.contentLen = 0) (padding : r.paddingLen = 0) :
    filledTurn process r header = behindRecord process r header := by
  rw [filledTurn_behind content, behindContent_enough (by omega)]
  simp only [padding, List.drop_zero]
  rw [← padding]

variable (lawful : Lawful process)
include lawful

theorem behindRecord_follows (empty : r.avail = []) (content : r.contentLen = 0) (padding : r.paddingLen = 0)
    (short : header.length < headerLen) :
    (behindRecord process r header).Follows process (behindRecord process r.whole header) := by
  have ahead := Reader.ahead_of_empty empty
  cases eor : r.eorStop with
  | true =>
      left
      rw [behindRecord_eor eor, behindRecord_eor (show r.whole.eorStop = true from eor)]
      refine ⟨?_, .inl rfl, .inl rfl, by simp⟩
      simp [Reader.whole, Reader.ahead, empty, content]
  | false =>
      have going : r.whole.eorStop = false := eor
      rcases Nat.lt_or_ge (header.length + r.rest.length) headerLen with few | enough
      · right
        have stillShort : (header ++ r.rest).length < headerLen := by rwa [List.length_append]
        have left : { r with rest := [] }.whole = { r.whole with rest := r.connection.arriving.flatten } := by
          simp [Reader.whole, Reader.ahead, empty]
        have all : r.whole = { r.whole with rest := r.rest ++ r.connection.arriving.flatten } := by
          rw [← ahead]
          rfl
        refine ⟨{ r with rest := [] }, header ++ r.rest, behindRecord_few eor few, empty, stillShort, ?_, ?_⟩
        · have none : { r with rest := [] }.whole.contentLen = 0 := by
            rw [Reader.whole_contentLen, empty]
            exact content
          rw [filledTurn_record none padding, left, all]
          exact behindRecord_prefix going few
        · intro nothing
          have none : r.connection.arriving.flatten = [] := by simpa [Reader.ahead, empty] using nothing
          have only : r.ahead = r.rest := by rw [ahead, none, List.append_nil]
          rw [left, none, behindRecord_few going (by rwa [Reader.whole_rest, only]), Reader.whole_rest, only]
      · left
        have enough' : headerLen ≤ header.length + r.whole.rest.length := by
          rw [Reader.whole_rest, ahead, List.length_append]
          omega
        have first : r.whole.rest.take (headerLen - header.length) = r.rest.take (headerLen - header.length) := by
          rw [Reader.whole_rest, ahead, List.take_append_of_le_length (by omega)]
        have alike : { r with rest := r.rest.drop (headerLen - header.length), eorStop := true, avail := [] }.whole =
            { r.whole with rest := r.whole.rest.drop (headerLen - header.length), eorStop := true, avail := [] }.whole := by
          rw [Reader.whole_rest, ahead, List.drop_append_of_le_length (by omega)]
          simp [Reader.whole, Reader.ahead, empty]
        rw [behindRecord_enough eor short enough, behindRecord_enough going short enough', first]
        apply interpreted_agree
        · exact lawful.status _ _ _ rfl rfl alike
        · exact lawful.alike _ _ _ rfl rfl alike
        · exact lawful.empty _ _ rfl
        · exact lawful.empty _ _ rfl

theorem behindContent_follows (empty : r.avail = []) (content : r.contentLen = 0) (short : header.length < headerLen) :
    (behindContent process r header).Follows process (behindContent process r.whole header) := by
  have ahead := Reader.ahead_of_empty empty
  rcases Nat.lt_or_ge r.rest.length r.paddingLen with few | enough
  · right
    have left : { r with paddingLen := r.paddingLen - r.rest.length, rest := [] }.whole =
        { r.whole with paddingLen := r.paddingLen - r.rest.length, rest := r.connection.arriving.flatten } := by
      simp [Reader.whole, Reader.ahead, empty]
    have all : r.whole = { r.whole with paddingLen := r.paddingLen, rest := r.rest ++ r.connection.arriving.flatten } := by
      rw [← ahead]
      rfl
    refine ⟨_, header, behindContent_few few, empty, short, ?_, ?_⟩
    · rw [filledTurn_behind, left, all]
      · exact behindContent_prefix (Nat.le_of_lt few)
      · rw [Reader.whole_contentLen, empty]
        exact content
    · intro nothing
      have none : r.connection.arriving.flatten = [] := by simpa [Reader.ahead, empty] using nothing
      have only : r.ahead = r.rest := by rw [ahead, none, List.append_nil]
      rw [left, none, behindContent_few (by rwa [Reader.whole_rest, only]), Reader.whole_rest, only]
      rfl
  · have enough' : r.whole.paddingLen ≤ r.whole.rest.length := by
      rw [Reader.whole_rest, ahead, List.length_append]
      exact Nat.le_add_right_of_le enough
    have alike : { r with paddingLen := 0, rest := r.rest.drop r.paddingLen }.whole =
        { r.whole with paddingLen := 0, rest := r.whole.rest.drop r.whole.paddingLen } := by
      rw [Reader.whole_rest, Reader.whole_paddingLen, ahead, List.drop_append_of_le_length enough]
      simp [Reader.whole, Reader.ahead, empty]
    rw [behindContent_enough enough, behindContent_enough enough', ← alike]
    exact behindRecord_follows lawful empty content rfl short

theorem filledTurn_follows (empty : r.avail = []) (open' : r.isClosed = false) (filled : r.rest ≠ [])
    (short : header.length < headerLen) :
    (filledTurn process r header).Follows process (filledTurn process r.whole header) := by
  have ahead := Reader.ahead_of_empty empty
  have content : r.whole.contentLen = r.contentLen := by simp [Reader.whole, empty]
  rcases Nat.eq_zero_or_pos r.contentLen with none | some
  · rw [filledTurn_behind none, filledTurn_behind (content.trans none)]
    exact behindContent_follows lawful empty none short
  · have some' : 0 < r.whole.contentLen := content ▸ some
    cases skip : r.skip with
    | false =>
        left
        have full : 0 < r.rest.length := List.length_pos_iff.2 filled
        have full' : 0 < r.ahead.length := by
          rw [ahead, List.length_append]
          omega
        rw [filledTurn_deliver skip some, filledTurn_deliver (r := r.whole) skip some']
        refine ⟨?_, .inr ⟨skip, open'⟩, .inr ⟨skip, open'⟩, ?_⟩
        · exact (r.delivered_whole empty).trans ((r.whole.delivered_whole rfl).trans r.whole_whole).symm
        · simp only [Reader.whole_rest, content, List.take_eq_nil_iff]
          constructor
          · intro nothing
            exact absurd nothing (by simp only [filled, or_false]; omega)
          · intro nothing
            exact absurd nothing (by simp only [List.length_pos_iff.1 full', or_false]; omega)
    | true =>
        rcases Nat.lt_or_ge r.rest.length r.contentLen with few | enough
        · right
          have left : { r with contentLen := r.contentLen - r.rest.length, rest := [] }.whole =
              { r.whole with contentLen := r.contentLen - r.rest.length, rest := r.connection.arriving.flatten } := by
            simp [Reader.whole, Reader.ahead, empty]
          have all : r.whole = { r.whole with contentLen := r.contentLen, rest := r.rest ++ r.connection.arriving.flatten } := by
            rw [← ahead, ← content]
            rfl
          refine ⟨_, header, filledTurn_few skip few, empty, short, ?_, ?_⟩
          · rw [left, all]
            exact filledTurn_prefix skip few
          · intro nothing
            have none : r.connection.arriving.flatten = [] := by simpa [Reader.ahead, empty] using nothing
            have only : r.ahead = r.rest := by rw [ahead, none, List.append_nil]
            have few' : r.whole.rest.length < r.whole.contentLen := by rwa [Reader.whole_rest, only, content]
            rw [left, none, filledTurn_few (r := r.whole) skip few', Reader.whole_rest, only, content]
        · have enough' : r.whole.contentLen ≤ r.whole.rest.length := by
            rw [Reader.whole_rest, ahead, List.length_append, content]
            omega
          have alike : { r with contentLen := 0, skip := false, rest := r.rest.drop r.contentLen }.whole =
              { r.whole with contentLen := 0, skip := false, rest := r.whole.rest.drop r.whole.contentLen } := by
            rw [Reader.whole_rest, content, ahead, List.drop_append_of_le_length enough]
            simp [Reader.whole, Reader.ahead, empty]
          rw [filledTurn_enough skip some enough, filledTurn_enough (show r.whole.skip = true from skip) some' enough',
            ← alike]
          exact behindContent_follows lawful empty rfl short

theorem fillTurn_follows (empty : r.avail = []) (open' : r.isClosed = false) (short : header.length < headerLen) :
    (fillTurn process r header).Agree (fillTurn process r.whole header) ∨
      ∃ s header', fillTurn process r header = .continues s header' ∧ s.avail = [] ∧ header'.length < headerLen ∧
        (fillTurn process r.whole header = fillTurn process s.whole header' ∨
          fillTurn process r.whole header = .continues s.whole header') := by
  cases filled : refill r with
  | error r' =>
      left
      obtain ⟨nothing, rfl⟩ := refill_error empty filled
      rw [fillTurn_error filled, fillTurn_error (refill_end (r := r.whole) nothing rfl)]
      refine ⟨?_, .inl empty, .inl rfl, fun _ => rfl, fun _ => empty⟩
      exact (congrArg (fun w : Reader => w.setError r.connection.ending.errno) r.whole_whole).symm
  | ok r' =>
      obtain ⟨same, empty', some, -⟩ := refill_ok empty filled
      have open'' : r'.isClosed = false := (congrArg Reader.isClosed same).trans open'
      have full : r.whole.rest ≠ [] := by
        rw [← same, Reader.whole_rest, Reader.ahead_of_empty empty']
        exact List.append_ne_nil_of_left_ne_nil some _
      rw [fillTurn_ok filled, fillTurn_ok (refill_of_rest full), ← same]
      rcases filledTurn_follows lawful empty' open'' some short with agree | ⟨s, header', goes, none, short', restart, stuck⟩
      · exact .inl agree
      · refine .inr ⟨s, header', goes, none, short', ?_⟩
        by_cases nothing : s.ahead = []
        · exact .inr (stuck nothing)
        · left
          rw [restart, fillTurn_ok (refill_of_rest (r := s.whole) nothing)]

end Turns

section Uses
variable {process : Header → Reader → Status × Reader} {r : Reader} {header : Bytes} {n : Nat}

def Turn.Uses (n : Nat) : Turn → Prop
  | .returns r => r.ahead.length ≤ n ∧ (r.isClosed = false → r.left < n)
  | .continues r header => r.left < n ∧ r.avail = [] ∧ r.isClosed = false ∧ header.length < headerLen

theorem interpreted_uses {x : Status × Reader} (less : x.2.left < n) (empty : x.2.avail = []) :
    (interpreted x).Uses n := by
  obtain ⟨status, s⟩ := x
  have le : s.ahead.length ≤ n := Reader.left_of_empty empty ▸ Nat.le_of_lt less
  cases status with
  | streamRecord =>
      rw [interpreted]
      split_ifs
      · exact ⟨(Reader.left_of_empty rfl).symm.trans_le (Nat.le_of_lt less), fun _ => less⟩
      · exact ⟨less, empty, rfl, by decide⟩
  | skip => exact ⟨less, empty, rfl, by decide⟩
  | beginRecord => exact ⟨le, fun _ => less⟩
  | mgmtRecord => exact ⟨less, empty, rfl, by decide⟩
  | error errno => exact ⟨le, fun _ => less⟩

theorem behindRecord_uses (lawful : Lawful process) (empty : r.avail = []) (open' : r.isClosed = false)
    (short : header.length < headerLen) (le : r.left ≤ n) (some : r.left < n ∨ r.rest ≠ []) :
    (behindRecord process r header).Uses n := by
  cases eor : r.eorStop with
  | true =>
      rw [behindRecord_eor eor]
      exact ⟨(Reader.left_of_empty rfl).symm.trans_le le, fun closed => absurd closed Bool.noConfusion⟩
  | false =>
      rcases Nat.lt_or_ge (header.length + r.rest.length) headerLen with few | enough
      · rw [behindRecord_few eor few]
        refine ⟨?_, empty, open', by rwa [List.length_append]⟩
        rw [Reader.left] at le some ⊢
        rcases some with less | some
        · exact Nat.lt_of_le_of_lt (by simp) less
        · have pos := List.length_pos_iff.2 some
          simp only [List.length_nil]
          omega
      · rw [behindRecord_enough eor short enough]
        apply interpreted_uses
        · apply Nat.lt_of_le_of_lt (lawful.shorter _ _ rfl)
          rw [Reader.left] at le ⊢
          simp only [List.length_drop]
          omega
        · exact lawful.empty _ _ rfl

theorem behindContent_uses (lawful : Lawful process) (empty : r.avail = []) (open' : r.isClosed = false)
    (short : header.length < headerLen) (le : r.left ≤ n) (some : r.left < n ∨ r.rest ≠ []) :
    (behindContent process r header).Uses n := by
  rcases Nat.lt_or_ge r.rest.length r.paddingLen with few | enough
  · rw [behindContent_few few]
    refine ⟨?_, empty, open', short⟩
    rw [Reader.left] at le some ⊢
    rcases some with less | some
    · exact Nat.lt_of_le_of_lt (by simp) less
    · have pos := List.length_pos_iff.2 some
      simp only [List.length_nil]
      omega
  · rw [behindContent_enough enough]
    refine behindRecord_uses (r := { r with paddingLen := 0, rest := r.rest.drop r.paddingLen }) lawful empty open' short
      ?_ ?_
    · rw [Reader.left] at le ⊢
      simp only [List.length_drop]
      omega
    · rcases Nat.eq_zero_or_pos r.paddingLen with none | pos
      · rw [none, List.drop_zero]
        exact some
      · left
        rw [Reader.left] at le ⊢
        simp only [List.length_drop]
        omega

theorem fillTurn_uses (lawful : Lawful process) (empty : r.avail = []) (open' : r.isClosed = false)
    (short : header.length < headerLen) : (fillTurn process r header).Uses r.left := by
  cases filled : refill r with
  | error r' =>
      obtain ⟨-, rfl⟩ := refill_error empty filled
      rw [fillTurn_error filled]
      exact ⟨Nat.le_of_eq (Reader.left_of_empty empty).symm, fun closed => absurd closed Bool.noConfusion⟩
  | ok r' =>
      obtain ⟨same, empty', some, left⟩ := refill_ok empty filled
      have open'' : r'.isClosed = false := (congrArg Reader.isClosed same).trans open'
      rw [fillTurn_ok filled, ← left]
      have pos := List.length_pos_iff.2 some
      rcases Nat.eq_zero_or_pos r'.contentLen with none | content
      · rw [filledTurn_behind none]
        exact behindContent_uses lawful empty' open'' short (Nat.le_refl _) (.inr some)
      · cases skip : r'.skip with
        | false =>
            rw [filledTurn_deliver skip content]
            have less : (r'.rest.drop (min r'.contentLen r'.rest.length)).length < r'.rest.length := by
              rw [List.length_drop]
              omega
            refine ⟨Nat.le_of_eq ?_, fun _ => Nat.add_lt_add_right less _⟩
            rw [Reader.left_of_empty empty']
            exact congrArg (fun w : Reader => w.rest.length) (r'.delivered_whole empty')
        | true =>
            rcases Nat.lt_or_ge r'.rest.length r'.contentLen with few | enough
            · rw [filledTurn_few skip few]
              exact ⟨Nat.add_lt_add_right pos _, empty', open'', short⟩
            · rw [filledTurn_enough skip content enough]
              have less : (r'.rest.drop r'.contentLen).length < r'.rest.length := by
                rw [List.length_drop]
                omega
              exact behindContent_uses (r := { r' with contentLen := 0, skip := false, rest := r'.rest.drop r'.contentLen })
                lawful empty' open'' short (Nat.add_le_add_right (Nat.le_of_lt less) _) (.inl (Nat.add_lt_add_right less _))

end Uses

end HvmlFpm.Fcgi
