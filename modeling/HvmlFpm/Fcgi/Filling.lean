import HvmlFpm.Fcgi.Whole

/-!
# What filling comes to

The loop of `FillBuffProc` as a relation, without its fuel. Two readers that are alike have the same filling, whatever
the pieces in which the bytes arrive.
-/

namespace HvmlFpm.Fcgi
open Library

inductive Fills (process : Header → Reader → Status × Reader) : Reader → Bytes → Reader → Prop
  | returns {r filled : Reader} {header : Bytes} (turn : fillTurn process r header = .returns filled) :
      Fills process r header filled
  | continues {r s filled : Reader} {header header' : Bytes} (turn : fillTurn process r header = .continues s header')
      (fills : Fills process s header' filled) : Fills process r header filled

section Fills
variable {process : Header → Reader → Status × Reader} {r r' s filled filled' : Reader} {header header' : Bytes}

theorem Fills.unique (fills : Fills process r header filled) (fills' : Fills process r header filled') :
    filled = filled' := by
  induction fills with
  | returns turn =>
      cases fills' with
      | returns turn' => exact Turn.returns.inj (turn.symm.trans turn')
      | continues turn' _ => exact Turn.noConfusion (turn.symm.trans turn')
  | continues turn _ ih =>
      cases fills' with
      | returns turn' => exact Turn.noConfusion (turn.symm.trans turn')
      | continues turn' fills' =>
          obtain ⟨rfl, rfl⟩ := Turn.continues.inj (turn.symm.trans turn')
          exact ih fills'

theorem Fills.of_turn (fills : Fills process r header filled) (same : fillTurn process s header' = fillTurn process r header) :
    Fills process s header' filled := by
  cases fills with
  | returns turn => exact .returns (same.trans turn)
  | continues turn fills => exact .continues (same.trans turn) fills

theorem left_of_alike (empty : r.avail = []) (empty' : r'.avail = []) (same : r.whole = r'.whole) : r.left = r'.left := by
  rw [Reader.left_of_empty empty, Reader.left_of_empty empty', ← Reader.whole_rest, same, Reader.whole_rest]

variable (lawful : Lawful process)
include lawful

theorem fillLoop_fills (fuel : Nat) (r : Reader) (header : Bytes) (empty : r.avail = []) (open' : r.isClosed = false)
    (short : header.length < headerLen) (enough : r.left < fuel) :
    Fills process r header (fillLoop process fuel r header) := by
  induction fuel generalizing r header with
  | zero => simp at enough
  | succ fuel ih =>
      have uses := fillTurn_uses lawful empty open' short
      rw [fillLoop]
      cases turn : fillTurn process r header with
      | returns filled => exact .returns turn
      | continues s header' =>
          rw [turn] at uses
          obtain ⟨less, empty', open', short'⟩ := uses
          exact .continues turn (ih s header' empty' open' short' (Nat.lt_of_lt_of_le less (Nat.le_of_lt_succ enough)))

theorem fillBuff_fills (empty : r.avail = []) (open' : r.isClosed = false) : Fills process r [] (fillBuff process r) :=
  fillLoop_fills lawful _ r [] empty open' (by decide) (Nat.lt_succ_self _)

theorem fillBuff_of_fills (empty : r.avail = []) (open' : r.isClosed = false) (fills : Fills process r [] filled) :
    fillBuff process r = filled := (fillBuff_fills lawful empty open').unique fills

theorem Fills.uses (fills : Fills process r header filled) (empty : r.avail = []) (open' : r.isClosed = false)
    (short : header.length < headerLen) :
    filled.ahead.length ≤ r.left ∧ (filled.isClosed = false → filled.left < r.left) := by
  induction fills with
  | returns turn =>
      have uses := fillTurn_uses lawful empty open' short
      rwa [turn] at uses
  | @continues r s filled header header' turn fills ih =>
      have uses := fillTurn_uses lawful empty open' short
      rw [turn] at uses
      obtain ⟨less, empty', open', short'⟩ := uses
      obtain ⟨le, -⟩ := ih empty' open' short'
      have before := Nat.lt_of_le_of_lt le less
      have behind : filled.left ≤ filled.ahead.length := filled.length_ahead ▸ Nat.le_add_left _ _
      exact ⟨Nat.le_of_lt before, fun _ => Nat.lt_of_le_of_lt behind before⟩

theorem fillBuff_uses (empty : r.avail = []) (open' : r.isClosed = false) :
    (fillBuff process r).ahead.length ≤ r.left ∧
      ((fillBuff process r).isClosed = false → (fillBuff process r).left < r.left) :=
  (fillBuff_fills lawful empty open').uses lawful empty open' (by decide)

theorem fills_whole (r : Reader) (header : Bytes) (empty : r.avail = []) (open' : r.isClosed = false)
    (short : header.length < headerLen) :
    ∃ filled filled', Fills process r header filled ∧ Fills process r.whole header filled' ∧
      filled.whole = filled'.whole ∧ filled.Sound ∧ filled'.Sound ∧ (filled.avail = [] ↔ filled'.avail = []) := by
  induction bound : r.left using Nat.strongRecOn generalizing r header with
  | ind n ih =>
      subst bound
      have uses := fillTurn_uses lawful empty open' short
      rcases fillTurn_follows lawful empty open' short with agree | ⟨s, header', turn, empty', short', restart⟩
      · cases turn : fillTurn process r header with
        | returns filled =>
            cases turn' : fillTurn process r.whole header with
            | returns filled' =>
                rw [turn, turn'] at agree
                exact ⟨filled, filled', .returns turn, .returns turn', agree⟩
            | continues s' header' =>
                rw [turn, turn'] at agree
                exact agree.elim
        | continues s header' =>
            cases turn' : fillTurn process r.whole header with
            | returns filled' =>
                rw [turn, turn'] at agree
                exact agree.elim
            | continues s' header'' =>
                rw [turn, turn'] at agree
                rw [turn] at uses
                obtain ⟨same, empty₁, empty₂, rfl, short'⟩ := agree
                obtain ⟨less, -, open₁, -⟩ := uses
                have open₂ : s'.isClosed = false := (congrArg Reader.isClosed same).symm.trans open₁
                have less' : s'.left < r.left := left_of_alike empty₁ empty₂ same ▸ less
                obtain ⟨f, f', fills, fills', alike, sound, -, available⟩ :=
                  ih _ less s header' empty₁ open₁ short' rfl
                obtain ⟨g, g', goes, goes', alike', sound', -, available'⟩ :=
                  ih _ less' s' header' empty₂ open₂ short' rfl
                rw [same] at fills'
                obtain rfl := fills'.unique goes'
                exact ⟨f, g, .continues turn fills, .continues turn' goes, alike.trans alike'.symm, sound, sound',
                  available.trans available'.symm⟩
      · rw [turn] at uses
        obtain ⟨less, -, open₁, -⟩ := uses
        obtain ⟨f, f', fills, fills', alike⟩ := ih _ less s header' empty' open₁ short' rfl
        refine ⟨f, f', .continues turn fills, ?_, alike⟩
        rcases restart with same | goes
        · exact fills'.of_turn same
        · exact .continues goes fills'

theorem fillBuff_alike (empty : r.avail = []) (empty' : r'.avail = []) (open' : r.isClosed = false)
    (same : r.whole = r'.whole) :
    (fillBuff process r).whole = (fillBuff process r').whole ∧ (fillBuff process r).Sound ∧
      ((fillBuff process r).avail = [] ↔ (fillBuff process r').avail = []) := by
  have open'' : r'.isClosed = false := (congrArg Reader.isClosed same).symm.trans open'
  obtain ⟨f, f', fills, fills', alike, sound, -, available⟩ := fills_whole lawful r [] empty open' (by decide)
  obtain ⟨g, g', goes, goes', alike', -, -, available'⟩ := fills_whole lawful r' [] empty' open'' (by decide)
  rw [same] at fills'
  obtain rfl := fills'.unique goes'
  rw [fillBuff_of_fills lawful empty open' fills, fillBuff_of_fills lawful empty' open'' goes]
  exact ⟨alike.trans alike'.symm, sound, available.trans available'.symm⟩

end Fills

def Reader.frame (r : Reader) : UInt8 × Request × (Nat → UInt8) × Bool × Connection :=
  (r.type, r.request, r.stack, r.fault, { r.connection with arriving := [] })

section Keeps
variable {process : Header → Reader → Status × Reader} {P : Reader → Prop} {r filled : Reader} {header : Bytes}

def Turn.Keeps (P : Reader → Prop) : Turn → Prop
  | .returns r => P r ∧ (r.isClosed = true ∨ r.avail ≠ [])
  | .continues r _ => P r ∧ r.avail = [] ∧ r.isClosed = false

theorem refill_frame {r' : Reader} (filled : refill r = .ok r') : r'.frame = r.frame := by
  by_cases none : r.rest = []
  · cases read : readPieces (bufferSize 8192) r.connection.arriving with
    | none => cases ending : r.connection.ending <;> simp [refill, none, read, ending] at filled
    | some found =>
        simp only [refill, none, if_true, read, Except.ok.injEq] at filled
        subst filled
        rfl
  · rw [refill_of_rest none, Except.ok.injEq] at filled
    rw [filled]

variable (stable : ∀ r r' : Reader, r'.frame = r.frame → P r → P r')
  (kept : ∀ header r, r.avail = [] → P r → (process header r).1 ≠ .beginRecord ∧ (process header r).2.avail = [] ∧
    P (process header r).2)
include stable kept

theorem behindRecord_keeps (holds : P r) (empty : r.avail = []) (open' : r.isClosed = false) :
    (behindRecord process r header).Keeps P := by
  cases eor : r.eorStop with
  | true =>
      rw [behindRecord_eor eor]
      exact ⟨stable r _ rfl holds, .inl rfl⟩
  | false =>
      rw [behindRecord, if_neg (by simp [eor])]
      simp only
      split_ifs
      · exact ⟨stable r _ rfl holds, empty, open'⟩
      · generalize at_ : ({ r with
          rest := r.rest.drop (min (headerLen - header.length) r.rest.length), eorStop := true, avail := [] } : Reader) = s
        have before : P s := at_ ▸ stable r _ rfl holds
        have empty' : s.avail = [] := at_ ▸ rfl
        obtain ⟨notBegin, still, after⟩ := kept (.ofBytes
          (header ++ r.rest.take (min (headerLen - header.length) r.rest.length))) s empty' before
        generalize process (.ofBytes (header ++ r.rest.take (min (headerLen - header.length) r.rest.length))) s = x
          at notBegin still after
        obtain ⟨status, t⟩ := x
        cases status with
        | streamRecord =>
            rw [interpreted]
            split_ifs
            · exact ⟨stable t _ rfl after, .inl rfl⟩
            · exact ⟨stable t _ rfl after, still, rfl⟩
        | skip => exact ⟨stable t _ rfl after, still, rfl⟩
        | beginRecord => exact absurd rfl notBegin
        | mgmtRecord => exact ⟨stable t _ rfl after, still, rfl⟩
        | error errno => exact ⟨stable t _ rfl after, .inl rfl⟩

theorem behindContent_keeps (holds : P r) (empty : r.avail = []) (open' : r.isClosed = false) :
    (behindContent process r header).Keeps P := by
  rcases Nat.lt_or_ge r.rest.length r.paddingLen with few | enough
  · rw [behindContent_few few]
    exact ⟨stable r _ rfl holds, empty, open'⟩
  · rw [behindContent_enough enough]
    exact behindRecord_keeps stable kept (stable r _ rfl holds) empty open'

theorem fillTurn_keeps (header : Bytes) (holds : P r) (empty : r.avail = []) (open' : r.isClosed = false) :
    (fillTurn process r header).Keeps P := by
  cases filled : refill r with
  | error r' =>
      obtain ⟨-, rfl⟩ := refill_error empty filled
      rw [fillTurn_error filled]
      exact ⟨stable r _ rfl holds, .inl rfl⟩
  | ok r' =>
      obtain ⟨same, empty', some, -⟩ := refill_ok empty filled
      have open'' : r'.isClosed = false := (congrArg Reader.isClosed same).trans open'
      have holds' : P r' := stable r r' (refill_frame filled) holds
      rw [fillTurn_ok filled]
      rcases Nat.eq_zero_or_pos r'.contentLen with none | content
      · rw [filledTurn_behind none]
        exact behindContent_keeps stable kept holds' empty' open''
      · cases skip : r'.skip with
        | false =>
            rw [filledTurn_deliver skip content]
            refine ⟨stable r' _ rfl holds', .inr ?_⟩
            have pos := List.length_pos_iff.2 some
            simp only [ne_eq, List.take_eq_nil_iff, some, or_false]
            omega
        | true =>
            rcases Nat.lt_or_ge r'.rest.length r'.contentLen with few | enough
            · rw [filledTurn_few skip few]
              exact ⟨stable r' _ rfl holds', empty', open''⟩
            · rw [filledTurn_enough skip content enough]
              exact behindContent_keeps stable kept (stable r' _ rfl holds') empty' open''

theorem Fills.keeps (fills : Fills process r header filled) (holds : P r) (empty : r.avail = [])
    (open' : r.isClosed = false) : P filled ∧ (filled.isClosed = true ∨ filled.avail ≠ []) := by
  induction fills with
  | @returns r filled header turn =>
      have keeps := fillTurn_keeps stable kept header holds empty open'
      rwa [turn] at keeps
  | @continues r s filled header header' turn fills ih =>
      have keeps := fillTurn_keeps stable kept header holds empty open'
      rw [turn] at keeps
      exact ih keeps.1 keeps.2.1 keeps.2.2

end Keeps

theorem fillBuff_ready (process : Header → Reader → Status × Reader) {r : Reader} (empty : r.avail = [])
    (taken : r.skip = false) (some : 0 < r.contentLen) (more : r.ahead ≠ []) :
    (fillBuff process r).whole = r.whole ∧ (fillBuff process r).avail ≠ [] := by
  rw [fillBuff, fillLoop]
  cases filled : refill r with
  | error r' => exact absurd (refill_error empty filled).1 more
  | ok r' =>
      obtain ⟨same, empty', rest, -⟩ := refill_ok empty filled
      have taken' : r'.skip = false := (congrArg Reader.skip same).trans taken
      have content : r'.contentLen = r.contentLen := by
        simpa [Reader.whole, empty, empty'] using congrArg Reader.contentLen same
      have pos := List.length_pos_iff.2 rest
      rw [fillTurn_ok filled, filledTurn_deliver taken' (content ▸ some)]
      refine ⟨(r'.delivered_whole empty').trans same, ?_⟩
      simp only [ne_eq, List.take_eq_nil_iff, rest, or_false]
      omega

end HvmlFpm.Fcgi
