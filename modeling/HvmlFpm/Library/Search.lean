import Mathlib.Data.List.Basic
import Mathlib.Data.List.Infix

/-!
# Searching while reading

A pattern whose first letter does not occur again in it can be found letter by letter, without going
back: a match that breaks off leaves no shorter match open.
-/

namespace HvmlFpm.Library
variable {α : Type}

def Differ (x pattern : List α) : Prop :=
  ∃ (k : Nat) (a b : α), x[k]? = some a ∧ pattern[k]? = some b ∧ a ≠ b

theorem Differ.append {x pattern : List α} (h : Differ x pattern) (z : List α) :
    Differ (x ++ z) pattern := by
  obtain ⟨k, a, b, at_x, at_pattern, ne⟩ := h
  obtain ⟨bound, -⟩ := List.getElem?_eq_some_iff.1 at_x
  exact ⟨k, a, b, by rw [List.getElem?_append_left bound, at_x], at_pattern, ne⟩

theorem Differ.no_occurrence {x pattern : List α} (h : Differ x pattern) : ¬ pattern <+: x := by
  rintro ⟨z, rfl⟩
  obtain ⟨k, a, b, at_x, at_pattern, ne⟩ := h
  obtain ⟨bound, -⟩ := List.getElem?_eq_some_iff.1 at_pattern
  rw [List.getElem?_append_left bound, at_pattern] at at_x
  exact ne (Option.some.inj at_x).symm

/-- `pattern` occurs in `text` at `n`, and nowhere before. -/
def FirstAt (pattern text : List α) (n : Nat) : Prop :=
  pattern <+: text.drop n ∧ ∀ i < n, ¬ pattern <+: text.drop i

theorem FirstAt.append {pattern text : List α} {n : Nat} (first : FirstAt pattern text n)
    (fits : n + pattern.length ≤ text.length) (z : List α) : FirstAt pattern (text ++ z) n := by
  obtain ⟨here, nowhere⟩ := first
  refine ⟨?_, ?_⟩
  · rw [List.drop_append_of_le_length (by omega)]
    exact here.trans (List.prefix_append _ _)
  · intro i lt occurs
    rw [List.drop_append_of_le_length (by omega)] at occurs
    apply nowhere i lt
    exact List.prefix_of_prefix_length_le occurs (List.prefix_append _ _)
      (by rw [List.length_drop]; omega)

theorem FirstAt.of_append {pattern text z : List α} {n : Nat} (first : FirstAt pattern (text ++ z) n)
    (fits : n + pattern.length ≤ text.length) : FirstAt pattern text n := by
  obtain ⟨here, nowhere⟩ := first
  rw [List.drop_append_of_le_length (by omega)] at here
  refine ⟨List.prefix_of_prefix_length_le here (List.prefix_append _ _) (by rw [List.length_drop]; omega), ?_⟩
  intro i lt occurs
  apply nowhere i lt
  rw [List.drop_append_of_le_length (by omega)]
  exact occurs.trans (List.prefix_append _ _)

theorem FirstAt.unique {pattern text : List α} {n m : Nat} (first : FirstAt pattern text n)
    (first' : FirstAt pattern text m) : n = m := by
  rcases Nat.lt_trichotomy n m with early | same | late
  · exact absurd first.1 (first'.2 n early)
  · exact same
  · exact absurd first'.1 (first.2 m late)

def DeadBefore (pattern x : List α) (n : Nat) : Prop := ∀ i < n, Differ (x.drop i) pattern

theorem DeadBefore.append {pattern x : List α} {n : Nat} (dead : DeadBefore pattern x n)
    (le : n ≤ x.length) (z : List α) : DeadBefore pattern (x ++ z) n := by
  intro i lt
  rw [List.drop_append_of_le_length (by omega)]
  exact (dead i lt).append z

/-- The letters read so far are `x`: those of `y` belong to no occurrence, the ones behind them are the
first `k` of the pattern. -/
structure Searching (pattern x y : List α) (k : Nat) : Prop where
  split : x = y ++ pattern.take k
  dead : DeadBefore pattern x y.length

theorem Searching.nil (pattern : List α) : Searching pattern [] [] 0 := ⟨by simp, nofun⟩

theorem Searching.hit {pattern x y : List α} {k : Nat} (searching : Searching pattern x y k) {c : α}
    (at_k : pattern[k]? = some c) : Searching pattern (x ++ [c]) y (k + 1) where
  split := by
    rw [List.take_add_one, at_k, ← List.append_assoc, ← searching.split]
    rfl
  dead := searching.dead.append (by simp [searching.split]) [c]

theorem Searching.firstAt {pattern x y : List α} (searching : Searching pattern x y pattern.length) :
    FirstAt pattern x y.length := by
  refine ⟨?_, fun i lt => (searching.dead i lt).no_occurrence⟩
  rw [searching.split, List.take_length, List.drop_left]

theorem Searching.no_occurrence {pattern x y : List α} {k : Nat} (searching : Searching pattern x y k)
    (short : k < pattern.length) (n : Nat) : ¬ pattern <+: x.drop n := by
  intro occurs
  have length := congrArg List.length searching.split
  rw [List.length_append, List.length_take] at length
  have fits := occurs.length_le
  rw [List.length_drop] at fits
  exact (searching.dead n (by omega)).no_occurrence occurs

section Head
variable {h : α} {t x y : List α} {k : Nat} {b c : α}

theorem firstAt_of_not_infix {text : List α} (once : h ∉ t) (absent : ¬ h :: t <:+: text) (z : List α) :
    FirstAt (h :: t) (text ++ h :: t ++ z) text.length := by
  refine ⟨by rw [List.append_assoc, List.drop_left]; exact List.prefix_append _ _, ?_⟩
  intro i lt occurs
  by_cases fits : i + (h :: t).length ≤ text.length
  · -- It would lie inside the text.
    rw [List.append_assoc, List.drop_append_of_le_length lt.le] at occurs
    have inside : h :: t <+: text.drop i :=
      List.prefix_of_prefix_length_le occurs (List.prefix_append _ _) (by rw [List.length_drop]; omega)
    exact absent (inside.isInfix.trans (List.drop_suffix i text).isInfix)
  · -- Its tail would have the first letter of the pattern behind the text.
    obtain ⟨j, length⟩ : ∃ j, text.length = i + (j + 1) := ⟨text.length - i - 1, by omega⟩
    rw [List.length_cons] at fits
    have inTail : j < t.length := by omega
    obtain ⟨rest, occurs⟩ := occurs
    have behind := congrArg (·[j + 1]?) occurs
    simp only [List.cons_append, List.getElem?_cons_succ] at behind
    rw [List.getElem?_append_left inTail, List.getElem?_eq_getElem inTail, List.append_assoc,
      List.getElem?_drop, ← length, List.getElem?_append_right le_rfl, Nat.sub_self] at behind
    exact once (Option.some.inj behind ▸ List.getElem_mem inTail)

theorem not_infix_of_firstAt {pattern text z : List α} (first : FirstAt pattern (text ++ z) text.length)
    (nonempty : pattern ≠ []) : ¬ pattern <:+: text := by
  rintro ⟨before, behind, rfl⟩
  apply first.2 before.length
  · have := List.length_pos_of_ne_nil nonempty
    rw [List.length_append, List.length_append]
    omega
  · rw [List.append_assoc, List.append_assoc, List.drop_left]
    exact List.prefix_append _ _

theorem Searching.miss (searching : Searching (h :: t) x y k) (once : h ∉ t)
    (at_k : (h :: t)[k]? = some b) (differs : b ≠ c) : DeadBefore (h :: t) (x ++ [c]) x.length := by
  obtain ⟨split, dead⟩ := searching
  obtain ⟨bound, -⟩ := List.getElem?_eq_some_iff.1 at_k
  have matched : ((h :: t).take k).length = k := by
    rw [List.length_take]
    omega
  have length : x.length = y.length + k := by rw [split, List.length_append, matched]
  intro i lt
  rcases Nat.lt_trichotomy i y.length with early | rfl | late
  · exact dead.append (by omega) [c] i early
  · refine ⟨k, c, b, ?_, at_k, differs.symm⟩
    rw [split, List.append_assoc, List.drop_left, List.getElem?_append_right (by omega), matched]
    simp
  · -- An occurrence that began inside the match would begin with a letter of the pattern's tail.
    obtain ⟨j, rfl⟩ := Nat.exists_eq_add_of_lt late
    have inTail : j < t.length := by
      simp only [List.length_cons] at bound
      omega
    refine ⟨0, t[j], h, ?_, rfl, fun e => once (e ▸ List.getElem_mem inTail)⟩
    rw [List.getElem?_drop, List.getElem?_append_left (by omega), split,
      List.getElem?_append_right (by omega), Nat.add_zero, Nat.add_assoc, Nat.add_sub_cancel_left,
      List.getElem?_take_of_lt (by omega), List.getElem?_cons_succ, List.getElem?_eq_getElem inTail]

theorem searching_restart (dead : DeadBefore (h :: t) (x ++ [h]) x.length) :
    Searching (h :: t) (x ++ [h]) x 1 :=
  ⟨rfl, dead⟩

theorem searching_pass (dead : DeadBefore (h :: t) (x ++ [c]) x.length) (other : c ≠ h) :
    Searching (h :: t) (x ++ [c]) (x ++ [c]) 0 where
  split := by simp
  dead := by
    intro i lt
    rw [List.length_append, List.length_singleton, Nat.lt_succ_iff] at lt
    rcases Nat.lt_or_eq_of_le lt with early | rfl
    · exact dead i early
    · exact ⟨0, c, h, by simp, rfl, other⟩

end Head
end HvmlFpm.Library
