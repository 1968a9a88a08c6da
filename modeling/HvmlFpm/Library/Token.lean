import Mathlib.Data.List.TakeWhile

/-!
# Tokens between delimiters

A scanner skips the delimiters in front and takes the longest run without a delimiter.
-/

namespace HvmlFpm.Library
variable {α : Type}

/-- Where the first token of a text starts, and how long it is. -/
def nextToken (isDelimiter : α → Bool) (text : List α) : Nat × Nat :=
  ((text.takeWhile isDelimiter).length,
    ((text.dropWhile isDelimiter).takeWhile fun c => !isDelimiter c).length)

variable {isDelimiter : α → Bool}

theorem nextToken_split (isDelimiter : α → Bool) (text : List α) :
    ∃ skipped token rest, text = skipped ++ token ++ rest ∧
      nextToken isDelimiter text = (skipped.length, token.length) ∧
      (∀ c ∈ skipped, isDelimiter c = true) ∧ (∀ c ∈ token, isDelimiter c = false) := by
  refine ⟨text.takeWhile isDelimiter, (text.dropWhile isDelimiter).takeWhile fun c => !isDelimiter c,
    (text.dropWhile isDelimiter).dropWhile fun c => !isDelimiter c, ?_, rfl, ?_, ?_⟩
  · rw [List.append_assoc, List.takeWhile_append_dropWhile, List.takeWhile_append_dropWhile]
  · intro c member
    exact List.mem_takeWhile_imp member
  · intro c member
    simpa using List.mem_takeWhile_imp member

theorem clean_of_not_mem [BEq α] [LawfulBEq α] {delimiter : α} {text : List α} (absent : delimiter ∉ text) :
    ∀ c ∈ text, [delimiter].contains c = false := by
  intro c member
  have other : c ≠ delimiter := fun same => absent (same ▸ member)
  simpa using other

theorem nextToken_whole {text : List α} (clean : ∀ c ∈ text, isDelimiter c = false) :
    nextToken isDelimiter text = (0, text.length) := by
  cases text with
  | nil => rfl
  | cons c text =>
      have kept : ∀ d ∈ c :: text, (!isDelimiter d) = true := by
        intro d member
        simp [clean d member]
      have first : isDelimiter c = false := clean c (by simp)
      rw [nextToken, List.takeWhile_cons_of_neg (by simp [first]), List.dropWhile_cons_of_neg (by simp [first]),
        List.takeWhile_eq_self_iff.2 kept]
      rfl

theorem nextToken_front {token rest : List α} {delimiter : α} (nonempty : token ≠ [])
    (clean : ∀ c ∈ token, isDelimiter c = false) (ends : isDelimiter delimiter = true) :
    nextToken isDelimiter (token ++ delimiter :: rest) = (0, token.length) := by
  obtain ⟨c, token', rfl⟩ := List.exists_cons_of_ne_nil nonempty
  have first : isDelimiter c = false := clean c (by simp)
  have kept : ∀ d ∈ c :: token', (!isDelimiter d) = true := by
    intro d member
    simp [clean d member]
  rw [nextToken, List.cons_append, List.takeWhile_cons_of_neg (by simp [first]),
    List.dropWhile_cons_of_neg (by simp [first]), ← List.cons_append, List.takeWhile_append_of_pos kept,
    List.takeWhile_cons_of_neg (by simp [ends])]
  simp

theorem nextToken_behind {skipped token rest : List α} {delimiter : α} (delimiters : ∀ c ∈ skipped, isDelimiter c = true)
    (nonempty : token ≠ []) (clean : ∀ c ∈ token, isDelimiter c = false) (ends : isDelimiter delimiter = true) :
    nextToken isDelimiter (skipped ++ token ++ delimiter :: rest) = (skipped.length, token.length) := by
  have whole : nextToken isDelimiter (token ++ delimiter :: rest) = (0, token.length) :=
    nextToken_front nonempty clean ends
  have front := Prod.mk.inj whole
  rw [List.length_eq_zero_iff] at front
  rw [nextToken, List.append_assoc, List.takeWhile_append_of_pos delimiters, List.dropWhile_append_of_pos delimiters,
    List.length_append, front.1, front.2, List.length_nil, Nat.add_zero]

theorem run_cons_inj {J : α → Prop} {a a' u u' : List α} {d d' : α} (same : a ++ d :: u = a' ++ d' :: u')
    (run : ∀ c ∈ a, J c) (run' : ∀ c ∈ a', J c) (ends : ¬ J d) (ends' : ¬ J d') :
    a = a' ∧ d = d' ∧ u = u' := by
  induction a generalizing a' with
  | nil =>
      cases a' with
      | nil => exact ⟨rfl, List.cons.inj same⟩
      | cons c a' => exact absurd ((List.cons.inj same).1 ▸ run' c List.mem_cons_self) ends
  | cons c a ih =>
      cases a' with
      | nil => exact absurd ((List.cons.inj same).1 ▸ run c List.mem_cons_self) ends'
      | cons c' a' =>
          obtain ⟨rfl, rest⟩ := List.cons.inj same
          rw [List.forall_mem_cons] at run run'
          obtain ⟨rfl, tail⟩ := ih rest run.2 run'.2
          exact ⟨rfl, tail⟩

theorem append_cons_inj {a a' u u' : List α} {separator : α} (same : a ++ separator :: u = a' ++ separator :: u')
    (clean : separator ∉ a) (clean' : separator ∉ a') : a = a' ∧ u = u' := by
  have front (x : List α) (clean : separator ∉ x) : ∀ c ∈ x, c ≠ separator := by
    intro c mem e
    exact clean (e ▸ mem)
  obtain ⟨front, -, behind⟩ := run_cons_inj (J := (· ≠ separator)) same (front a clean) (front a' clean')
    (by simp) (by simp)
  exact ⟨front, behind⟩

end HvmlFpm.Library
