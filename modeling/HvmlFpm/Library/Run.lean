import Mathlib.Data.List.Basic

/-!
# Runs of a system that takes labelled steps

A step is a partial function of the state and the label. A run records every step with the state
it is taken from.
-/

namespace HvmlFpm.Library
variable {σ ℓ : Type} {step : σ → ℓ → Option σ} {start s : σ} {trace : List (σ × ℓ)}

inductive Run (step : σ → ℓ → Option σ) (start : σ) : List (σ × ℓ) → σ → Prop
  | nil : Run step start [] start
  | snoc {trace : List (σ × ℓ)} {s s' : σ} (label : ℓ) (run : Run step start trace s)
      (next : step s label = some s') : Run step start (trace ++ [(s, label)]) s'

def follow (step : σ → ℓ → Option σ) : List ℓ → σ → Option σ
  | [], s => some s
  | label :: labels, s => (step s label).bind (follow step labels)

theorem Run.invariant {I : σ → Prop} (run : Run step start trace s) (initial : I start)
    (preserved : ∀ s label s', I s → step s label = some s' → I s') : I s := by
  induction run with
  | nil => exact initial
  | snoc label run next ih => exact preserved _ label _ ih next

theorem Run.each {P : σ → ℓ → Prop} (run : Run step start trace s)
    (taken : ∀ trace s label s', Run step start trace s → step s label = some s' → P s label) :
    ∀ e ∈ trace, P e.1 e.2 := by
  induction run with
  | nil => simp
  | snoc label run next ih =>
      intro e member
      rcases List.mem_append.1 member with earlier | last
      · exact ih e earlier
      · obtain rfl := List.mem_singleton.1 last
        exact taken _ _ label _ run next

theorem Run.invariant_before {I : σ → Prop} (run : Run step start trace s) (initial : I start)
    (preserved : ∀ s label s', I s → step s label = some s' → I s') : ∀ e ∈ trace, I e.1 :=
  run.each (P := fun s _ => I s) fun _ _ _ _ before _ => before.invariant initial preserved

theorem Run.taken (run : Run step start trace s) : ∀ e ∈ trace, ∃ s', step e.1 e.2 = some s' :=
  run.each (P := fun s label => ∃ s', step s label = some s') fun _ _ _ s' _ next => ⟨s', next⟩

theorem Run.append {trace' : List (σ × ℓ)} {s' : σ} (run : Run step start trace s)
    (rest : Run step s trace' s') : Run step start (trace ++ trace') s' := by
  induction rest with
  | nil => simpa using run
  | snoc label rest next ih =>
      rw [← List.append_assoc]
      exact ih.snoc label next

theorem run_of_follow {labels : List ℓ} {s' : σ} (followed : follow step labels s = some s') :
    ∃ trace, Run step s trace s' ∧ trace.map Prod.snd = labels := by
  induction labels generalizing s with
  | nil =>
      obtain rfl := Option.some.inj followed
      exact ⟨[], .nil, rfl⟩
  | cons label labels ih =>
      obtain ⟨between, next, rest⟩ := Option.bind_eq_some_iff.1 followed
      obtain ⟨trace, run, same⟩ := ih rest
      refine ⟨[(s, label)] ++ trace, (Run.nil.snoc label next).append run, ?_⟩
      rw [List.map_append, same]
      rfl

section Occurs
variable {α : Type} {P : α → Prop} {Ps : List (α → Prop)} {l : List α} {e : α}

/-- Entries with these properties stand in the list, in this order. -/
def Occurs : List (α → Prop) → List α → Prop
  | [], _ => True
  | P :: Ps, l => ∃ before e after, l = before ++ e :: after ∧ P e ∧ Occurs Ps after

theorem not_occurs_nil : ¬ Occurs (P :: Ps) [] := by
  intro ⟨before, e, after, split, _⟩
  simp at split

theorem Occurs.append (occurs : Occurs Ps l) (more : List α) : Occurs Ps (l ++ more) := by
  induction Ps generalizing l with
  | nil => trivial
  | cons P Ps ih =>
      obtain ⟨before, e, after, rfl, holds, rest⟩ := occurs
      exact ⟨before, e, after ++ more, by simp, holds, ih rest⟩

theorem occurs_concat (Ps : List (α → Prop)) (P : α → Prop) (l : List α) (e : α) :
    Occurs (Ps ++ [P]) (l ++ [e]) ↔ Occurs (Ps ++ [P]) l ∨ (Occurs Ps l ∧ P e) := by
  constructor
  · intro occurs
    induction Ps generalizing l with
    | nil =>
        obtain ⟨before, x, after, split, holds, _⟩ := occurs
        rcases List.eq_nil_or_concat' after with rfl | ⟨after, last, rfl⟩
        · obtain ⟨rfl, last⟩ := List.append_inj' split rfl
          obtain rfl := List.singleton_inj.1 last
          exact .inr ⟨trivial, holds⟩
        · rw [← List.cons_append, ← List.append_assoc] at split
          exact .inl ⟨before, x, after, (List.append_inj' split rfl).1, holds, trivial⟩
    | cons Q Ps ih =>
        obtain ⟨before, x, after, split, holds, rest⟩ := occurs
        rcases List.eq_nil_or_concat' after with rfl | ⟨after, last, rfl⟩
        · cases Ps with
          | nil => exact absurd rest not_occurs_nil
          | cons R Ps => exact absurd rest not_occurs_nil
        · rw [← List.cons_append, ← List.append_assoc] at split
          obtain ⟨rfl, ends⟩ := List.append_inj' split rfl
          obtain rfl := List.singleton_inj.1 ends
          rcases ih after rest with earlier | ⟨earlier, now⟩
          · exact .inl ⟨before, x, after, rfl, holds, earlier⟩
          · exact .inr ⟨⟨before, x, after, rfl, holds, earlier⟩, now⟩
  · intro occurs
    rcases occurs with earlier | ⟨earlier, now⟩
    · exact earlier.append [e]
    · induction Ps generalizing l with
      | nil => exact ⟨l, e, [], rfl, now, trivial⟩
      | cons Q Ps ih =>
          obtain ⟨before, x, after, rfl, holds, rest⟩ := earlier
          exact ⟨before, x, after ++ [e], by simp, holds, ih after rest⟩

end Occurs

end HvmlFpm.Library
