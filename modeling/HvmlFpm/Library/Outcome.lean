import Mathlib.Logic.Basic

/-!
# Outcomes of C functions that report failure

A call of such a function ends in one of three ways: it goes on with a result, it returns its
failure value, or it never returns. The last two keep the state they leave behind.
-/

namespace HvmlFpm.Library

inductive Outcome (ε σ α : Type) where
  | ok (result : α)
  | fail (left : σ)
  | stop (why : ε) (left : σ)
deriving DecidableEq, Repr

namespace Outcome
variable {ε σ α β γ κ : Type}

def bind : Outcome ε σ α → (α → Outcome ε σ β) → Outcome ε σ β
  | .ok a, f => f a
  | .fail s, _ => .fail s
  | .stop e s, _ => .stop e s

def map (f : α → β) (x : Outcome ε σ α) : Outcome ε σ β := x.bind fun a => .ok (f a)

@[simp] theorem ok_bind (a : α) (f : α → Outcome ε σ β) : (ok a).bind f = f a := rfl
@[simp] theorem fail_bind (s : σ) (f : α → Outcome ε σ β) : (fail s).bind f = fail s := rfl
@[simp] theorem stop_bind (e : ε) (s : σ) (f : α → Outcome ε σ β) :
    (stop e s).bind f = stop e s := rfl
@[simp] theorem ok_map (a : α) (f : α → β) : (ok a : Outcome ε σ α).map f = ok (f a) := rfl
@[simp] theorem fail_map (s : σ) (f : α → β) : (fail s : Outcome ε σ α).map f = fail s := rfl
@[simp] theorem stop_map (e : ε) (s : σ) (f : α → β) : (stop e s : Outcome ε σ α).map f = stop e s := rfl

theorem bind_assoc (x : Outcome ε σ α) (f : α → Outcome ε σ β) (g : β → Outcome ε σ γ) :
    (x.bind f).bind g = x.bind fun a => (f a).bind g := by
  cases x <;> rfl

theorem bind_ok (x : Outcome ε σ α) : (x.bind fun a => .ok a) = x := by
  cases x <;> rfl

theorem bind_eq_ok {x : Outcome ε σ α} {f : α → Outcome ε σ β} {b : β} :
    x.bind f = .ok b ↔ ∃ a, x = .ok a ∧ f a = .ok b := by
  cases x <;> simp

theorem map_eq_ok {x : Outcome ε σ α} {f : α → β} {b : β} :
    x.map f = .ok b ↔ ∃ a, x = .ok a ∧ f a = b := by
  cases x <;> simp

def result? : Outcome ε σ α → Option α
  | .ok a => some a
  | _ => none

theorem result?_eq_some {x : Outcome ε σ α} {a : α} : x.result? = some a ↔ x = .ok a := by
  cases x <;> simp [result?]

def stopped? : Outcome ε σ α → Option ε
  | .stop e _ => some e
  | _ => none

def failed? : Outcome ε σ α → Option Bool
  | .ok _ => some false
  | .fail _ => some true
  | .stop _ _ => none

def final {π : Type} : Outcome ε σ (π × σ) → σ
  | .ok r => r.2
  | .fail s => s
  | .stop _ s => s

def sequence (f : κ → α → Outcome ε σ α) : List κ → α → Outcome ε σ α
  | [], a => .ok a
  | k :: ks, a => (f k a).bind (sequence f ks)

@[simp] theorem sequence_nil (f : κ → α → Outcome ε σ α) (a : α) : sequence f [] a = .ok a := rfl

@[simp] theorem sequence_cons (f : κ → α → Outcome ε σ α) (k : κ) (ks : List κ) (a : α) :
    sequence f (k :: ks) a = (f k a).bind (sequence f ks) := rfl

theorem sequence_append (f : κ → α → Outcome ε σ α) (xs ys : List κ) (a : α) :
    sequence f (xs ++ ys) a = (sequence f xs a).bind (sequence f ys) := by
  induction xs generalizing a with
  | nil => rfl
  | cons x xs ih =>
      rw [List.cons_append, sequence_cons, sequence_cons, bind_assoc]
      congr 1
      funext b
      exact ih b

theorem sequence_singleton (f : κ → α → Outcome ε σ α) (k : κ) (a : α) :
    sequence f [k] a = f k a := bind_ok _

/-! ## What holds of an outcome

`All I J K` asks `I` of a result, `J` of what a failure leaves and `K` of what a stop leaves. -/

def All (I : α → Prop) (J : σ → Prop) (K : ε → σ → Prop) : Outcome ε σ α → Prop
  | .ok a => I a
  | .fail s => J s
  | .stop e s => K e s

variable {I I' : α → Prop} {J J' : σ → Prop} {K K' : ε → σ → Prop}

theorem All.of_ok {x : Outcome ε σ α} {a : α} (h : x.All I J K) (e : x = .ok a) : I a := by
  subst e
  exact h

theorem All.mono {x : Outcome ε σ α} (h : x.All I J K) (hi : ∀ a, I a → I' a)
    (hj : ∀ s, J s → J' s) (hk : ∀ e s, K e s → K' e s) : x.All I' J' K' := by
  cases x with
  | ok a => exact hi a h
  | fail s => exact hj s h
  | stop e s => exact hk e s h

theorem All.and {x : Outcome ε σ α} (h : x.All I J K) (h' : x.All I' J' K') :
    x.All (fun a => I a ∧ I' a) (fun s => J s ∧ J' s) (fun e s => K e s ∧ K' e s) := by
  cases x <;> exact ⟨h, h'⟩

theorem All.final {π : Type} {x : Outcome ε σ (π × σ)} {P : σ → Prop}
    (h : x.All (fun r => P r.2) P fun _ s => P s) : P x.final := by
  cases x <;> exact h

theorem all_final {π : Type} (x : Outcome ε σ (π × σ)) :
    x.All (fun r => r.2 = x.final) (fun s => s = x.final) (fun _ s => s = x.final) := by
  cases x <;> rfl

theorem All.bind {x : Outcome ε σ α} {f : α → Outcome ε σ β} {P : β → Prop} (h : x.All I J K)
    (hf : ∀ a, I a → (f a).All P J K) : (x.bind f).All P J K := by
  cases x with
  | ok a => exact hf a h
  | fail s => exact h
  | stop e s => exact h

theorem All.map {x : Outcome ε σ α} {f : α → β} {P : β → Prop} (h : x.All I J K)
    (hf : ∀ a, I a → P (f a)) : (x.map f).All P J K := h.bind hf

/-- The invariant rule; the invariant may speak about the elements that are done. -/
theorem All.along {I : List κ → α → Prop} {f : κ → α → Outcome ε σ α}
    (preserved : ∀ done k a, I done a → (f k a).All (I (done ++ [k])) J K) (ks : List κ)
    (done : List κ) {a : α} (start : I done a) : (Outcome.sequence f ks a).All (I (done ++ ks)) J K := by
  induction ks generalizing done a with
  | nil => simpa [All] using start
  | cons k ks ih =>
      rw [sequence_cons, List.append_cons]
      apply (preserved done k a start).bind
      intro b next
      exact ih (done ++ [k]) next

theorem All.sequence {f : κ → α → Outcome ε σ α} (preserved : ∀ k a, I a → (f k a).All I J K)
    (ks : List κ) {a : α} (start : I a) : (Outcome.sequence f ks a).All I J K :=
  All.along (I := fun _ => I) (fun _ => preserved) ks [] start

theorem All.ahead {I : List κ → α → Prop} {f : κ → α → Outcome ε σ α}
    (preserved : ∀ k left a, I (k :: left) a → (f k a).All (I left) J K) (ks : List κ) {a : α}
    (start : I ks a) : (Outcome.sequence f ks a).All (I []) J K := by
  induction ks generalizing a with
  | nil => exact start
  | cons k ks ih => exact (preserved k ks a start).bind fun b next => ih next

/-! ## Two outcomes alike

`Rel S R` asks `R` of two results, and `S` of what two failures or two equal stops leave. -/

section Rel
variable {τ α' β' : Type} {S : σ → τ → Prop} {R : α → β → Prop} {Q : α' → β' → Prop}

inductive Rel (S : σ → τ → Prop) (R : α → β → Prop) : Outcome ε σ α → Outcome ε τ β → Prop
  | ok {a : α} {b : β} (h : R a b) : Rel S R (.ok a) (.ok b)
  | fail {s : σ} {t : τ} (h : S s t) : Rel S R (.fail s) (.fail t)
  | stop {e : ε} {s : σ} {t : τ} (h : S s t) : Rel S R (.stop e s) (.stop e t)

theorem Rel.refl {S : σ → σ → Prop} {R : α → α → Prop} (hs : ∀ s, S s s) (hr : ∀ a, R a a) (x : Outcome ε σ α) :
    Rel S R x x := by
  cases x with
  | ok a => exact .ok (hr a)
  | fail s => exact .fail (hs s)
  | stop e s => exact .stop (hs s)

theorem Rel.ok_left {a : α} {y : Outcome ε τ β} (h : Rel S R (.ok a) y) : ∃ b, y = .ok b ∧ R a b := by
  cases h with
  | ok h => exact ⟨_, rfl, h⟩

theorem Rel.ok_right {x : Outcome ε σ α} {b : β} (h : Rel S R x (.ok b)) : ∃ a, x = .ok a ∧ R a b := by
  cases h with
  | ok h => exact ⟨_, rfl, h⟩

theorem Rel.bind {x : Outcome ε σ α} {y : Outcome ε τ β} {f : α → Outcome ε σ α'}
    {g : β → Outcome ε τ β'} (h : Rel S R x y) (step : ∀ a b, R a b → Rel S Q (f a) (g b)) :
    Rel S Q (x.bind f) (y.bind g) := by
  cases h with
  | ok h => exact step _ _ h
  | fail h => exact .fail h
  | stop h => exact .stop h

theorem Rel.sequence {f : κ → α → Outcome ε σ α} {g : κ → β → Outcome ε τ β}
    (step : ∀ k a b, R a b → Rel S R (f k a) (g k b)) (ks : List κ) {a : α} {b : β} (h : R a b) :
    Rel S R (Outcome.sequence f ks a) (Outcome.sequence g ks b) := by
  induction ks generalizing a b with
  | nil => exact .ok h
  | cons k ks ih =>
      rw [sequence_cons, sequence_cons]
      apply (step k a b h).bind
      intro a' b' h'
      exact ih h'

theorem Rel.mono {S' : σ → τ → Prop} {R' : α → β → Prop} {x : Outcome ε σ α} {y : Outcome ε τ β}
    (h : Rel S R x y) (hs : ∀ s t, S s t → S' s t) (hr : ∀ a b, R a b → R' a b) : Rel S' R' x y := by
  cases h with
  | ok h => exact .ok (hr _ _ h)
  | fail h => exact .fail (hs _ _ h)
  | stop h => exact .stop (hs _ _ h)

theorem Rel.map {x : Outcome ε σ α} {y : Outcome ε τ β} {f : α → α'} {g : β → β'} (h : Rel S R x y)
    (step : ∀ a b, R a b → Q (f a) (g b)) : Rel S Q (x.map f) (y.map g) :=
  h.bind fun a b related => .ok (step a b related)

theorem Rel.join {ρ γ : Type} {S' : σ → ρ → Prop} {R' : α → γ → Prop} {T : τ → ρ → Prop} {P : β → γ → Prop}
    {x : Outcome ε σ α} {y : Outcome ε τ β} {z : Outcome ε ρ γ} (h : Rel S R x y) (h' : Rel S' R' x z)
    (hs : ∀ s t r, S s t → S' s r → T t r) (hr : ∀ a b c, R a b → R' a c → P b c) : Rel T P y z := by
  cases h with
  | ok h => cases h' with | ok h' => exact .ok (hr _ _ _ h h')
  | fail h => cases h' with | fail h' => exact .fail (hs _ _ _ h h')
  | stop h => cases h' with | stop h' => exact .stop (hs _ _ _ h h')

theorem Rel.and_all {I : α → Prop} {J : σ → Prop} {K : ε → σ → Prop} {x : Outcome ε σ α}
    {y : Outcome ε τ β} (h : Rel S R x y) (all : x.All I J K) : Rel S (fun a b => R a b ∧ I a) x y := by
  cases h with
  | ok h => exact .ok ⟨h, all⟩
  | fail h => exact .fail h
  | stop h => exact .stop h

theorem Rel.all_right {I' : β → Prop} {J' : τ → Prop} {K' : ε → τ → Prop} {x : Outcome ε σ α} {y : Outcome ε τ β}
    (h : Rel S R x y) (all : x.All I J K) (hi : ∀ a b, R a b → I a → I' b) (hj : ∀ s t, S s t → J s → J' t)
    (hk : ∀ e s t, S s t → K e s → K' e t) : y.All I' J' K' := by
  cases h with
  | ok h => exact hi _ _ h all
  | fail h => exact hj _ _ h all
  | stop h => exact hk _ _ _ h all

theorem Rel.all_left {I : α → Prop} {x : Outcome ε σ α} {y : Outcome ε τ β} (h : Rel S R x y)
    (left : ∀ a b, R a b → I a) : x.All I (fun _ => True) (fun _ _ => True) := by
  cases h with
  | ok h => exact left _ _ h
  | fail => trivial
  | stop => trivial

end Rel

theorem All.rel_self {S : σ → σ → Prop} {x : Outcome ε σ α} (all : x.All I J K) (refl : ∀ s, S s s) :
    Rel S (fun a b => b = a ∧ I a) x x := by
  cases x with
  | ok a => exact .ok ⟨rfl, all⟩
  | fail s => exact .fail (refl s)
  | stop e s => exact .stop (refl s)

end Outcome
end HvmlFpm.Library
