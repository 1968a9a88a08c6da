import Mathlib.Data.List.Basic

/-!
# Sources that are pulled

A source gives one element at a time until it is at its end. `Yields` is the whole of what it gives, with
the state it is left in; a bounded number of pulls takes a prefix of that.
-/

namespace HvmlFpm.Library
variable {σ τ β : Type} {pull : σ → Option β × σ} {pull' : τ → Option β × τ}

def pulls (pull : σ → Option β × σ) : Nat → σ → List β × σ
  | 0, s => ([], s)
  | n + 1, s =>
      match pull s with
      | (none, s) => ([], s)
      | (some b, s) => ((b :: (pulls pull n s).1), (pulls pull n s).2)

inductive Yields (pull : σ → Option β × σ) : σ → List β → σ → Prop
  | nil {s e : σ} (ends : pull s = (none, e)) : Yields pull s [] e
  | cons {s s' e : σ} {b : β} {bs : List β} (gives : pull s = (some b, s')) (rest : Yields pull s' bs e) :
      Yields pull s (b :: bs) e

section Yields
variable {s s' e e' : σ} {b : β} {bs bs' : List β} {n : Nat}

theorem Yields.unique (yields : Yields pull s bs e) (yields' : Yields pull s bs' e') : bs = bs' ∧ e = e' := by
  induction yields generalizing bs' with
  | nil ends =>
      cases yields' with
      | nil ends' =>
          rw [ends] at ends'
          exact ⟨rfl, (Prod.mk.inj ends').2⟩
      | cons gives' rest' =>
          rw [ends] at gives'
          cases gives'
  | cons gives rest ih =>
      cases yields' with
      | nil ends' =>
          rw [gives] at ends'
          cases ends'
      | cons gives' rest' =>
          rw [gives] at gives'
          obtain ⟨same, rfl⟩ := Prod.mk.inj gives'
          obtain rfl := Option.some.inj same
          obtain ⟨rfl, rfl⟩ := ih rest'
          exact ⟨rfl, rfl⟩

theorem Yields.step (yields : Yields pull s bs e) (gives : pull s = (some b, s')) :
    ∃ rest, bs = b :: rest ∧ Yields pull s' rest e := by
  cases yields with
  | nil ends =>
      rw [gives] at ends
      cases ends
  | cons gives' rest =>
      rw [gives] at gives'
      obtain ⟨same, rfl⟩ := Prod.mk.inj gives'
      obtain rfl := Option.some.inj same
      exact ⟨_, rfl, rest⟩

theorem Yields.pulls_within (yields : Yields pull s bs e) (within : n ≤ bs.length) :
    ∃ s', pulls pull n s = (bs.take n, s') ∧ Yields pull s' (bs.drop n) e := by
  induction n generalizing s bs with
  | zero => exact ⟨s, rfl, yields⟩
  | succ n ih =>
      cases yields with
      | nil ends => simp at within
      | cons gives rest =>
          obtain ⟨s', taken, left⟩ := ih rest (Nat.le_of_succ_le_succ within)
          refine ⟨s', ?_, left⟩
          rw [pulls, gives]
          simp only [taken, List.take_succ_cons]

theorem Yields.pulls_beyond (yields : Yields pull s bs e) (beyond : bs.length < n) : pulls pull n s = (bs, e) := by
  induction yields generalizing n with
  | nil ends =>
      cases n with
      | zero => simp at beyond
      | succ n => rw [pulls, ends]
  | cons gives rest ih =>
      cases n with
      | zero => simp at beyond
      | succ n =>
          rw [pulls, gives]
          simp only [ih (Nat.lt_of_succ_lt_succ beyond)]

theorem Yields.pulls_fst (yields : Yields pull s bs e) (n : Nat) : (pulls pull n s).1 = bs.take n := by
  rcases Nat.lt_or_ge bs.length n with beyond | within
  · rw [yields.pulls_beyond beyond, List.take_of_length_le (Nat.le_of_lt beyond)]
  · obtain ⟨s', taken, -⟩ := yields.pulls_within within
    rw [taken]

theorem exists_yields {I : σ → Prop} (size : σ → Nat) (keeps : ∀ s, I s → I (pull s).2)
    (smaller : ∀ s b s', I s → pull s = (some b, s') → size s' < size s) (s : σ) (holds : I s) :
    ∃ bs e, Yields pull s bs e := by
  induction bound : size s using Nat.strongRecOn generalizing s with
  | ind n ih =>
      have kept := keeps s holds
      cases pulled : pull s with
      | mk given s' =>
          rw [pulled] at kept
          cases given with
          | none => exact ⟨[], s', .nil pulled⟩
          | some b =>
              obtain ⟨bs, e, rest⟩ := ih (size s') (bound ▸ smaller s b s' holds pulled) s' kept rfl
              exact ⟨b :: bs, e, .cons pulled rest⟩

theorem Yields.keeps {I : σ → Prop} (yields : Yields pull s bs e) (keeps : ∀ s, I s → I (pull s).2) (holds : I s) :
    I e := by
  induction yields with
  | @nil s e ends =>
      have kept := keeps s holds
      rwa [ends] at kept
  | @cons s s' e b bs gives rest ih =>
      have kept := keeps s holds
      rw [gives] at kept
      exact ih kept

theorem Yields.length_le {I : σ → Prop} (size : σ → Nat) (keeps : ∀ s, I s → I (pull s).2)
    (smaller : ∀ s b s', I s → pull s = (some b, s') → size s' < size s) (yields : Yields pull s bs e) (holds : I s) :
    bs.length ≤ size s := by
  induction yields with
  | nil ends => exact Nat.zero_le _
  | @cons s s' e b bs gives rest ih =>
      have kept := keeps s holds
      have less := smaller s b s' holds gives
      rw [gives] at kept
      exact Nat.lt_of_le_of_lt (ih kept) less

theorem Yields.simulated {R : σ → τ → Prop} {t : τ} (yields : Yields pull s bs e) (related : R s t)
    (agree : ∀ s t, R s t → (pull s).1 = (pull' t).1 ∧ R (pull s).2 (pull' t).2) :
    ∃ e', Yields pull' t bs e' ∧ R e e' := by
  induction yields generalizing t with
  | @nil s e ends =>
      obtain ⟨answer, left⟩ := agree s t related
      rw [ends] at answer left
      exact ⟨_, .nil (Prod.ext answer.symm rfl), left⟩
  | @cons s s' e b bs gives rest ih =>
      obtain ⟨answer, left⟩ := agree s t related
      rw [gives] at answer left
      obtain ⟨e', rest', ends⟩ := ih left
      exact ⟨e', .cons (Prod.ext answer.symm rfl) rest', ends⟩

end Yields

theorem pulls_simulated {R : σ → τ → Prop}
    (agree : ∀ s t, R s t → (pull s).1 = (pull' t).1 ∧ R (pull s).2 (pull' t).2)
    {s : σ} {t : τ} (related : R s t) (n : Nat) :
    (pulls pull n s).1 = (pulls pull' n t).1 ∧ R (pulls pull n s).2 (pulls pull' n t).2 := by
  induction n generalizing s t with
  | zero => exact ⟨rfl, related⟩
  | succ n ih =>
      obtain ⟨answer, left⟩ := agree s t related
      rw [pulls, pulls]
      cases first : pull s with
      | mk given s' =>
          cases second : pull' t with
          | mk given' t' =>
              rw [first, second] at answer left
              obtain rfl : given = given' := answer
              cases given with
              | none => exact ⟨rfl, left⟩
              | some b =>
                  obtain ⟨same, rest⟩ := ih left
                  exact ⟨by simp only [same], rest⟩

end HvmlFpm.Library
