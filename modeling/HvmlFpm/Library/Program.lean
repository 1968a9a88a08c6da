import Mathlib.Data.List.Basic

/-!
# Programs over calls

A program calls the system below it and goes on with the answer, whatever that is. A run of it is a trace of
answered calls with a result. `Ensures` follows a state along the trace: it is the weakest precondition of a
program over the calls' effect on that state.
-/

namespace HvmlFpm.Library

inductive Program (κ : Type) (ρ : κ → Type) (α : Type)
  | done (result : α)
  | call (c : κ) (rest : ρ c → Program κ ρ α)

namespace Program
variable {κ : Type} {ρ : κ → Type} {α β σ : Type}

def bind : Program κ ρ α → (α → Program κ ρ β) → Program κ ρ β
  | .done a, f => f a
  | .call c rest, f => .call c fun r => (rest r).bind f

theorem bind_bind {γ : Type} (p : Program κ ρ α) (f : α → Program κ ρ β) (g : β → Program κ ρ γ) :
    (p.bind f).bind g = p.bind fun a => (f a).bind g := by
  induction p with
  | done a => rfl
  | call c rest ih => exact congrArg (call c) (funext ih)

def andThen (p : Program κ ρ (Option α)) (f : α → Program κ ρ (Option β)) : Program κ ρ (Option β) :=
  p.bind fun
    | none => .done none
    | some a => f a

abbrev Event (κ : Type) (ρ : κ → Type) : Type := (c : κ) × ρ c

inductive Runs : Program κ ρ α → List (Event κ ρ) → α → Prop
  | done (a : α) : Runs (.done a) [] a
  | call {c : κ} {rest : ρ c → Program κ ρ α} {trace : List (Event κ ρ)} {a : α} (r : ρ c)
      (runs : Runs (rest r) trace a) : Runs (.call c rest) (⟨c, r⟩ :: trace) a

section Runs
variable {trace : List (Event κ ρ)}

theorem runs_done {a b : α} : Runs (.done a : Program κ ρ α) trace b ↔ trace = [] ∧ b = a := by
  constructor
  · intro runs
    cases runs
    exact ⟨rfl, rfl⟩
  · rintro ⟨rfl, rfl⟩
    exact .done b

theorem runs_call {c : κ} {rest : ρ c → Program κ ρ α} {a : α} :
    Runs (.call c rest) trace a ↔ ∃ r after, trace = ⟨c, r⟩ :: after ∧ Runs (rest r) after a := by
  constructor
  · intro runs
    cases runs with
    | call r runs => exact ⟨r, _, rfl, runs⟩
  · rintro ⟨r, after, rfl, runs⟩
    exact .call r runs

theorem runs_bind {p : Program κ ρ α} {f : α → Program κ ρ β} {b : β} :
    Runs (p.bind f) trace b ↔ ∃ before a after, trace = before ++ after ∧ Runs p before a ∧ Runs (f a) after b := by
  induction p generalizing trace with
  | done a =>
      constructor
      · intro runs
        exact ⟨[], a, trace, rfl, .done a, runs⟩
      · rintro ⟨before, a', after, rfl, first, second⟩
        obtain ⟨rfl, rfl⟩ := runs_done.1 first
        exact second
  | call c rest ih =>
      rw [bind, runs_call]
      constructor
      · rintro ⟨r, later, rfl, runs⟩
        obtain ⟨before, a, after, rfl, first, second⟩ := (ih r).1 runs
        exact ⟨⟨c, r⟩ :: before, a, after, rfl, .call r first, second⟩
      · rintro ⟨before, a, after, rfl, first, second⟩
        obtain ⟨r, later, rfl, answered⟩ := runs_call.1 first
        exact ⟨r, later ++ after, rfl, (ih r).2 ⟨later, a, after, rfl, answered, second⟩⟩

theorem runs_andThen {p : Program κ ρ (Option α)} {f : α → Program κ ρ (Option β)} {b : β} :
    Runs (p.andThen f) trace (some b) ↔
      ∃ before a after, trace = before ++ after ∧ Runs p before (some a) ∧ Runs (f a) after (some b) := by
  rw [andThen, runs_bind]
  constructor
  · rintro ⟨before, result, after, rfl, first, second⟩
    cases result with
    | none => simp [runs_done] at second
    | some a => exact ⟨before, a, after, rfl, first, second⟩
  · rintro ⟨before, a, after, rfl, first, second⟩
    exact ⟨before, some a, after, rfl, first, second⟩

end Runs

section Calls
variable {P : κ → Prop}

def Calls (P : κ → Prop) : Program κ ρ α → Prop
  | .done _ => True
  | .call c rest => P c ∧ ∀ r, (rest r).Calls P

theorem Calls.of_runs {p : Program κ ρ α} {trace : List (Event κ ρ)} {a : α} (calls : p.Calls P)
    (runs : Runs p trace a) : ∀ e ∈ trace, P e.1 := by
  induction runs with
  | done a => simp
  | call r runs ih =>
      intro e member
      rcases List.mem_cons.1 member with rfl | later
      · exact calls.1
      · exact ih (calls.2 r) e later

theorem Calls.mono {P' : κ → Prop} {p : Program κ ρ α} (calls : p.Calls P) (weaker : ∀ c, P c → P' c) : p.Calls P' := by
  induction p with
  | done a => trivial
  | call c rest ih => exact ⟨weaker c calls.1, fun r => ih r (calls.2 r)⟩

theorem Calls.bind {p : Program κ ρ α} {f : α → Program κ ρ β} (first : p.Calls P) (second : ∀ a, (f a).Calls P) :
    (p.bind f).Calls P := by
  induction p with
  | done a => exact second a
  | call c rest ih => exact ⟨first.1, fun r => ih r (first.2 r)⟩

theorem Calls.andThen {p : Program κ ρ (Option α)} {f : α → Program κ ρ (Option β)} (first : p.Calls P)
    (second : ∀ a, (f a).Calls P) : (p.andThen f).Calls P :=
  first.bind fun
    | none => trivial
    | some a => second a

end Calls

/-! ## Weakest preconditions -/

section Ensures
variable (effect : σ → Event κ ρ → σ)

/-- Every run from this state ends in a state and with a result of which the condition holds. -/
def Ensures : Program κ ρ α → σ → (σ → α → Prop) → Prop
  | .done a, s, Q => Q s a
  | .call c rest, s, Q => ∀ r, (rest r).Ensures (effect s ⟨c, r⟩) Q

variable {effect} {s : σ} {Q : σ → α → Prop}

@[simp] theorem ensures_done {a : α} : (done a : Program κ ρ α).Ensures effect s Q ↔ Q s a := Iff.rfl

@[simp] theorem ensures_call {c : κ} {rest : ρ c → Program κ ρ α} :
    (call c rest).Ensures effect s Q ↔ ∀ r, (rest r).Ensures effect (effect s ⟨c, r⟩) Q := Iff.rfl

theorem ensures_iff {p : Program κ ρ α} :
    p.Ensures effect s Q ↔ ∀ trace a, Runs p trace a → Q (trace.foldl effect s) a := by
  induction p generalizing s with
  | done a =>
      constructor
      · rintro holds trace b runs
        obtain ⟨rfl, rfl⟩ := runs_done.1 runs
        exact holds
      · intro holds
        exact holds [] a (.done a)
  | call c rest ih =>
      rw [ensures_call]
      constructor
      · rintro holds trace a runs
        obtain ⟨r, after, rfl, answered⟩ := runs_call.1 runs
        exact (ih r).1 (holds r) after a answered
      · intro holds r
        exact (ih r).2 fun trace a runs => holds (⟨c, r⟩ :: trace) a (.call r runs)

theorem Ensures.mono {p : Program κ ρ α} {Q' : σ → α → Prop} (holds : p.Ensures effect s Q)
    (weaker : ∀ s a, Q s a → Q' s a) : p.Ensures effect s Q' := by
  induction p generalizing s with
  | done a => exact weaker s a holds
  | call c rest ih => exact fun r => ih r (holds r)

theorem ensures_bind {p : Program κ ρ α} {f : α → Program κ ρ β} {Q : σ → β → Prop} :
    (p.bind f).Ensures effect s Q ↔ p.Ensures effect s fun s a => (f a).Ensures effect s Q := by
  induction p generalizing s with
  | done a => rfl
  | call c rest ih => exact forall_congr' fun r => ih r

theorem ensures_andThen {p : Program κ ρ (Option α)} {f : α → Program κ ρ (Option β)} {Q : σ → Option β → Prop} :
    (p.andThen f).Ensures effect s Q ↔
      p.Ensures effect s fun s result => result.elim (Q s none) fun a => (f a).Ensures effect s Q := by
  rw [andThen, ensures_bind]
  constructor
  · intro holds
    refine holds.mono ?_
    rintro s (_ | a) holds
    · exact holds
    · exact holds
  · intro holds
    refine holds.mono ?_
    rintro s (_ | a) holds
    · exact holds
    · exact holds

theorem foldl_concat (trace before : List (Event κ ρ)) :
    trace.foldl (fun before e => before ++ [e]) before = before ++ trace := by
  induction trace generalizing before with
  | nil => exact (List.append_nil before).symm
  | cons e trace ih =>
      rw [List.foldl_cons, ih, List.append_assoc]
      rfl

theorem ensures_trace {p : Program κ ρ α} {Q : List (Event κ ρ) → α → Prop} :
    p.Ensures (fun before e => before ++ [e]) [] Q ↔ ∀ trace a, Runs p trace a → Q trace a := by
  rw [ensures_iff]
  constructor
  · intro holds trace a runs
    have final := holds trace a runs
    rwa [foldl_concat] at final
  · intro holds trace a runs
    rw [foldl_concat]
    exact holds trace a runs

end Ensures

section Exec
variable {τ : Type} (answer : (c : κ) → σ → ρ c × σ)

def exec : Program κ ρ α → σ → α × σ
  | .done a, s => (a, s)
  | .call c rest, s => (rest (answer c s).1).exec (answer c s).2

/-- A program cannot tell two systems apart that answer every call alike. -/
theorem exec_simulated {answer : (c : κ) → σ → ρ c × σ} {answer' : (c : κ) → τ → ρ c × τ} {R : σ → τ → Prop}
    (agree : ∀ c s t, R s t → (answer c s).1 = (answer' c t).1 ∧ R (answer c s).2 (answer' c t).2)
    (p : Program κ ρ α) {s : σ} {t : τ} (related : R s t) :
    (p.exec answer s).1 = (p.exec answer' t).1 ∧ R (p.exec answer s).2 (p.exec answer' t).2 := by
  induction p generalizing s t with
  | done a => exact ⟨rfl, related⟩
  | call c rest ih =>
      obtain ⟨same, left⟩ := agree c s t related
      rw [exec, exec, same]
      exact ih _ left

end Exec

end Program
end HvmlFpm.Library
