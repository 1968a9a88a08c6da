import HvmlFpm.Supervisor.Spawn

/-!
# Leaving the workers alone

`main` leaves when `fcgi_spawn_connection` returns anything but 0. What that says about the forks of
the call, and about the workers that are still there.
-/

namespace HvmlFpm.Supervisor
open Library Worker

def ForkOutcome.fails : ForkOutcome → Bool
  | .forkFailed => true
  | .ended status => statusRc status != 0
  | _ => false

def ForkOutcome.clears : ForkOutcome → Bool
  | .ended status => statusRc status == 0
  | _ => false

/-- A fork has failed, or a child has ended badly at once, and none exited with 0 after that. -/
def Spoiled (outcomes : List ForkOutcome) : Prop :=
  ∃ before bad after, outcomes = before ++ bad :: after ∧ bad.fails = true ∧ ∀ o ∈ after, o.clears = false

theorem not_spoiled_nil : ¬ Spoiled [] := by
  rintro ⟨before, bad, after, split, -⟩
  simp at split

theorem spoiled_snoc {outcomes : List ForkOutcome} {o : ForkOutcome} :
    Spoiled (outcomes ++ [o]) ↔ o.fails = true ∨ Spoiled outcomes ∧ o.clears = false := by
  constructor
  · rintro ⟨before, bad, after, split, fails, kept⟩
    rcases List.eq_nil_or_concat after with rfl | ⟨earlier, last, rfl⟩
    · obtain ⟨-, same⟩ := List.append_inj' split rfl
      obtain rfl := List.singleton_inj.1 same
      exact .inl fails
    · rw [List.concat_eq_append, ← List.cons_append, ← List.append_assoc] at split
      obtain ⟨rfl, same⟩ := List.append_inj' split rfl
      obtain rfl := List.singleton_inj.1 same
      exact .inr ⟨⟨before, bad, earlier, rfl, fails, fun o member => kept o (by simp [member])⟩,
        kept o (by simp)⟩
  · rintro (fails | ⟨⟨before, bad, after, rfl, fails, kept⟩, clears⟩)
    · exact ⟨outcomes, o, [], rfl, fails, by simp⟩
    · refine ⟨before, bad, after ++ [o], by simp, fails, ?_⟩
      intro other member
      rcases List.mem_append.1 member with earlier | last
      · exact kept other earlier
      · rw [List.mem_singleton.1 last]
        exact clears

def Pc.frame : Pc → Option Frame
  | .forking frame | .checking frame _ => some frame
  | _ => none

def Told (s : State) : Prop := ∀ frame, s.pc.frame = some frame → (frame.rc ≠ 0 ↔ Spoiled frame.outcomes)

theorem told_init (forkCount : Nat) (pidFd : Option Nat) : Told (init forkCount pidFd) := by
  intro frame found
  rw [init, spawnConnection] at found
  split_ifs at found with some
  · obtain rfl := Option.some.inj found
    simp [not_spoiled_nil]
  · cases found

theorem told_step {s s' : State} {label : Label} (told : Told s) (steps : Steps s label s') : Told s' := by
  intro frame found
  cases steps with
  | died child status alive => exact told frame found
  | forked call pc more =>
      obtain rfl := Option.some.inj found
      exact told call (by rw [pc, Pc.frame])
  | forkFailed call pc more =>
      obtain rfl := Option.some.inj found
      simp [spoiled_snoc, ForkOutcome.fails]
  | childRunning call child written pidFd pidFile pc alive =>
      obtain rfl := Option.some.inj found
      have before := told call (by rw [pc, Pc.frame])
      simpa [spoiled_snoc, ForkOutcome.fails, ForkOutcome.clears] using before
  | childWaitFailed call child pc =>
      obtain rfl := Option.some.inj found
      have before := told call (by rw [pc, Pc.frame])
      simpa [spoiled_snoc, ForkOutcome.fails, ForkOutcome.clears] using before
  | childEnded call child status pc zombie =>
      obtain rfl := Option.some.inj found
      rw [spoiled_snoc]
      by_cases clean : statusRc status = 0
      · simp [ForkOutcome.fails, ForkOutcome.clears, clean]
      · simp [ForkOutcome.fails, clean]
  | returnedFailure call pidFile pc none failure => cases found
  | returned call pc none success => cases found
  | respawns child status pc zombie replaced =>
      obtain rfl := Option.some.inj found
      simp [not_spoiled_nil]
  | buried child status pc zombie kept => exact told frame found
  | waitFailed pidFile pc => cases found

section Runs
variable {forkCount : Nat} {pidFd : Option Nat} {trace : List (State × Label)} {s : State}

def NeverAbandons (trace : List (State × Label)) : Prop :=
  ∀ e ∈ trace, e.2 = .spawnReturns → ∀ s' rc, step e.1 e.2 = some s' → s'.pc = .left rc →
    Life.alive ∉ s'.workers

def SpoiledOnlyAlone (trace : List (State × Label)) : Prop :=
  ∀ e ∈ trace, e.2 = .spawnReturns → ∀ frame, e.1.pc = .forking frame → Spoiled frame.outcomes →
    Life.alive ∉ e.1.workers

theorem never_abandons_iff (run : Run step (init forkCount pidFd) trace s) :
    NeverAbandons trace ↔ SpoiledOnlyAlone trace := by
  have told := run.invariant_before (told_init forkCount pidFd) fun _ _ _ told next =>
    told_step told (steps_of_step next)
  constructor
  · intro never e member returns frame pc spoiled
    obtain ⟨s', next⟩ := run.taken e member
    have failure := (told e member frame (by rw [pc, Pc.frame])).2 spoiled
    have steps := steps_of_step next
    rw [returns] at steps
    cases steps with
    | returnedFailure call pidFile pc' none failure' =>
        have gone := never e member returns _ _ next rfl
        exact gone
    | returned call pc' none success =>
        obtain rfl := Pc.forking.inj (pc.symm.trans pc')
        exact absurd success failure
  · intro alone e member returns s' rc next left
    have steps := steps_of_step next
    rw [returns] at steps
    cases steps with
    | returnedFailure call pidFile pc none failure =>
        exact alone e member returns call pc ((told e member call (by rw [pc, Pc.frame])).1 failure)
    | returned call pc none success => cases left

end Runs

def earlyFailure : List Label :=
  [.fork true, .die 0 (.exited 1), .childEnded, .fork true, .childRunning true]

def bothFail : List Label :=
  [.fork true, .die 0 (.exited 1), .childEnded, .fork true, .die 1 (.signaled 9), .childEnded, .spawnReturns]

theorem bothFail_never_abandons_iff : ∃ trace s, trace.map Prod.snd = bothFail ∧
    Run step (init 2 none) trace s ∧ (NeverAbandons trace ↔ SpoiledOnlyAlone trace) := by
  have goes : (follow step bothFail (init 2 none)).map State.pc = some (.left 1) := by decide +kernel
  obtain ⟨s, followed, -⟩ := Option.map_eq_some_iff.1 goes
  obtain ⟨trace, run, labels⟩ := run_of_follow followed
  exact ⟨trace, s, labels, run, never_abandons_iff run⟩

theorem earlyFailure_abandons : ∃ trace s, trace.map Prod.snd = earlyFailure ++ [.spawnReturns] ∧
    Run step (init 2 none) trace s ∧ s.pc = .left 1 ∧ ¬ NeverAbandons trace := by
  have goes : ((follow step earlyFailure (init 2 none)).map fun s =>
      (step s .spawnReturns).map fun s' => (s'.pc, s'.workers)) =
        some (some (.left 1, [.reaped (.exited 1) .spawn, .alive])) := by
    decide +kernel
  obtain ⟨s, followed, returns⟩ := Option.map_eq_some_iff.1 goes
  obtain ⟨s', next, ends⟩ := Option.map_eq_some_iff.1 returns
  obtain ⟨left, workers⟩ := Prod.mk.inj ends
  obtain ⟨trace, run, labels⟩ := run_of_follow followed
  refine ⟨trace ++ [(s, .spawnReturns)], s', by simp [labels], run.snoc _ next, left, ?_⟩
  intro never
  have gone := never (s, .spawnReturns) (by simp) rfl s' 1 next left
  rw [workers] at gone
  exact gone (by simp)

end HvmlFpm.Supervisor
