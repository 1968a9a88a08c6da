import HvmlFpm.Supervisor.Spawn

/-!
# The size of the pool

How many workers there are, against how many there should be.
-/

namespace HvmlFpm.Supervisor
open Library Worker

namespace Life

def unreaped : Life → Bool
  | .alive | .zombie _ => true
  | .reaped _ _ => false

def failed : Life → Bool
  | .reaped status _ => !status.replaced
  | _ => false

def lost : Life → Bool
  | .reaped status .spawn => status.replaced
  | _ => false

def answered : Life → Bool
  | .reaped status .main => status.replaced
  | _ => false

theorem kinds (l : List Life) :
    l.countP unreaped + l.countP failed + l.countP lost + l.countP answered = l.length := by
  induction l with
  | nil => rfl
  | cons life l ih =>
      have one : (unreaped life).toNat + (failed life).toNat + (lost life).toNat + (answered life).toNat = 1 := by
        cases life with
        | alive => rfl
        | zombie status => rfl
        | reaped status reaper =>
            cases reaper <;> cases replaced : status.replaced <;> simp [unreaped, failed, lost, answered, replaced]
      have split (p : Life → Bool) : (life :: l).countP p = l.countP p + (p life).toNat := by
        cases held : p life <;> simp [held]
      rw [split, split, split, split, List.length_cons]
      omega

end Life

theorem countP_set_add {α : Type} {p : α → Bool} {l : List α} {i : Nat} {a : α} (b : α) (at_i : l[i]? = some a) :
    (l.set i b).countP p + (p a).toNat = l.countP p + (p b).toNat := by
  induction l generalizing i with
  | nil => simp at at_i
  | cons c l ih =>
      have split (d : α) (l : List α) : (d :: l).countP p = l.countP p + (p d).toNat := by
        cases held : p d <;> simp [held]
      cases i with
      | zero =>
          obtain rfl : c = a := by simpa using at_i
          rw [List.set_cons_zero, split, split]
          omega
      | succ i =>
          rw [List.set_cons_succ, split, split]
          have rest := ih (i := i) (by simpa using at_i)
          omega

theorem countP_set_same {α : Type} {p : α → Bool} {l : List α} {i : Nat} {a b : α} (at_i : l[i]? = some a)
    (alike : p b = p a) : (l.set i b).countP p = l.countP p := by
  have sum := countP_set_add (p := p) b at_i
  rw [alike] at sum
  omega

theorem any_set {α : Type} (p : α → Bool) {l : List α} {i : Nat} {a : α} (b : α) (at_i : l[i]? = some a) (j : Nat) :
    ((l.set i b)[j]?).any p = if j = i then p b else (l[j]?).any p := by
  obtain ⟨bound, -⟩ := List.getElem?_eq_some_iff.1 at_i
  by_cases same : j = i
  · subst same
    simp [List.getElem?_set_self bound]
  · rw [if_neg same, List.getElem?_set_ne (Ne.symm same)]

theorem any_set_same {α : Type} {p : α → Bool} {l : List α} {i : Nat} {a b : α} (at_i : l[i]? = some a)
    (alike : p b = p a) (j : Nat) : ((l.set i b)[j]?).any p = (l[j]?).any p := by
  rw [any_set p b at_i]
  split_ifs with same
  · rw [same, at_i, alike]
    rfl
  · rfl

namespace Pc

def pending : Pc → Nat
  | .forking frame | .checking frame _ => frame.forkCount
  | _ => 0

def pendingFor (child : Nat) : Pc → Nat
  | .forking frame | .checking frame _ => if frame.answers = some child then frame.forkCount else 0
  | _ => 0

def failing : Pc → Prop
  | .forking frame | .checking frame _ => frame.rc ≠ 0
  | .left _ => True
  | _ => False

end Pc

/-- Every worker that `main` has reaped and that is to be replaced has one replacement, or is owed it. -/
def Answered (s : State) : Prop :=
  ∀ child, s.replaces.count (some child) + s.pc.pendingFor child = ((s.workers[child]?).any Life.answered).toNat

/-- What every step preserves. A failed fork keeps the call failing, unless a worker is lost. -/
structure Pool (forkCount : Nat) (s : State) : Prop where
  forks : s.workers.length + s.pc.pending + s.failedForks = forkCount + s.workers.countP Life.answered
  answered : s.failedForks = 0 → Answered s
  zombies : ∀ (child : Nat) (status : WaitStatus), s.workers[child]? = some (.zombie status) →
    terminated status = true
  failing : s.workers.countP Life.lost = 0 → 0 < s.failedForks → s.pc.failing

section Steps
variable {forkCount : Nat} {s s' : State} {label : Label}

theorem forks_step (forks : s.workers.length + s.pc.pending + s.failedForks =
      forkCount + s.workers.countP Life.answered) (steps : Steps s label s') :
    s'.workers.length + s'.pc.pending + s'.failedForks = forkCount + s'.workers.countP Life.answered := by
  cases steps with
  | died child status alive =>
      rw [List.length_set, countP_set_same alive (by rfl)]
      exact forks
  | forked frame pc more =>
      rw [pc] at forks
      simp only [Pc.pending, List.length_append, List.length_singleton, List.countP_append] at forks ⊢
      simp only [List.countP_singleton, Life.answered, Bool.false_eq_true, if_false]
      omega
  | forkFailed frame pc more =>
      rw [pc] at forks
      simp only [Pc.pending] at forks ⊢
      omega
  | childRunning frame child written pidFd pidFile pc alive =>
      rw [pc] at forks
      exact forks
  | childWaitFailed frame child pc =>
      rw [pc] at forks
      exact forks
  | childEnded frame child status pc zombie =>
      rw [pc] at forks
      rw [List.length_set, countP_set_same zombie (by rfl)]
      exact forks
  | returnedFailure frame pidFile pc none failure =>
      rw [pc] at forks
      simp only [Pc.pending] at forks ⊢
      omega
  | returned frame pc none success =>
      rw [pc] at forks
      simp only [Pc.pending] at forks ⊢
      omega
  | respawns child status pc zombie replaced =>
      rw [pc] at forks
      have more := countP_set_add (p := Life.answered) (Life.reaped status .main) zombie
      simp only [Life.answered, replaced, Bool.toNat_false, Bool.toNat_true] at more
      simp only [Pc.pending, List.length_set] at forks ⊢
      omega
  | buried child status pc zombie kept =>
      rw [List.length_set, countP_set_same zombie (by simp [Life.answered, kept])]
      exact forks
  | waitFailed pidFile pc =>
      rw [pc] at forks
      exact forks

theorem answered_step (answered : Answered s) (steps : Steps s label s') (noFailedFork : s'.failedForks = 0) :
    Answered s' := by
  intro child
  have before := answered child
  cases steps with
  | died other status alive =>
      rw [any_set_same alive (by rfl)]
      exact before
  | forked frame pc more =>
      have fresh : ((s.workers ++ [Life.alive])[child]?).any Life.answered =
          (s.workers[child]?).any Life.answered := by
        rw [List.getElem?_append]
        split_ifs with inside
        · rfl
        · rw [List.getElem?_eq_none (Nat.le_of_not_lt inside)]
          cases child - s.workers.length <;> rfl
      rw [fresh, ← before, pc, List.count_append, List.count_singleton]
      simp only [Pc.pendingFor]
      by_cases mine : frame.answers = some child
      · simp only [mine, beq_self_eq_true, if_true]
        omega
      · simp [mine]
  | forkFailed frame pc more => cases noFailedFork
  | childRunning frame other written pidFd pidFile pc alive =>
      rw [pc] at before
      exact before
  | childWaitFailed frame other pc =>
      rw [pc] at before
      exact before
  | childEnded frame other status pc zombie =>
      rw [any_set_same zombie (by rfl)]
      rw [pc] at before
      exact before
  | returnedFailure frame pidFile pc none failure =>
      rw [pc] at before
      simpa [Pc.pendingFor, none] using before
  | returned frame pc none success =>
      rw [pc] at before
      simpa [Pc.pendingFor, none] using before
  | respawns other status pc zombie replaced =>
      rw [any_set Life.answered _ zombie]
      rw [pc] at before
      by_cases same : child = other
      · subst same
        rw [zombie] at before
        simpa [Pc.pendingFor, Life.answered, replaced] using before
      · have different : ¬ some other = some child := fun eq => same (Option.some.inj eq).symm
        simpa [Pc.pendingFor, same, different] using before
  | buried other status pc zombie kept =>
      rw [any_set_same zombie (by simp [Life.answered, kept])]
      exact before
  | waitFailed pidFile pc =>
      rw [pc] at before
      exact before

theorem zombies_set {l : List Life} {i : Nat} {life : Life}
    (zombies : ∀ (child : Nat) (status : WaitStatus), l[child]? = some (.zombie status) → terminated status = true)
    (ends : ∀ status, life = .zombie status → terminated status = true) (child : Nat) (status : WaitStatus)
    (zombie : (l.set i life)[child]? = some (.zombie status)) : terminated status = true := by
  rcases List.mem_or_eq_of_mem_set (List.mem_of_getElem? zombie) with member | same
  · obtain ⟨other, found⟩ := List.getElem?_of_mem member
    exact zombies other status found
  · exact ends status same.symm

theorem statusRc_ne_zero {status : WaitStatus} (ends : terminated status = true) (kept : status.replaced = false) :
    statusRc status ≠ 0 := by
  cases status with
  | exited code =>
      have failure : (code : Int) = exitFailure := by simpa [WaitStatus.replaced] using kept
      rw [statusRc, failure]
      decide
  | signaled signal => exact Int.one_ne_zero
  | other status => cases ends

theorem pool_step (pool : Pool forkCount s) (steps : Steps s label s') : Pool forkCount s' where
  forks := forks_step pool.forks steps
  answered := by
    intro noFailedFork
    refine answered_step (pool.answered ?_) steps noFailedFork
    cases steps
    case forkFailed => cases noFailedFork
    all_goals exact noFailedFork
  zombies := by
    cases steps with
    | died child status alive ends =>
        apply zombies_set pool.zombies
        rintro other same
        obtain rfl := Life.zombie.inj same
        exact ends
    | forked frame pc more =>
        intro child status zombie
        rcases List.mem_append.1 (List.mem_of_getElem? zombie) with member | fresh
        · obtain ⟨other, found⟩ := List.getElem?_of_mem member
          exact pool.zombies other status found
        · cases List.mem_singleton.1 fresh
    | childEnded frame child status pc zombie => exact zombies_set pool.zombies nofun
    | respawns child status pc zombie replaced => exact zombies_set pool.zombies nofun
    | buried child status pc zombie kept => exact zombies_set pool.zombies nofun
    | _ => exact pool.zombies
  failing := by
    intro noneLost someFailed
    cases steps with
    | died child status alive ends =>
        have same : (s.workers.set child (.zombie status)).countP Life.lost = s.workers.countP Life.lost :=
          countP_set_same alive rfl
        exact pool.failing (same.symm.trans noneLost) someFailed
    | forked frame pc more =>
        have failing := pool.failing (by simpa [Life.lost] using noneLost) someFailed
        rw [pc] at failing
        exact failing
    | forkFailed frame pc more =>
        change (-1 : Int) ≠ 0
        decide
    | childRunning frame child written pidFd pidFile pc alive =>
        have failing := pool.failing noneLost someFailed
        rw [pc] at failing
        exact failing
    | childWaitFailed frame child pc =>
        have failing := pool.failing noneLost someFailed
        rw [pc] at failing
        exact failing
    | childEnded frame child status pc zombie =>
        have more := countP_set_add (p := Life.lost) (Life.reaped status .spawn) zombie
        rw [show (s.workers.set child (.reaped status .spawn)).countP Life.lost = 0 from noneLost] at more
        -- A worker that is to be replaced would be lost here, so the child has failed and so does the call.
        apply statusRc_ne_zero (pool.zombies child status zombie)
        cases replaced : status.replaced with
        | false => rfl
        | true =>
            simp only [Life.lost, replaced, Bool.toNat_false, Bool.toNat_true] at more
            omega
    | returnedFailure frame pidFile pc none failure => trivial
    | returned frame pc none success =>
        have failing := pool.failing noneLost someFailed
        rw [pc] at failing
        exact absurd success failing
    | respawns child status pc zombie replaced =>
        have same : (s.workers.set child (.reaped status .main)).countP Life.lost = s.workers.countP Life.lost :=
          countP_set_same zombie rfl
        have failing := pool.failing (same.symm.trans noneLost) someFailed
        rw [pc] at failing
        exact failing.elim
    | buried child status pc zombie kept =>
        have same : (s.workers.set child (.reaped status .main)).countP Life.lost = s.workers.countP Life.lost :=
          countP_set_same zombie rfl
        exact pool.failing (same.symm.trans noneLost) someFailed
    | waitFailed pidFile pc => trivial

end Steps

/-! ## Lost workers -/

/-- `waitpid(child, WNOHANG)` reaps a worker whose exit code is not `EXIT_FAILURE`. -/
def losesWorker (s : State) (label : Label) : Bool :=
  match s.pc, label with
  | .checking _ child, .childEnded =>
      match s.workers[child]? with
      | some (.zombie status) => status.replaced
      | _ => false
  | _, _ => false

theorem lost_step {s s' : State} {label : Label} (steps : Steps s label s') :
    s'.workers.countP Life.lost = s.workers.countP Life.lost + (losesWorker s label).toNat := by
  cases steps with
  | died child status alive =>
      rw [show losesWorker s (.die child status) = false by simp [losesWorker]]
      exact countP_set_same alive rfl
  | forked frame pc more => simp [losesWorker, Life.lost]
  | forkFailed frame pc more => simp [losesWorker]
  | childRunning frame child written pidFd pidFile pc alive => simp [losesWorker]
  | childWaitFailed frame child pc => simp [losesWorker]
  | childEnded frame child status pc zombie =>
      have more := countP_set_add (p := Life.lost) (Life.reaped status .spawn) zombie
      simpa [losesWorker, pc, zombie, Life.lost] using more
  | returnedFailure frame pidFile pc none failure => simp [losesWorker]
  | returned frame pc none success => simp [losesWorker]
  | respawns child status pc zombie replaced =>
      rw [show losesWorker s (.reap child) = false by simp [losesWorker]]
      exact countP_set_same zombie rfl
  | buried child status pc zombie kept =>
      rw [show losesWorker s (.reap child) = false by simp [losesWorker]]
      exact countP_set_same zombie rfl
  | waitFailed pidFile pc => simp [losesWorker]

section Runs
variable {forkCount : Nat} {pidFd : Option Nat} {trace : List (State × Label)} {s : State}

theorem init_pool (forkCount : Nat) (pidFd : Option Nat) : Pool forkCount (init forkCount pidFd) where
  forks := by
    rw [init, spawnConnection]
    split_ifs with some
    · simp [Pc.pending]
    · simp only [Pc.pending, List.length_nil, List.countP_nil]
      omega
  answered _ child := by
    rw [init, spawnConnection]
    split_ifs <;> simp [Pc.pendingFor]
  zombies := by simp [init]
  failing _ someFailed := by simp [init] at someFailed

theorem run_pool (run : Run step (init forkCount pidFd) trace s) : Pool forkCount s :=
  run.invariant (init_pool forkCount pidFd) fun _ _ _ pool next => pool_step pool (steps_of_step next)

theorem run_lost (run : Run step (init forkCount pidFd) trace s) :
    s.workers.countP Life.lost = trace.countP fun e => losesWorker e.1 e.2 := by
  induction run with
  | nil => rfl
  | snoc label run next ih =>
      rw [lost_step (steps_of_step next), ih, List.countP_append, List.countP_singleton]
      cases losesWorker _ label <;> rfl

def State.Settled (s : State) : Prop := s.pc = .waiting ∨ (∃ rc, s.pc = .left rc) ∧ s.failedForks = 0

/-- Every worker that was reaped and is to be replaced has exactly one replacement, and the workers
that are not reaped and those that failed come to the number asked for. -/
structure PoolPreserved (forkCount : Nat) (s : State) : Prop where
  replaced : ∀ (child : Nat) (status : WaitStatus) (reaper : Reaper),
    s.workers[child]? = some (.reaped status reaper) → status.replaced = true →
      s.replaces.count (some child) = 1
  size : s.workers.countP Life.unreaped + s.workers.countP Life.failed = forkCount

theorem pool_preserved_iff (run : Run step (init forkCount pidFd) trace s) (settled : s.Settled) :
    PoolPreserved forkCount s ↔ ∀ e ∈ trace, losesWorker e.1 e.2 = false := by
  have pool := run_pool run
  have lost := run_lost run
  have kinds := Life.kinds s.workers
  have forks := pool.forks
  have idle : s.pc.pending = 0 ∧ ∀ child, s.pc.pendingFor child = 0 := by
    rcases settled with waiting | ⟨⟨rc, left⟩, -⟩
    · rw [waiting]
      exact ⟨rfl, fun _ => rfl⟩
    · rw [left]
      exact ⟨rfl, fun _ => rfl⟩
  rw [idle.1] at forks
  constructor
  · intro preserved e member
    -- Forked, failed and lost workers come to the number asked for, so none can be lost.
    have none : trace.countP (fun e => losesWorker e.1 e.2) = 0 := by
      have size := preserved.size
      omega
    simpa using List.countP_eq_zero.1 none e member
  · intro careful
    have none : s.workers.countP Life.lost = 0 := by
      rw [lost, List.countP_eq_zero]
      intro e member
      simp [careful e member]
    have noFailedFork : s.failedForks = 0 := by
      rcases settled with waiting | ⟨-, noFailedFork⟩
      · by_contra someFailed
        have failing := pool.failing none (Nat.pos_of_ne_zero someFailed)
        rw [waiting] at failing
        exact failing
      · exact noFailedFork
    constructor
    · intro child status reaper found toReplace
      have one := pool.answered noFailedFork child
      cases reaper with
      | main => simpa [idle.2, found, Life.answered, toReplace] using one
      | spawn =>
          have kept := List.countP_eq_zero.1 none _ (List.mem_of_getElem? found)
          exact absurd toReplace kept
    · omega

end Runs

def earlyQuitter : List Label :=
  [.fork true, .die 0 (.exited 0), .childEnded, .fork true, .childRunning true, .spawnReturns]

def lateQuitter : List Label :=
  [.fork true, .childRunning true, .fork true, .childRunning true, .spawnReturns, .die 0 (.exited 0), .reap 0,
    .fork true, .childRunning true, .spawnReturns]

theorem lateQuitter_pool_preserved_iff : ∃ trace s, trace.map Prod.snd = lateQuitter ∧
    Run step (init 2 none) trace s ∧ s.Settled ∧
    (PoolPreserved 2 s ↔ ∀ e ∈ trace, losesWorker e.1 e.2 = false) := by
  have goes : (follow step lateQuitter (init 2 none)).map State.pc = some .waiting := by decide +kernel
  obtain ⟨s, followed, waiting⟩ := Option.map_eq_some_iff.1 goes
  obtain ⟨trace, run, labels⟩ := run_of_follow followed
  exact ⟨trace, s, labels, run, .inl waiting, pool_preserved_iff run (.inl waiting)⟩

theorem earlyQuitter_not_replaced : ∃ trace s, trace.map Prod.snd = earlyQuitter ∧
    Run step (init 2 none) trace s ∧ s.Settled ∧ ¬ PoolPreserved 2 s := by
  have goes : (follow step earlyQuitter (init 2 none)).map (fun s =>
      (s.pc, s.workers.countP Life.unreaped + s.workers.countP Life.failed)) = some (.waiting, 1) := by
    decide +kernel
  obtain ⟨s, followed, ends⟩ := Option.map_eq_some_iff.1 goes
  obtain ⟨waiting, one⟩ := Prod.mk.inj ends
  obtain ⟨trace, run, labels⟩ := run_of_follow followed
  refine ⟨trace, s, labels, run, .inl waiting, ?_⟩
  intro preserved
  rw [preserved.size] at one
  cases one

end HvmlFpm.Supervisor
