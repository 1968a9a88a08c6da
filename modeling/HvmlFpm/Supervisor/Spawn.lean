import HvmlFpm.Library.Run
import HvmlFpm.Worker.Executor

/-!
# The supervisor

`fcgi_spawn_connection` and the loop of `main` in `hvml-fpm.c`, step by step, among workers that end
when they like. A worker is known by its number in the order of the forks.
-/

namespace HvmlFpm.Supervisor
open Library Worker

inductive Reaper
  | spawn | main
deriving DecidableEq

inductive Life
  | alive
  | zombie (status : WaitStatus)
  | reaped (status : WaitStatus) (reaper : Reaper)
deriving DecidableEq

inductive ForkOutcome
  | forkFailed | running | waitFailed
  | ended (status : WaitStatus)
deriving DecidableEq

/-- The variables of a call of `fcgi_spawn_connection`: `answers` is the worker whose end the call
answers, and `outcomes` what became of its forks. -/
structure Frame where
  forkCount : Nat
  rc : Int
  pidFd : Option Nat
  answers : Option Nat
  outcomes : List ForkOutcome
deriving DecidableEq

inductive Pc
  | forking (frame : Frame)
  | checking (frame : Frame) (child : Nat)
  | executing
  | waiting
  | left (rc : Int)
deriving DecidableEq

inductive FdAction
  | write (fd child : Nat)
  | close (fd : Nat)
deriving DecidableEq

/-- `replaces` has, for each worker, the one it was forked for. -/
structure State where
  workers : List Life
  replaces : List (Option Nat)
  failedForks : Nat
  pidFd : Option Nat
  pidFile : List FdAction
  pc : Pc
deriving DecidableEq

inductive Label
  | die (child : Nat) (status : WaitStatus)
  | fork (succeeds : Bool)
  | childRunning (written : Bool)
  | childWaitFailed
  | childEnded
  | spawnReturns
  | reap (child : Nat)
  | waitFailed
deriving DecidableEq

/-- The entry of `fcgi_spawn_connection`; without forks the process itself becomes the worker. -/
def spawnConnection (forkCount : Nat) (pidFd answers : Option Nat) : Pc :=
  if 0 < forkCount then .forking ⟨forkCount, 0, pidFd, answers, []⟩ else .executing

def init (forkCount : Nat) (pidFd : Option Nat) : State :=
  { workers := [], replaces := [], failedForks := 0, pidFd, pidFile := []
    pc := spawnConnection forkCount pidFd none }

def statusRc : WaitStatus → Int
  | .exited code => code
  | .signaled _ => 1
  | .other status => status

/-- Without `WUNTRACED`, `waitpid` tells of no other ends. -/
def terminated : WaitStatus → Bool
  | .exited _ | .signaled _ => true
  | .other _ => false

def die (s : State) (child : Nat) (status : WaitStatus) : Option State :=
  if s.workers[child]? = some .alive ∧ terminated status = true then
    some { s with workers := s.workers.set child (.zombie status) }
  else none

/-- `fork()`, behind `fork_count-- > 0`. -/
def fork (s : State) (frame : Frame) (succeeds : Bool) : State :=
  let frame := { frame with forkCount := frame.forkCount - 1 }
  if succeeds then
    { s with workers := s.workers ++ [.alive], replaces := s.replaces ++ [frame.answers]
             pc := .checking frame s.workers.length }
  else
    { s with failedForks := s.failedForks + 1
             pc := .forking { frame with rc := -1, outcomes := frame.outcomes ++ [.forkFailed] } }

/-- `case 0`: the child's number goes to the pid file, which is closed when that fails. -/
def childRunning (s : State) (frame : Frame) (child : Nat) (written : Bool) : State :=
  let frame := { frame with outcomes := frame.outcomes ++ [ForkOutcome.running] }
  match frame.pidFd with
  | none => { s with pc := .forking frame }
  | some fd =>
      if written then { s with pidFile := s.pidFile ++ [FdAction.write fd child], pc := .forking frame }
      else
        { s with pidFile := s.pidFile ++ [FdAction.write fd child, FdAction.close fd]
                 pc := .forking { frame with pidFd := none } }

/-- `done:`. -/
def leave (s : State) (rc : Int) : State :=
  { s with pc := .left rc, pidFile := s.pidFile ++ (s.pidFd.map FdAction.close).toList }

def step (s : State) : Label → Option State
  | .die child status => die s child status
  | .fork succeeds =>
      match s.pc with
      | .forking frame => if 0 < frame.forkCount then some (fork s frame succeeds) else none
      | _ => none
  | .childRunning written =>
      match s.pc with
      | .checking frame child =>
          if s.workers[child]? = some .alive then some (childRunning s frame child written) else none
      | _ => none
  | .childWaitFailed =>
      match s.pc with
      | .checking frame _ =>
          some { s with pc := .forking { frame with outcomes := frame.outcomes ++ [.waitFailed] } }
      | _ => none
  | .childEnded =>
      match s.pc with
      | .checking frame child =>
          match s.workers[child]? with
          | some (.zombie status) =>
              some { s with
                       workers := s.workers.set child (.reaped status .spawn)
                       pc := .forking { frame with rc := statusRc status
                                                   outcomes := frame.outcomes ++ [.ended status] } }
          | _ => none
      | _ => none
  | .spawnReturns =>
      match s.pc with
      | .forking frame =>
          if frame.forkCount = 0 then
            if frame.rc ≠ 0 then some (leave s frame.rc) else some { s with pc := .waiting }
          else none
      | _ => none
  | .reap child =>
      match s.pc, s.workers[child]? with
      | .waiting, some (.zombie status) =>
          let s := { s with workers := s.workers.set child (.reaped status .main) }
          if status.replaced then some { s with pc := spawnConnection 1 s.pidFd (some child) } else some s
      | _, _ => none
  | .waitFailed =>
      match s.pc with
      | .waiting => some (leave s 0)
      | _ => none

inductive Steps (s : State) : Label → State → Prop
  | died (child : Nat) (status : WaitStatus) (alive : s.workers[child]? = some .alive)
      (ends : terminated status = true) :
      Steps s (.die child status) { s with workers := s.workers.set child (.zombie status) }
  | forked (frame : Frame) (pc : s.pc = .forking frame) (more : 0 < frame.forkCount) :
      Steps s (.fork true)
        { s with workers := s.workers ++ [.alive], replaces := s.replaces ++ [frame.answers]
                 pc := .checking { frame with forkCount := frame.forkCount - 1 } s.workers.length }
  | forkFailed (frame : Frame) (pc : s.pc = .forking frame) (more : 0 < frame.forkCount) :
      Steps s (.fork false)
        { s with failedForks := s.failedForks + 1
                 pc := .forking { frame with forkCount := frame.forkCount - 1, rc := -1
                                             outcomes := frame.outcomes ++ [.forkFailed] } }
  | childRunning (frame : Frame) (child : Nat) (written : Bool) (pidFd : Option Nat) (pidFile : List FdAction)
      (pc : s.pc = .checking frame child) (alive : s.workers[child]? = some .alive) :
      Steps s (.childRunning written)
        { s with pidFile, pc := .forking { frame with pidFd, outcomes := frame.outcomes ++ [.running] } }
  | childWaitFailed (frame : Frame) (child : Nat) (pc : s.pc = .checking frame child) :
      Steps s .childWaitFailed
        { s with pc := .forking { frame with outcomes := frame.outcomes ++ [.waitFailed] } }
  | childEnded (frame : Frame) (child : Nat) (status : WaitStatus) (pc : s.pc = .checking frame child)
      (zombie : s.workers[child]? = some (.zombie status)) :
      Steps s .childEnded
        { s with workers := s.workers.set child (.reaped status .spawn)
                 pc := .forking { frame with rc := statusRc status
                                             outcomes := frame.outcomes ++ [.ended status] } }
  | returnedFailure (frame : Frame) (pidFile : List FdAction) (pc : s.pc = .forking frame)
      (none : frame.forkCount = 0) (failure : frame.rc ≠ 0) :
      Steps s .spawnReturns { s with pidFile, pc := .left frame.rc }
  | returned (frame : Frame) (pc : s.pc = .forking frame) (none : frame.forkCount = 0) (success : frame.rc = 0) :
      Steps s .spawnReturns { s with pc := .waiting }
  | respawns (child : Nat) (status : WaitStatus) (pc : s.pc = .waiting)
      (zombie : s.workers[child]? = some (.zombie status)) (replaced : status.replaced = true) :
      Steps s (.reap child)
        { s with workers := s.workers.set child (.reaped status .main)
                 pc := .forking ⟨1, 0, s.pidFd, some child, []⟩ }
  | buried (child : Nat) (status : WaitStatus) (pc : s.pc = .waiting)
      (zombie : s.workers[child]? = some (.zombie status)) (kept : status.replaced = false) :
      Steps s (.reap child) { s with workers := s.workers.set child (.reaped status .main) }
  | waitFailed (pidFile : List FdAction) (pc : s.pc = .waiting) :
      Steps s .waitFailed { s with pidFile, pc := .left 0 }

theorem steps_of_step {s s' : State} {label : Label} (next : step s label = some s') : Steps s label s' := by
  cases label with
  | die child status =>
      rw [step, die] at next
      split_ifs at next with dies
      obtain rfl := Option.some.inj next
      exact .died child status dies.1 dies.2
  | fork succeeds =>
      rw [step] at next
      split at next
      · rename_i frame pc
        split_ifs at next with more
        obtain rfl := Option.some.inj next
        cases succeeds with
        | true => exact .forked frame pc more
        | false => exact .forkFailed frame pc more
      · cases next
  | childRunning written =>
      rw [step] at next
      split at next
      · rename_i frame child pc
        split_ifs at next with alive
        obtain rfl := Option.some.inj next
        rw [childRunning]
        split
        · rename_i closed
          change frame.pidFd = none at closed
          have kept := Steps.childRunning frame child written none s.pidFile pc alive
          rwa [← closed] at kept
        · rename_i fd opened
          change frame.pidFd = some fd at opened
          cases written with
          | true =>
              have kept := Steps.childRunning frame child true (some fd) (s.pidFile ++ [.write fd child]) pc alive
              rwa [← opened] at kept
          | false => exact .childRunning frame child false none _ pc alive
      · cases next
  | childWaitFailed =>
      rw [step] at next
      split at next
      · rename_i frame child pc
        obtain rfl := Option.some.inj next
        exact .childWaitFailed frame child pc
      · cases next
  | childEnded =>
      rw [step] at next
      split at next
      · rename_i frame child pc
        split at next
        · rename_i status zombie
          obtain rfl := Option.some.inj next
          exact .childEnded frame child status pc zombie
        · cases next
      · cases next
  | spawnReturns =>
      rw [step] at next
      split at next
      · rename_i frame pc
        split_ifs at next with none failure
        · obtain rfl := Option.some.inj next
          exact .returnedFailure frame _ pc none failure
        · obtain rfl := Option.some.inj next
          exact .returned frame pc none (not_not.1 failure)
      · cases next
  | reap child =>
      rw [step] at next
      split at next
      · rename_i status pc zombie
        cases replaced : status.replaced with
        | true =>
            simp only [replaced, if_true, Option.some.injEq] at next
            subst next
            exact .respawns child status pc zombie replaced
        | false =>
            simp only [replaced, Bool.false_eq_true, if_false, Option.some.injEq] at next
            subst next
            exact .buried child status pc zombie replaced
      · cases next
  | waitFailed =>
      rw [step] at next
      split at next
      · rename_i pc
        obtain rfl := Option.some.inj next
        exact .waitFailed _ pc
      · cases next

end HvmlFpm.Supervisor
