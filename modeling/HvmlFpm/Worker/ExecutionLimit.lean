import HvmlFpm.Worker.Executor

namespace HvmlFpm.Worker
open Library Multipart Request
variable {Vdom : Type}

def Action.isRun : Action Vdom → Bool
  | .run => true
  | _ => false

def Loop.runs (loop : Loop Vdom) : Nat := loop.actions.countP Action.isRun

def Stage.loop? : Stage Vdom → Option (Loop Vdom)
  | .looping loop => some loop
  | .left _ loop => some loop
  | .dead _ => none

def Turn.runs (turn : Turn Vdom) : Bool :=
  turn.accepted && turn.made.result?.isSome && turn.scheduled &&
    [Reserved.server, .get, .post, .cookie, .files].all turn.binds

theorem Turn.runs_of_served {turn : Turn Vdom} (served : turn.served = true) : turn.runs = true := by
  simp only [Turn.served, Turn.succeeds, Bool.and_eq_true] at served
  obtain ⟨⟨accepted, made⟩, ⟨scheduled, binds⟩, ran⟩ := served
  simp only [Turn.runs, accepted, made, scheduled, binds, Bool.and_self]

theorem Turn.not_runs_of_refused {turn : Turn Vdom} (refused : turn.refused = true) : turn.runs = false := by
  rw [Turn.refused] at refused
  rw [Turn.runs]
  cases made : turn.made <;> simp_all [Outcome.result?]

theorem Loop.runs_log (loop : Loop Vdom) (action : Action Vdom) :
    (loop.log action).runs = loop.runs + if action.isRun then 1 else 0 := by
  simp [Loop.runs, Loop.log, List.countP_append, List.countP_singleton]

theorem bindVariables_runs (turn : Turn Vdom) (vars : List (Reserved × Option Variant)) (loop next : Loop Vdom)
    (result : (bindVariables turn vars loop).loop? = some next) : next.runs = loop.runs := by
  induction vars generalizing loop with
  | nil =>
      obtain rfl := Option.some.inj result
      rfl
  | cons v rest ih =>
      rw [bindVariables] at result
      split at result
      · rw [ih _ result, Loop.runs_log]
        rfl
      · obtain rfl := Option.some.inj result
        exact (Loop.runs_log _ _).trans (Loop.runs_log _ _)

theorem execute_runs (maxExecutions : Int) (turn : Turn Vdom) (info : RequestInfo Vdom) (loop next : Loop Vdom)
    (result : (execute maxExecutions turn info loop).loop? = some next) :
    next.runs = loop.runs +
      if turn.scheduled && [Reserved.server, .get, .post, .cookie, .files].all turn.binds then 1 else 0 := by
  rw [execute] at result
  have started : (loop.log (.scheduleVdom info.vdom info.request)).runs = loop.runs := by
    rw [Loop.runs_log]
    rfl
  cases scheduled : turn.scheduled with
  | false =>
      rw [scheduled, if_neg (by decide)] at result
      obtain rfl := Option.some.inj result
      exact (Loop.runs_log _ _).trans started
  | true =>
      rw [scheduled, if_pos rfl] at result
      have bindings := bindVariables_runs turn (reserved info) (loop.log (.scheduleVdom info.vdom info.request))
      rcases bindVariables_cases turn (reserved info) (loop.log (.scheduleVdom info.vdom info.request)) with
        ⟨all, bound, binding, _⟩ | ⟨fails, left, binding, _⟩
      · change [Reserved.server, .get, .post, .cookie, .files].all turn.binds = true at all
        have same : bound.runs = loop.runs := (bindings bound (by rw [binding]; rfl)).trans started
        rw [all, Bool.and_self, if_pos rfl, ← same]
        simp only [binding] at result
        have logged : (bound.log .run).runs = bound.runs + 1 := Loop.runs_log bound .run
        split at result
        · split at result <;> obtain rfl := Option.some.inj result <;> exact logged
        · obtain rfl := Option.some.inj result
          exact (Loop.runs_log _ _).trans logged
      · change [Reserved.server, .get, .post, .cookie, .files].all turn.binds = false at fails
        simp only [binding] at result
        obtain rfl := Option.some.inj result
        rw [fails, Bool.and_false, if_neg (by decide)]
        exact (bindings left (by rw [binding]; rfl)).trans started

theorem serve_runs (maxExecutions : Int) (turn : Turn Vdom) (loop next : Loop Vdom)
    (result : (serve maxExecutions turn loop).loop? = some next) :
    next.runs = loop.runs + if turn.runs then 1 else 0 := by
  rw [serve] at result
  rw [Turn.runs]
  cases accepted : turn.accepted with
  | false =>
      rw [accepted, if_neg (by decide)] at result
      obtain rfl := Option.some.inj result
      rfl
  | true =>
      rw [accepted, if_pos rfl] at result
      cases made : turn.made with
      | ok req =>
          rw [made] at result
          exact execute_runs maxExecutions turn req.info { loop with ret := 0 } next result
      | fail req =>
          rw [made] at result
          obtain rfl := Option.some.inj result
          exact Loop.runs_log loop (.sendResp 400)
      | stop why req =>
          rw [made] at result
          cases result

/-- A request gets as far as `purc_run` when `max_executions` have been executed already. -/
def Overruns (maxExecutions : Int) (nrExecuted : Nat) (turns : List (Turn Vdom)) : Prop :=
  ∃ before turn after, turns = before ++ turn :: after ∧ turn.runs = true ∧
    (∀ t ∈ before, t.served = true ∨ t.refused = true) ∧
    ((nrExecuted + before.countP Turn.served : Nat) : Int) = maxExecutions

section Overruns
variable {maxExecutions : Int} {nrExecuted : Nat} {turn : Turn Vdom} {turns : List (Turn Vdom)}

theorem overruns_now (runs : turn.runs = true) (full : (nrExecuted : Int) = maxExecutions) :
    Overruns maxExecutions nrExecuted (turn :: turns) :=
  ⟨[], turn, turns, rfl, runs, by simp, by simpa using full⟩

theorem Overruns.cons_served (served : turn.served = true) (overruns : Overruns maxExecutions (nrExecuted + 1) turns) :
    Overruns maxExecutions nrExecuted (turn :: turns) := by
  obtain ⟨before, last, after, rfl, runs, goes, count⟩ := overruns
  refine ⟨turn :: before, last, after, rfl, runs, ?_, ?_⟩
  · intro t member
    rcases List.mem_cons.1 member with rfl | member
    · exact .inl served
    · exact goes t member
  · rw [List.countP_cons_of_pos served]
    omega

theorem Overruns.cons_refused (served : turn.served = false) (refused : turn.refused = true)
    (overruns : Overruns maxExecutions nrExecuted turns) : Overruns maxExecutions nrExecuted (turn :: turns) := by
  obtain ⟨before, last, after, rfl, runs, goes, count⟩ := overruns
  refine ⟨turn :: before, last, after, rfl, runs, ?_, ?_⟩
  · intro t member
    rcases List.mem_cons.1 member with rfl | member
    · exact .inr refused
    · exact goes t member
  · rw [List.countP_cons_of_neg (by simp [served])]
    exact count

theorem Overruns.append (overruns : Overruns maxExecutions nrExecuted turns) (more : List (Turn Vdom)) :
    Overruns maxExecutions nrExecuted (turns ++ more) := by
  obtain ⟨before, last, after, rfl, rest⟩ := overruns
  exact ⟨before, last, after ++ more, by simp, rest⟩

end Overruns

structure Counted (maxExecutions : Int) (loop : Loop Vdom) : Prop where
  runs : loop.runs = loop.nrExecuted
  below : (loop.nrExecuted : Int) ≤ maxExecutions

theorem serveAll_overruns {maxExecutions : Int} {turns : List (Turn Vdom)} {loop last : Loop Vdom}
    (counted : Counted maxExecutions loop) (result : (serveAll maxExecutions turns loop).loop? = some last)
    (more : maxExecutions < last.runs) : Overruns maxExecutions loop.nrExecuted turns := by
  have below := counted.below
  induction turns generalizing loop with
  | nil =>
      obtain rfl := Option.some.inj result
      rw [counted.runs] at more
      omega
  | cons turn turns ih =>
      rw [serveAll] at result
      have step := serve_runs maxExecutions turn loop
      have full (ends : (serve maxExecutions turn loop).loop? = some last) :
          Overruns maxExecutions loop.nrExecuted (turn :: turns) := by
        have count := step last ends
        rw [counted.runs] at count
        cases runs : turn.runs with
        | false =>
            rw [runs, if_neg (by decide)] at count
            omega
        | true =>
            rw [runs, if_pos rfl] at count
            exact overruns_now runs (by omega)
      rcases serve_cases maxExecutions turn loop with
        ⟨served, next, count, _, serves⟩ | ⟨served, refused, next, count, _, serves⟩ |
        ⟨_, _, ⟨_, serves⟩ | ⟨ending, serves, _⟩ | ⟨why, serves⟩⟩
      · by_cases atLimit : (loop.nrExecuted : Int) = maxExecutions
        · exact overruns_now (Turn.runs_of_served served) atLimit
        · have within : ¬ maxExecutions < toInt next.nrExecuted := by
            have most := toInt_le next.nrExecuted
            omega
          simp only [serves, within, if_false] at result
          have ran := step next (by simp only [serves, within, if_false]; rfl)
          rw [Turn.runs_of_served served, if_pos rfl, counted.runs] at ran
          have nextCounted : Counted maxExecutions next := ⟨by omega, by omega⟩
          have overruns := ih nextCounted result nextCounted.below
          rw [count] at overruns
          exact overruns.cons_served served
      · simp only [serves] at result
        have ran := step next (by rw [serves]; rfl)
        rw [Turn.not_runs_of_refused refused, if_neg (by decide), counted.runs] at ran
        have nextCounted : Counted maxExecutions next := ⟨by omega, by omega⟩
        have overruns := ih nextCounted result nextCounted.below
        rw [count] at overruns
        exact overruns.cons_refused served refused
      · simp only [serves] at result
        exact full (by simpa only [serves] using result)
      · simp only [serves] at result
        exact full (by simpa only [serves] using result)
      · simp only [serves] at result
        cases result

theorem serveAll_goes {maxExecutions : Int} {turns : List (Turn Vdom)} {loop : Loop Vdom}
    (counted : Counted maxExecutions loop) (goes : ∀ t ∈ turns, t.served = true ∨ t.refused = true)
    (room : ((loop.nrExecuted + turns.countP Turn.served : Nat) : Int) ≤ maxExecutions) :
    ∃ last, serveAll maxExecutions turns loop = .looping last ∧ Counted maxExecutions last ∧
      last.nrExecuted = loop.nrExecuted + turns.countP Turn.served := by
  induction turns generalizing loop with
  | nil => exact ⟨loop, rfl, counted, rfl⟩
  | cons turn turns ih =>
      rw [serveAll]
      have later : ∀ t ∈ turns, t.served = true ∨ t.refused = true :=
        fun t member => goes t (List.mem_cons_of_mem _ member)
      have step := serve_runs maxExecutions turn loop
      rcases serve_cases maxExecutions turn loop with
        ⟨served, next, count, _, serves⟩ | ⟨served, refused, next, count, _, serves⟩ | ⟨served, refused, _⟩
      · rw [List.countP_cons_of_pos served] at room ⊢
        have within : ¬ maxExecutions < toInt next.nrExecuted := by
          have most := toInt_le next.nrExecuted
          omega
        have ran := step next (by simp only [serves, within, if_false]; rfl)
        rw [Turn.runs_of_served served, if_pos rfl, counted.runs] at ran
        have nextCounted : Counted maxExecutions next := ⟨by omega, by omega⟩
        obtain ⟨last, runs, lastCounted, total⟩ := ih nextCounted later (by omega)
        exact ⟨last, by simp only [serves, within, if_false, runs], lastCounted, by omega⟩
      · have unserved : ¬ turn.served = true := by simp [served]
        rw [List.countP_cons_of_neg unserved] at room ⊢
        have ran := step next (by rw [serves]; rfl)
        rw [Turn.not_runs_of_refused refused, if_neg (by decide), counted.runs] at ran
        have nextCounted : Counted maxExecutions next := ⟨by omega, count ▸ counted.below⟩
        obtain ⟨last, runs, lastCounted, total⟩ := ih nextCounted later (by omega)
        exact ⟨last, by simp only [serves, runs], lastCounted, by omega⟩
      · rcases goes turn (by simp) with yes | yes
        · simp [served] at yes
        · simp [refused] at yes

theorem serveAll_append (maxExecutions : Int) (before after : List (Turn Vdom)) (loop : Loop Vdom) :
    serveAll maxExecutions (before ++ after) loop =
      match serveAll maxExecutions before loop with
      | .looping loop => serveAll maxExecutions after loop
      | ended => ended := by
  induction before generalizing loop with
  | nil => rfl
  | cons turn before ih =>
      rw [List.cons_append, serveAll, serveAll]
      cases serve maxExecutions turn loop with
      | looping next => exact ih next
      | left cause next => rfl
      | dead why => rfl

theorem serveAll_limit {maxExecutions : Int} {turns : List (Turn Vdom)} {loop last : Loop Vdom}
    (counted : loop.runs = loop.nrExecuted) (left : serveAll maxExecutions turns loop = .left .limitExceeded last) :
    maxExecutions < last.runs := by
  induction turns generalizing loop with
  | nil => cases left
  | cons turn turns ih =>
      rw [serveAll] at left
      have step := serve_runs maxExecutions turn loop
      rcases serve_cases maxExecutions turn loop with
        ⟨served, next, count, _, serves⟩ | ⟨_, refused, next, count, _, serves⟩ |
        ⟨_, _, ⟨_, serves⟩ | ⟨ending, serves, _⟩ | ⟨why, serves⟩⟩
      · have most := toInt_le next.nrExecuted
        by_cases exceeds : maxExecutions < toInt next.nrExecuted
        · simp only [serves, exceeds, if_true, Stage.left.injEq, true_and] at left
          have ran := step last (by simp only [serves, exceeds, if_true, left]; rfl)
          rw [Turn.runs_of_served served, if_pos rfl, counted] at ran
          omega
        · simp only [serves, exceeds, if_false] at left
          have ran := step next (by simp only [serves, exceeds, if_false]; rfl)
          rw [Turn.runs_of_served served, if_pos rfl, counted] at ran
          exact ih (by omega) left
      · simp only [serves] at left
        have ran := step next (by rw [serves]; rfl)
        rw [Turn.not_runs_of_refused refused, if_neg (by decide), counted] at ran
        exact ih (by omega) left
      · rw [serves] at left
        cases left
      · rw [serves] at left
        cases left
      · rw [serves] at left
        cases left

theorem serve_loop_of_runs (maxExecutions : Int) {turn : Turn Vdom} (loop : Loop Vdom) (runs : turn.runs = true) :
    ∃ next, (serve maxExecutions turn loop).loop? = some next := by
  rcases serve_cases maxExecutions turn loop with
    ⟨_, next, _, _, serves⟩ | ⟨_, _, next, _, _, serves⟩ | ⟨_, _, ⟨_, serves⟩ | ⟨left, serves, _⟩ | ⟨why, serves⟩⟩
  · rw [serves]
    split
    · exact ⟨_, rfl⟩
    · exact ⟨_, rfl⟩
  · exact ⟨next, by rw [serves]; rfl⟩
  · exact ⟨loop, by rw [serves]; rfl⟩
  · exact ⟨left, by rw [serves]; rfl⟩
  · -- a request that stops the worker never gets as far as `purc_run`
    rw [serve] at serves
    simp only [Turn.runs, Bool.and_eq_true] at runs
    obtain ⟨⟨⟨accepted, made⟩, scheduled⟩, binds⟩ := runs
    rw [accepted, if_pos rfl] at serves
    cases making : turn.made with
    | stop why req => simp [making, Outcome.result?] at made
    | fail req => simp [making] at serves
    | ok req =>
        simp only [making] at serves
        rcases execute_cases maxExecutions turn req.info { loop with ret := 0 } with
          ⟨_, next, _, _, executed⟩ | ⟨_, left, executed, _⟩
        · rw [executed] at serves
          split at serves <;> cases serves
        · rw [executed] at serves
          cases serves

/-- At no moment of the run more than `max_executions` requests have been handed to `purc_run`, and
exactly as many when the limit ends the loop. -/
structure KeepsLimit (maxExecutions : Int) (turns : List (Turn Vdom)) : Prop where
  most : ∀ before, before <+: turns → ∀ loop, (hvmlExecutor maxExecutions before).loop? = some loop →
    (loop.runs : Int) ≤ maxExecutions
  exact : ∀ last, hvmlExecutor maxExecutions turns = .left .limitExceeded last → (last.runs : Int) = maxExecutions

theorem keepsLimit_iff (maxExecutions : Int) (turns : List (Turn Vdom)) (positive : 1 ≤ maxExecutions) :
    KeepsLimit maxExecutions turns ↔ ¬ Overruns maxExecutions 0 turns := by
  have start : Counted maxExecutions (⟨exitFailure, 0, []⟩ : Loop Vdom) := by
    refine ⟨rfl, ?_⟩
    simp only
    omega
  constructor
  · intro keeps overruns
    obtain ⟨before, turn, after, rfl, runs, goes, full⟩ := overruns
    obtain ⟨loop, reached, counted, total⟩ := serveAll_goes start goes full.le
    obtain ⟨next, served⟩ := serve_loop_of_runs maxExecutions loop runs
    have count := serve_runs maxExecutions turn loop next served
    rw [runs, if_pos rfl, counted.runs] at count
    have ended : (hvmlExecutor maxExecutions (before ++ [turn])).loop? = some next := by
      rw [hvmlExecutor, serveAll_append, reached]
      simp only [serveAll]
      cases stage : serve maxExecutions turn loop <;> rw [stage] at served <;> exact served
    have most := keeps.most (before ++ [turn]) ⟨after, by simp⟩ next ended
    simp only at total
    omega
  · intro within
    refine ⟨?_, ?_⟩
    · rintro before ⟨after, split⟩ loop ended
      by_contra more
      have overruns := serveAll_overruns start ended (by omega)
      exact within (split ▸ overruns.append after)
    · intro last left
      have ended : (hvmlExecutor maxExecutions turns).loop? = some last := by rw [left]; rfl
      exact absurd (serveAll_overruns start ended (serveAll_limit start.runs left)) within

theorem one_request_keepsLimit_iff : KeepsLimit 1 [plainTurn, closedTurn] ↔ ¬ Overruns 1 0 [plainTurn, closedTurn] :=
  keepsLimit_iff 1 [plainTurn, closedTurn] (by decide)

theorem limit_one_runs_two :
    ¬ KeepsLimit 1 [plainTurn, plainTurn] ∧
    ∃ last : Loop Unit, hvmlExecutor 1 [plainTurn, plainTurn] = .left .limitExceeded last ∧ last.runs = 2 := by
  have first : ¬ 1 < toInt 1 := by decide
  have second : 1 < toInt 2 := by decide
  have left : ∃ last : Loop Unit, hvmlExecutor 1 [plainTurn, plainTurn] = .left .limitExceeded last ∧ last.runs = 2 := by
    simp [hvmlExecutor, serveAll, serve, execute, reserved, bindVariables, plainTurn, Loop.log, Loop.runs, first, second]
    rfl
  refine ⟨?_, left⟩
  intro keeps
  obtain ⟨last, left, two⟩ := left
  have one := keeps.exact last left
  omega

end HvmlFpm.Worker
