import HvmlFpm.Request.MakeRequest

/-!
# The worker

The loop of `hvml_executor` over the requests that come in, up to the code the worker exits with.
-/

namespace HvmlFpm.Worker
open Library Multipart Request
variable {Vdom : Type}

def exitSuccess : Int := 0
def exitFailure : Int := 1
def exitRetry : Int := 1

inductive Reserved
  | server | get | post | cookie | files
deriving DecidableEq

/-- What one turn of the loop meets: whether `FCGI_Accept` gave a request, what `make_request` made of
it, and which of the calls into PurC succeed. -/
structure Turn (Vdom : Type) where
  accepted : Bool
  made : Making Vdom
  scheduled : Bool
  binds : Reserved → Bool
  ran : Bool

inductive Action (Vdom : Type)
  | sendResp (statusCode : Nat)
  | scheduleVdom (vdom : Option Vdom) (request : Option Variant)
  | bindVariable (name : Reserved) (value : Option Variant)
  | run

/-- `nr_executed` is an `int`: what is compared is `toInt` of the count. -/
structure Loop (Vdom : Type) where
  ret : Int
  nrExecuted : Nat
  actions : List (Action Vdom)

def Loop.log (loop : Loop Vdom) (action : Action Vdom) : Loop Vdom :=
  { loop with actions := loop.actions ++ [action] }

@[simp] theorem Loop.ret_log (loop : Loop Vdom) (action : Action Vdom) : (loop.log action).ret = loop.ret := rfl
@[simp] theorem Loop.nrExecuted_log (loop : Loop Vdom) (action : Action Vdom) :
    (loop.log action).nrExecuted = loop.nrExecuted := rfl

inductive Cause
  | acceptFailed | limitExceeded | unrecoverable
deriving DecidableEq

inductive Stage (Vdom : Type)
  | looping (loop : Loop Vdom)
  | left (cause : Cause) (loop : Loop Vdom)
  | dead (why : Stop)

/-- `ret = EXIT_RETRY; break;`, behind the response 500. -/
def giveUp (loop : Loop Vdom) : Stage Vdom :=
  .left .unrecoverable { loop.log (.sendResp 500) with ret := exitRetry }

def bindVariables (turn : Turn Vdom) : List (Reserved × Option Variant) → Loop Vdom → Stage Vdom
  | [], loop => .looping loop
  | (name, value) :: rest, loop =>
      if turn.binds name then bindVariables turn rest (loop.log (.bindVariable name value))
      else giveUp (loop.log (.bindVariable name value))

def reserved (info : RequestInfo Vdom) : List (Reserved × Option Variant) :=
  [(.server, info.server), (.get, info.get), (.post, info.post), (.cookie, info.cookie), (.files, info.files)]

def execute (maxExecutions : Int) (turn : Turn Vdom) (info : RequestInfo Vdom) (loop : Loop Vdom) : Stage Vdom :=
  let loop := loop.log (.scheduleVdom info.vdom info.request)
  if turn.scheduled then
    match bindVariables turn (reserved info) loop with
    | .looping loop =>
        let loop := loop.log .run
        if turn.ran then
          let loop := { loop with nrExecuted := loop.nrExecuted + 1 }
          if maxExecutions < toInt loop.nrExecuted then .left .limitExceeded { loop with ret := exitSuccess }
          else .looping loop
        else giveUp loop
    | ended => ended
  else giveUp loop

def serve (maxExecutions : Int) (turn : Turn Vdom) (loop : Loop Vdom) : Stage Vdom :=
  if turn.accepted then
    match turn.made with
    | .ok req => execute maxExecutions turn req.info { loop with ret := 0 }
    | .fail _ => .looping { loop with ret := -1, actions := loop.actions ++ [.sendResp 400] }
    | .stop why _ => .dead why
  else .left .acceptFailed loop

def serveAll (maxExecutions : Int) : List (Turn Vdom) → Loop Vdom → Stage Vdom
  | [], loop => .looping loop
  | turn :: turns, loop =>
      match serve maxExecutions turn loop with
      | .looping loop => serveAll maxExecutions turns loop
      | ended => ended

def hvmlExecutor (maxExecutions : Int) (turns : List (Turn Vdom)) : Stage Vdom :=
  serveAll maxExecutions turns ⟨exitFailure, 0, []⟩

inductive WaitStatus
  | exited (code : Nat)
  | signaled (signal : Nat)
  | other (status : Int)
deriving DecidableEq

/-- What `waitpid` reports of a process that has called `exit(ret)`. -/
def exitStatus (ret : Int) : WaitStatus := .exited (ret % 256).toNat

def WaitStatus.replaced : WaitStatus → Bool
  | .exited code => (code : Int) != exitFailure
  | _ => false

def Turn.succeeds (turn : Turn Vdom) : Bool :=
  turn.scheduled && [Reserved.server, .get, .post, .cookie, .files].all turn.binds && turn.ran

def Turn.served (turn : Turn Vdom) : Bool :=
  turn.accepted && turn.made.result?.isSome && turn.succeeds

def Turn.refused (turn : Turn Vdom) : Bool :=
  turn.accepted && match turn.made with | .fail _ => true | _ => false

theorem Turn.not_refused_of_served (turn : Turn Vdom) (served : turn.served = true) : turn.refused = false := by
  rw [Turn.served] at served
  rw [Turn.refused]
  cases made : turn.made <;> simp_all [Outcome.result?]

theorem bindVariables_cases (turn : Turn Vdom) (vars : List (Reserved × Option Variant)) (loop : Loop Vdom) :
    ((vars.map Prod.fst).all turn.binds = true ∧
      ∃ bound, bindVariables turn vars loop = .looping bound ∧ bound.nrExecuted = loop.nrExecuted ∧
        bound.ret = loop.ret) ∨
    ((vars.map Prod.fst).all turn.binds = false ∧
      ∃ left, bindVariables turn vars loop = .left .unrecoverable left ∧ left.ret = exitRetry) := by
  induction vars generalizing loop with
  | nil => exact .inl ⟨rfl, loop, rfl, rfl, rfl⟩
  | cons v rest ih =>
      rw [bindVariables, List.map_cons, List.all_cons]
      cases binds : turn.binds v.1 with
      | false => exact .inr ⟨rfl, _, rfl, rfl⟩
      | true =>
          rw [if_pos rfl, Bool.true_and]
          exact ih (loop.log (.bindVariable v.1 v.2))

theorem execute_cases (maxExecutions : Int) (turn : Turn Vdom) (info : RequestInfo Vdom) (loop : Loop Vdom) :
    (turn.succeeds = true ∧ ∃ next : Loop Vdom, next.nrExecuted = loop.nrExecuted + 1 ∧ next.ret = loop.ret ∧
      execute maxExecutions turn info loop =
        if maxExecutions < toInt next.nrExecuted then .left .limitExceeded { next with ret := exitSuccess }
        else .looping next) ∨
    (turn.succeeds = false ∧
      ∃ left, execute maxExecutions turn info loop = .left .unrecoverable left ∧ left.ret = exitRetry) := by
  rw [execute, Turn.succeeds]
  cases scheduled : turn.scheduled with
  | false => exact .inr ⟨rfl, _, rfl, rfl⟩
  | true =>
      rw [if_pos rfl, Bool.true_and]
      rcases bindVariables_cases turn (reserved info) (loop.log (.scheduleVdom info.vdom info.request)) with
        ⟨all, bound, binding, count, same⟩ | ⟨fails, left, binding, ret⟩
      · change [Reserved.server, .get, .post, .cookie, .files].all turn.binds = true at all
        rw [binding, all, Bool.true_and]
        cases ran : turn.ran with
        | false => exact .inr ⟨rfl, _, rfl, rfl⟩
        | true =>
            refine .inl ⟨rfl, { bound.log .run with nrExecuted := bound.nrExecuted + 1 }, ?_, same, if_pos rfl⟩
            exact congrArg (· + 1) count
      · change [Reserved.server, .get, .post, .cookie, .files].all turn.binds = false at fails
        rw [binding, fails]
        exact .inr ⟨rfl, left, rfl, ret⟩

theorem serve_cases (maxExecutions : Int) (turn : Turn Vdom) (loop : Loop Vdom) :
    (turn.served = true ∧ ∃ next : Loop Vdom, next.nrExecuted = loop.nrExecuted + 1 ∧ next.ret = 0 ∧
      serve maxExecutions turn loop =
        if maxExecutions < toInt next.nrExecuted then .left .limitExceeded { next with ret := exitSuccess }
        else .looping next) ∨
    (turn.served = false ∧ turn.refused = true ∧ ∃ next : Loop Vdom, next.nrExecuted = loop.nrExecuted ∧
      next.ret = -1 ∧ serve maxExecutions turn loop = .looping next) ∨
    (turn.served = false ∧ turn.refused = false ∧
      ((turn.accepted = false ∧ serve maxExecutions turn loop = .left .acceptFailed loop) ∨
        (∃ left, serve maxExecutions turn loop = .left .unrecoverable left ∧ left.ret = exitRetry) ∨
        ∃ why, serve maxExecutions turn loop = .dead why)) := by
  rw [serve, Turn.served, Turn.refused]
  cases accepted : turn.accepted with
  | false => exact .inr (.inr ⟨rfl, rfl, .inl ⟨rfl, rfl⟩⟩)
  | true =>
      rw [if_pos rfl]
      cases made : turn.made with
      | stop why req => exact .inr (.inr ⟨rfl, rfl, .inr (.inr ⟨why, rfl⟩)⟩)
      | fail req =>
          let next : Loop Vdom := { loop with ret := -1, actions := loop.actions ++ [.sendResp 400] }
          exact .inr (.inl ⟨rfl, rfl, next, rfl, rfl, rfl⟩)
      | ok req =>
          rcases execute_cases maxExecutions turn req.info { loop with ret := 0 } with
            ⟨succeeds, next, count, ret, executed⟩ | ⟨fails, left, executed, ret⟩
          · exact .inl ⟨succeeds, next, count, ret, executed⟩
          · exact .inr (.inr ⟨fails, rfl, .inr (.inl ⟨left, executed, ret⟩)⟩)

/-! ## How a run ends -/

/-- The requests that are executed come to one more than the limit, before anything else ends the
loop. -/
def LimitReached (maxExecutions : Int) (nrExecuted : Nat) (turns : List (Turn Vdom)) : Prop :=
  ∃ before turn after, turns = before ++ turn :: after ∧ turn.served = true ∧
    (∀ t ∈ before, t.served = true ∨ t.refused = true) ∧
    ((nrExecuted + before.countP Turn.served : Nat) : Int) = max (nrExecuted : Int) maxExecutions

section LimitReached
variable {maxExecutions : Int} {nrExecuted : Nat} {turn : Turn Vdom} {turns : List (Turn Vdom)}

theorem limitReached_now (served : turn.served = true) (exceeds : maxExecutions < (nrExecuted + 1 : Nat)) :
    LimitReached maxExecutions nrExecuted (turn :: turns) := by
  refine ⟨[], turn, turns, rfl, served, by simp, ?_⟩
  rw [List.countP_nil]
  omega

theorem limitReached_served (served : turn.served = true) (below : ¬ maxExecutions < (nrExecuted + 1 : Nat)) :
    LimitReached maxExecutions nrExecuted (turn :: turns) ↔ LimitReached maxExecutions (nrExecuted + 1) turns := by
  constructor
  · rintro ⟨before, last, after, split, lastServed, goes, count⟩
    cases before with
    | nil =>
        rw [List.countP_nil] at count
        omega
    | cons first before =>
        obtain ⟨rfl, rfl⟩ := List.cons.inj split
        rw [List.countP_cons_of_pos served] at count
        refine ⟨before, last, after, rfl, lastServed, fun t member => goes t (List.mem_cons_of_mem _ member), ?_⟩
        omega
  · rintro ⟨before, last, after, rfl, lastServed, goes, count⟩
    refine ⟨turn :: before, last, after, rfl, lastServed, ?_, ?_⟩
    · intro t member
      rcases List.mem_cons.1 member with rfl | member
      · exact .inl served
      · exact goes t member
    · rw [List.countP_cons_of_pos served]
      omega

theorem limitReached_skip (served : turn.served = false) :
    LimitReached maxExecutions nrExecuted (turn :: turns) ↔
      turn.refused = true ∧ LimitReached maxExecutions nrExecuted turns := by
  have unserved : ¬ turn.served = true := by simp [served]
  constructor
  · rintro ⟨before, last, after, split, lastServed, goes, count⟩
    cases before with
    | nil =>
        obtain ⟨rfl, rfl⟩ := List.cons.inj split
        exact absurd lastServed unserved
    | cons first before =>
        obtain ⟨rfl, rfl⟩ := List.cons.inj split
        rw [List.countP_cons_of_neg unserved] at count
        refine ⟨(goes turn (by simp)).resolve_left unserved, before, last, after, rfl, lastServed, ?_, count⟩
        exact fun t member => goes t (List.mem_cons_of_mem _ member)
  · rintro ⟨refused, before, last, after, rfl, lastServed, goes, count⟩
    refine ⟨turn :: before, last, after, rfl, lastServed, ?_, ?_⟩
    · intro t member
      rcases List.mem_cons.1 member with rfl | member
      · exact .inr refused
      · exact goes t member
    · rw [List.countP_cons_of_neg unserved]
      exact count

end LimitReached

def parseResult (turn : Turn Vdom) : Int := if turn.refused then -1 else 0

structure Coded (cause : Cause) (ret : Int) (turns : List (Turn Vdom)) (code : Int) : Prop where
  limit : cause = .limitExceeded → code = exitSuccess
  retry : cause = .unrecoverable → code = exitRetry
  failure : cause = .acceptFailed → ∃ before turn after, turns = before ++ turn :: after ∧
    turn.accepted = false ∧ code = (before.getLast?.map parseResult).getD ret

theorem Coded.cons {cause : Cause} {ret code : Int} {turn : Turn Vdom} {turns : List (Turn Vdom)}
    (coded : Coded cause (parseResult turn) turns code) : Coded cause ret (turn :: turns) code where
  limit := coded.limit
  retry := coded.retry
  failure := by
    intro accept
    obtain ⟨before, last, after, rfl, closed, same⟩ := coded.failure accept
    refine ⟨turn :: before, last, after, rfl, closed, ?_⟩
    rw [same, List.getLast?_cons]
    cases before.getLast? <;> rfl

/-- One induction over the turns: why the run ends, and the code it leaves. An `int` never exceeds `INT_MAX`. -/
theorem serveAll_left {maxExecutions : Int} {turns : List (Turn Vdom)} {loop last : Loop Vdom} {cause : Cause}
    (room : maxExecutions < 2 ^ 31 - 1 → loop.nrExecuted < 2 ^ 31 - 1)
    (left : serveAll maxExecutions turns loop = .left cause last) :
    (cause = .limitExceeded ↔ maxExecutions < 2 ^ 31 - 1 ∧ LimitReached maxExecutions loop.nrExecuted turns) ∧
      Coded cause loop.ret turns last.ret := by
  induction turns generalizing loop with
  | nil => simp [serveAll] at left
  | cons turn turns ih =>
      rw [serveAll] at left
      rcases serve_cases maxExecutions turn loop with
        ⟨served, next, count, ret, serves⟩ | ⟨served, refused, next, count, ret, serves⟩ |
        ⟨served, refused, ⟨accepted, serves⟩ | ⟨ending, serves, ret⟩ | ⟨why, serves⟩⟩
      · rw [serves] at left
        have above := toInt_le next.nrExecuted
        have within := toInt_lt next.nrExecuted
        by_cases exceeds : maxExecutions < toInt next.nrExecuted
        · simp only [exceeds, if_true, Stage.left.injEq] at left
          obtain ⟨rfl, rfl⟩ := left
          have reached : LimitReached maxExecutions loop.nrExecuted (turn :: turns) :=
            limitReached_now served (by omega)
          exact ⟨⟨fun _ => ⟨by omega, reached⟩, fun _ => rfl⟩, ⟨fun _ => rfl, nofun, nofun⟩⟩
        · simp only [exceeds, if_false] at left
          have counted (small : maxExecutions < 2 ^ 31 - 1) : toInt next.nrExecuted = loop.nrExecuted + 1 := by
            have before := room small
            rw [toInt_of_lt (by omega), count]
            rfl
          have nextRoom : maxExecutions < 2 ^ 31 - 1 → next.nrExecuted < 2 ^ 31 - 1 := by
            intro small
            have int := counted small
            omega
          obtain ⟨limit, coded⟩ := ih nextRoom left
          have parsed : next.ret = parseResult turn := by
            simp [parseResult, ret, turn.not_refused_of_served served]
          refine ⟨limit.trans (and_congr_right ?_), (parsed ▸ coded).cons⟩
          intro small
          have int := counted small
          rw [count, limitReached_served served (by omega)]
      · rw [serves] at left
        obtain ⟨limit, coded⟩ := ih (count ▸ room) left
        have parsed : next.ret = parseResult turn := by simp [parseResult, ret, refused]
        rw [limitReached_skip served, ← count]
        exact ⟨by simpa [refused] using limit, (parsed ▸ coded).cons⟩
      · rw [serves] at left
        obtain ⟨rfl, rfl⟩ := Stage.left.inj left
        exact ⟨by simp [limitReached_skip served, refused], ⟨nofun, nofun, fun _ => ⟨[], turn, turns, rfl, accepted, rfl⟩⟩⟩
      · rw [serves] at left
        obtain ⟨rfl, rfl⟩ := Stage.left.inj left
        exact ⟨by simp [limitReached_skip served, refused], ⟨nofun, fun _ => ret, nofun⟩⟩
      · rw [serves] at left
        cases left

theorem acceptFailed_code {maxExecutions : Int} {turns : List (Turn Vdom)} {last : Loop Vdom}
    (left : hvmlExecutor maxExecutions turns = .left .acceptFailed last) :
    ∃ before turn after, turns = before ++ turn :: after ∧ turn.accepted = false ∧
      (last.ret = exitFailure ↔ before = []) := by
  obtain ⟨before, turn, after, split, closed, code⟩ := (serveAll_left (fun _ => by simp) left).2.failure rfl
  refine ⟨before, turn, after, split, closed, ?_⟩
  rw [code]
  rcases List.eq_nil_or_concat before with rfl | ⟨earlier, t, rfl⟩
  · simp
  · have other : parseResult t ≠ exitFailure := by
      rw [parseResult]
      split <;> decide
    simp [other]

/-! ## Does the code name its cause? -/

/-- The code, and the supervisor's answer to it, say why the loop ended. -/
structure TellsCause (cause : Cause) (ret : Int) : Prop where
  failure : ret = exitFailure ↔ cause = .acceptFailed
  success : ret = exitSuccess ↔ cause = .limitExceeded
  retry : ret = exitRetry ↔ cause = .unrecoverable
  replaced : (exitStatus ret).replaced = true ↔ cause = .limitExceeded ∨ cause = .unrecoverable

structure NamesCause (cause : Cause) (ret : Int) : Prop extends TellsCause cause ret where
  distinct : [exitStatus exitFailure, exitStatus exitSuccess, exitStatus exitRetry].Nodup

theorem exit_code_never_names_cause (maxExecutions : Int) (turns : List (Turn Vdom)) (cause : Cause)
    (last : Loop Vdom) (left : hvmlExecutor maxExecutions turns = .left cause last) :
    ¬ NamesCause cause last.ret ∧
      (TellsCause cause last.ret ↔ maxExecutions < 2 ^ 31 - 1 ∧ LimitReached maxExecutions 0 turns) := by
  obtain ⟨limit, coded⟩ := serveAll_left (fun _ => by simp) left
  refine ⟨fun names => absurd names.distinct (by decide), ?_⟩
  rw [← limit]
  constructor
  · intro tells
    -- `EXIT_RETRY` is `EXIT_FAILURE`: one of the two causes is always told wrongly.
    cases cause with
    | limitExceeded => rfl
    | acceptFailed => exact absurd (tells.retry.1 (tells.failure.2 rfl)) (by decide)
    | unrecoverable => exact absurd (tells.failure.1 (tells.retry.2 rfl)) (by decide)
  · rintro rfl
    rw [coded.limit rfl]
    exact ⟨by decide, by decide, by decide, by decide⟩

def plainTurn : Turn Unit :=
  { accepted := true, made := .ok ⟨.cleared, [], []⟩, scheduled := true, binds := fun _ => true, ran := true }

def closedTurn : Turn Unit := { plainTurn with accepted := false }

def executedLoop : Loop Unit where
  ret := exitSuccess
  nrExecuted := 1
  actions := [.scheduleVdom none none, .bindVariable .server none, .bindVariable .get none, .bindVariable .post none,
    .bindVariable .cookie none, .bindVariable .files none, .run]

theorem limit_exit_code_never_names_cause :
    ¬ NamesCause .limitExceeded exitSuccess ∧
      (TellsCause .limitExceeded exitSuccess ↔ (0 : Int) < 2 ^ 31 - 1 ∧ LimitReached 0 0 [plainTurn, closedTurn]) := by
  have beyond : 0 < toInt 1 := by decide
  have left : hvmlExecutor 0 [plainTurn, closedTurn] = .left .limitExceeded executedLoop := by
    simp [hvmlExecutor, serveAll, serve, execute, reserved, bindVariables, plainTurn, RequestInfo.cleared, Loop.log,
      beyond, executedLoop]
  exact exit_code_never_names_cause 0 [plainTurn, closedTurn] .limitExceeded executedLoop left

/-- The socket is closed behind the first request: the worker reports the resource limit. -/
theorem closed_after_request_misnamed :
    exitRetry = exitFailure ∧
    ∃ last : Loop Unit, hvmlExecutor 5 [plainTurn, closedTurn] = .left .acceptFailed last ∧
      last.ret = exitSuccess ∧ (exitStatus last.ret).replaced = true ∧ ¬ NamesCause .acceptFailed last.ret := by
  have below : ¬ 5 < toInt 1 := by decide
  have left : hvmlExecutor 5 [plainTurn, closedTurn] = .left .acceptFailed executedLoop := by
    simp [hvmlExecutor, serveAll, serve, execute, reserved, bindVariables, plainTurn, closedTurn, RequestInfo.cleared,
      Loop.log, below, executedLoop, exitSuccess]
  refine ⟨rfl, executedLoop, left, rfl, rfl, ?_⟩
  intro names
  exact absurd (names.success.1 rfl) (by decide)

end HvmlFpm.Worker
