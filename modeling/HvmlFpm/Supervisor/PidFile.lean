import HvmlFpm.Supervisor.Spawn

/-!
# The descriptor of the pid file

`fcgi_spawn_connection` closes the descriptor when a write fails and forgets its own copy; `main` keeps
another one.
-/

namespace HvmlFpm.Supervisor
open Library Worker

def FdAction.fd : FdAction → Nat
  | .write fd _ => fd
  | .close fd => fd

def Disciplined (log : List FdAction) : Prop :=
  ∀ before fd after, log = before ++ .close fd :: after → ∀ a ∈ after, a.fd ≠ fd

theorem Disciplined.of_append {log more : List FdAction} (disciplined : Disciplined (log ++ more)) :
    Disciplined log := by
  intro before fd after split a member
  exact disciplined before fd (after ++ more) (by simp [split]) a (List.mem_append_left _ member)

theorem disciplined_concat {log : List FdAction} {a : FdAction} (disciplined : Disciplined log)
    (fresh : FdAction.close a.fd ∉ log) : Disciplined (log ++ [a]) := by
  intro before fd after split b member
  rcases List.eq_nil_or_concat' after with rfl | ⟨after, last, rfl⟩
  · cases member
  · rw [← List.cons_append, ← List.append_assoc] at split
    obtain ⟨rfl, ends⟩ := List.append_inj' split rfl
    obtain rfl := List.singleton_inj.1 ends
    rcases List.mem_append.1 member with earlier | now
    · exact disciplined before fd after rfl b earlier
    · obtain rfl := List.mem_singleton.1 now
      rintro rfl
      exact fresh (by simp)

theorem not_disciplined_concat {log : List FdAction} {a : FdAction} (closed : FdAction.close a.fd ∈ log) :
    ¬ Disciplined (log ++ [a]) := by
  intro disciplined
  obtain ⟨before, after, rfl⟩ := List.append_of_mem closed
  exact disciplined before a.fd (after ++ [a]) (by simp) a (by simp) rfl

def Pc.frame? : Pc → Option Frame
  | .forking frame => some frame
  | .checking frame _ => some frame
  | _ => none

def WriteFails (e : State × Label) : Prop :=
  e.2 = .childRunning false ∧ ∃ frame, e.1.pc.frame? = some frame ∧ frame.pidFd ≠ none

def FindsRunning (e : State × Label) : Prop := ∃ written, e.2 = .childRunning written

def Respawns (e : State × Label) : Prop :=
  ∃ child status, e.2 = .reap child ∧ e.1.workers[child]? = some (.zombie status) ∧ status.replaced = true

def Ends (e : State × Label) : Prop :=
  e.2 = .waitFailed ∨ e.2 = .spawnReturns ∧ ∃ frame, e.1.pc = .forking frame ∧ frame.rc ≠ 0

inductive FdSteps (s : State) (label : Label) (s' : State) : Prop
  | wrote (frame frame' : Frame) (child fd : Nat) (pc : s.pc.frame? = some frame) (copy : frame.pidFd = some fd)
      (event : label = .childRunning true) (log : s'.pidFile = s.pidFile ++ [.write fd child])
      (pc' : s'.pc = .forking frame') (copy' : frame'.pidFd = some fd)
  | failed (frame frame' : Frame) (child fd : Nat) (pc : s.pc.frame? = some frame) (copy : frame.pidFd = some fd)
      (event : label = .childRunning false) (log : s'.pidFile = s.pidFile ++ [.write fd child, .close fd])
      (pc' : s'.pc = .forking frame') (copy' : frame'.pidFd = none)
  | skipped (frame frame' : Frame) (pc : s.pc.frame? = some frame) (copy : frame.pidFd = none)
      (event : FindsRunning (s, label)) (log : s'.pidFile = s.pidFile)
      (pc' : s'.pc = .forking frame') (copy' : frame'.pidFd = none)
  | ended (rc : Int) (running : ∀ rc, s.pc ≠ .left rc) (event : Ends (s, label))
      (log : s'.pidFile = s.pidFile ++ (s.pidFd.map FdAction.close).toList) (pc' : s'.pc = .left rc)
  | respawned (frame' : Frame) (event : Respawns (s, label)) (log : s'.pidFile = s.pidFile)
      (pc' : s'.pc = .forking frame') (copy' : frame'.pidFd = s.pidFd)
  | other (found : ¬ FindsRunning (s, label)) (ends : ¬ Ends (s, label)) (log : s'.pidFile = s.pidFile)
      (copy : ∀ frame', s'.pc.frame? = some frame' → ∃ frame, s.pc.frame? = some frame ∧ frame'.pidFd = frame.pidFd)
      (respawns : ¬ Respawns (s, label)) (running : (∃ rc, s.pc = .left rc) ↔ ∃ rc, s'.pc = .left rc)

theorem step_main_copy {s s' : State} {label : Label} (next : step s label = some s') : s'.pidFd = s.pidFd := by
  cases steps_of_step next <;> rfl

theorem fdSteps_within {s s' : State} {label : Label} {frame frame' : Frame} (pc : s.pc.frame? = some frame)
    (pc' : s'.pc.frame? = some frame') (copy : frame'.pidFd = frame.pidFd) (log : s'.pidFile = s.pidFile)
    (found : ¬ FindsRunning (s, label)) (ends : ¬ Ends (s, label)) (respawns : ¬ Respawns (s, label)) :
    FdSteps s label s' := by
  refine .other found ends log ?_ respawns (iff_of_false ?_ ?_)
  · intro other same
    obtain rfl := Option.some.inj (pc'.symm.trans same)
    exact ⟨frame, pc, copy⟩
  · rintro ⟨rc, left⟩
    simp [left, Pc.frame?] at pc
  · rintro ⟨rc, left⟩
    simp [left, Pc.frame?] at pc'

theorem fdSteps_childRunning {s s' : State} {written : Bool} (next : step s (.childRunning written) = some s') :
    FdSteps s (.childRunning written) s' := by
  rw [step] at next
  split at next
  · rename_i frame child pc
    split_ifs at next
    obtain rfl := Option.some.inj next
    have here : s.pc.frame? = some frame := by rw [pc]; rfl
    let frame' := { frame with outcomes := frame.outcomes ++ [ForkOutcome.running] }
    cases copy : frame.pidFd with
    | none =>
        exact .skipped frame frame' here copy ⟨written, rfl⟩ (by simp [childRunning, copy])
          (by simp [childRunning, copy, frame']) copy
    | some fd =>
        cases written with
        | true =>
            exact .wrote frame frame' child fd here copy rfl (by simp [childRunning, copy])
              (by simp [childRunning, copy, frame']) copy
        | false =>
            exact .failed frame { frame' with pidFd := none } child fd here copy rfl
              (by simp [childRunning, copy]) (by simp [childRunning, copy, frame']) rfl
  · cases next

theorem fdSteps_spawnReturns {s s' : State} (next : step s .spawnReturns = some s') : FdSteps s .spawnReturns s' := by
  rw [step] at next
  split at next
  · rename_i frame pc
    split_ifs at next with finished failure
    · obtain rfl := Option.some.inj next
      exact .ended frame.rc (by simp [pc]) (.inr ⟨rfl, frame, pc, failure⟩) rfl rfl
    · obtain rfl := Option.some.inj next
      refine .other (by simp [FindsRunning]) ?_ rfl (by simp [Pc.frame?]) (by simp [Respawns]) (by simp [pc])
      rintro (wait | ⟨-, other, same, fails⟩)
      · cases wait
      · obtain rfl := Pc.forking.inj (pc.symm.trans same)
        exact failure fails
  · cases next

theorem fdSteps_reap {s s' : State} {child : Nat} (next : step s (.reap child) = some s') :
    FdSteps s (.reap child) s' := by
  rw [step] at next
  split at next
  · rename_i status pc zombie
    cases replaced : status.replaced with
    | true =>
        simp only [replaced, if_true, Option.some.injEq] at next
        subst next
        exact .respawned ⟨1, 0, s.pidFd, some child, []⟩ ⟨child, status, rfl, zombie, replaced⟩ rfl rfl rfl
    | false =>
        simp only [replaced, Bool.false_eq_true, if_false, Option.some.injEq] at next
        subst next
        refine .other (by simp [FindsRunning]) (by simp [Ends]) rfl (by simp [Pc.frame?, pc]) ?_ Iff.rfl
        rintro ⟨other, otherStatus, same, otherZombie, otherReplaced⟩
        obtain rfl := Label.reap.inj same
        obtain rfl := Life.zombie.inj (Option.some.inj (zombie.symm.trans otherZombie))
        simp [replaced] at otherReplaced
  · cases next

theorem fdSteps_of_step {s s' : State} {label : Label} (next : step s label = some s') : FdSteps s label s' := by
  cases label with
  | die child status =>
      rw [step, die] at next
      split_ifs at next
      obtain rfl := Option.some.inj next
      exact .other (by simp [FindsRunning]) (by simp [Ends]) rfl (fun frame' same => ⟨frame', same, rfl⟩)
        (by simp [Respawns]) Iff.rfl
  | fork succeeds =>
      rw [step] at next
      split at next
      · rename_i frame pc
        split_ifs at next
        obtain rfl := Option.some.inj next
        have here : s.pc.frame? = some frame := by rw [pc]; rfl
        cases succeeds with
        | true => exact fdSteps_within here rfl rfl rfl (by simp [FindsRunning]) (by simp [Ends]) (by simp [Respawns])
        | false => exact fdSteps_within here rfl rfl rfl (by simp [FindsRunning]) (by simp [Ends]) (by simp [Respawns])
      · cases next
  | childRunning written => exact fdSteps_childRunning next
  | childWaitFailed =>
      rw [step] at next
      split at next
      · rename_i frame child pc
        obtain rfl := Option.some.inj next
        have here : s.pc.frame? = some frame := by rw [pc]; rfl
        exact fdSteps_within here rfl rfl rfl (by simp [FindsRunning]) (by simp [Ends]) (by simp [Respawns])
      · cases next
  | childEnded =>
      rw [step] at next
      split at next
      · rename_i frame child pc
        split at next
        · obtain rfl := Option.some.inj next
          have here : s.pc.frame? = some frame := by rw [pc]; rfl
          exact fdSteps_within here rfl rfl rfl (by simp [FindsRunning]) (by simp [Ends]) (by simp [Respawns])
        · cases next
      · cases next
  | spawnReturns => exact fdSteps_spawnReturns next
  | reap child => exact fdSteps_reap next
  | waitFailed =>
      rw [step] at next
      split at next
      · rename_i pc
        obtain rfl := Option.some.inj next
        exact .ended 0 (by simp [pc]) (.inl rfl) rfl rfl
      · cases next

/-! ## Whole runs -/

/-- After a failed write the supervisor ends, or finds a worker running that a later call has forked. -/
def LosesDescriptor (trace : List (State × Label)) : Prop :=
  Occurs [WriteFails, Ends] trace ∨ Occurs [WriteFails, Respawns, FindsRunning] trace

section Concat
variable {trace : List (State × Label)} {e : State × Label}

theorem writeFails_concat :
    Occurs [WriteFails] (trace ++ [e]) ↔ Occurs [WriteFails] trace ∨ WriteFails e :=
  (occurs_concat [] WriteFails trace e).trans (or_congr Iff.rfl (and_iff_right trivial))

theorem respawned_concat : Occurs [WriteFails, Respawns] (trace ++ [e]) ↔
    Occurs [WriteFails, Respawns] trace ∨ Occurs [WriteFails] trace ∧ Respawns e :=
  occurs_concat [WriteFails] Respawns trace e

theorem losesDescriptor_concat : LosesDescriptor (trace ++ [e]) ↔ LosesDescriptor trace ∨
    (Occurs [WriteFails] trace ∧ Ends e) ∨ Occurs [WriteFails, Respawns] trace ∧ FindsRunning e := by
  have ends := occurs_concat [WriteFails] Ends trace e
  have finds := occurs_concat [WriteFails, Respawns] FindsRunning trace e
  simp only [List.cons_append, List.nil_append] at ends finds
  rw [LosesDescriptor, LosesDescriptor, ends, finds]
  tauto

theorem writeFails_of_respawned (occurs : Occurs [WriteFails, Respawns] trace) : Occurs [WriteFails] trace := by
  obtain ⟨before, e, after, split, fails, _⟩ := occurs
  exact ⟨before, e, after, split, fails, trivial⟩

theorem writeFails_of_loses (loses : LosesDescriptor trace) : Occurs [WriteFails] trace := by
  rcases loses with ⟨before, e, after, split, fails, _⟩ | ⟨before, e, after, split, fails, _⟩
  · exact ⟨before, e, after, split, fails, trivial⟩
  · exact ⟨before, e, after, split, fails, trivial⟩

end Concat

theorem findsRunning_of_writeFails {e : State × Label} (fails : WriteFails e) : FindsRunning e :=
  ⟨false, fails.1⟩

theorem not_ends_of_findsRunning {e : State × Label} (finds : FindsRunning e) : ¬ Ends e := by
  obtain ⟨written, event⟩ := finds
  simp [Ends, event]

theorem not_respawns_of_findsRunning {e : State × Label} (finds : FindsRunning e) : ¬ Respawns e := by
  obtain ⟨written, event⟩ := finds
  simp [Respawns, event]

theorem not_findsRunning_of_ends {e : State × Label} (ends : Ends e) : ¬ FindsRunning e :=
  fun finds => not_ends_of_findsRunning finds ends

theorem not_findsRunning_of_respawns {e : State × Label} (respawns : Respawns e) : ¬ FindsRunning e :=
  fun finds => not_respawns_of_findsRunning finds respawns

theorem not_ends_of_respawns {e : State × Label} (respawns : Respawns e) : ¬ Ends e := by
  obtain ⟨child, status, event, _⟩ := respawns
  simp [Ends, event]

/-- Where the descriptor stands: untouched, closed by `main` at the end, closed after a failed write with
`main` still holding its number, or used again behind that. -/
inductive Descriptor (trace : List (State × Label)) (s : State) : Prop
  | intact (calm : ¬ Occurs [WriteFails] trace) (log : ∀ fd, FdAction.close fd ∉ s.pidFile)
      (copies : ∀ frame, s.pc.frame? = some frame → frame.pidFd = s.pidFd) (running : ∀ rc, s.pc ≠ .left rc)
  | ended (calm : ¬ Occurs [WriteFails] trace) (disciplined : Disciplined s.pidFile) (left : ∃ rc, s.pc = .left rc)
  | shut (fd : Nat) (main : s.pidFd = some fd) (failed : Occurs [WriteFails] trace)
      (kept : ¬ LosesDescriptor trace) (disciplined : Disciplined s.pidFile) (closed : FdAction.close fd ∈ s.pidFile)
      (copies : ∀ frame, s.pc.frame? = some frame →
        frame.pidFd = none ∧ ¬ Occurs [WriteFails, Respawns] trace ∨
        frame.pidFd = some fd ∧ Occurs [WriteFails, Respawns] trace) (running : ∀ rc, s.pc ≠ .left rc)
  | lost (loses : LosesDescriptor trace) (broken : ¬ Disciplined s.pidFile)

theorem disciplined_of_open {log : List FdAction} (open' : ∀ fd, FdAction.close fd ∉ log) : Disciplined log := by
  rintro before fd after rfl
  exact absurd (by simp) (open' fd)

section Step
variable {trace : List (State × Label)} {s s' : State} {label : Label}

theorem descriptor_lost (loses : LosesDescriptor trace) (broken : ¬ Disciplined s.pidFile)
    (steps : FdSteps s label s') : Descriptor (trace ++ [(s, label)]) s' := by
  have still (more : List FdAction) (log : s'.pidFile = s.pidFile ++ more) : ¬ Disciplined s'.pidFile :=
    fun disciplined => broken (log ▸ disciplined).of_append
  refine .lost (losesDescriptor_concat.2 (.inl loses)) ?_
  cases steps with
  | wrote _ _ _ _ _ _ _ log => exact still _ log
  | failed _ _ _ _ _ _ _ log => exact still _ log
  | skipped _ _ _ _ _ log => exact still [] (by simpa using log)
  | ended _ _ _ log => exact still _ log
  | respawned _ _ log => exact still [] (by simpa using log)
  | other _ _ log => exact still [] (by simpa using log)

theorem descriptor_ended (calm : ¬ Occurs [WriteFails] trace) (disciplined : Disciplined s.pidFile)
    (left : ∃ rc, s.pc = .left rc) (next : step s label = some s') (steps : FdSteps s label s') :
    Descriptor (trace ++ [(s, label)]) s' := by
  obtain ⟨rc, pc⟩ := left
  have outside : s.pc.frame? = none := by rw [pc]; rfl
  cases steps with
  | wrote _ _ _ _ here => simp [outside] at here
  | failed _ _ _ _ here => simp [outside] at here
  | skipped _ _ here => simp [outside] at here
  | ended _ running => exact absurd pc (running rc)
  | respawned _ event =>
      obtain ⟨child, status, rfl, _⟩ := event
      simp [step, pc] at next
  | other found _ log _ _ running =>
      refine .ended ?_ (log ▸ disciplined) (running.1 ⟨rc, pc⟩)
      rw [writeFails_concat]
      rintro (earlier | now)
      · exact calm earlier
      · exact found (findsRunning_of_writeFails now)

theorem descriptor_intact (calm : ¬ Occurs [WriteFails] trace) (log : ∀ fd, FdAction.close fd ∉ s.pidFile)
    (copies : ∀ frame, s.pc.frame? = some frame → frame.pidFd = s.pidFd) (running : ∀ rc, s.pc ≠ .left rc)
    (main : s'.pidFd = s.pidFd) (steps : FdSteps s label s') : Descriptor (trace ++ [(s, label)]) s' := by
  have still (unfailed : ¬ WriteFails (s, label)) : ¬ Occurs [WriteFails] (trace ++ [(s, label)]) := by
    rw [writeFails_concat]
    rintro (earlier | now)
    · exact calm earlier
    · exact unfailed now
  cases steps with
  | wrote frame frame' child fd pc copy event log' pc' copy' =>
      refine .intact (still ?_) ?_ ?_ (by simp [pc'])
      · simp [WriteFails, event]
      · intro fd'
        simp [log', log fd']
      · intro other same
        obtain rfl : frame' = other := by simpa [pc', Pc.frame?] using same
        rw [copy', main, ← copies frame pc, copy]
  | failed frame frame' child fd pc copy event log' pc' copy' =>
      have holds : s.pidFd = some fd := by rw [← copies frame pc, copy]
      have fails : WriteFails (s, label) := ⟨event, frame, pc, by simp [copy]⟩
      have calls : ¬ Occurs [WriteFails, Respawns] (trace ++ [(s, label)]) := by
        rw [respawned_concat]
        rintro (earlier | ⟨earlier, _⟩)
        · exact calm (writeFails_of_respawned earlier)
        · exact calm earlier
      have split : s'.pidFile = (s.pidFile ++ [.write fd child]) ++ [.close fd] := by simp [log']
      refine .shut fd (by rw [main, holds]) (writeFails_concat.2 (.inr fails)) ?_ ?_ (by simp [log']) ?_
        (by simp [pc'])
      · rw [losesDescriptor_concat]
        rintro (earlier | ⟨earlier, _⟩ | ⟨earlier, _⟩)
        · exact calm (writeFails_of_loses earlier)
        · exact calm earlier
        · exact calm (writeFails_of_respawned earlier)
      · rw [split]
        exact disciplined_concat (disciplined_concat (disciplined_of_open log) (log fd)) (by simp [FdAction.fd, log fd])
      · intro other same
        obtain rfl : frame' = other := by simpa [pc', Pc.frame?] using same
        exact .inl ⟨copy', calls⟩
  | skipped frame frame' pc copy event log' pc' copy' =>
      refine .intact (still ?_) (by simpa [log'] using log) ?_ (by simp [pc'])
      · rintro ⟨_, other, same, opened⟩
        obtain rfl := Option.some.inj (pc.symm.trans same)
        exact opened copy
      · intro other same
        obtain rfl : frame' = other := by simpa [pc', Pc.frame?] using same
        rw [copy', main, ← copies frame pc, copy]
  | ended rc _ event log' pc' =>
      have unfailed := mt findsRunning_of_writeFails (not_findsRunning_of_ends event)
      refine .ended (still unfailed) ?_ ⟨rc, pc'⟩
      rw [log']
      cases s.pidFd with
      | none => simpa using disciplined_of_open log
      | some fd => exact disciplined_concat (disciplined_of_open log) (log fd)
  | respawned frame' event log' pc' copy' =>
      have unfailed := mt findsRunning_of_writeFails (not_findsRunning_of_respawns event)
      refine .intact (still unfailed) (by simpa [log'] using log) ?_ (by simp [pc'])
      intro other same
      obtain rfl : frame' = other := by simpa [pc', Pc.frame?] using same
      rw [copy', main]
  | other found ends log' copy respawns running' =>
      refine .intact (still (mt findsRunning_of_writeFails found)) (by simpa [log'] using log) ?_ ?_
      · intro frame' same
        obtain ⟨frame, here, alike⟩ := copy frame' same
        rw [alike, main, copies frame here]
      · intro rc pc'
        obtain ⟨rc, pc⟩ := running'.2 ⟨rc, pc'⟩
        exact running rc pc

theorem descriptor_shut {fd : Nat} (holds : s.pidFd = some fd) (failed : Occurs [WriteFails] trace)
    (kept : ¬ LosesDescriptor trace) (disciplined : Disciplined s.pidFile) (closed : FdAction.close fd ∈ s.pidFile)
    (copies : ∀ frame, s.pc.frame? = some frame →
      frame.pidFd = none ∧ ¬ Occurs [WriteFails, Respawns] trace ∨
      frame.pidFd = some fd ∧ Occurs [WriteFails, Respawns] trace) (running : ∀ rc, s.pc ≠ .left rc)
    (main : s'.pidFd = s.pidFd) (steps : FdSteps s label s') : Descriptor (trace ++ [(s, label)]) s' := by
  have failed' : Occurs [WriteFails] (trace ++ [(s, label)]) := writeFails_concat.2 (.inl failed)
  -- a copy of the number in a later call is the number that has been closed
  have used {frame : Frame} {fd' : Nat} (pc : s.pc.frame? = some frame) (copy : frame.pidFd = some fd') :
      fd' = fd ∧ Occurs [WriteFails, Respawns] trace := by
    rcases copies frame pc with ⟨none, _⟩ | ⟨some, later⟩
    · simp [copy] at none
    · exact ⟨Option.some.inj (copy.symm.trans some), later⟩
  cases steps with
  | wrote frame frame' child fd' pc copy event log' pc' copy' =>
      obtain ⟨rfl, later⟩ := used pc copy
      refine .lost (losesDescriptor_concat.2 (.inr (.inr ⟨later, true, event⟩))) ?_
      rw [log']
      exact not_disciplined_concat closed
  | failed frame frame' child fd' pc copy event log' pc' copy' =>
      obtain ⟨rfl, later⟩ := used pc copy
      refine .lost (losesDescriptor_concat.2 (.inr (.inr ⟨later, false, event⟩))) ?_
      intro disciplined
      have split : s'.pidFile = (s.pidFile ++ [.write fd' child]) ++ [.close fd'] := by simp [log']
      rw [split] at disciplined
      exact not_disciplined_concat closed disciplined.of_append
  | skipped frame frame' pc copy event log' pc' copy' =>
      rcases copies frame pc with ⟨_, sole⟩ | ⟨some, _⟩
      · refine .shut fd (by rw [main, holds]) failed' ?_ (log' ▸ disciplined) (log' ▸ closed) ?_ (by simp [pc'])
        · rw [losesDescriptor_concat]
          rintro (earlier | ⟨_, ends⟩ | ⟨later, _⟩)
          · exact kept earlier
          · exact not_ends_of_findsRunning event ends
          · exact sole later
        · intro other same
          obtain rfl : frame' = other := by simpa [pc', Pc.frame?] using same
          refine .inl ⟨copy', ?_⟩
          rw [respawned_concat]
          rintro (later | ⟨_, respawns⟩)
          · exact sole later
          · exact not_respawns_of_findsRunning event respawns
      · simp [copy] at some
  | ended rc _ event log' pc' =>
      refine .lost (losesDescriptor_concat.2 (.inr (.inl ⟨failed, event⟩))) ?_
      rw [log', holds]
      exact not_disciplined_concat closed
  | respawned frame' event log' pc' copy' =>
      refine .shut fd (by rw [main, holds]) failed' ?_ (log' ▸ disciplined) (log' ▸ closed) ?_ (by simp [pc'])
      · rw [losesDescriptor_concat]
        rintro (earlier | ⟨_, ends⟩ | ⟨_, finds⟩)
        · exact kept earlier
        · exact not_ends_of_respawns event ends
        · exact not_findsRunning_of_respawns event finds
      · intro other same
        obtain rfl : frame' = other := by simpa [pc', Pc.frame?] using same
        exact .inr ⟨copy'.trans holds, respawned_concat.2 (.inr ⟨failed, event⟩)⟩
  | other found ends log' copy respawns running' =>
      have later : Occurs [WriteFails, Respawns] (trace ++ [(s, label)]) ↔ Occurs [WriteFails, Respawns] trace := by
        rw [respawned_concat]
        exact or_iff_left fun now => respawns now.2
      refine .shut fd (by rw [main, holds]) failed' ?_ (log' ▸ disciplined) (log' ▸ closed) ?_ ?_
      · rw [losesDescriptor_concat]
        rintro (earlier | ⟨_, now⟩ | ⟨_, now⟩)
        · exact kept earlier
        · exact ends now
        · exact found now
      · intro frame' same
        obtain ⟨frame, here, alike⟩ := copy frame' same
        rw [alike, later]
        exact copies frame here
      · intro rc pc'
        obtain ⟨rc, pc⟩ := running'.2 ⟨rc, pc'⟩
        exact running rc pc

end Step

theorem descriptor_run {forkCount : Nat} {pidFd : Option Nat} {trace : List (State × Label)} {s : State}
    (run : Run step (init forkCount pidFd) trace s) : Descriptor trace s := by
  induction run with
  | nil =>
      refine .intact not_occurs_nil (by simp [init]) ?_ ?_
      · intro frame pc
        rw [init, spawnConnection] at pc
        split_ifs at pc
        · obtain rfl := Option.some.inj pc
          rfl
        · cases pc
      · intro rc pc
        rw [init, spawnConnection] at pc
        split_ifs at pc
  | snoc label run next ih =>
      have steps := fdSteps_of_step next
      have main := step_main_copy next
      cases ih with
      | intact calm log copies running => exact descriptor_intact calm log copies running main steps
      | ended calm disciplined left => exact descriptor_ended calm disciplined left next steps
      | shut fd holds failed kept disciplined closed copies running =>
          exact descriptor_shut holds failed kept disciplined closed copies running main steps
      | lost loses broken => exact descriptor_lost loses broken steps

theorem disciplined_iff (forkCount : Nat) (pidFd : Option Nat) (trace : List (State × Label)) (s : State)
    (run : Run step (init forkCount pidFd) trace s) : Disciplined s.pidFile ↔ ¬ LosesDescriptor trace := by
  cases descriptor_run run with
  | intact calm log => exact iff_of_true (disciplined_of_open log) (mt writeFails_of_loses calm)
  | ended calm disciplined => exact iff_of_true disciplined (mt writeFails_of_loses calm)
  | shut fd holds failed kept disciplined => exact iff_of_true disciplined kept
  | lost loses broken => exact iff_of_false broken (not_not.2 loses)

theorem one_write_disciplined_iff : ∃ trace s, Run step (init 1 (some 3)) trace s ∧
    trace.map Prod.snd = [.fork true, .childRunning true] ∧ (Disciplined s.pidFile ↔ ¬ LosesDescriptor trace) := by
  have follows : ∃ s, follow step [.fork true, .childRunning true] (init 1 (some 3)) = some s := ⟨_, rfl⟩
  obtain ⟨s, followed⟩ := follows
  obtain ⟨trace, run, labels⟩ := run_of_follow followed
  exact ⟨trace, s, run, labels, disciplined_iff 1 (some 3) trace s run⟩

theorem respawn_writes_to_closed : ∃ trace s, Run step (init 1 (some 3)) trace s ∧
    s.pidFile = [.write 3 0, .close 3, .write 3 1] ∧ ¬ Disciplined s.pidFile := by
  let labels : List Label := [.fork true, .childRunning false, .spawnReturns, .die 0 (.exited 0), .reap 0,
    .fork true, .childRunning true]
  have follows : ∃ s, follow step labels (init 1 (some 3)) = some s ∧
      s.pidFile = [.write 3 0, .close 3] ++ [.write 3 1] := ⟨_, rfl, rfl⟩
  obtain ⟨s, followed, log⟩ := follows
  obtain ⟨trace, run, _⟩ := run_of_follow followed
  refine ⟨trace, s, run, log, ?_⟩
  rw [log]
  exact not_disciplined_concat (by simp [FdAction.fd])

end HvmlFpm.Supervisor
