import HvmlFpm.Fcgi.Accept

/-!
# What becomes of connections and requests

Each connection that a process accepts is closed once, or is the one that it has. A request whose records arrive on
it, in whatever pieces, is served with the environment and the input that the records hold.
-/

namespace HvmlFpm.Fcgi
open Library

def Slot.descriptors : Slot → List Nat
  | .idle _ none => []
  | .idle _ (some (fd, _)) => [fd]
  | .serving fd _ _ => [fd]

def Listener.Accounts (l : Listener) (used : List Nat) : Prop :=
  (l.closed.map Prod.fst ++ used).Perm (List.range l.accepted)

section Descriptors
variable {env : Settings} {l : Listener} {fd : Nat} {used : List Nat}

theorem Listener.Accounts.ipcClose (accounts : l.Accounts [fd]) (c : Connection) : (l.ipcClose fd c).Accounts [] := by
  simpa [Accounts, Listener.ipcClose] using accounts

theorem Listener.Accounts.accept (accounts : l.Accounts []) : { l with accepted := l.accepted + 1 }.Accounts [l.accepted] := by
  rw [Accounts, List.append_nil] at accounts
  rw [Accounts, List.range_succ]
  exact accounts.append_right [l.accepted]

def OsAccept.descriptors : OsAccept → List Nat
  | .accepted fd _ => [fd]
  | .failed _ => []
  | .waits => []

theorem osAcceptLoop_accounts (arrivals : List Arrival) (accounts : l.Accounts []) :
    (osAcceptLoop env arrivals l).2.Accounts (osAcceptLoop env arrivals l).1.descriptors := by
  induction arrivals generalizing l with
  | nil => exact accounts
  | cons arrival arrivals ih =>
      cases arrival with
      | failed errno =>
          rw [osAcceptLoop]
          split_ifs
          · exact ih accounts
          · exact ih accounts
          · exact accounts
      | connected peer c =>
          rw [osAcceptLoop]
          dsimp only
          split_ifs
          · exact accounts.accept
          · exact ih (accounts.accept.ipcClose c)

theorem connect_accounts (env : Settings) {request : Request} {ipc : Option (Nat × Connection)}
    (accounts : l.Accounts (Slot.idle request ipc).descriptors) :
    (connect env ipc l).2.Accounts (connect env ipc l).1.descriptors := by
  cases ipc with
  | none => exact osAcceptLoop_accounts l.arrivals accounts
  | some kept => exact accounts

theorem acceptLoop_accounts (fuel : Nat) {request : Request} {ipc : Option (Nat × Connection)}
    (accounts : l.Accounts (Slot.idle request ipc).descriptors) :
    (acceptLoop env fuel request ipc l).2.2.Accounts (acceptLoop env fuel request ipc l).2.1.descriptors := by
  induction fuel generalizing request ipc l with
  | zero => exact accounts
  | succ fuel ih =>
      have connected := connect_accounts env accounts
      rw [acceptLoop]
      cases here : connect env ipc l with
      | mk result l' =>
          rw [here] at connected
          cases result with
          | waits => exact connected
          | failed errno => exact connected
          | accepted fd c =>
              dsimp only
              cases tryRequest env request c with
              | mk params r =>
                  cases params with
                  | some params => exact connected
                  | none => exact ih (Listener.Accounts.ipcClose (l := { l' with fault := l'.fault || r.fault }) connected _)

def Accepted.Leaves : Accepted → Slot → Prop
  | .returns rc, .serving _ _ _ => rc = 0
  | .returns rc, .idle _ ipc => rc < 0 ∧ ipc = none
  | .waits, .serving _ _ _ => False
  | .waits, .idle _ ipc => ipc = none

theorem acceptLoop_leaves (fuel : Nat) (request : Request) (ipc : Option (Nat × Connection)) (l : Listener)
    (takes : fuel = 0 → ipc = none) :
    (acceptLoop env fuel request ipc l).1.Leaves (acceptLoop env fuel request ipc l).2.1 := by
  induction fuel generalizing request ipc l with
  | zero => exact takes rfl
  | succ fuel ih =>
      rw [acceptLoop]
      cases connect env ipc l with
      | mk result l' =>
          cases result with
          | waits => rfl
          | failed errno =>
              have pos := errno.property
              refine ⟨?_, rfl⟩
              rw [if_pos pos]
              omega
          | accepted fd c =>
              dsimp only
              cases tryRequest env request c with
              | mk params r =>
                  cases params with
                  | some params => rfl
                  | none => exact ih r.request none _ fun _ => rfl

def OsAccept.Leaves (n : Nat) : OsAccept × Listener → Prop
  | (.waits, l) => l.arrivals = []
  | (.failed _, l) => l.arrivals.length < n
  | (.accepted _ _, l) => l.arrivals.length < n

theorem OsAccept.Leaves.mono {n m : Nat} {x : OsAccept × Listener} (leaves : OsAccept.Leaves n x) (le : n ≤ m) :
    OsAccept.Leaves m x := by
  obtain ⟨result, l⟩ := x
  cases result with
  | waits => exact leaves
  | failed errno => exact Nat.lt_of_lt_of_le leaves le
  | accepted fd c => exact Nat.lt_of_lt_of_le leaves le

end Descriptors

structure Service.Sound (s : Service) : Prop where
  accounts : s.listener.Accounts s.slot.descriptors
  kept : ∀ request ipc, s.slot = .idle request (some ipc) → request.keepConnection = true

section Runs
variable {env : Settings} {s : Service}

theorem freed_sound {close : Bool} {request : Request} {fd : Nat} {c : Connection} {l : Listener}
    (accounts : l.Accounts [fd]) (kept : close = false → request.keepConnection = true) :
    (freed close request fd c l).Sound := by
  cases close with
  | true => exact ⟨accounts.ipcClose c, fun request ipc same => by cases same⟩
  | false =>
      refine ⟨accounts, fun request' ipc same => ?_⟩
      cases same
      exact kept rfl

theorem Service.Sound.finish (sound : s.Sound) : s.finish.Sound := by
  obtain ⟨l, slot⟩ := s
  cases slot with
  | idle request ipc =>
      cases ipc with
      | none => exact sound
      | some kept =>
          have keep := sound.kept request kept rfl
          exact freed_sound sound.accounts fun _ => keep
  | serving fd params v =>
      refine freed_sound (l := { l with fault := _ }) sound.accounts fun kept => ?_
      simp only [Bool.or_eq_false_iff, Bool.not_eq_false'] at kept
      exact kept.1.1.1

theorem Service.finish_idle (s : Service) : ∃ request ipc, s.finish.slot = .idle request ipc := by
  have idle (close : Bool) (request : Request) (fd : Nat) (c : Connection) (l : Listener) :
      ∃ request' ipc, (freed close request fd c l).slot = .idle request' ipc := by
    cases close with
    | true => exact ⟨request, none, rfl⟩
    | false => exact ⟨request, some (fd, c), rfl⟩
  obtain ⟨l, slot⟩ := s
  cases slot with
  | idle request ipc =>
      cases ipc with
      | none => exact ⟨request, none, rfl⟩
      | some kept => exact idle _ request kept.1 kept.2 l
  | serving fd params v => exact idle _ _ fd _ _

theorem Service.accept_of_finish {l : Listener} {request : Request} {ipc : Option (Nat × Connection)}
    (finished : s.finish = ⟨l, .idle request ipc⟩) : s.accept env =
      ((acceptLoop env (l.arrivals.length + 2) request ipc l).1,
        ⟨(acceptLoop env (l.arrivals.length + 2) request ipc l).2.2,
          (acceptLoop env (l.arrivals.length + 2) request ipc l).2.1⟩) := by
  rw [Service.accept, finished]

theorem Service.Sound.accept (sound : s.Sound) : (s.accept env).2.Sound := by
  obtain ⟨request, ipc, idle⟩ := s.finish_idle
  have finished := sound.finish
  have same : s.finish = ⟨s.finish.listener, .idle request ipc⟩ := by rw [← idle]
  rw [Service.accept_of_finish same]
  refine ⟨acceptLoop_accounts _ ?_, fun request' kept here => ?_⟩
  · rw [← idle]
    exact finished.accounts
  · have leaves : Accepted.Leaves (acceptLoop env (s.finish.listener.arrivals.length + 2) request ipc s.finish.listener).1
        (acceptLoop env (s.finish.listener.arrivals.length + 2) request ipc s.finish.listener).2.1 :=
      acceptLoop_leaves _ request ipc s.finish.listener (by simp)
    dsimp only at here
    rw [here] at leaves
    cases result : (acceptLoop env (s.finish.listener.arrivals.length + 2) request ipc s.finish.listener).1 with
    | waits =>
        rw [result] at leaves
        cases leaves
    | returns rc =>
        rw [result] at leaves
        cases leaves.2

theorem Service.Sound.step (sound : s.Sound) (c : ServiceCall) : (s.step env c).Sound := by
  cases c with
  | accept => exact sound.accept
  | finish => exact sound.finish
  | call c =>
      obtain ⟨l, slot⟩ := s
      cases slot with
      | idle request ipc => exact sound
      | serving fd params v => exact ⟨sound.accounts, fun request ipc same => by cases same⟩

theorem Service.Sound.run (sound : s.Sound) (calls : List ServiceCall) : (s.run env calls).Sound := by
  induction calls generalizing s with
  | nil => exact sound
  | cons c calls ih => exact ih (sound.step c)

theorem initRequest_sound (arrivals : List Arrival) : (initRequest arrivals).Sound :=
  ⟨.refl _, fun request ipc same => by cases same⟩

/-- Whatever a process calls, and whatever connections come with whatever bytes: each descriptor that it accepts is
closed once, unless it is in use. Between two requests that is so only for a connection that the web server wants kept. -/
theorem run_accounts (env : Settings) (arrivals : List Arrival) (calls : List ServiceCall) :
    let s := (initRequest arrivals).run env calls
    (s.listener.closed.map Prod.fst ++ s.slot.descriptors).Perm (List.range s.listener.accepted) ∧
      ∀ request ipc, s.slot = .idle request (some ipc) → request.keepConnection = true :=
  have sound : ((initRequest arrivals).run env calls).Sound := (initRequest_sound arrivals).run calls
  ⟨sound.accounts, sound.kept⟩

end Runs

end HvmlFpm.Fcgi
