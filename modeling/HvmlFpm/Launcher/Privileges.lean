import HvmlFpm.Launcher.Main

/-!
# Privileges

What has become of the user and the groups of root when the launcher comes to `fcgi_spawn_connection`.
-/

namespace HvmlFpm.Launcher
open Library

def lastGiven (select : Opt → Option CString) (opts : List Opt) : Option CString := (opts.filterMap select).getLast?

def Opt.user : Opt → Option CString
  | .u username => some username
  | _ => none

def Opt.group : Opt → Option CString
  | .g groupname => some groupname
  | _ => none

def Opt.sockUser : Opt → Option CString
  | .U sockusername => some sockusername
  | _ => none

def Opt.sockGroup : Opt → Option CString
  | .G sockgroupname => some sockgroupname
  | _ => none

def Opt.portText : Opt → Option CString
  | .p port => some port
  | _ => none

theorem parse_last {α : Type} {root : Bool} (select : Opt → Option CString) (field : Settings → α) (set : CString → α)
    (step : ∀ s o s', parseOption root s o = .ok s' → field s' = (select o).elim (field s) set)
    {opts : List Opt} {s s' : Settings} (parsed : opts.foldlM (parseOption root) s = .ok s') :
    field s' = (lastGiven select opts).elim (field s) set := by
  induction opts generalizing s with
  | nil =>
      obtain rfl : s = s' := by simpa [pure, Except.pure] using parsed
      rfl
  | cons o opts ih =>
      rw [List.foldlM_cons] at parsed
      cases first : parseOption root s o with
      | error code => simp [first, bind, Except.bind] at parsed
      | ok between =>
          have rest : opts.foldlM (parseOption root) between = .ok s' := by
            simpa [first, bind, Except.bind] using parsed
          have later := ih rest
          rw [step s o between first] at later
          rw [later, lastGiven, lastGiven]
          cases selected : select o with
          | none => simp [selected]
          | some text =>
              rw [List.filterMap_cons_some selected, List.getLast?_cons]
              cases (opts.filterMap select).getLast? <;> rfl

theorem parse_given {root : Bool} (select : Opt → Option CString) (field : Settings → Option CString)
    (step : ∀ s o s', parseOption root s o = .ok s' → field s' = (select o).elim (field s) some)
    {opts : List Opt} {s s' : Settings} (unset : field s = none) (parsed : opts.foldlM (parseOption root) s = .ok s') :
    field s' = lastGiven select opts := by
  rw [parse_last select field some step parsed, unset]
  cases lastGiven select opts <;> rfl

theorem lastGiven_isSome_iff {select : Opt → Option CString} {opts : List Opt} :
    (lastGiven select opts).isSome = true ↔ ∃ o ∈ opts, (select o).isSome = true := by
  rw [lastGiven, List.getLast?_isSome, ne_eq, List.filterMap_eq_nil_iff]
  simp [Option.isSome_iff_ne_none]

theorem parseOption_identities {s s' : Settings} {o : Opt} (step : parseOption true s o = .ok s') :
    s'.username = (Opt.user o).elim s.username some ∧ s'.groupname = (Opt.group o).elim s.groupname some ∧
      s'.sockusername = (Opt.sockUser o).elim s.sockusername some ∧
      s'.sockgroupname = (Opt.sockGroup o).elim s.sockgroupname some := by
  cases o with
  | p port =>
      rw [parseOption] at step
      split_ifs at step
      obtain rfl := Except.ok.inj step
      exact ⟨rfl, rfl, rfl, rfl⟩
  | v => cases step
  | h => cases step
  | other => cases step
  | _ =>
      obtain rfl := Except.ok.inj step
      exact ⟨rfl, rfl, rfl, rfl⟩

section Parse
variable {env : Env} {opts : List Opt} {s : Settings}

theorem parse_identities (root : env.iAmRoot = true) (parsed : parseOptions env opts = .ok s) :
    s.username = lastGiven Opt.user opts ∧ s.groupname = lastGiven Opt.group opts ∧
      s.sockusername = lastGiven Opt.sockUser opts ∧ s.sockgroupname = lastGiven Opt.sockGroup opts := by
  rw [parseOptions, root] at parsed
  refine ⟨?_, ?_, ?_, ?_⟩
  · exact parse_given Opt.user Settings.username (fun _ _ _ step => (parseOption_identities step).1) rfl parsed
  · exact parse_given Opt.group Settings.groupname (fun _ _ _ step => (parseOption_identities step).2.1) rfl parsed
  · exact parse_given Opt.sockUser Settings.sockusername (fun _ _ _ step => (parseOption_identities step).2.2.1) rfl
      parsed
  · exact parse_given Opt.sockGroup Settings.sockgroupname (fun _ _ _ step => (parseOption_identities step).2.2.2) rfl
      parsed

end Parse

def Syscall.privileged : Syscall → Bool
  | .setgid _ | .setgroups | .initgroups _ _ | .chroot _ | .chdir _ | .setuid _ => true
  | _ => false

def Failed : Event → Prop
  | ⟨.setgid _, (ok : Bool)⟩ => ok = false
  | ⟨.setgroups, (ok : Bool)⟩ => ok = false
  | ⟨.initgroups _ _, (ok : Bool)⟩ => ok = false
  | ⟨.chroot _, (ok : Bool)⟩ => ok = false
  | ⟨.chdir _, (ok : Bool)⟩ => ok = false
  | ⟨.setuid _, (ok : Bool)⟩ => ok = false
  | _ => False

theorem not_failed_of_quiet {e : Event} (quiet : e.1.privileged = false) : ¬ Failed e := by
  obtain ⟨c, r⟩ := e
  cases c <;> simp_all [Failed, Syscall.privileged]

def Syscall.endsRoot : Syscall → Bool
  | .chroot _ | .setuid _ => true
  | _ => false

theorem runs_orReturn {c : Syscall} {answer : Answer c → Bool} {trace : List Event} {u : Unit}
    (runs : (orReturn c answer).Runs trace (some u)) : ∃ r, trace = [⟨c, r⟩] ∧ answer r = true := by
  obtain ⟨r, after, rfl, rest⟩ := Program.runs_call.1 runs
  obtain ⟨rfl, result⟩ := Program.runs_done.1 rest
  refine ⟨r, rfl, ?_⟩
  by_contra fails
  rw [if_neg fails] at result
  cases result

section Pieces
variable {trace : List Event} {u : Unit}

theorem runs_setGroups {identity : Identity} (runs : (setGroups identity).Runs trace (some u)) :
    (∀ e ∈ trace, ¬ Failed e ∧ e.1.privileged = true ∧ e.1.endsRoot = false) ∧
      (identity.gid ≠ 0 → ⟨.setgid identity.gid, true⟩ ∈ trace ∧ ⟨.setgroups, true⟩ ∈ trace) := by
  unfold setGroups at runs
  split_ifs at runs with given
  · obtain ⟨first, _, rest, rfl, setgid, more⟩ := Program.runs_andThen.1 runs
    obtain ⟨second, _, last, rfl, setgroups, naming⟩ := Program.runs_andThen.1 more
    obtain ⟨r, rfl, ok⟩ := runs_orReturn setgid
    obtain rfl : r = true := ok
    obtain ⟨r, rfl, ok⟩ := runs_orReturn setgroups
    obtain rfl : r = true := ok
    have named : ∀ e ∈ last, ¬ Failed e ∧ e.1.privileged = true ∧ e.1.endsRoot = false := by
      split at naming
      · obtain ⟨r, rfl, ok⟩ := runs_orReturn naming
        obtain rfl : r = true := ok
        simp [Failed, Syscall.privileged, Syscall.endsRoot]
      · obtain ⟨rfl, -⟩ := Program.runs_done.1 naming
        simp
    refine ⟨?_, fun _ => by simp⟩
    intro e member
    simp only [List.mem_append, List.mem_singleton] at member
    rcases member with rfl | rfl | member
    · simp [Failed, Syscall.privileged, Syscall.endsRoot]
    · simp [Failed, Syscall.privileged, Syscall.endsRoot]
    · exact named e member
  · obtain ⟨rfl, -⟩ := Program.runs_done.1 runs
    exact ⟨by simp, fun given' => absurd given' given⟩

theorem runs_changeRoot {changeroot : Option CString} (runs : (changeRoot changeroot).Runs trace (some u)) :
    ∀ e ∈ trace, ¬ Failed e ∧ e.1.privileged = true := by
  unfold changeRoot at runs
  split at runs
  · obtain ⟨first, _, last, rfl, chroot, chdir⟩ := Program.runs_andThen.1 runs
    obtain ⟨r, rfl, ok⟩ := runs_orReturn chroot
    obtain rfl : r = true := ok
    obtain ⟨r, rfl, ok⟩ := runs_orReturn chdir
    obtain rfl : r = true := ok
    simp [Failed, Syscall.privileged]
  · obtain ⟨rfl, -⟩ := Program.runs_done.1 runs
    simp

theorem runs_dropRoot {uid : Nat} (runs : (dropRoot uid).Runs trace (some u)) :
    (∀ e ∈ trace, ¬ Failed e ∧ e.1.privileged = true) ∧ (uid ≠ 0 → ⟨.setuid uid, true⟩ ∈ trace) := by
  unfold dropRoot at runs
  split_ifs at runs with given
  · obtain ⟨r, rfl, ok⟩ := runs_orReturn runs
    obtain rfl : r = true := ok
    simp [Failed, Syscall.privileged]
  · obtain ⟨rfl, -⟩ := Program.runs_done.1 runs
    exact ⟨by simp, fun given' => absurd given' given⟩

theorem runs_changeDir {fcgiDir : Option CString} (runs : (changeDir fcgiDir).Runs trace (some u)) :
    ∀ e ∈ trace, ¬ Failed e := by
  unfold changeDir at runs
  split at runs
  · obtain ⟨r, rfl, ok⟩ := runs_orReturn runs
    obtain rfl : r = true := ok
    simp [Failed]
  · obtain ⟨rfl, -⟩ := Program.runs_done.1 runs
    simp

end Pieces

theorem changeDir_calls {fcgiDir : Option CString} : (changeDir fcgiDir).Calls fun c => ∃ path, c = .chdir path := by
  cases fcgiDir with
  | none => trivial
  | some path => exact ⟨⟨path, rfl⟩, fun _ => trivial⟩

/-! ## The quiet pieces -/

theorem quiet_of_onSocket {c : Syscall} {sockaddr : Option SockAddr} {unixsocket : Option CString} {uid gid : Nat}
    (calls : c.OnSocket sockaddr unixsocket uid gid ∨ ∃ fd addr, c = .connect fd addr) : c.privileged = false := by
  rcases calls with onSocket | ⟨fd, addr, rfl⟩
  · cases c <;> first | rfl | exact onSocket.elim
  · rfl

theorem endsRoot_of_quiet {c : Syscall} (quiet : c.privileged = false) : c.endsRoot = false := by
  cases c <;> simp_all [Syscall.endsRoot, Syscall.privileged]

theorem bindFor_quiet (env : Env) (s : Settings) (uid gid : Nat) :
    (bindFor env s uid gid).Calls fun c => c.privileged = false :=
  (bindSocket_calls ..).mono fun _ => quiet_of_onSocket

def Syscall.outside : Syscall → Bool
  | .open _ _ | .stat _ | .accessRead _ | .openNull | .dup2 _ _ | .close _ | .fork | .setsid => true
  | _ => false

theorem quiet_of_outside {c : Syscall} (outside : c.outside = true) : c.privileged = false := by
  cases c <;> simp_all [Syscall.outside, Syscall.privileged]

theorem openPidFile_outside (pidFile : Option CString) : (openPidFile pidFile).Calls fun c => c.outside = true := by
  cases pidFile with
  | none => trivial
  | some path =>
      refine ⟨rfl, fun (answer : Opened) => ?_⟩
      cases answer with
      | descriptor fd => trivial
      | failed => trivial
      | alreadyExists =>
          refine ⟨rfl, fun (regular : Option Bool) => ?_⟩
          simp only
          split_ifs
          · refine ⟨rfl, fun (answer : Opened) => ?_⟩
            cases answer <;> trivial
          · trivial

theorem checkScript_outside (initScript : Option CString) :
    (checkScript initScript).Calls fun c => c.outside = true := by
  cases initScript with
  | none => trivial
  | some path => exact ⟨rfl, fun _ => trivial⟩

theorem dupAll_outside (fd : Nat) (targets : List Nat) : (dupAll fd targets).Calls fun c => c.outside = true := by
  induction targets with
  | nil => trivial
  | cons target targets ih => exact Program.Calls.andThen ⟨rfl, fun _ => trivial⟩ fun _ => ih

theorem daemonize_outside : daemonize.Calls fun c => c.outside = true := by
  refine ⟨rfl, fun (answer : Option Nat) => ?_⟩
  cases answer with
  | none => trivial
  | some fd =>
      apply (dupAll_outside fd [0, 1, 2]).bind
      rintro (_ | _)
      · exact ⟨rfl, fun _ => trivial⟩
      · refine ⟨rfl, fun _ => ⟨rfl, fun (answer : Forked) => ?_⟩⟩
        cases answer with
        | failed => trivial
        | parent => trivial
        | child => exact ⟨rfl, fun _ => trivial⟩

/-! ## Whole runs -/

/-- `setgid` and `setgroups` succeed before `chroot` and `setuid` are called. -/
def GroupsFirst (trace : List Event) (gid : Nat) : Prop :=
  ∃ before after, trace = before ++ after ∧ ⟨.setgid gid, true⟩ ∈ before ∧ ⟨.setgroups, true⟩ ∈ before ∧
    ∀ e ∈ before, e.1.endsRoot = false

theorem GroupsFirst.surround {trace : List Event} {gid : Nat} (first : GroupsFirst trace gid) {front back : List Event}
    (quiet : ∀ e ∈ front, e.1.endsRoot = false) : GroupsFirst (front ++ (trace ++ back)) gid := by
  obtain ⟨before, after, rfl, setgid, setgroups, early⟩ := first
  refine ⟨front ++ before, after ++ back, by simp, List.mem_append_right _ setgid, List.mem_append_right _ setgroups, ?_⟩
  intro e member
  rcases List.mem_append.1 member with member | member
  · exact quiet e member
  · exact early e member

theorem not_socket_of_privileged {c : Syscall} (privileged : c.privileged = true) (family : Family) :
    c ≠ .socket family := by
  rintro rfl
  cases privileged

/-- A run of `bind_socket` with this descriptor is a part of the trace, and no other part opens a socket. -/
structure Binds (env : Env) (s : Settings) (uid gid : Nat) (trace before bound after : List Event) (fd : Nat) :
    Prop where
  whole : trace = before ++ (bound ++ after)
  runs : (bindFor env s uid gid).Runs bound (some fd)
  once : ∀ e ∈ before ++ after, ∀ family, e.1 ≠ .socket family

structure RootDone (env : Env) (s : Settings) (identity sock : Identity) (trace : List Event) (fd : Nat) : Prop where
  calls : ∀ e ∈ trace, ¬ Failed e
  user : identity.uid ≠ 0 → ⟨.setuid identity.uid, true⟩ ∈ trace
  groups : identity.gid ≠ 0 → GroupsFirst trace identity.gid
  socket : ∃ before bound after,
    Binds env s (orElseId sock.uid identity.uid) (orElseId sock.gid identity.gid) trace before bound after fd

section Run
variable {env : Env} {s : Settings} {trace : List Event} {fd : Nat}

theorem runs_rootSetUp {identity sock : Identity} (runs : (rootSetUp env s identity sock).Runs trace (some fd)) :
    RootDone env s identity sock trace fd := by
  obtain ⟨early, bound, rest, rfl, binding, grouping⟩ := Program.runs_andThen.1 runs
  obtain ⟨groups, _, rest, rfl, setting, rooting⟩ := Program.runs_andThen.1 grouping
  obtain ⟨root, _, rest, rfl, changing, listening⟩ := Program.runs_andThen.1 rooting
  obtain ⟨late, fd', rest, rfl, listens, dropping⟩ := Program.runs_andThen.1 listening
  obtain ⟨user, _, rest, rfl, drops, ending⟩ := Program.runs_andThen.1 dropping
  obtain ⟨rfl, same⟩ := Program.runs_done.1 ending
  obtain rfl := Option.some.inj same
  -- What is done for the socket touches no privilege.
  have earlyQuiet : ∀ e ∈ early, e.1.privileged = false := by
    intro e member
    split_ifs at binding
    · obtain ⟨bound, fd', kept, rfl, binds, keeps⟩ := Program.runs_andThen.1 binding
      obtain ⟨rfl, -⟩ := Program.runs_done.1 keeps
      rw [List.append_nil] at member
      exact (bindFor_quiet ..).of_runs binds e member
    · obtain ⟨rfl, -⟩ := Program.runs_done.1 binding
      cases member
  have lateQuiet : ∀ e ∈ late, e.1.privileged = false := by
    intro e member
    cases bound with
    | some fd =>
        obtain ⟨rfl, -⟩ := Program.runs_done.1 listens
        cases member
    | none => exact (bindFor_quiet ..).of_runs listens e member
  obtain ⟨groupCalls, groupsSet⟩ := runs_setGroups setting
  obtain ⟨userCalls, userSet⟩ := runs_dropRoot drops
  have others : ∀ e, e ∈ groups ∨ e ∈ root ∨ e ∈ user → e.1.privileged = true := by
    rintro e (member | member | member)
    · exact (groupCalls e member).2.1
    · exact (runs_changeRoot changing e member).2
    · exact (userCalls e member).2
  refine ⟨?_, ?_, ?_, ?_⟩
  · intro e member
    simp only [List.mem_append, List.append_nil] at member
    rcases member with member | member | member | member | member
    · exact not_failed_of_quiet (earlyQuiet e member)
    · exact (groupCalls e member).1
    · exact (runs_changeRoot changing e member).1
    · exact not_failed_of_quiet (lateQuiet e member)
    · exact (userCalls e member).1
  · intro positive
    simp [userSet positive]
  · intro positive
    obtain ⟨setgid, setgroups⟩ := groupsSet positive
    refine ⟨early ++ groups, root ++ (late ++ (user ++ [])), by simp, by simp [setgid], by simp [setgroups], ?_⟩
    intro e member
    rcases List.mem_append.1 member with member | member
    · exact endsRoot_of_quiet (earlyQuiet e member)
    · exact (groupCalls e member).2.2
  · -- The socket is bound before the groups are set or behind the change of root, never at both places.
    cases bound with
    | some fd =>
        obtain ⟨rfl, same⟩ := Program.runs_done.1 listens
        obtain rfl := Option.some.inj same
        split_ifs at binding
        · obtain ⟨bound, fd'', rest, rfl, binds, kept⟩ := Program.runs_andThen.1 binding
          obtain ⟨rfl, same⟩ := Program.runs_done.1 kept
          obtain rfl := Option.some.inj (Option.some.inj same)
          refine ⟨[], bound, groups ++ (root ++ ([] ++ (user ++ []))), by simp, binds, ?_⟩
          intro e member
          simp only [List.nil_append, List.append_nil, List.mem_append] at member
          exact not_socket_of_privileged (others e member)
        · obtain ⟨-, none⟩ := Program.runs_done.1 binding
          simp at none
    | none =>
        split_ifs at binding
        · obtain ⟨_, _, _, -, -, keeps⟩ := Program.runs_andThen.1 binding
          obtain ⟨-, same⟩ := Program.runs_done.1 keeps
          simp at same
        · obtain ⟨rfl, -⟩ := Program.runs_done.1 binding
          refine ⟨groups ++ root, late, user ++ [], by simp, listens, ?_⟩
          intro e member
          simp only [List.append_nil, List.mem_append, or_assoc] at member
          exact not_socket_of_privileged (others e member)

structure Surrounds (trace front set back : List Event) : Prop where
  whole : trace = front ++ (set ++ back)
  front : ∀ e ∈ front, e.1.outside = true
  back : ∀ e ∈ back, ¬ Failed e ∧ (e.1.outside = true ∨ ∃ path, e.1 = .chdir path)

theorem runs_prepare {pidFd : Option Nat} (runs : (prepare env s).Runs trace (some (pidFd, fd))) :
    ∃ front set back, Surrounds trace front set back ∧ (setUp env s).Runs set (some fd) := by
  obtain ⟨front, pidFd', rest, rfl, opening, next⟩ := Program.runs_andThen.1 runs
  obtain ⟨set, fd', rest, rfl, setting, next⟩ := Program.runs_andThen.1 next
  obtain ⟨dir, _, rest, rfl, changing, next⟩ := Program.runs_andThen.1 next
  obtain ⟨script, _, rest, rfl, checking, ending⟩ := Program.runs_andThen.1 next
  obtain ⟨rfl, same⟩ := Program.runs_done.1 ending
  obtain ⟨rfl, rfl⟩ := Prod.mk.inj (Option.some.inj same)
  refine ⟨front, set, dir ++ (script ++ []), ⟨rfl, (openPidFile_outside _).of_runs opening, ?_⟩, setting⟩
  intro e member
  rw [List.append_nil] at member
  rcases List.mem_append.1 member with member | member
  · exact ⟨runs_changeDir changing e member, .inr (changeDir_calls.of_runs changing e member)⟩
  · have outside := (checkScript_outside _).of_runs checking e member
    exact ⟨not_failed_of_quiet (quiet_of_outside outside), .inl outside⟩

def Ending.After (s : Settings) (fd : Nat) : Ending → Prop
  | .returned _ => False
  | .exited => True
  | .spawns fcgiFd _ settings => fcgiFd = fd ∧ settings = s

theorem runs_launch {ending : Ending} (runs : (launch env s).Runs trace ending)
    (goesOn : ∀ code, ending ≠ .returned code) :
    ∃ front set back fd, Surrounds trace front set back ∧ (setUp env s).Runs set (some fd) ∧ ending.After s fd := by
  obtain ⟨before, result, after, rfl, preparing, going⟩ := Program.runs_bind.1 runs
  rcases result with _ | ⟨pidFd, fd⟩
  · obtain ⟨-, rfl⟩ := Program.runs_done.1 going
    exact absurd rfl (goesOn _)
  obtain ⟨front, set, back, surrounds, setting⟩ := runs_prepare preparing
  have arrived : ending.After s fd ∧ ∀ e ∈ after, e.1.outside = true := by
    simp only at going
    split_ifs at going
    · obtain ⟨calls, daemonized, last, rfl, daemonizing, going⟩ := Program.runs_bind.1 going
      have outside := daemonize_outside.of_runs daemonizing
      cases daemonized with
      | failed =>
          obtain ⟨-, rfl⟩ := Program.runs_done.1 going
          exact absurd rfl (goesOn _)
      | parent =>
          obtain ⟨rfl, rfl⟩ := Program.runs_done.1 going
          rw [List.append_nil]
          exact ⟨trivial, outside⟩
      | daemon =>
          obtain ⟨rfl, rfl⟩ := Program.runs_done.1 going
          rw [List.append_nil]
          exact ⟨⟨rfl, rfl⟩, outside⟩
    · obtain ⟨rfl, rfl⟩ := Program.runs_done.1 going
      exact ⟨⟨rfl, rfl⟩, by simp⟩
  obtain ⟨ends, outside⟩ := arrived
  refine ⟨front, set, back ++ after, fd, ⟨?_, surrounds.front, ?_⟩, setting, ends⟩
  · simp [surrounds.whole]
  · intro e member
    rcases List.mem_append.1 member with member | member
    · exact surrounds.back e member
    · exact ⟨not_failed_of_quiet (quiet_of_outside (outside e member)), .inl (outside e member)⟩

theorem runs_main {argc : Nat} {opts : List Opt} {ending : Ending} (runs : (main env argc opts).Runs trace ending)
    (goesOn : ∀ code, ending ≠ .returned code) :
    ∃ s front set back fd, parseOptions env opts = .ok s ∧ Surrounds trace front set back ∧
      (setUp env s).Runs set (some fd) ∧ ending.After s fd := by
  have stops : ∀ code, ¬ (Program.done (Ending.returned code) : Launch Ending).Runs trace ending := by
    intro code returns
    obtain ⟨-, rfl⟩ := Program.runs_done.1 returns
    exact goesOn code rfl
  rw [main] at runs
  split_ifs at runs with few
  · exact absurd runs (stops _)
  cases parsing : parseOptions env opts with
  | error code =>
      rw [parsing] at runs
      exact absurd runs (stops _)
  | ok s =>
      simp only [parsing] at runs
      split_ifs at runs with accepted
      · obtain ⟨front, set, back, fd, surrounds, setting, ends⟩ := runs_launch runs goesOn
        exact ⟨s, front, set, back, fd, rfl, surrounds, setting, ends⟩
      · exact absurd runs (stops _)

theorem Surrounds.extend {front set back before bound after : List Event} {uid gid : Nat}
    (surrounds : Surrounds trace front set back) (binds : Binds env s uid gid set before bound after fd) :
    Binds env s uid gid trace (front ++ before) bound (after ++ back) fd := by
  refine ⟨by simp [surrounds.whole, binds.whole], binds.runs, ?_⟩
  intro e member family same
  simp only [List.mem_append, or_assoc] at member
  rcases member with member | member | member | member
  · have outside := surrounds.front e member
    simp [same, Syscall.outside] at outside
  · exact binds.once e (List.mem_append_left _ member) family same
  · exact binds.once e (List.mem_append_right _ member) family same
  · have outside := (surrounds.back e member).2
    simp [same, Syscall.outside] at outside

theorem runs_setUp (runs : (setUp env s).Runs trace (some fd)) (root : env.iAmRoot = true) :
    ∃ identity sock, findUserGroup env.db s.username s.groupname = some identity ∧
      findUserGroup env.db s.sockusername s.sockgroupname = some sock ∧ RootDone env s identity sock trace fd := by
  rw [setUp, if_pos root] at runs
  split at runs
  case h_1 identity sock found sockFound =>
      obtain ⟨calls, user, groups, socket⟩ := runs_rootSetUp runs
      exact ⟨identity, sock, found, sockFound, calls, user, groups, socket⟩
  case h_2 => cases runs

end Run

/-! ## What root gives up -/

/-- The user of root is given up, and the groups where there is something to take a group from. -/
structure PrivilegesDropped (env : Env) (opts : List Opt) (trace : List Event) : Prop where
  user : ∃ uid, uid ≠ 0 ∧ ⟨.setuid uid, true⟩ ∈ trace
  groups : (∃ group, .g group ∈ opts) ∨ (∃ user, lastGiven Opt.user opts = some user ∧ HasEntry env.db user) →
    ∃ gid, gid ≠ 0 ∧ GroupsFirst trace gid

structure NothingFailed (env : Env) (s : Settings) (trace : List Event) (fd : Nat) : Prop where
  users : env.iAmRoot = true → (findUserGroup env.db s.username s.groupname).isSome = true ∧
    (findUserGroup env.db s.sockusername s.sockgroupname).isSome = true
  calls : ∀ e ∈ trace, ¬ Failed e
  socket : ∃ uid gid before bound after, Binds env s uid gid trace before bound after fd

section Main
variable {env : Env} {opts : List Opt} {s : Settings} {identity sock : Identity} {trace front set back : List Event}
  {fd : Nat}

theorem given_user : (∃ user, .u user ∈ opts) ↔ ∃ user, lastGiven Opt.user opts = some user := by
  rw [← Option.isSome_iff_exists, lastGiven_isSome_iff]
  constructor
  · rintro ⟨user, member⟩
    exact ⟨.u user, member, rfl⟩
  · rintro ⟨o, member, selected⟩
    cases o with
    | u user => exact ⟨user, member⟩
    | _ => cases selected

theorem given_group : (∃ group, .g group ∈ opts) ↔ ∃ group, lastGiven Opt.group opts = some group := by
  rw [← Option.isSome_iff_exists, lastGiven_isSome_iff]
  constructor
  · rintro ⟨group, member⟩
    exact ⟨.g group, member, rfl⟩
  · rintro ⟨o, member, selected⟩
    cases o with
    | g group => exact ⟨group, member⟩
    | _ => cases selected

theorem RootDone.dropped (done : RootDone env s identity sock set fd) (surrounds : Surrounds trace front set back)
    (root : env.iAmRoot = true) (parsed : parseOptions env opts = .ok s)
    (found : findUserGroup env.db s.username s.groupname = some identity) (given : ∃ user, .u user ∈ opts) :
    PrivilegesDropped env opts trace := by
  obtain ⟨username, groupname, -, -⟩ := parse_identities root parsed
  obtain ⟨user, last⟩ := given_user.1 given
  rw [username, last] at found
  obtain ⟨uid, gid⟩ := findUserGroup_user found
  constructor
  · refine ⟨identity.uid, uid, ?_⟩
    rw [surrounds.whole]
    simp [done.user uid]
  · intro source
    have positive : identity.gid ≠ 0 := by
      apply gid
      rcases source with given | ⟨other, same, entry⟩
      · obtain ⟨group, last⟩ := given_group.1 given
        exact .inl (by simp [groupname, last])
      · obtain rfl := Option.some.inj (last.symm.trans same)
        exact .inr entry
    refine ⟨identity.gid, positive, ?_⟩
    rw [surrounds.whole]
    exact (done.groups positive).surround fun e member =>
      endsRoot_of_quiet (quiet_of_outside (surrounds.front e member))

theorem Surrounds.notFailed (surrounds : Surrounds trace front set back) (calls : ∀ e ∈ set, ¬ Failed e) :
    ∀ e ∈ trace, ¬ Failed e := by
  intro e member
  rw [surrounds.whole, List.mem_append, List.mem_append] at member
  rcases member with member | member | member
  · exact not_failed_of_quiet (quiet_of_outside (surrounds.front e member))
  · exact calls e member
  · exact (surrounds.back e member).1

/-- Whoever comes to `fcgi_spawn_connection` with `-u` as root has given root up, and nothing has failed. -/
theorem main_drops_privileges (env : Env) (argc : Nat) (opts : List Opt) (trace : List Event) (fd : Nat)
    (pidFd : Option Nat) (s : Settings) (runs : (main env argc opts).Runs trace (.spawns fd pidFd s)) :
    (env.iAmRoot = true → (∃ user, .u user ∈ opts) → PrivilegesDropped env opts trace) ∧
      NothingFailed env s trace fd := by
  obtain ⟨s, front, set, back, fd, parsed, surrounds, setting, rfl, rfl⟩ := runs_main runs (by simp)
  by_cases root : env.iAmRoot = true
  · obtain ⟨identity, sock, found, sockFound, done⟩ := runs_setUp setting root
    obtain ⟨before, bound, after, binds⟩ := done.socket
    refine ⟨fun _ => done.dropped surrounds root parsed found, ?_⟩
    exact ⟨fun _ => by simp [found, sockFound], surrounds.notFailed done.calls, _, _, _, _, _, surrounds.extend binds⟩
  · rw [setUp, if_neg root] at setting
    have quiet : ∀ e ∈ set, ¬ Failed e := fun e member =>
      not_failed_of_quiet ((bindFor_quiet ..).of_runs setting e member)
    have binds : Binds env s 0 0 set [] set [] fd := ⟨by simp, setting, by simp⟩
    refine ⟨fun root' => absurd root' root, ?_⟩
    exact ⟨fun root' => absurd root' root, surrounds.notFailed quiet, _, _, _, _, _, surrounds.extend binds⟩

end Main

def wwwData : Databases :=
  ⟨fun _ => none, fun _ => some ⟨.lit "www-data", 33, 33⟩, fun _ => none, fun _ name => name⟩

def rootStart : Env := ⟨true, false, 18, wwwData, plainInet⟩

def rootOptions : List Opt := [.A (.lit "app"), .p (.lit "9000"), .u (.lit "33")]

def rootTrace : List Event :=
  [⟨.setgid 33, true⟩, ⟨.setgroups, true⟩, ⟨.initgroups (.lit "www-data") 33, true⟩, ⟨.socket .inet, some 3⟩,
    ⟨.setReuseAddr 3, true⟩, ⟨.bind 3 (.inet 0 9000), true⟩, ⟨.listen 3 1024, true⟩, ⟨.setuid 33, true⟩]

def rootSettings : Settings :=
  { Settings.default 18 with hvmlApp := some (.lit "app"), port := 9000, username := some (.lit "33") }

theorem rootStart_main : main rootStart 7 rootOptions = launch rootStart rootSettings := by
  have port : strtol (.lit "9000") 10 = (9000, []) := by decide +kernel
  have parsed : parseOptions rootStart rootOptions = .ok rootSettings := by
    simp [parseOptions, rootOptions, parseOption, rootStart, port, toUnsigned, rootSettings, bind, Except.bind, pure,
      Except.pure]
  rw [main, parsed]
  rfl

theorem rootStart_setUp : setUp rootStart rootSettings =
    rootSetUp rootStart rootSettings ⟨33, 33, some (.lit "www-data")⟩ ⟨0, 0, none⟩ := by
  have numeric : ¬ byName (.lit "33") := by decide +kernel
  have id : numericId (.lit "33") = 33 := by decide +kernel
  simp [setUp, rootStart, rootSettings, Settings.default, findUserGroup, findUser, findGroup, numeric, id, wwwData,
    Identity.behind]

theorem rootStart_runs : (main rootStart 7 rootOptions).Runs rootTrace (.spawns 3 none rootSettings) := by
  have sets : (setUp rootStart rootSettings).Runs rootTrace (some 3) := by
    rw [rootStart_setUp]
    exact .call _ (.call _ (.call _ (.call _ (.call _ (.call _ (.call _ (.call _ (.done _))))))))
  rw [rootStart_main]
  refine Program.runs_bind.2 ⟨rootTrace, some (none, 3), [], by simp, ?_, .done _⟩
  refine Program.runs_andThen.2 ⟨[], none, rootTrace, rfl, .done _, ?_⟩
  exact Program.runs_andThen.2 ⟨rootTrace, 3, [], by simp, sets, .done _⟩

theorem rootStart_dropped :
    PrivilegesDropped rootStart rootOptions rootTrace ∧ NothingFailed rootStart rootSettings rootTrace 3 := by
  obtain ⟨dropped, nothing⟩ :=
    main_drops_privileges rootStart 7 rootOptions rootTrace 3 none rootSettings rootStart_runs
  exact ⟨dropped rfl ⟨.lit "33", by simp [rootOptions]⟩, nothing⟩

end HvmlFpm.Launcher
