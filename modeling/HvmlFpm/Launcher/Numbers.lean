import HvmlFpm.Launcher.Privileges

/-!
# Numbers on the command line

The ports and the ids that `-p`, `-u`, `-g`, `-U` and `-G` give as numbers, up to the calls that apply them.
-/

namespace HvmlFpm.Launcher
open Library

def SockAddr.port : SockAddr → Option Nat
  | .un _ => none
  | .inet _ port => some port
  | .inet6 _ port => some port

def Syscall.Applies (s : Settings) (identity sock : Identity) : Syscall → Prop
  | .bind _ addr => ∀ port, addr.port = some port → port = s.port
  | .setuid uid => uid = identity.uid
  | .setgid gid => gid = identity.gid
  | .chown path uid gid => s.unixsocket = some path ∧
      uid = chownArgument (orElseId sock.uid identity.uid) ∧ gid = chownArgument (orElseId sock.gid identity.gid)
  | _ => True

theorem Syscall.applies_behind (s : Settings) (identity sock : Identity) (db : Databases) (user sockuser : Option CString) :
    Syscall.Applies s (identity.behind db user sockuser) sock = Syscall.Applies s identity sock := by
  funext c
  cases c <;> rfl

theorem requestedAddress_port {inet : Inet} {addr : Option CString} {port : Nat} {unixsocket : Option CString}
    {sockaddr : SockAddr} (found : requestedAddress inet addr port unixsocket = some sockaddr) :
    ∀ p, sockaddr.port = some p → p = port := by
  intro p given
  unfold requestedAddress inetAddress at found
  split at found
  · obtain rfl := Option.some.inj found
    cases given
  · split at found
    · obtain rfl := Option.some.inj found
      exact (Option.some.inj given).symm
    · split_ifs at found
      · split at found
        · obtain rfl := Option.some.inj found
          exact (Option.some.inj given).symm
        · obtain ⟨a, -, rfl⟩ := Option.map_eq_some_iff.1 found
          exact (Option.some.inj given).symm
      · split at found
        · obtain rfl := Option.some.inj found
          exact (Option.some.inj given).symm
        · cases found
      · obtain rfl := Option.some.inj found
        exact (Option.some.inj given).symm

section Calls
variable {env : Env} {s : Settings} {identity sock : Identity}

theorem bindFor_applies : (bindFor env s (orElseId sock.uid identity.uid) (orElseId sock.gid identity.gid)).Calls
    (Syscall.Applies s identity sock) := by
  apply (bindSocket_calls ..).mono
  intro c calls
  rcases calls with onSocket | ⟨fd, addr, rfl⟩
  · cases c with
    | bind fd addr => exact requestedAddress_port onSocket
    | chown path uid gid => exact onSocket
    | setuid uid => exact onSocket.elim
    | setgid gid => exact onSocket.elim
    | _ => trivial
  · trivial

theorem orReturn_calls {P : Syscall → Prop} {c : Syscall} {answer : Answer c → Bool} (holds : P c) :
    (orReturn c answer).Calls P :=
  ⟨holds, fun _ => trivial⟩

theorem setGroups_applies : (setGroups identity).Calls (Syscall.Applies s identity sock) := by
  unfold setGroups
  split_ifs
  · apply Program.Calls.andThen
    · exact orReturn_calls rfl
    intro _
    apply Program.Calls.andThen
    · exact orReturn_calls trivial
    intro _
    cases identity.username with
    | some username => exact orReturn_calls trivial
    | none => trivial
  · trivial

theorem changeRoot_applies (changeroot : Option CString) :
    (changeRoot changeroot).Calls (Syscall.Applies s identity sock) := by
  cases changeroot with
  | some path => exact (orReturn_calls trivial).andThen fun _ => orReturn_calls trivial
  | none => trivial

theorem dropRoot_applies : (dropRoot identity.uid).Calls (Syscall.Applies s identity sock) := by
  unfold dropRoot
  split_ifs
  · exact orReturn_calls rfl
  · trivial

theorem rootSetUp_applies : (rootSetUp env s identity sock).Calls (Syscall.Applies s identity sock) := by
  apply Program.Calls.andThen
  · split_ifs
    · exact bindFor_applies.andThen fun _ => trivial
    · trivial
  intro bound
  apply setGroups_applies.andThen
  intro _
  apply (changeRoot_applies s.changeroot).andThen
  intro _
  apply Program.Calls.andThen
  · cases bound with
    | some fd => trivial
    | none => exact bindFor_applies
  intro fd
  exact dropRoot_applies.andThen fun _ => trivial

theorem applies_of_outside {c : Syscall} (outside : c.outside = true ∨ ∃ path, c = .chdir path) :
    c.Applies s identity sock := by
  rcases outside with outside | ⟨path, rfl⟩
  · cases c <;> trivial
  · trivial

end Calls

/-! ## Which calls a run has made -/

section Owner
variable {path : CString} {uid gid mode : Nat} {backlog : Int} {trace : List Event} {fd fd' : Nat}

theorem not_runs_closeAndUnlink (unixsocket : Option CString) : ¬ (closeAndUnlink fd unixsocket).Runs trace (some fd') := by
  intro runs
  cases unixsocket with
  | none =>
      obtain ⟨_, _, -, rest⟩ := Program.runs_call.1 runs
      cases rest
  | some path =>
      obtain ⟨_, _, -, rest⟩ := Program.runs_call.1 runs
      obtain ⟨_, _, -, rest⟩ := Program.runs_call.1 rest
      cases rest

theorem runs_setPermissions (runs : (setPermissions fd path uid gid mode backlog).Runs trace (some fd'))
    (owned : uid ≠ 0 ∨ gid ≠ 0) : ⟨.chown path (chownArgument uid) (chownArgument gid), true⟩ ∈ trace := by
  obtain ⟨(ok : Bool), after, rfl, moded⟩ := Program.runs_call.1 runs
  cases ok with
  | false => exact (not_runs_closeAndUnlink (some path) moded).elim
  | true =>
      simp only [if_true, if_pos owned] at moded
      obtain ⟨(ok : Bool), later, rfl, chowned⟩ := Program.runs_call.1 moded
      cases ok with
      | false => exact (not_runs_closeAndUnlink (some path) chowned).elim
      | true => simp

theorem runs_openSocket {sockaddr : SockAddr}
    (runs : (openSocket sockaddr (some path) uid gid mode backlog).Runs trace (some fd')) (owned : uid ≠ 0 ∨ gid ≠ 0) :
    ⟨.chown path (chownArgument uid) (chownArgument gid), true⟩ ∈ trace := by
  obtain ⟨(answer : Option Nat), after, rfl, opened⟩ := Program.runs_call.1 runs
  cases answer with
  | none => cases opened
  | some fd =>
      obtain ⟨(ok : Bool), later, rfl, reused⟩ := Program.runs_call.1 opened
      cases ok with
      | false => exact (not_runs_closeAndUnlink none reused).elim
      | true =>
          obtain ⟨(ok : Bool), last, rfl, bound⟩ := Program.runs_call.1 reused
          cases ok with
          | false => exact (not_runs_closeAndUnlink none bound).elim
          | true =>
              have owns := runs_setPermissions bound owned
              simp [owns]

theorem runs_bindFor_unix {env : Env} {s : Settings} (unix : s.unixsocket = some path)
    (runs : (bindFor env s uid gid).Runs trace (some fd')) (owned : uid ≠ 0 ∨ gid ≠ 0) :
    ⟨.chown path (chownArgument uid) (chownArgument gid), true⟩ ∈ trace := by
  rw [bindFor, unix] at runs
  obtain ⟨before, sockaddr, after, rfl, -, opens⟩ := Program.runs_andThen.1 runs
  exact List.mem_append_right _ (runs_openSocket opens owned)

end Owner

structure Started (env : Env) (opts : List Opt) (trace : List Event) (s : Settings) (identity sock : Identity) :
    Prop where
  parsed : parseOptions env opts = .ok s
  found : env.iAmRoot = true → findUserGroup env.db s.username s.groupname = some identity
  sockFound : env.iAmRoot = true → findUserGroup env.db s.sockusername s.sockgroupname = some sock
  applies : ∀ e ∈ trace, e.1.Applies s identity sock
  user : identity.uid ≠ 0 → ⟨.setuid identity.uid, true⟩ ∈ trace
  group : identity.gid ≠ 0 → ⟨.setgid identity.gid, true⟩ ∈ trace
  owner : env.iAmRoot = true → ∀ path, s.unixsocket = some path →
    orElseId sock.uid identity.uid ≠ 0 ∨ orElseId sock.gid identity.gid ≠ 0 →
    ⟨.chown path (chownArgument (orElseId sock.uid identity.uid)) (chownArgument (orElseId sock.gid identity.gid)), true⟩ ∈
      trace

theorem GroupsFirst.setgid {trace : List Event} {gid : Nat} (first : GroupsFirst trace gid) :
    ⟨.setgid gid, true⟩ ∈ trace := by
  obtain ⟨before, after, rfl, setgid, -⟩ := first
  exact List.mem_append_left _ setgid

section Run
variable {env : Env} {opts : List Opt} {trace front set back : List Event} {s : Settings} {identity sock : Identity}
  {fd : Nat}

theorem Surrounds.mem (surrounds : Surrounds trace front set back) {e : Event} (member : e ∈ set) : e ∈ trace := by
  rw [surrounds.whole]
  exact List.mem_append_right _ (List.mem_append_left _ member)

theorem Surrounds.applies (surrounds : Surrounds trace front set back)
    (calls : ∀ e ∈ set, e.1.Applies s identity sock) : ∀ e ∈ trace, e.1.Applies s identity sock := by
  intro e member
  rw [surrounds.whole, List.mem_append, List.mem_append] at member
  rcases member with member | member | member
  · exact applies_of_outside (.inl (surrounds.front e member))
  · exact calls e member
  · exact applies_of_outside (surrounds.back e member).2

theorem RootDone.owner (done : RootDone env s identity sock trace fd) {path : CString}
    (unix : s.unixsocket = some path)
    (owned : orElseId sock.uid identity.uid ≠ 0 ∨ orElseId sock.gid identity.gid ≠ 0) :
    ⟨.chown path (chownArgument (orElseId sock.uid identity.uid)) (chownArgument (orElseId sock.gid identity.gid)), true⟩ ∈
      trace := by
  obtain ⟨before, bound, after, binds⟩ := done.socket
  rw [binds.whole]
  exact List.mem_append_right _ (List.mem_append_left _ (runs_bindFor_unix unix binds.runs owned))

theorem runs_started {argc : Nat} {ending : Ending} (runs : (main env argc opts).Runs trace ending)
    (goesOn : ∀ code, ending ≠ .returned code) : ∃ s identity sock, Started env opts trace s identity sock := by
  obtain ⟨s, front, set, back, fd, parsed, surrounds, setting, -⟩ := runs_main runs goesOn
  by_cases root : env.iAmRoot = true
  · obtain ⟨identity, sock, found, sockFound, done⟩ := runs_setUp setting root
    have calls : ∀ e ∈ set, e.1.Applies s identity sock := by
      rw [setUp, if_pos root, found, sockFound] at setting
      change (rootSetUp env s (identity.behind env.db s.username s.sockusername) sock).Runs set (some fd) at setting
      have calls := rootSetUp_applies.of_runs setting
      rwa [Syscall.applies_behind] at calls
    refine ⟨s, identity, sock, parsed, fun _ => found, fun _ => sockFound, surrounds.applies calls, ?_, ?_, ?_⟩
    · exact fun positive => surrounds.mem (done.user positive)
    · exact fun positive => surrounds.mem (done.groups positive).setgid
    · exact fun _ path unix owned => surrounds.mem (done.owner unix owned)
  · -- Without root the ids of the options are never looked up.
    have calls : ∀ e ∈ set, e.1.Applies s ⟨0, 0, none⟩ ⟨0, 0, none⟩ := by
      rw [setUp, if_neg root] at setting
      have applies : (bindFor env s 0 0).Calls (Syscall.Applies s ⟨0, 0, none⟩ ⟨0, 0, none⟩) := bindFor_applies
      exact applies.of_runs setting
    refine ⟨s, ⟨0, 0, none⟩, ⟨0, 0, none⟩, parsed, ?_, ?_, surrounds.applies calls, ?_, ?_, ?_⟩
    · exact fun root' => absurd root' root
    · exact fun root' => absurd root' root
    · exact fun positive => absurd rfl positive
    · exact fun positive => absurd rfl positive
    · exact fun root' => absurd root' root

end Run

/-! ## Is a number kept? -/

def Opt.unixsocket : Opt → Option CString
  | .s unixsocket => some unixsocket
  | _ => none

def PortNumber (opts : List Opt) (v : Int) : Prop :=
  ∃ text, lastGiven Opt.portText opts = some text ∧ DenotesInt 10 text v

def IdNumber (select : Opt → Option CString) (opts : List Opt) (v : Int) : Prop :=
  ∃ text, lastGiven select opts = some text ∧ ¬ byName text ∧ DenotesInt 10 text v

/-- The group of the socket file is left to `-g`: there is no `-G`, and no entry for the user of a `-U`. -/
def GroupLeft (env : Env) (opts : List Opt) : Prop :=
  lastGiven Opt.sockGroup opts = none ∧ ∀ user, lastGiven Opt.sockUser opts = some user → ¬ HasEntry env.db user

def OwnedBy (trace : List Event) (v : Int) : Prop :=
  ∀ e ∈ trace, ∀ path uid gid, e.1 = .chown path uid gid → ∃ id, changedId uid = some id ∧ (id : Int) = v

def GroupOwnedBy (trace : List Event) (v : Int) : Prop :=
  ∀ e ∈ trace, ∀ path uid gid, e.1 = .chown path uid gid → ∃ id, changedId gid = some id ∧ (id : Int) = v

/-- Whatever is given as a number is what is accepted, bound to and applied. -/
structure KeepsNumbers (env : Env) (opts : List Opt) (trace : List Event) : Prop where
  port : ∀ v, PortNumber opts v → (∀ s, parseOptions env opts = .ok s → (s.port : Int) = v) ∧
    ∀ e ∈ trace, ∀ fd addr port, e.1 = .bind fd addr → addr.port = some port → (port : Int) = v
  user : env.iAmRoot = true → ∀ v, IdNumber Opt.user opts v →
    (∀ e ∈ trace, ∀ uid, e.1 = .setuid uid → (uid : Int) = v) ∧
      (lastGiven Opt.sockUser opts = none → OwnedBy trace v)
  group : env.iAmRoot = true → ∀ v, IdNumber Opt.group opts v →
    (∀ e ∈ trace, ∀ gid, e.1 = .setgid gid → (gid : Int) = v) ∧ (GroupLeft env opts → GroupOwnedBy trace v)
  sockUser : env.iAmRoot = true → ∀ v, IdNumber Opt.sockUser opts v →
    (∀ s sock, parseOptions env opts = .ok s → findUserGroup env.db s.sockusername s.sockgroupname = some sock →
      (sock.uid : Int) = v) ∧ OwnedBy trace v
  sockGroup : env.iAmRoot = true → ∀ v, IdNumber Opt.sockGroup opts v →
    (∀ s sock, parseOptions env opts = .ok s → findUserGroup env.db s.sockusername s.sockgroupname = some sock →
      (sock.gid : Int) = v) ∧ GroupOwnedBy trace v

/-- An `unsigned short`, ids of 32 bits, and none that makes `chown` leave the owner as it is. -/
structure NumbersInRange (env : Env) (opts : List Opt) : Prop where
  port : ∀ v, PortNumber opts v → 0 ≤ v ∧ v < 2 ^ 16
  ids : env.iAmRoot = true → ∀ select ∈ [Opt.user, Opt.group, Opt.sockUser, Opt.sockGroup],
    ∀ v, IdNumber select opts v → 0 ≤ v ∧ v < 2 ^ 32
  owner : env.iAmRoot = true → (∃ path, .s path ∈ opts) → ∀ select ∈ [Opt.sockUser, Opt.sockGroup],
    ¬ IdNumber select opts noId
  leftOwner : env.iAmRoot = true → (∃ path, .s path ∈ opts) →
    (lastGiven Opt.sockUser opts = none → ¬ IdNumber Opt.user opts noId) ∧
      (GroupLeft env opts → ¬ IdNumber Opt.group opts noId)

section Parse
variable {env : Env} {opts : List Opt} {s : Settings}

theorem parseOption_port {root : Bool} {s s' : Settings} {o : Opt} (step : parseOption root s o = .ok s') :
    s'.port = (Opt.portText o).elim s.port (fun text => toUnsigned 16 (strtol text 10).1) ∧
      s'.unixsocket = (Opt.unixsocket o).elim s.unixsocket some := by
  cases o with
  | p port =>
      rw [parseOption] at step
      split_ifs at step
      obtain rfl := Except.ok.inj step
      exact ⟨rfl, rfl⟩
  | v => cases step
  | h => cases step
  | other => cases step
  | _ =>
      obtain rfl := Except.ok.inj step
      cases root <;> exact ⟨rfl, rfl⟩

theorem parse_port (parsed : parseOptions env opts = .ok s) {text : CString}
    (last : lastGiven Opt.portText opts = some text) : s.port = toUnsigned 16 (strtol text 10).1 := by
  have port := parse_last Opt.portText Settings.port _ (fun s o s' step => (parseOption_port step).1) parsed
  rw [port, last]
  rfl

theorem parse_unixsocket (parsed : parseOptions env opts = .ok s) : s.unixsocket = lastGiven Opt.unixsocket opts :=
  parse_given Opt.unixsocket Settings.unixsocket (fun _ _ _ step => (parseOption_port step).2) rfl parsed

theorem given_unixsocket : (∃ path, .s path ∈ opts) ↔ ∃ path, lastGiven Opt.unixsocket opts = some path := by
  rw [← Option.isSome_iff_exists, lastGiven_isSome_iff]
  constructor
  · rintro ⟨path, member⟩
    exact ⟨.s path, member, rfl⟩
  · rintro ⟨o, member, selected⟩
    cases o with
    | s path => exact ⟨path, member⟩
    | _ => cases selected

end Parse

section Keeps
variable {env : Env} {opts : List Opt} {trace : List Event} {s : Settings} {identity sock : Identity} {v : Int}

def Takes (select : Opt → Option CString) (opts : List Opt) (id : Nat) : Prop :=
  ∀ text, lastGiven select opts = some text → ¬ byName text → id = numericId text

theorem Started.ids (started : Started env opts trace s identity sock) (root : env.iAmRoot = true) :
    Takes Opt.user opts identity.uid ∧ Takes Opt.group opts identity.gid ∧ Takes Opt.sockUser opts sock.uid ∧
      Takes Opt.sockGroup opts sock.gid := by
  obtain ⟨username, groupname, sockusername, sockgroupname⟩ := parse_identities root started.parsed
  have found := findUserGroup_numeric (started.found root)
  have sockFound := findUserGroup_numeric (started.sockFound root)
  rw [username, groupname] at found
  rw [sockusername, sockgroupname] at sockFound
  exact ⟨found.1, found.2, sockFound.1, sockFound.2⟩

section Takes
variable {select : Opt → Option CString} {id : Nat}

theorem Takes.eq_iff (takes : Takes select opts id) (number : IdNumber select opts v) :
    (id : Int) = v ↔ 0 ≤ v ∧ v < 2 ^ 32 := by
  obtain ⟨text, last, numeric, denotes⟩ := number
  rw [takes text last numeric, numericId, strtol_of_denotes denotes]
  exact toUnsigned32_eq_iff v

theorem Takes.ne_zero (takes : Takes select opts id) (number : IdNumber select opts v) : id ≠ 0 := by
  obtain ⟨text, last, numeric, -⟩ := number
  intro zero
  rw [takes text last numeric] at zero
  exact numeric (.inl zero.le)

end Takes

theorem Started.owners (started : Started env opts trace s identity sock) (root : env.iAmRoot = true) :
    (sock.uid ≠ 0 → orElseId sock.uid identity.uid = sock.uid) ∧
      (sock.gid ≠ 0 → orElseId sock.gid identity.gid = sock.gid) ∧
      (lastGiven Opt.sockUser opts = none → orElseId sock.uid identity.uid = identity.uid) ∧
      (GroupLeft env opts → orElseId sock.gid identity.gid = identity.gid) := by
  obtain ⟨-, -, sockusername, sockgroupname⟩ := parse_identities root started.parsed
  have absent := findUserGroup_none (started.sockFound root)
  rw [sockusername, sockgroupname] at absent
  refine ⟨fun positive => if_neg positive, fun positive => if_neg positive, ?_, ?_⟩
  · exact fun none => if_pos (absent.1 none)
  · exact fun left => if_pos (absent.2 left.1 left.2)

theorem changedId_chownArgument_of_kept {id owner : Nat} (owns : id = owner) (positive : owner ≠ 0)
    (kept : (owner : Int) = v) (changes : v ≠ noId) :
    ∃ id', changedId (chownArgument id) = some id' ∧ (id' : Int) = v := by
  subst owns
  rw [chownArgument, if_neg positive]
  refine ⟨id, if_neg ?_, kept⟩
  rintro rfl
  exact changes kept.symm

theorem not_changedId_noId {id : Nat} : ¬ ∃ id', changedId id = some id' ∧ (id' : Int) = noId := by
  rintro ⟨id', changed, same⟩
  obtain ⟨other, found⟩ := Option.ite_none_left_eq_some.1 changed
  obtain rfl := Option.some.inj found
  exact other (Int.ofNat_inj.1 same)

theorem Started.inRange (started : Started env opts trace s identity sock) (keeps : KeepsNumbers env opts trace) :
    NumbersInRange env opts := by
  refine ⟨?_, ?_, ?_, ?_⟩
  · intro v number
    have kept := (keeps.port v number).1 s started.parsed
    obtain ⟨text, last, denotes⟩ := number
    rw [parse_port started.parsed last, strtol_of_denotes denotes] at kept
    exact (toUnsigned16_eq_iff v).1 kept
  · intro root
    obtain ⟨user, group, sockUser, sockGroup⟩ := started.ids root
    simp only [List.forall_mem_cons]
    refine ⟨?_, ?_, ?_, ?_, by simp⟩
    · intro v number
      have called := started.user (user.ne_zero number)
      exact (user.eq_iff number).1 ((keeps.user root v number).1 _ called identity.uid rfl)
    · intro v number
      have called := started.group (group.ne_zero number)
      exact (group.eq_iff number).1 ((keeps.group root v number).1 _ called identity.gid rfl)
    · intro v number
      have accepted := (keeps.sockUser root v number).1 s sock started.parsed (started.sockFound root)
      exact (sockUser.eq_iff number).1 accepted
    · intro v number
      have accepted := (keeps.sockGroup root v number).1 s sock started.parsed (started.sockFound root)
      exact (sockGroup.eq_iff number).1 accepted
  all_goals
    intro root given
    obtain ⟨path, last⟩ := given_unixsocket.1 given
    have unix : s.unixsocket = some path := (parse_unixsocket started.parsed).trans last
    obtain ⟨user, group, sockUser, sockGroup⟩ := started.ids root
    obtain ⟨sockOwner, sockGroupOwner, owner, groupOwner⟩ := started.owners root
  · simp only [List.forall_mem_cons]
    refine ⟨?_, ?_, by simp⟩
    · intro number
      have positive := sockUser.ne_zero number
      have owned := started.owner root path unix (.inl (by rwa [sockOwner positive]))
      exact not_changedId_noId ((keeps.sockUser root noId number).2 _ owned _ _ _ rfl)
    · intro number
      have positive := sockGroup.ne_zero number
      have owned := started.owner root path unix (.inr (by rwa [sockGroupOwner positive]))
      exact not_changedId_noId ((keeps.sockGroup root noId number).2 _ owned _ _ _ rfl)
  · constructor
    · intro left number
      have positive := user.ne_zero number
      have owned := started.owner root path unix (.inl (by rwa [owner left]))
      exact not_changedId_noId ((keeps.user root noId number).2 left _ owned _ _ _ rfl)
    · intro left number
      have positive := group.ne_zero number
      have owned := started.owner root path unix (.inr (by rwa [groupOwner left]))
      exact not_changedId_noId ((keeps.group root noId number).2 left _ owned _ _ _ rfl)

theorem Started.ownedBy (started : Started env opts trace s identity sock) {owner : Nat}
    (owns : orElseId sock.uid identity.uid = owner) (positive : owner ≠ 0) (kept : (owner : Int) = v)
    (changes : (∃ path, .s path ∈ opts) → v ≠ noId) : OwnedBy trace v := by
  intro e member path uid gid call
  have applies := started.applies e member
  rw [call] at applies
  obtain ⟨unix, rfl, rfl⟩ := applies
  have given := given_unixsocket.2 ⟨path, (parse_unixsocket started.parsed).symm.trans unix⟩
  exact changedId_chownArgument_of_kept owns positive kept (changes given)

theorem Started.groupOwnedBy (started : Started env opts trace s identity sock) {owner : Nat}
    (owns : orElseId sock.gid identity.gid = owner) (positive : owner ≠ 0) (kept : (owner : Int) = v)
    (changes : (∃ path, .s path ∈ opts) → v ≠ noId) : GroupOwnedBy trace v := by
  intro e member path uid gid call
  have applies := started.applies e member
  rw [call] at applies
  obtain ⟨unix, rfl, rfl⟩ := applies
  have given := given_unixsocket.2 ⟨path, (parse_unixsocket started.parsed).symm.trans unix⟩
  exact changedId_chownArgument_of_kept owns positive kept (changes given)

theorem Started.keeps (started : Started env opts trace s identity sock) (inRange : NumbersInRange env opts) :
    KeepsNumbers env opts trace := by
  have parsed : ∀ s', parseOptions env opts = .ok s' → s' = s :=
    fun s' other => Except.ok.inj (other.symm.trans started.parsed)
  refine ⟨?_, ?_, ?_, ?_, ?_⟩
  · intro v number
    have range := inRange.port v number
    obtain ⟨text, last, denotes⟩ := number
    have kept : (s.port : Int) = v := by
      rw [parse_port started.parsed last, strtol_of_denotes denotes]
      exact (toUnsigned16_eq_iff v).2 range
    refine ⟨fun s' other => parsed s' other ▸ kept, ?_⟩
    intro e member fd addr port call given
    have applies := started.applies e member
    rw [call] at applies
    rw [applies port given, kept]
  all_goals
    intro root v number
    obtain ⟨user, group, sockUser, sockGroup⟩ := started.ids root
    obtain ⟨sockOwner, sockGroupOwner, owner, groupOwner⟩ := started.owners root
  · have kept := (user.eq_iff number).2 (inRange.ids root Opt.user (by simp) v number)
    constructor
    · intro e member uid call
      have applies := started.applies e member
      rw [call] at applies
      obtain rfl : uid = identity.uid := applies
      exact kept
    · intro left
      apply started.ownedBy (owner left) (user.ne_zero number) kept
      rintro given rfl
      exact (inRange.leftOwner root given).1 left number
  · have kept := (group.eq_iff number).2 (inRange.ids root Opt.group (by simp) v number)
    constructor
    · intro e member gid call
      have applies := started.applies e member
      rw [call] at applies
      obtain rfl : gid = identity.gid := applies
      exact kept
    · intro left
      apply started.groupOwnedBy (groupOwner left) (group.ne_zero number) kept
      rintro given rfl
      exact (inRange.leftOwner root given).2 left number
  · have kept := (sockUser.eq_iff number).2 (inRange.ids root Opt.sockUser (by simp) v number)
    have positive := sockUser.ne_zero number
    constructor
    · intro s' sock' other found
      obtain rfl := parsed s' other
      obtain rfl := Option.some.inj (found.symm.trans (started.sockFound root))
      exact kept
    · apply started.ownedBy (sockOwner positive) positive kept
      rintro given rfl
      exact inRange.owner root given Opt.sockUser (by simp) number
  · have kept := (sockGroup.eq_iff number).2 (inRange.ids root Opt.sockGroup (by simp) v number)
    have positive := sockGroup.ne_zero number
    constructor
    · intro s' sock' other found
      obtain rfl := parsed s' other
      obtain rfl := Option.some.inj (found.symm.trans (started.sockFound root))
      exact kept
    · apply started.groupOwnedBy (sockGroupOwner positive) positive kept
      rintro given rfl
      exact inRange.owner root given Opt.sockGroup (by simp) number

end Keeps

/-- Where `main` goes on, the numbers are kept exactly when none is out of range. -/
theorem keepsNumbers_iff (env : Env) (argc : Nat) (opts : List Opt) (trace : List Event) (ending : Ending)
    (runs : (main env argc opts).Runs trace ending) (goesOn : ∀ code, ending ≠ .returned code) :
    KeepsNumbers env opts trace ↔ NumbersInRange env opts := by
  obtain ⟨s, identity, sock, started⟩ := runs_started runs goesOn
  exact ⟨started.inRange, started.keeps⟩

theorem denotes_9000 : DenotesInt 10 (.lit "9000") 9000 := by
  apply (scan_eq_iff isspace_unmarked (isspace_undigital 10)).1
  decide +kernel

theorem denotes_33 : DenotesInt 10 (.lit "33") 33 := by
  apply (scan_eq_iff isspace_unmarked (isspace_undigital 10)).1
  decide +kernel

theorem rootOptions_keepsNumbers : KeepsNumbers rootStart rootOptions rootTrace := by
  refine (keepsNumbers_iff rootStart 7 rootOptions rootTrace _ rootStart_runs (by simp)).2 ⟨?_, ?_, ?_, ?_⟩
  · intro v ⟨text, last, denotes⟩
    obtain rfl : .lit "9000" = text := Option.some.inj last
    rw [denotesInt_unique denotes denotes_9000]
    decide
  · intro _
    simp only [List.forall_mem_cons]
    refine ⟨?_, ?_, ?_, ?_, by simp⟩
    · intro v ⟨text, last, numeric, denotes⟩
      obtain rfl : .lit "33" = text := Option.some.inj last
      rw [denotesInt_unique denotes denotes_33]
      decide
    · intro v ⟨text, last, _⟩
      cases last
    · intro v ⟨text, last, _⟩
      cases last
    · intro v ⟨text, last, _⟩
      cases last
  · intro _ ⟨path, member⟩
    simp [rootOptions] at member
  · intro _ ⟨path, member⟩
    simp [rootOptions] at member

def userStart : Env := ⟨false, false, 18, wwwData, plainInet⟩

def widePort : List Opt := [.A (.lit "app"), .p (.lit "74536")]

def widePortTrace : List Event :=
  [⟨.socket .inet, some 3⟩, ⟨.setReuseAddr 3, true⟩, ⟨.bind 3 (.inet 0 9000), true⟩, ⟨.listen 3 1024, true⟩]

def widePortSettings : Settings := { Settings.default 18 with hvmlApp := some (.lit "app"), port := 9000 }

theorem widePort_main : main userStart 5 widePort = launch userStart widePortSettings := by
  have port : strtol (.lit "74536") 10 = (74536, []) := by decide +kernel
  have parsed : parseOptions userStart widePort = .ok widePortSettings := by
    simp [parseOptions, widePort, parseOption, userStart, port, toUnsigned, widePortSettings, bind, Except.bind, pure,
      Except.pure]
  rw [main, parsed]
  rfl

theorem widePort_binds_9000 :
    (main userStart 5 widePort).Runs widePortTrace (.spawns 3 none widePortSettings) ∧ PortNumber widePort 74536 ∧
      ¬ KeepsNumbers userStart widePort widePortTrace := by
  have number : PortNumber widePort 74536 := by
    refine ⟨.lit "74536", rfl, (scan_eq_iff isspace_unmarked (isspace_undigital 10)).1 ?_⟩
    decide +kernel
  refine ⟨?_, number, ?_⟩
  · have sets : (setUp userStart widePortSettings).Runs widePortTrace (some 3) :=
      .call _ (.call _ (.call _ (.call _ (.done _))))
    rw [widePort_main]
    refine Program.runs_bind.2 ⟨widePortTrace, some (none, 3), [], by simp, ?_, .done _⟩
    refine Program.runs_andThen.2 ⟨[], none, widePortTrace, rfl, .done _, ?_⟩
    exact Program.runs_andThen.2 ⟨widePortTrace, 3, [], by simp, sets, .done _⟩
  · intro keeps
    have bound := (keeps.port 74536 number).2 ⟨.bind 3 (.inet 0 9000), true⟩ (by simp [widePortTrace]) 3 (.inet 0 9000)
      9000 rfl rfl
    exact absurd bound (by decide)

end HvmlFpm.Launcher
