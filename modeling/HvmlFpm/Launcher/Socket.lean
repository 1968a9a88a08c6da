import Mathlib.Algebra.Order.Ring.Nat
import Mathlib.Data.Nat.Bitwise
import HvmlFpm.Library.CString
import HvmlFpm.Library.Program

/-!
# The socket of the server

`bind_socket` of `hvml-fpm.c` over the system calls of the launcher, and what it leaves of descriptors and of
the socket file.
-/

namespace HvmlFpm.Launcher
open Library

inductive Family
  | unix | inet | inet6
deriving DecidableEq

/-- The port is in the host's byte order. -/
inductive SockAddr
  | un (path : CString)
  | inet (addr port : Nat)
  | inet6 (addr port : Nat)
deriving DecidableEq

def SockAddr.family : SockAddr → Family
  | .un _ => .unix
  | .inet _ _ => .inet
  | .inet6 _ _ => .inet6

/-- The calls that the launcher makes. An `open` is for writing; `exclusive` is `O_EXCL`. -/
inductive Syscall
  | socket (family : Family)
  | connect (fd : Nat) (addr : SockAddr)
  | unlink (path : CString)
  | close (fd : Nat)
  | setReuseAddr (fd : Nat)
  | bind (fd : Nat) (addr : SockAddr)
  | chmod (path : CString) (mode : Nat)
  | chown (path : CString) (uid gid : Nat)
  | listen (fd : Nat) (backlog : Int)
  | open (path : CString) (exclusive : Bool)
  | stat (path : CString)
  | setgid (gid : Nat)
  | setgroups
  | initgroups (user : CString) (gid : Nat)
  | chroot (path : CString)
  | chdir (path : CString)
  | setuid (uid : Nat)
  | accessRead (path : CString)
  | openNull
  | dup2 (fd target : Nat)
  | fork
  | setsid
deriving DecidableEq

inductive Unlinked
  | gone | noEntry | failed
deriving DecidableEq

inductive Opened
  | descriptor (fd : Nat) | alreadyExists | failed
deriving DecidableEq

inductive Forked
  | failed | parent | child
deriving DecidableEq

abbrev Answer : Syscall → Type
  | .socket _ => Option Nat
  | .unlink _ => Unlinked
  | .close _ => Unit
  | .open _ _ => Opened
  | .stat _ => Option Bool
  | .openNull => Option Nat
  | .fork => Forked
  | _ => Bool

abbrev Launch (α : Type) := Program Syscall Answer α
abbrev Event := Program.Event Syscall Answer

/-- What the C library makes of addresses, and which of its functions the build has. -/
structure Inet where
  haveInetPton : Bool
  haveIpv6 : Bool
  inetPton : CString → Option Nat
  inetPton6 : CString → Option Nat
  inetAddr : CString → Nat

def noId : Nat := 2 ^ 32 - 1

def inaddrNone : Nat := 2 ^ 32 - 1

def sunPathSize : Nat := 108

def inetAddress (inet : Inet) (addr : Option CString) (port : Nat) : Option SockAddr :=
  match addr with
  | none => some (.inet 0 port)
  | some addr =>
      if inet.haveInetPton then
        match inet.inetPton addr with
        | some a => some (.inet a port)
        | none => if inet.haveIpv6 then (inet.inetPton6 addr).map fun a => .inet6 a port else none
      else if inet.inetAddr addr = inaddrNone then none
      else some (.inet (inet.inetAddr addr) port)

def clearPath (unixsocket : CString) : Launch (Option Unit) :=
  .call (.socket .unix) fun
    | none => .done none
    | some fd =>
        .call (.connect fd (.un unixsocket)) fun (connected : Bool) =>
          if connected then .call (.close fd) fun _ => .done none
          else
            .call (.unlink unixsocket) fun
              | .failed => .call (.close fd) fun _ => .done none
              | _ => .call (.close fd) fun _ => .done (some ())

def socketAddress (inet : Inet) (addr : Option CString) (port : Nat) (unixsocket : Option CString) :
    Launch (Option SockAddr) :=
  match unixsocket with
  | some path =>
      if sunPathSize - 1 < path.length then .done none
      else (clearPath path).andThen fun _ => .done (some (.un path))
  | none => .done (inetAddress inet addr port)

def closeOnly (fd : Nat) : Launch (Option Nat) := .call (.close fd) fun _ => .done none

def closeAndUnlink (fd : Nat) : Option CString → Launch (Option Nat)
  | some path => .call (.close fd) fun _ => .call (.unlink path) fun _ => .done none
  | none => closeOnly fd

def listenOn (fd : Nat) (unixsocket : Option CString) (backlog : Int) : Launch (Option Nat) :=
  .call (.listen fd backlog) fun (ok : Bool) => if ok then .done (some fd) else closeAndUnlink fd unixsocket

/-- `if (0 == uid) uid = -1;` -/
def chownArgument (id : Nat) : Nat := if id = 0 then noId else id

def setPermissions (fd : Nat) (path : CString) (uid gid mode : Nat) (backlog : Int) : Launch (Option Nat) :=
  .call (.chmod path mode) fun (ok : Bool) =>
    if ok then
      if uid ≠ 0 ∨ gid ≠ 0 then
        .call (.chown path (chownArgument uid) (chownArgument gid)) fun (ok : Bool) =>
          if ok then listenOn fd (some path) backlog else closeAndUnlink fd (some path)
      else listenOn fd (some path) backlog
    else closeAndUnlink fd (some path)

def openSocket (sockaddr : SockAddr) (unixsocket : Option CString) (uid gid mode : Nat) (backlog : Int) :
    Launch (Option Nat) :=
  .call (.socket sockaddr.family) fun
    | none => .done none
    | some fd =>
        .call (.setReuseAddr fd) fun (ok : Bool) =>
          if ok then
            .call (.bind fd sockaddr) fun (ok : Bool) =>
              if ok then
                match unixsocket with
                | some path => setPermissions fd path uid gid mode backlog
                | none => listenOn fd none backlog
              else closeOnly fd
          else closeOnly fd

/-- `none` is the value -1. -/
def bindSocket (inet : Inet) (addr : Option CString) (port : Nat) (unixsocket : Option CString)
    (uid gid mode : Nat) (backlog : Int) : Launch (Option Nat) :=
  (socketAddress inet addr port unixsocket).andThen fun sockaddr =>
    openSocket sockaddr unixsocket uid gid mode backlog

/-- The socket file of this call: what `chmod` and `chown` have made of it. -/
structure SocketFile where
  path : CString
  mode : Option Nat
  owner : Option Nat
  group : Option Nat
deriving DecidableEq

/-- `opened` has the descriptors that are open, and is `none` once a descriptor was closed that was not;
`stuck` tells of an `unlink` of the socket file that has failed. -/
structure World where
  opened : Option (List Nat)
  bound : List (Nat × SockAddr)
  listening : List Nat
  file : Option SocketFile
  stuck : Bool
deriving DecidableEq

def World.start : World := ⟨some [], [], [], none, false⟩

def changedId (id : Nat) : Option Nat := if id = noId then none else some id

/-- The set-user-ID bit does not outlive a `chown`, nor does the set-group-ID bit of a file that its group may
execute. -/
def chownedMode (mode : Nat) : Nat := mode &&& if mode &&& 0o10 = 0 then 0o3777 else 0o1777

def World.onFile (w : World) (path : CString) (f : SocketFile → SocketFile) : World :=
  { w with file := w.file.map fun file => if file.path = path then f file else file }

def effect (w : World) : Event → World
  | ⟨.socket _, answer⟩ =>
      match (answer : Option Nat) with
      | some fd => { w with opened := w.opened.map (fd :: ·) }
      | none => w
  | ⟨.close fd, _⟩ =>
      { w with opened := w.opened.bind fun open' => if fd ∈ open' then some (open'.erase fd) else none
               bound := w.bound.filter (·.1 != fd), listening := w.listening.filter (· != fd) }
  | ⟨.unlink path, answer⟩ =>
      if w.file.any (·.path == path) then
        match (answer : Unlinked) with
        | .gone => { w with file := none }
        | _ => { w with stuck := true }
      else w
  | ⟨.bind fd addr, (ok : Bool)⟩ =>
      if ok then
        { w with bound := (fd, addr) :: w.bound
                 file := match addr with | .un path => some ⟨path, none, none, none⟩ | _ => w.file }
      else w
  | ⟨.chmod path mode, (ok : Bool)⟩ =>
      if ok then w.onFile path fun file => { file with mode := some (mode &&& 0o7777) } else w
  | ⟨.chown path uid gid, (ok : Bool)⟩ =>
      if ok then
        w.onFile path fun file =>
          { file with mode := file.mode.map chownedMode
                      owner := (changedId uid).or file.owner, group := (changedId gid).or file.group }
      else w
  | ⟨.listen fd _, (ok : Bool)⟩ => if ok then { w with listening := fd :: w.listening } else w
  | _ => w

section Effect
variable (w : World) (fd : Nat) (path : CString)

@[simp] theorem effect_socket (family : Family) : effect w ⟨.socket family, some fd⟩ =
    { w with opened := w.opened.map (fd :: ·) } := rfl

@[simp] theorem effect_connect (addr : SockAddr) (ok : Bool) : effect w ⟨.connect fd addr, ok⟩ = w := rfl

@[simp] theorem effect_close (answer : Unit) : effect w ⟨.close fd, answer⟩ =
    { w with opened := w.opened.bind fun opened => if fd ∈ opened then some (opened.erase fd) else none
             bound := w.bound.filter (·.1 != fd), listening := w.listening.filter (· != fd) } := rfl

@[simp] theorem effect_unlink (answer : Unlinked) : effect w ⟨.unlink path, answer⟩ =
    if w.file.any (·.path == path) then
      if answer = .gone then { w with file := none } else { w with stuck := true }
    else w := by
  cases answer <;> rfl

@[simp] theorem effect_bind (addr : SockAddr) : effect w ⟨.bind fd addr, true⟩ =
    { w with bound := (fd, addr) :: w.bound
             file := match addr with | .un path => some ⟨path, none, none, none⟩ | _ => w.file } := rfl

@[simp] theorem effect_chmod (mode : Nat) (ok : Bool) : effect w ⟨.chmod path mode, ok⟩ =
    if ok then w.onFile path fun file => { file with mode := some (mode &&& 0o7777) } else w := rfl

@[simp] theorem effect_chown (uid gid : Nat) (ok : Bool) : effect w ⟨.chown path uid gid, ok⟩ =
    if ok then
      w.onFile path fun file =>
        { file with mode := file.mode.map chownedMode
                    owner := (changedId uid).or file.owner, group := (changedId gid).or file.group }
    else w := rfl

@[simp] theorem effect_listen (backlog : Int) (ok : Bool) : effect w ⟨.listen fd backlog, ok⟩ =
    if ok then { w with listening := fd :: w.listening } else w := rfl

end Effect

/-! ## Does a failure clean up? -/

/-- The descriptor listens at the address, and the socket file is the one `made` for its path. -/
structure Serving (w : World) (fd : Nat) (sockaddr : SockAddr) (made : CString → SocketFile) : Prop where
  only : w.opened = some [fd]
  bound : (fd, sockaddr) ∈ w.bound
  listening : fd ∈ w.listening
  file : ∀ path, sockaddr = .un path → w.file = some (made path)

structure CleanedUp (w : World) : Prop where
  closed : w.opened = some []
  removed : w.stuck = false → w.file = none

def Tidy (sockaddr : Option SockAddr) (made : CString → SocketFile) (w : World) : Option Nat → Prop
  | none => CleanedUp w
  | some fd => ∃ addr, sockaddr = some addr ∧ Serving w fd addr made

/-- Only 0 asks for no change of the owner. -/
def requestedId (id : Nat) : Option Nat := if id = 0 then none else some id

def requestedFile (uid gid mode : Nat) (path : CString) : SocketFile :=
  ⟨path, some mode, requestedId uid, requestedId gid⟩

def settledMode (uid gid mode : Nat) : Nat :=
  if uid ≠ 0 ∨ gid ≠ 0 then chownedMode (mode &&& 0o7777) else mode &&& 0o7777

def settledFile (uid gid mode : Nat) (path : CString) : SocketFile :=
  ⟨path, some (settledMode uid gid mode), changedId (chownArgument uid), changedId (chownArgument gid)⟩

section Ensures
variable {w : World} {fd : Nat} {sockaddr : SockAddr} {path : CString} {uid gid mode : Nat} {backlog : Int}
  {made : CString → SocketFile}

theorem closeOnly_cleans (opened : w.opened = some [fd]) (none : w.file = none) :
    (closeOnly fd).Ensures effect w (Tidy (some sockaddr) made) := by
  intro _
  exact ⟨by simp [opened], fun _ => none⟩

theorem closeAndUnlink_cleans (opened : w.opened = some [fd]) (file : w.file.map SocketFile.path = some path) :
    (closeAndUnlink fd (some path)).Ensures effect w (Tidy (some sockaddr) made) := by
  obtain ⟨left, present, same⟩ := Option.map_eq_some_iff.1 file
  have mine : (w.file.any fun file => file.path == path) = true := by simp [present, same]
  intro _ answer
  constructor
  · cases answer <;> simp [mine, opened]
  · cases answer <;> simp [mine]

theorem listenOn_inet (opened : w.opened = some [fd]) (bound : (fd, sockaddr) ∈ w.bound) (none : w.file = none)
    (noPath : ∀ path, sockaddr ≠ .un path) :
    (listenOn fd Option.none backlog).Ensures effect w (Tidy (some sockaddr) made) := by
  intro (ok : Bool)
  cases ok with
  | true => exact ⟨sockaddr, rfl, opened, bound, by simp, fun path same => absurd same (noPath path)⟩
  | false => exact closeOnly_cleans opened none

theorem listenOn_unix (opened : w.opened = some [fd]) (bound : (fd, .un path) ∈ w.bound)
    (named : (made path).path = path) (file : w.file = some (made path)) :
    (listenOn fd (some path) backlog).Ensures effect w (Tidy (some (.un path)) made) := by
  intro (ok : Bool)
  cases ok with
  | true =>
      refine ⟨.un path, rfl, opened, bound, by simp, ?_⟩
      rintro other same
      obtain rfl := SockAddr.un.inj same
      exact file
  | false => exact closeAndUnlink_cleans opened (by simp [file, named])

theorem setPermissions_tidy (opened : w.opened = some [fd]) (bound : (fd, .un path) ∈ w.bound)
    (file : w.file = some ⟨path, none, none, none⟩) (settles : settledFile uid gid mode path = made path) :
    (setPermissions fd path uid gid mode backlog).Ensures effect w (Tidy (some (.un path)) made) := by
  have named : (made path).path = path := by rw [← settles, settledFile]
  intro (ok : Bool)
  cases ok with
  | false => exact closeAndUnlink_cleans opened (by simp [file])
  | true =>
      have moded : (effect w ⟨.chmod path mode, true⟩).file = some ⟨path, some (mode &&& 0o7777), none, none⟩ := by
        simp [World.onFile, file]
      simp only [if_true]
      by_cases owned : uid ≠ 0 ∨ gid ≠ 0
      · rw [if_pos owned]
        intro (ok : Bool)
        cases ok with
        | false => exact closeAndUnlink_cleans opened (by simp [World.onFile, file])
        | true =>
            apply listenOn_unix
            · exact opened
            · exact bound
            · exact named
            · rw [← settles, settledFile, settledMode, if_pos owned]
              simp [World.onFile, file]
      · rw [if_neg owned]
        apply listenOn_unix
        · exact opened
        · exact bound
        · exact named
        · simp only [not_or, not_not] at owned
          rw [← settles, settledFile, settledMode, moded]
          simp [owned, chownArgument, changedId]

theorem openSocket_tidy {unixsocket : Option CString} (opened : w.opened = some []) (none : w.file = none)
    (kind : ∀ path, unixsocket = some path ↔ sockaddr = .un path)
    (settles : ∀ path, sockaddr = .un path → settledFile uid gid mode path = made path) :
    (openSocket sockaddr unixsocket uid gid mode backlog).Ensures effect w (Tidy (some sockaddr) made) := by
  intro (answer : Option Nat)
  cases answer with
  | none => exact ⟨opened, fun _ => none⟩
  | some fd =>
      have one : w.opened.map (fd :: ·) = some [fd] := by simp [opened]
      intro (ok : Bool)
      cases ok with
      | false => exact closeOnly_cleans one none
      | true =>
          intro (ok : Bool)
          cases ok with
          | false => exact closeOnly_cleans one none
          | true =>
              cases unixsocket with
              | some path =>
                  obtain rfl := (kind path).1 rfl
                  exact setPermissions_tidy one (by simp) rfl (settles path rfl)
              | none =>
                  have noPath : ∀ path, sockaddr ≠ .un path := fun path same => by simpa using (kind path).2 same
                  apply listenOn_inet
                  · exact one
                  · simp
                  · cases sockaddr with
                    | un path => exact absurd rfl (noPath path)
                    | inet _ _ => exact none
                    | inet6 _ _ => exact none
                  · exact noPath

theorem clearPath_tidy (w : World) (path : CString) (opened : w.opened = some []) (none : w.file = none) :
    (clearPath path).Ensures effect w fun w _ => w.opened = some [] ∧ w.file = Option.none := by
  intro (answer : Option Nat)
  cases answer with
  | none => exact ⟨opened, none⟩
  | some fd =>
      intro (connected : Bool)
      cases connected with
      | true =>
          intro _
          exact ⟨by simp [opened], none⟩
      | false =>
          intro (answer : Unlinked)
          cases answer with
          | failed =>
              intro _
              exact ⟨by simp [opened, none], by simp [none]⟩
          | gone =>
              intro _
              exact ⟨by simp [opened, none], by simp [none]⟩
          | noEntry =>
              intro _
              exact ⟨by simp [opened, none], by simp [none]⟩

end Ensures

theorem inetAddress_not_un {inet : Inet} {addr : Option CString} {port : Nat} {sockaddr : SockAddr}
    (found : inetAddress inet addr port = some sockaddr) (path : CString) : sockaddr ≠ .un path := by
  rintro rfl
  cases addr with
  | none => simp [inetAddress] at found
  | some text =>
      simp only [inetAddress] at found
      split_ifs at found
      · cases first : inet.inetPton text with
        | some a => simp [first] at found
        | none => simp [first] at found
      · cases first : inet.inetPton text with
        | some a => simp [first] at found
        | none => simp [first] at found
      · simp at found

def requestedAddress (inet : Inet) (addr : Option CString) (port : Nat) : Option CString → Option SockAddr
  | some path => some (.un path)
  | none => inetAddress inet addr port

theorem bindSocket_ensures (inet : Inet) (addr : Option CString) (port : Nat) (unixsocket : Option CString)
    (uid gid mode : Nat) (backlog : Int) (made : CString → SocketFile)
    (settles : ∀ path, unixsocket = some path → path.length < sunPathSize → settledFile uid gid mode path = made path) :
    (bindSocket inet addr port unixsocket uid gid mode backlog).Ensures effect .start
      (Tidy (requestedAddress inet addr port unixsocket) made) := by
  rw [bindSocket, Program.ensures_andThen]
  cases unixsocket with
  | some path =>
      rw [socketAddress]
      split_ifs with tooLong
      · exact ⟨rfl, fun _ => rfl⟩
      · have short : path.length < sunPathSize := by
          rw [sunPathSize] at tooLong ⊢
          omega
        have kind : ∀ other, some path = some other ↔ SockAddr.un path = .un other := by simp
        rw [Program.ensures_andThen]
        apply (clearPath_tidy .start path rfl rfl).mono
        rintro w (_ | _) ⟨opened, none⟩
        · exact ⟨opened, fun _ => none⟩
        · apply openSocket_tidy opened none kind
          rintro other same
          obtain rfl := SockAddr.un.inj same
          exact settles path rfl short
  | none =>
      rw [socketAddress, requestedAddress]
      cases found : inetAddress inet addr port with
      | none => exact ⟨rfl, fun _ => rfl⟩
      | some sockaddr =>
          rw [Program.ensures_done, Option.elim_some]
          have noPath := inetAddress_not_un found
          apply openSocket_tidy rfl rfl
          · intro path
            simp [noPath path]
          · intro path same
            exact absurd same (noPath path)

/-! ## Is the file as it was asked for? -/

def KeptByChown (mode : Nat) : Prop := mode &&& 0o4000 = 0 ∧ (mode &&& 0o2000 = 0 ∨ mode &&& 0o10 = 0)

instance (mode : Nat) : Decidable (KeptByChown mode) := inferInstanceAs (Decidable (_ ∧ _))

theorem and_bit_eq_zero_iff (mode i : Nat) : mode &&& 2 ^ i = 0 ↔ mode / 2 ^ i % 2 = 0 := by
  rw [Nat.and_two_pow, Nat.testBit_eq_decide_div_mod_eq]
  have positive : 0 < 2 ^ i := Nat.two_pow_pos i
  by_cases bit : mode / 2 ^ i % 2 = 1
  · simp [bit]
  · have clear : mode / 2 ^ i % 2 = 0 := by omega
    simp [clear]

theorem and_ones_eq_iff (mode i : Nat) : mode &&& (2 ^ i - 1) = mode ↔ mode < 2 ^ i := by
  rw [Nat.and_two_pow_sub_one_eq_mod, Nat.mod_eq_iff_lt (Nat.two_pow_pos i).ne']

theorem and_bits_eq_iff (mode : Nat) : mode &&& 0o7777 = mode ↔ mode ≤ 0o7777 :=
  (and_ones_eq_iff mode 12).trans Nat.lt_succ_iff

theorem chownedMode_eq_iff (mode : Nat) (bits : mode ≤ 0o7777) : chownedMode mode = mode ↔ KeptByChown mode := by
  have setgid : mode &&& 0o2000 = 0 ↔ mode / 0o2000 % 2 = 0 := and_bit_eq_zero_iff mode 10
  have setuid : mode &&& 0o4000 = 0 ↔ mode / 0o4000 % 2 = 0 := and_bit_eq_zero_iff mode 11
  rw [chownedMode, KeptByChown]
  by_cases group : mode &&& 0o10 = 0
  · rw [if_pos group]
    have keeps : mode &&& 0o3777 = mode ↔ mode < 0o4000 := and_ones_eq_iff mode 11
    simp only [group, or_true, and_true]
    omega
  · rw [if_neg group]
    have keeps : mode &&& 0o1777 = mode ↔ mode < 0o2000 := and_ones_eq_iff mode 10
    simp only [group, or_false]
    omega

structure Settable (uid gid mode : Nat) : Prop where
  bits : mode ≤ 0o7777
  kept : uid ≠ 0 ∨ gid ≠ 0 → KeptByChown mode
  uid : uid ≠ noId
  gid : gid ≠ noId

theorem settledMode_eq_iff {uid gid mode : Nat} :
    settledMode uid gid mode = mode ↔ mode ≤ 0o7777 ∧ (uid ≠ 0 ∨ gid ≠ 0 → KeptByChown mode) := by
  rw [settledMode]
  have least : chownedMode (mode &&& 0o7777) ≤ mode &&& 0o7777 := Nat.and_le_left
  have masked : mode &&& 0o7777 ≤ mode := Nat.and_le_left
  by_cases bits : mode ≤ 0o7777
  · rw [(and_bits_eq_iff mode).2 bits]
    split_ifs with owned
    · simp [chownedMode_eq_iff mode bits, owned, bits]
    · simp [owned, bits]
  · have cut := mt (and_bits_eq_iff mode).1 bits
    have other : ¬ (if uid ≠ 0 ∨ gid ≠ 0 then chownedMode (mode &&& 0o7777) else mode &&& 0o7777) = mode := by
      split_ifs
      · omega
      · exact cut
    exact iff_of_false other fun settable => bits settable.1

theorem changedId_chownArgument_eq_iff {id : Nat} : changedId (chownArgument id) = requestedId id ↔ id ≠ noId := by
  by_cases zero : id = 0
  · subst zero
    simp [changedId, chownArgument, requestedId, noId]
  · simp [changedId, chownArgument, requestedId, zero]

theorem settledFile_eq_iff {uid gid mode : Nat} {path : CString} :
    settledFile uid gid mode path = requestedFile uid gid mode path ↔ Settable uid gid mode := by
  rw [settledFile, requestedFile, SocketFile.mk.injEq, Option.some.injEq, settledMode_eq_iff,
    changedId_chownArgument_eq_iff, changedId_chownArgument_eq_iff]
  constructor
  · rintro ⟨-, ⟨bits, kept⟩, uid, gid⟩
    exact ⟨bits, kept, uid, gid⟩
  · rintro ⟨bits, kept, uid, gid⟩
    exact ⟨rfl, ⟨bits, kept⟩, uid, gid⟩

section Serves
variable (fd : Nat) (path : CString) (uid gid mode : Nat) (backlog : Int)

theorem setPermissions_serves : ∃ trace, (setPermissions fd path uid gid mode backlog).Runs trace (some fd) := by
  by_cases owned : uid ≠ 0 ∨ gid ≠ 0
  · refine ⟨[⟨.chmod path mode, true⟩, ⟨.chown path (chownArgument uid) (chownArgument gid), true⟩,
      ⟨.listen fd backlog, true⟩], .call _ ?_⟩
    rw [if_pos rfl, if_pos owned]
    exact .call _ (.call _ (.done _))
  · refine ⟨[⟨.chmod path mode, true⟩, ⟨.listen fd backlog, true⟩], .call _ ?_⟩
    rw [if_pos rfl, if_neg owned]
    exact .call _ (.done _)

theorem bindSocket_serves (inet : Inet) (addr : Option CString) (port : Nat) (short : path.length < sunPathSize) :
    ∃ trace, (bindSocket inet addr port (some path) uid gid mode backlog).Runs trace (some fd) := by
  obtain ⟨trace, runs⟩ := setPermissions_serves fd path uid gid mode backlog
  have fits : ¬ sunPathSize - 1 < path.length := by omega
  refine ⟨⟨.socket .unix, some fd⟩ :: ⟨.connect fd (.un path), false⟩ :: ⟨.unlink path, .noEntry⟩ :: ⟨.close fd, ()⟩ ::
    ⟨.socket .unix, some fd⟩ :: ⟨.setReuseAddr fd, true⟩ :: ⟨.bind fd (.un path), true⟩ :: trace, ?_⟩
  rw [bindSocket, socketAddress, if_neg fits]
  exact .call _ (.call _ (.call _ (.call _ (.call _ (.call _ (.call _ runs))))))

end Serves

theorem bindSocket_tidy_iff (inet : Inet) (addr : Option CString) (port : Nat) (unixsocket : Option CString)
    (uid gid mode : Nat) (backlog : Int) :
    (∀ trace result, (bindSocket inet addr port unixsocket uid gid mode backlog).Runs trace result →
      Tidy (requestedAddress inet addr port unixsocket) (requestedFile uid gid mode) (trace.foldl effect .start) result) ↔
    ∀ path, unixsocket = some path → path.length < sunPathSize → Settable uid gid mode := by
  constructor
  · rintro tidy path rfl short
    -- In the run in which every call succeeds, the file is left as chmod and chown settle it.
    obtain ⟨trace, runs⟩ := bindSocket_serves 3 path uid gid mode backlog inet addr port short
    obtain ⟨_, asked, requested⟩ := tidy trace (some 3) runs
    have ensures := bindSocket_ensures inet addr port (some path) uid gid mode backlog (settledFile uid gid mode)
      fun _ _ _ => rfl
    obtain ⟨_, same, settled⟩ := Program.ensures_iff.1 ensures trace (some 3) runs
    obtain rfl := Option.some.inj asked
    obtain rfl := Option.some.inj same
    have file := (settled.file path rfl).symm.trans (requested.file path rfl)
    exact settledFile_eq_iff.1 (Option.some.inj file)
  · intro settable
    rw [← Program.ensures_iff]
    apply bindSocket_ensures
    intro path unix short
    exact settledFile_eq_iff.2 (settable path unix short)

/-! ## Which calls are made -/

def Syscall.OnSocket (sockaddr : Option SockAddr) (unixsocket : Option CString) (uid gid : Nat) : Syscall → Prop
  | .socket _ | .unlink _ | .close _ | .setReuseAddr _ | .chmod _ _ | .listen _ _ => True
  | .bind _ addr => sockaddr = some addr
  | .chown path owner group => unixsocket = some path ∧ owner = chownArgument uid ∧ group = chownArgument gid
  | _ => False

section Calls
variable {sockaddr : Option SockAddr} {unixsocket : Option CString} {uid gid : Nat}

theorem closeAndUnlink_calls (fd : Nat) (made : Option CString) :
    (closeAndUnlink fd made).Calls (Syscall.OnSocket sockaddr unixsocket uid gid) := by
  cases made with
  | none => exact ⟨trivial, fun _ => trivial⟩
  | some path => exact ⟨trivial, fun _ => ⟨trivial, fun _ => trivial⟩⟩

theorem listenOn_calls (fd : Nat) (made : Option CString) (backlog : Int) :
    (listenOn fd made backlog).Calls (Syscall.OnSocket sockaddr unixsocket uid gid) := by
  refine ⟨trivial, fun (ok : Bool) => ?_⟩
  cases ok with
  | true => trivial
  | false => exact closeAndUnlink_calls fd made

theorem setPermissions_calls (fd : Nat) (path : CString) (mode : Nat) (backlog : Int) :
    (setPermissions fd path uid gid mode backlog).Calls (Syscall.OnSocket sockaddr (some path) uid gid) := by
  refine ⟨trivial, fun (ok : Bool) => ?_⟩
  cases ok with
  | false => exact closeAndUnlink_calls fd (some path)
  | true =>
      simp only [if_true]
      split_ifs
      · refine ⟨⟨rfl, rfl, rfl⟩, fun (ok : Bool) => ?_⟩
        cases ok with
        | false => exact closeAndUnlink_calls fd (some path)
        | true => exact listenOn_calls fd (some path) backlog
      · exact listenOn_calls fd (some path) backlog

theorem openSocket_calls (sockaddr : SockAddr) (unixsocket : Option CString) (uid gid mode : Nat) (backlog : Int) :
    (openSocket sockaddr unixsocket uid gid mode backlog).Calls (Syscall.OnSocket (some sockaddr) unixsocket uid gid) := by
  refine ⟨trivial, fun (answer : Option Nat) => ?_⟩
  cases answer with
  | none => trivial
  | some fd =>
      refine ⟨trivial, fun (ok : Bool) => ?_⟩
      cases ok with
      | false => exact closeAndUnlink_calls fd none
      | true =>
          refine ⟨rfl, fun (ok : Bool) => ?_⟩
          cases ok with
          | false => exact closeAndUnlink_calls fd none
          | true =>
              cases unixsocket with
              | none => exact listenOn_calls fd none backlog
              | some path => exact setPermissions_calls fd path mode backlog

theorem clearPath_calls (path : CString) :
    (clearPath path).Calls fun c => c.OnSocket sockaddr unixsocket uid gid ∨ ∃ fd addr, c = .connect fd addr := by
  refine ⟨.inl trivial, fun (answer : Option Nat) => ?_⟩
  cases answer with
  | none => trivial
  | some fd =>
      refine ⟨.inr ⟨fd, .un path, rfl⟩, fun (connected : Bool) => ?_⟩
      cases connected with
      | true => exact ⟨.inl trivial, fun _ => trivial⟩
      | false =>
          refine ⟨.inl trivial, fun (answer : Unlinked) => ?_⟩
          cases answer <;> exact ⟨.inl trivial, fun _ => trivial⟩

end Calls

theorem bindSocket_calls (inet : Inet) (addr : Option CString) (port : Nat) (unixsocket : Option CString)
    (uid gid mode : Nat) (backlog : Int) : (bindSocket inet addr port unixsocket uid gid mode backlog).Calls
      fun c => c.OnSocket (requestedAddress inet addr port unixsocket) unixsocket uid gid ∨
        ∃ fd addr, c = .connect fd addr := by
  have opens : ∀ sockaddr, (openSocket sockaddr unixsocket uid gid mode backlog).Calls
      fun c => c.OnSocket (some sockaddr) unixsocket uid gid ∨ ∃ fd addr, c = .connect fd addr :=
    fun sockaddr => (openSocket_calls sockaddr unixsocket uid gid mode backlog).mono fun _ onSocket => .inl onSocket
  rw [bindSocket]
  cases unixsocket with
  | some path =>
      rw [socketAddress]
      split_ifs
      · trivial
      · rw [Program.andThen, Program.andThen, Program.bind_bind]
        apply (clearPath_calls path).bind
        intro cleared
        cases cleared with
        | none => trivial
        | some _ => exact opens (.un path)
  | none =>
      rw [socketAddress, requestedAddress]
      cases inetAddress inet addr port with
      | none => trivial
      | some sockaddr => exact opens sockaddr

/-- Nothing is unlinked where `connect` succeeds. -/
def KeepsServed (trace : List Event) : Prop :=
  ∀ fd addr, ⟨.connect fd addr, true⟩ ∈ trace → ∀ path (answer : Unlinked), ⟨.unlink path, answer⟩ ∉ trace

theorem clearPath_keepsServed {path : CString} {trace : List Event} {result : Option Unit}
    (runs : (clearPath path).Runs trace result) :
    KeepsServed trace ∧ ((∃ fd addr, ⟨.connect fd addr, true⟩ ∈ trace) → result = none) := by
  revert trace result
  rw [← Program.ensures_trace]
  intro (answer : Option Nat)
  cases answer with
  | none => simp [KeepsServed]
  | some fd =>
      intro (connected : Bool)
      cases connected with
      | true =>
          intro _
          simp [KeepsServed]
      | false =>
          intro (answer : Unlinked)
          cases answer with
          | failed =>
              intro _
              simp [KeepsServed]
          | gone =>
              intro _
              simp [KeepsServed]
          | noEntry =>
              intro _
              simp [KeepsServed]

theorem bindSocket_keepsServed {inet : Inet} {addr : Option CString} {port : Nat} {unixsocket : Option CString}
    {uid gid mode : Nat} {backlog : Int} {trace : List Event} {result : Option Nat}
    (runs : (bindSocket inet addr port unixsocket uid gid mode backlog).Runs trace result) : KeepsServed trace := by
  obtain ⟨before, found, after, rfl, first, second⟩ := Program.runs_bind.1 runs
  have quiet : ∀ fd addr, ⟨.connect fd addr, true⟩ ∉ after := by
    intro fd addr member
    cases found with
    | none =>
        obtain ⟨rfl, -⟩ := Program.runs_done.1 second
        cases member
    | some sockaddr =>
        exact (openSocket_calls sockaddr unixsocket uid gid mode backlog).of_runs second _ member
  have front : KeepsServed before ∧ ((∃ fd addr, ⟨.connect fd addr, true⟩ ∈ before) → found = none) := by
    unfold socketAddress at first
    split at first
    · split_ifs at first
      · obtain ⟨rfl, rfl⟩ := Program.runs_done.1 first
        simp [KeepsServed]
      · obtain ⟨early, cleared, late, rfl, clears, rest⟩ := Program.runs_bind.1 first
        obtain ⟨keeps, fails⟩ := clearPath_keepsServed clears
        have last : late = [] ∧ (cleared = none → found = none) := by
          cases cleared with
          | none =>
              obtain ⟨rfl, rfl⟩ := Program.runs_done.1 rest
              exact ⟨rfl, fun _ => rfl⟩
          | some _ =>
              obtain ⟨rfl, rfl⟩ := Program.runs_done.1 rest
              exact ⟨rfl, by simp⟩
        obtain ⟨rfl, none⟩ := last
        rw [List.append_nil]
        exact ⟨keeps, fun connected => none (fails connected)⟩
    · obtain ⟨rfl, rfl⟩ := Program.runs_done.1 first
      simp [KeepsServed]
  intro fd addr connected path answer member
  have early : ⟨.connect fd addr, true⟩ ∈ before := (List.mem_append.1 connected).resolve_right (quiet fd addr)
  obtain rfl := front.2 ⟨fd, addr, early⟩
  obtain ⟨rfl, -⟩ := Program.runs_done.1 second
  rw [List.append_nil] at member
  exact front.1 fd addr early path answer member

def unixServing : List Event :=
  [⟨.socket .unix, some 3⟩, ⟨.connect 3 (.un (.lit "/run/hvml")), false⟩, ⟨.unlink (.lit "/run/hvml"), .noEntry⟩,
    ⟨.close 3, ()⟩, ⟨.socket .unix, some 3⟩, ⟨.setReuseAddr 3, true⟩, ⟨.bind 3 (.un (.lit "/run/hvml")), true⟩,
    ⟨.chmod (.lit "/run/hvml") 0o4660, true⟩, ⟨.chown (.lit "/run/hvml") 33 noId, true⟩, ⟨.listen 3 1024, true⟩]

def plainInet : Inet := ⟨true, true, fun _ => none, fun _ => none, fun _ => inaddrNone⟩

theorem unixServing_loses_bit :
    (bindSocket plainInet none 0 (some (.lit "/run/hvml")) 33 0 0o4660 1024).Runs unixServing (some 3) ∧
      (unixServing.foldl effect .start).file = some ⟨.lit "/run/hvml", some 0o660, some 33, none⟩ ∧
      ¬ Tidy (some (.un (.lit "/run/hvml"))) (requestedFile 33 0 0o4660) (unixServing.foldl effect .start) (some 3) := by
  have file : (unixServing.foldl effect .start).file = some ⟨.lit "/run/hvml", some 0o660, some 33, none⟩ := by
    decide +kernel
  refine ⟨?_, file, ?_⟩
  · exact .call _ (.call _ (.call _ (.call _ (.call _ (.call _ (.call _ (.call _ (.call _ (.call _ (.done _))))))))))
  · rintro ⟨_, same, serving⟩
    have requested := serving.file (.lit "/run/hvml") (Option.some.inj same).symm
    rw [file] at requested
    exact absurd requested (by decide +kernel)

end HvmlFpm.Launcher
