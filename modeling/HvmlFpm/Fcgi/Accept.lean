import HvmlFpm.Fcgi.Serving
import HvmlFpm.Library.Strsep

/-!
# Accepting requests

`OS_Accept` of `os_unix.c`, and the functions of `fcgiapp.c` that accept a request and finish it. A process serves one
request at a time, on one connection, which it may keep for the next one.
-/

namespace HvmlFpm.Fcgi
open Library

inductive Peer
  | unix (readable : Bool)
  | inet (addr : UInt32)
  | other

inductive Arrival
  | failed (errno : Errno)
  | connected (peer : Peer) (c : Connection)

/-- The flag of the request and the addresses that `FCGI_WEB_SERVER_ADDRS` lists, with the bytes that uninitialized
arrays are found to hold. -/
structure Settings where
  failOnIntr : Bool
  inetAddr : CString → UInt32
  webServerAddressList : Option CString
  stack : Nat → UInt8

/-- Descriptors are numbered as they are accepted; `closed` has each one with its connection as it is closed. -/
structure Listener where
  arrivals : List Arrival
  accepted : Nat
  closed : List (Nat × Connection)
  fault : Bool

def Listener.ipcClose (l : Listener) (fd : Nat) (c : Connection) : Listener := { l with closed := l.closed ++ [(fd, c)] }

def eintr : Nat := 4

/-- `EPROTO`, `ENETUNREACH`, `ECONNABORTED`, `ECONNRESET`, `ETIMEDOUT` and `EHOSTUNREACH`. -/
def isReasonableAcceptErrno (errno : Nat) : Bool := errno ∈ [71, 101, 103, 104, 110, 113]

def clientAddrOK (inetAddr : CString → UInt32) (addr : UInt32) : Option CString → Bool
  | none => true
  | some clientList => clientList = .empty || (clientList.pieces 44).any (inetAddr · = addr)

def keeps (env : Settings) : Peer → Bool
  | .unix readable => readable
  | .inet addr => clientAddrOK env.inetAddr addr env.webServerAddressList
  | .other => true

inductive OsAccept
  | accepted (fd : Nat) (c : Connection)
  | failed (errno : Errno)
  | waits

/-- While no shutdown is pending. -/
def osAcceptLoop (env : Settings) : List Arrival → Listener → OsAccept × Listener
  | [], l => (.waits, { l with arrivals := [] })
  | .failed errno :: arrivals, l =>
      if errno.val = eintr ∧ env.failOnIntr = false then osAcceptLoop env arrivals l
      else if isReasonableAcceptErrno errno.val then osAcceptLoop env arrivals l
      else (.failed errno, { l with arrivals })
  | .connected peer c :: arrivals, l =>
      let fd := l.accepted
      let l := { l with accepted := l.accepted + 1 }
      if keeps env peer then (.accepted fd c, { l with arrivals })
      else osAcceptLoop env arrivals (l.ipcClose fd c)

def osAccept (env : Settings) (l : Listener) : OsAccept × Listener := osAcceptLoop env l.arrivals l

/-- A turn of the loop of `FCGX_Accept_r` with a connection: the environment of a request, or none where the connection is
to be closed. -/
def tryRequest (env : Settings) (request : Request) (c : Connection) : Option Params × Reader :=
  let r := fillBuffProc (newReader { request with isBeginProcessed := false } c env.stack 0)
  if r.request.isBeginProcessed then
    match roleName r.request.role with
    | none => (none, r)
    | some role =>
        let (read, r) := readParams fillBuffProc ((newParams 30 (by decide)).putParam role) (setReaderType r RecordType.params)
        let r := { r with fault := r.fault || !read.fits }
        if read.returns then (some read.params, setReaderType r RecordType.stdin) else (none, r)
  else (none, r)

/-- An `FCGX_Request` between two calls: without streams, and perhaps with a connection that was kept, or with them. -/
inductive Slot
  | idle (request : Request) (ipc : Option (Nat × Connection))
  | serving (fd : Nat) (params : Params) (v : Serving)

inductive Accepted
  | returns (rc : Int)
  | waits
deriving DecidableEq

def connect (env : Settings) (ipc : Option (Nat × Connection)) (l : Listener) : OsAccept × Listener :=
  match ipc with
  | some (fd, c) => (.accepted fd c, l)
  | none => osAccept env l

/-- The loop of `FCGX_Accept_r`; each turn behind the first takes an arrival at least. -/
def acceptLoop (env : Settings) : Nat → Request → Option (Nat × Connection) → Listener → Accepted × Slot × Listener
  | 0, request, ipc, l => (.waits, .idle request ipc, l)
  | fuel + 1, request, ipc, l =>
      match connect env ipc l with
      | (.waits, l) => (.waits, .idle request none, l)
      | (.failed errno, l) => (.returns (if 0 < errno.val then 0 - errno.val else -9999), .idle request none, l)
      | (.accepted fd c, l) =>
          match tryRequest env request c with
          | (some params, r) => (.returns 0, .serving fd params (newServing r), l)
          | (none, r) => acceptLoop env fuel r.request none ({ l with fault := l.fault || r.fault }.ipcClose fd r.connection)

/-! ## The requests of a process -/

structure Service where
  listener : Listener
  slot : Slot

/-- `FCGX_Free` behind a request. -/
def freed (close : Bool) (request : Request) (fd : Nat) (c : Connection) (l : Listener) : Service :=
  if close then ⟨l.ipcClose fd c, .idle request none⟩ else ⟨l, .idle request (some (fd, c))⟩

def Service.finish (s : Service) : Service :=
  match s.slot with
  | .idle _ none => s
  | .idle request (some (fd, c)) => freed (!request.keepConnection) request fd c s.listener
  | .serving fd _ v =>
      let (errClosed, o) := v.output.perform (.fclose .err)
      let (outClosed, o) := o.perform (.fclose .out)
      let r := (v.withOutput o).reader
      freed (!r.request.keepConnection || !errClosed || !outClosed || r.errno ≠ 0) r.request fd r.connection
        { s.listener with fault := s.listener.fault || r.fault }

def Service.accept (env : Settings) (s : Service) : Accepted × Service :=
  match s.finish with
  | ⟨l, .idle request ipc⟩ =>
      let (result, slot, l) := acceptLoop env (l.arrivals.length + 2) request ipc l
      (result, ⟨l, slot⟩)
  | s => (.waits, s)

inductive ServiceCall
  | accept
  | finish
  | call (c : Call)

def Service.step (env : Settings) (s : Service) : ServiceCall → Service
  | .accept => (s.accept env).2
  | .finish => s.finish
  | .call c =>
      match s.slot with
      | .idle _ _ => s
      | .serving fd params v => { s with slot := .serving fd params (c.perform v).2 }

def Service.run (env : Settings) (s : Service) : List ServiceCall → Service
  | [] => s
  | c :: calls => (s.step env c).run env calls

def initRequest (arrivals : List Arrival) : Service where
  listener := ⟨arrivals, 0, [], false⟩
  slot := .idle ⟨0, 0, false, false, 0, 0⟩ none

end HvmlFpm.Fcgi
