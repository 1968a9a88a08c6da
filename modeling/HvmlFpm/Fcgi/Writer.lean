import HvmlFpm.Fcgi.Fill

/-!
# Writers

The functions of `fcgiapp.c` that put bytes into an `FCGX_Stream`, empty its buffer and close it. The writers of
a request share its connection.
-/

namespace HvmlFpm.Fcgi
open Library

/-- The bytes of the buffer from the room for a header on, or from its beginning on where `rawWrite` is set, up to
`wrNext`. -/
structure Writer where
  buffered : Bytes
  stop : Nat
  type : UInt8
  isClosed : Bool
  wasFCloseCalled : Bool
  rawWrite : Bool
  isAnythingWritten : Bool
  errno : Int

def newWriter (bufflen : Nat) (type : UInt8) : Writer where
  buffered := []
  stop := bufferSize bufflen
  type := type
  isClosed := false
  wasFCloseCalled := false
  rawWrite := false
  isAnythingWritten := false
  errno := 0

namespace Writer

def wrNext (w : Writer) : Nat := (if w.rawWrite then 0 else headerLen) + w.buffered.length

def room (w : Writer) : Nat := w.stop - w.wrNext

def setError (w : Writer) (errno : Int) : Writer :=
  { w with errno := if w.errno = 0 then errno else w.errno, isClosed := true }

def padding (w : Writer) : Bytes := List.replicate (alignInt8 w.buffered.length - w.buffered.length) 0

/-- The buffer as it is written. The room for the header is taken back where there is no content. -/
def encapsulated (requestId : Nat) (w : Writer) : Bytes :=
  if w.rawWrite then w.buffered
  else if w.buffered = [] then []
  else (makeHeader w.type requestId w.buffered.length w.padding.length).bytes ++ (w.buffered ++ w.padding)

/-- `EmptyBuffProc` for a stream that stays open. A write that fails leaves the padding in the buffer. -/
def emptyBuff (requestId : Nat) (w : Writer) (c : Connection) : Writer × Connection :=
  if w.encapsulated requestId = [] then (w, c)
  else
    match c.write (w.encapsulated requestId) with
    | (none, c) => ({ w with buffered := [], isAnythingWritten := true }, c)
    | (some errno, c) =>
        ({ w with
            buffered := if w.rawWrite then w.buffered else w.buffered ++ w.padding
            isAnythingWritten := true }.setError errno.val, c)

def putStrLoop (requestId : Nat) : Nat → Bytes → Writer → Connection → Bool × Writer × Connection
  | 0, _, w, c => (false, w, c)
  | fuel + 1, str, w, c =>
      if str.length ≤ w.room then (true, { w with buffered := w.buffered ++ str }, c)
      else
        let rest := str.drop w.room
        let w := { w with buffered := w.buffered ++ str.take w.room }
        if w.isClosed then (false, w, c)
        else
          let (w, c) := w.emptyBuff requestId c
          putStrLoop requestId fuel rest w c

def putStr (requestId : Nat) (str : Bytes) (w : Writer) (c : Connection) : Bool × Writer × Connection :=
  putStrLoop requestId (str.length + 2) str w c

def putChar (requestId : Nat) (b : UInt8) (w : Writer) (c : Connection) : Bool × Writer × Connection :=
  if w.room ≠ 0 then (true, { w with buffered := w.buffered ++ [b] }, c)
  else if w.isClosed then (false, w, c)
  else
    let (w, c) := w.emptyBuff requestId c
    if w.room ≠ 0 then (true, { w with buffered := w.buffered ++ [b] }, c) else (false, w, c)

def fflush (requestId : Nat) (w : Writer) (c : Connection) : Bool × Writer × Connection :=
  if w.isClosed then (true, w, c)
  else
    let (w, c) := w.emptyBuff requestId c
    (!w.isClosed, w, c)

/-- The records that close a stream, and the request with its last writer. An error stream on which nothing was
written needs no end. -/
def writeCloseRecords (request : Request) (w : Writer) (c : Connection) : Writer × Connection :=
  let w := { w with rawWrite := true }
  let (w, c) :=
    if w.type = RecordType.stderr ∧ w.buffered = [] ∧ w.isAnythingWritten = false then (w, c)
    else (w.putStr request.requestId (makeHeader w.type request.requestId 0 0).bytes c).2
  if request.nWriters = 1 then
    (w.putStr request.requestId (endRequestRecord request.requestId request.appStatus .requestComplete) c).2
  else (w, c)

def fclose (request : Request) (w : Writer) (c : Connection) : Bool × Writer × Request × Connection :=
  if w.wasFCloseCalled then (w.errno = 0, w, request, c)
  else
    let w := { w with buffered := w.encapsulated request.requestId }
    let (w, c) := w.writeCloseRecords request c
    let (w, c) := w.emptyBuff request.requestId c
    let w := { w with wasFCloseCalled := true, isClosed := true, stop := w.wrNext }
    (w.errno = 0, w, { request with nWriters := request.nWriters - 1 }, c)

end Writer

structure Output where
  request : Request
  connection : Connection
  out : Writer
  err : Writer

inductive Side
  | out | err
deriving DecidableEq

inductive WriteCall
  | putStr (side : Side) (str : Bytes)
  | putChar (side : Side) (b : UInt8)
  | fflush (side : Side)
  | fclose (side : Side)
  | setExitStatus (status : Int)

def Output.writer (o : Output) : Side → Writer
  | .out => o.out
  | .err => o.err

def Output.withWriter (o : Output) (side : Side) (w : Writer) (c : Connection) : Output :=
  match side with
  | .out => { o with out := w, connection := c }
  | .err => { o with err := w, connection := c }

def Output.perform (o : Output) : WriteCall → Bool × Output
  | .putStr side str =>
      let (ok, w, c) := (o.writer side).putStr o.request.requestId str o.connection
      (ok, o.withWriter side w c)
  | .putChar side b =>
      let (ok, w, c) := (o.writer side).putChar o.request.requestId b o.connection
      (ok, o.withWriter side w c)
  | .fflush side =>
      let (ok, w, c) := (o.writer side).fflush o.request.requestId o.connection
      (ok, o.withWriter side w c)
  | .fclose side =>
      let (ok, w, request, c) := (o.writer side).fclose o.request o.connection
      (ok, { o.withWriter side w c with request })
  | .setExitStatus appStatus => (true, { o with request := { o.request with appStatus } })

def Output.performAll (o : Output) : List WriteCall → Output
  | [] => o
  | call :: calls => (o.perform call).2.performAll calls

def newOutput (request : Request) (connection : Connection) : Output where
  request := { request with nWriters := 2 }
  connection := connection
  out := newWriter 8192 RecordType.stdout
  err := newWriter 512 RecordType.stderr

end HvmlFpm.Fcgi
