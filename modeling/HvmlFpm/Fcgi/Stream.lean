import HvmlFpm.Fcgi.Connection
import HvmlFpm.Fcgi.Params
import HvmlFpm.Library.Source

/-!
# Reading from a stream

The functions of `fcgiapp.c` that take bytes from an `FCGX_Stream`, over the procedure that fills its buffer.
-/

namespace HvmlFpm.Fcgi
open Library

/-- `FCGX_Request` without its streams and its socket. -/
structure Request where
  requestId : Nat
  role : Nat
  keepConnection : Bool
  isBeginProcessed : Bool
  appStatus : Int
  nWriters : Nat
deriving DecidableEq

/-- The bytes of the buffer from `rdNext` on: `avail` up to `stop`, and `rest` behind it. Bytes of local arrays
that nobody has set are those of `stack`; `fault` tells of a block that was not there or was too short. -/
structure Reader where
  avail : Bytes
  rest : Bytes
  isClosed : Bool
  errno : Int
  type : UInt8
  eorStop : Bool
  skip : Bool
  contentLen : Nat
  paddingLen : Nat
  request : Request
  connection : Connection
  stack : Nat → UInt8
  fault : Bool

def unsupportedVersion : Int := -2
def protocolError : Int := -3
def paramsError : Int := -4

def Reader.setError (r : Reader) (errno : Int) : Reader :=
  { r with errno := if r.errno = 0 then errno else r.errno, isClosed := true }

def Reader.left (r : Reader) : Nat := r.rest.length + r.connection.arriving.flatten.length

structure ParamsRead where
  returns : Bool
  params : Params
  fits : Bool

/-- `Malloc(nameLen + valueLen + 2)`: the sum of the type `int` has to be the length. -/
def pairFits (nameLen valueLen : Nat) : Bool := nameLen + valueLen + 2 < 2 ^ 31

section Fill
variable (fill : Reader → Reader)

/-- A procedure that leaves an open stream empty would trip the assertion at the end. -/
def getChar (r : Reader) : Option UInt8 × Reader :=
  if r.isClosed then (none, r)
  else
    match r.avail with
    | c :: avail => (some c, { r with avail })
    | [] =>
        let r := fill r
        if r.isClosed then (none, r)
        else
          match r.avail with
          | c :: avail => (some c, { r with avail })
          | [] => (none, r)

/-- The loop of `FCGX_GetStr`; each filling leaves less to fill with. -/
def getStrLoop : Nat → Nat → Reader → Bytes × Reader
  | 0, _, r => ([], r)
  | fuel + 1, n, r =>
      if n ≤ r.avail.length then (r.avail.take n, { r with avail := r.avail.drop n })
      else
        let moved := r.avail
        let r := { r with avail := [] }
        if r.isClosed then (moved, r)
        else
          let r := fill r
          if r.isClosed then (moved, r)
          else
            let (more, r) := getStrLoop fuel (n - moved.length) r
            (moved ++ more, r)

def getStr (n : Nat) (r : Reader) : Bytes × Reader :=
  if r.isClosed ∨ n = 0 then ([], r) else getStrLoop fill (r.left + 1) n r

def getLineLoop : Nat → Reader → Bytes × Reader
  | 0, r => ([], r)
  | n + 1, r =>
      match getChar fill r with
      | (none, r) => ([], r)
      | (some c, r) =>
          if c = 10 then ([c], r)
          else
            let (line, r) := getLineLoop n r
            (c :: line, r)

def getLine (n : Nat) (r : Reader) : Option Bytes × Reader :=
  let (line, r) := getLineLoop fill (n - 1) r
  (if line = [] ∧ 0 < n - 1 then none else some line, r)

/-- The product of two `size_t` as the `int` of `FCGX_GetStr`, which takes nothing where that is negative. -/
def itemBytes (size nmemb : Nat) : Nat := if size * nmemb % 2 ^ 32 < 2 ^ 31 then size * nmemb % 2 ^ 32 else 0

def fread (size nmemb : Nat) (r : Reader) : (Bytes × Nat) × Reader :=
  if size * nmemb % 2 ^ 64 = 0 then (([], 0), r)
  else
    let (bytes, r) := getStr fill (itemBytes size nmemb) r
    ((bytes, bytes.length / size), r)

def readLength (c : UInt8) (r : Reader) : Option Nat × Reader :=
  if 128 ≤ c then
    match getStr fill 3 r with
    | ([b2, b1, b0], r) => (some (2 ^ 24 * (c.toNat % 128) + 2 ^ 16 * b2.toNat + 2 ^ 8 * b1.toNat + b0.toNat), r)
    | (_, r) => (none, r.setError paramsError)
  else (some c.toNat, r)

def readNameValue (nameLen valueLen : Nat) (r : Reader) : Option CString × Reader :=
  let (name, r) := getStr fill nameLen r
  if name.length = nameLen then
    let (value, r) := getStr fill valueLen r
    if value.length = valueLen then (some (.ofBuffer (name ++ 61 :: value)), r)
    else (none, r.setError paramsError)
  else (none, r.setError paramsError)

def readPair (c : UInt8) (r : Reader) : (Option CString × Bool) × Reader :=
  match readLength fill c r with
  | (none, r) => ((none, true), r)
  | (some nameLen, r) =>
      match getChar fill r with
      | (none, r) => ((none, true), r.setError paramsError)
      | (some c, r) =>
          match readLength fill c r with
          | (none, r) => ((none, true), r)
          | (some valueLen, r) =>
              let (nameValue, r) := readNameValue fill nameLen valueLen r
              ((nameValue, pairFits nameLen valueLen), r)

def readParamsLoop : Nat → Params → Reader → ParamsRead × Reader
  | 0, params, r => (⟨false, params, true⟩, r)
  | fuel + 1, params, r =>
      match getChar fill r with
      | (none, r) => (⟨true, params, true⟩, r)
      | (some c, r) =>
          match readPair fill c r with
          | ((none, fits), r) => (⟨false, params, fits⟩, r)
          | ((some nameValue, fits), r) =>
              let (read, r) := readParamsLoop fuel (params.putParam nameValue) r
              ({ read with fits := fits && read.fits }, r)

def readParams (params : Params) (r : Reader) : ParamsRead × Reader :=
  readParamsLoop fill (r.avail.length + r.left + 1) params r

end Fill

end HvmlFpm.Fcgi
