import HvmlFpm.Fcgi.Record
import HvmlFpm.Fcgi.Stream

/-!
# Filling the buffer of a reader

`FillBuffProc` of `fcgiapp.c` takes the records of a connection apart. Interpreting a header may read the content of
its record through the same procedure; `eorStop` keeps that call from getting to another header, so two levels of
it are enough.
-/

namespace HvmlFpm.Fcgi
open Library

inductive Status
  | streamRecord | skip | beginRecord | mgmtRecord
  | error (errno : Int)
deriving DecidableEq

inductive Turn
  | returns (r : Reader)
  | continues (r : Reader) (header : Bytes)

/-- The size of a buffer that is aligned as `malloc` aligns it. -/
def bufferSize (bufflen : Nat) : Nat := alignInt8 (min (max bufflen 32) (2 ^ 16))

/-- The buffer is filled where it is empty. A reader reads up to 8192 bytes. -/
def refill (r : Reader) : Except Reader Reader :=
  if r.rest = [] then
    match readPieces (bufferSize 8192) r.connection.arriving with
    | some (rest, arriving) => .ok { r with rest, connection := { r.connection with arriving } }
    | none =>
        match r.connection.ending with
        | .closed => .error (r.setError protocolError)
        | .failed errno => .error (r.setError errno.val)
  else .ok r

section Loop
variable (process : Header → Reader → Status × Reader)

def interpreted : Status × Reader → Turn
  | (status, r) =>
      let r := { r with eorStop := false, isClosed := false }
      match status with
      | .streamRecord => if r.contentLen = 0 then .returns { r with avail := [], isClosed := true } else .continues r []
      | .skip => .continues { r with skip := true } []
      | .beginRecord => .returns r
      | .mgmtRecord => .continues r []
      | .error errno => .returns (r.setError errno)

def behindRecord (r : Reader) (header : Bytes) : Turn :=
  if r.eorStop then .returns { r with avail := [], isClosed := true }
  else
    let count := min (headerLen - header.length) r.rest.length
    let header := header ++ r.rest.take count
    let r := { r with rest := r.rest.drop count }
    if header.length < headerLen then .continues r header
    else interpreted (process (.ofBytes header) { r with eorStop := true, avail := [] })

def behindContent (r : Reader) (header : Bytes) : Turn :=
  if 0 < r.paddingLen then
    let count := min r.paddingLen r.rest.length
    let r := { r with paddingLen := r.paddingLen - count, rest := r.rest.drop count }
    if 0 < r.paddingLen then .continues r header else behindRecord process r header
  else behindRecord process r header

def filledTurn (r : Reader) (header : Bytes) : Turn :=
  if 0 < r.contentLen then
    let count := min r.contentLen r.rest.length
    let r := { r with contentLen := r.contentLen - count }
    if r.skip then
      let r := { r with rest := r.rest.drop count }
      if 0 < r.contentLen then .continues r header
      else behindContent process { r with skip := false } header
    else .returns { r with avail := r.rest.take count, rest := r.rest.drop count }
  else behindContent process r header

def fillTurn (r : Reader) (header : Bytes) : Turn :=
  match refill r with
  | .error r => .returns r
  | .ok r => filledTurn process r header

def fillLoop : Nat → Reader → Bytes → Reader
  | 0, r, _ => r
  | fuel + 1, r, header =>
      match fillTurn process r header with
      | .returns r => r
      | .continues r header => fillLoop fuel r header

/-- Every turn that goes on uses up a byte. -/
def fillBuff (r : Reader) : Reader := fillLoop process (r.left + 1) r []

end Loop

def fillRecord : Reader → Reader := fillBuff fun _ r => (.error 0, r)

def Reader.write (r : Reader) (buf : Bytes) : Option Errno × Reader :=
  let (error, connection) := r.connection.write buf
  (error, { r with connection })

def respond (response : Bytes) (status : Status) (r : Reader) : Status × Reader :=
  match r.write response with
  | (none, r) => (status, r)
  | (some errno, r) => (.error (-1), r.setError errno.val)

def valueOf (name : CString) : Option UInt8 :=
  if name = .lit "FCGI_MAX_CONNS" then some 49
  else if name = .lit "FCGI_MAX_REQS" then some 49
  else if name = .lit "FCGI_MPXS_CONNS" then some 48
  else none

def valueEntry (nameValue : CString) : Bytes :=
  let name := nameValue.takeWhile (· != 61)
  match valueOf name with
  | some value => .ofNat name.length :: 1 :: (name.bytes ++ [value])
  | none => []

/-- The values, the NUL of the last `sprintf` and what was in the array of 64 bytes before. -/
def valuesResponse (stack : Nat → UInt8) (vec : List CString) : Bytes :=
  let values := vec.flatMap valueEntry
  let padding := alignInt8 values.length - values.length
  (makeHeader RecordType.getValuesResult 0 values.length padding).bytes ++ values ++
    (List.range padding).map fun i => if i = 0 then 0 else stack (headerLen + values.length + i)

/-- The array holds a header, the values and a NUL. -/
def responseFits (vec : List CString) : Bool := headerLen + (vec.flatMap valueEntry).length + 1 ≤ 64

def processManagementRecord (type : UInt8) (r : Reader) : Status × Reader :=
  if type = RecordType.getValues then
    let (read, r) := readParams fillRecord (newParams 3 (by decide)) r
    let r := { r with fault := r.fault || !read.fits }
    if r.errno ≠ 0 ∨ r.contentLen ≠ 0 then (.error protocolError, r)
    else
      respond (valuesResponse r.stack read.params.vec) .mgmtRecord
        { r with fault := r.fault || !responseFits read.params.vec }
  else
    respond ((makeHeader RecordType.unknownType 0 headerLen 0).bytes ++ makeUnknownTypeBody type) .mgmtRecord r

def endRequestRecord (requestId : Nat) (appStatus : Int) (protocolStatus : ProtocolStatus) : Bytes :=
  (makeHeader RecordType.endRequest requestId 8 0).bytes ++ makeEndRequestBody appStatus protocolStatus

def Request.begin (request : Request) (body : Bytes) : Request :=
  { request with
      keepConnection := body.getD 2 0 % 2 = 1
      role := 256 * (body.getD 0 0).toNat + (body.getD 1 0).toNat
      isBeginProcessed := true }

def processBeginRecord (requestId : Nat) (r : Reader) : Status × Reader :=
  if requestId = 0 ∨ r.contentLen ≠ 8 then (.error protocolError, r)
  else if r.request.isBeginProcessed then respond (endRequestRecord requestId 0 .cantMpxConn) .skip r
  else
    let (body, r) := getStr fillRecord 8 { r with request := { r.request with requestId } }
    if body.length = 8 then (.beginRecord, { r with request := r.request.begin body }) else (.error protocolError, r)

def processHeader (header : Header) (r : Reader) : Status × Reader :=
  if header.version ≠ 1 then (.error unsupportedVersion, r)
  else
    let r := { r with contentLen := header.contentLength, paddingLen := header.paddingLength.toNat }
    if header.type = RecordType.beginRequest then processBeginRecord header.requestId r
    else if header.requestId = 0 then processManagementRecord header.type r
    else if header.requestId ≠ r.request.requestId then (.skip, r)
    else if header.type ≠ r.type then (.error protocolError, r)
    else (.streamRecord, r)

def fillBuffProc : Reader → Reader := fillBuff processHeader

def newReader (request : Request) (connection : Connection) (stack : Nat → UInt8) (type : UInt8) : Reader where
  avail := []
  rest := []
  isClosed := false
  errno := 0
  type := type
  eorStop := false
  skip := false
  contentLen := 0
  paddingLen := 0
  request := request
  connection := connection
  stack := stack
  fault := false

def setReaderType (r : Reader) (type : UInt8) : Reader :=
  { r with
      type, avail := [], rest := r.avail ++ r.rest, eorStop := false, skip := false, contentLen := 0, paddingLen := 0
      isClosed := false }

end HvmlFpm.Fcgi
