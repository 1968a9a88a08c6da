import Mathlib.Algebra.Order.Ring.Nat
import HvmlFpm.Library.CString

/-!
# Records of FastCGI

The records of `fastcgi.h`, with the functions of `fcgiapp.c` that make their headers and bodies. A `Record` is
what stands on the wire, with a content and a padding that its header has room for.
-/

namespace HvmlFpm.Fcgi
open Library

namespace RecordType

def beginRequest : UInt8 := 1
def endRequest : UInt8 := 3
def params : UInt8 := 4
def stdin : UInt8 := 5
def stdout : UInt8 := 6
def stderr : UInt8 := 7
def getValues : UInt8 := 9
def getValuesResult : UInt8 := 10
def unknownType : UInt8 := 11

end RecordType

inductive ProtocolStatus
  | requestComplete | cantMpxConn
deriving DecidableEq

def ProtocolStatus.code : ProtocolStatus → UInt8
  | .requestComplete => 0
  | .cantMpxConn => 1

structure Header where
  version : UInt8
  type : UInt8
  requestIdB1 : UInt8
  requestIdB0 : UInt8
  contentLengthB1 : UInt8
  contentLengthB0 : UInt8
  paddingLength : UInt8
  reserved : UInt8
deriving DecidableEq

def headerLen : Nat := 8

def Header.bytes (h : Header) : Bytes :=
  [h.version, h.type, h.requestIdB1, h.requestIdB0, h.contentLengthB1, h.contentLengthB0, h.paddingLength, h.reserved]

def Header.ofBytes (buf : Bytes) : Header :=
  ⟨buf.getD 0 0, buf.getD 1 0, buf.getD 2 0, buf.getD 3 0, buf.getD 4 0, buf.getD 5 0, buf.getD 6 0, buf.getD 7 0⟩

def Header.requestId (h : Header) : Nat := 256 * h.requestIdB1.toNat + h.requestIdB0.toNat

def Header.contentLength (h : Header) : Nat := 256 * h.contentLengthB1.toNat + h.contentLengthB0.toNat

def makeHeader (type : UInt8) (requestId contentLength paddingLength : Nat) : Header where
  version := 1
  type := type
  requestIdB1 := .ofNat (requestId / 256)
  requestIdB0 := .ofNat requestId
  contentLengthB1 := .ofNat (contentLength / 256)
  contentLengthB0 := .ofNat contentLength
  paddingLength := .ofNat paddingLength
  reserved := 0

def byteAt (n : Int) (shift : Nat) : UInt8 := .ofNat (n / 2 ^ shift % 256).toNat

def makeEndRequestBody (appStatus : Int) (protocolStatus : ProtocolStatus) : Bytes :=
  [byteAt appStatus 24, byteAt appStatus 16, byteAt appStatus 8, byteAt appStatus 0, protocolStatus.code, 0, 0, 0]

def makeUnknownTypeBody (type : UInt8) : Bytes := [type, 0, 0, 0, 0, 0, 0, 0]

def alignInt8 (n : Nat) : Nat := (n + 7) / 8 * 8

theorem le_alignInt8 (n : Nat) : n ≤ alignInt8 n := by
  rw [alignInt8]
  omega

theorem alignInt8_lt (n : Nat) : alignInt8 n < n + 8 := by
  rw [alignInt8]
  omega

@[simp] theorem Header.length_bytes (h : Header) : h.bytes.length = headerLen := rfl

@[simp] theorem Header.ofBytes_bytes (h : Header) : Header.ofBytes h.bytes = h := rfl

theorem toNat_two_bytes {n : Nat} (lt : n < 2 ^ 16) : 256 * (UInt8.ofNat (n / 256)).toNat + (UInt8.ofNat n).toNat = n := by
  rw [UInt8.toNat_ofNat', UInt8.toNat_ofNat']
  omega

structure Record where
  type : UInt8
  requestId : Nat
  content : Bytes
  padding : Bytes
  reserved : UInt8
  requestId_lt : requestId < 2 ^ 16
  content_lt : content.length < 2 ^ 16
  padding_lt : padding.length < 2 ^ 8

namespace Record

def header (r : Record) : Header :=
  { makeHeader r.type r.requestId r.content.length r.padding.length with reserved := r.reserved }

def encode (r : Record) : Bytes := r.header.bytes ++ (r.content ++ r.padding)

variable (r : Record)

@[simp] theorem header_version : r.header.version = 1 := rfl

@[simp] theorem header_type : r.header.type = r.type := rfl

@[simp] theorem header_requestId : r.header.requestId = r.requestId := toNat_two_bytes r.requestId_lt

@[simp] theorem header_contentLength : r.header.contentLength = r.content.length := toNat_two_bytes r.content_lt

@[simp] theorem header_paddingLength : r.header.paddingLength.toNat = r.padding.length := by
  have fits := r.padding_lt
  change (UInt8.ofNat r.padding.length).toNat = r.padding.length
  rw [UInt8.toNat_ofNat']
  omega

def brief (type requestId : UInt8) (content padding : Bytes) : Record where
  type
  requestId := requestId.toNat
  content := content.take 255
  padding := padding.take 255
  reserved := 0
  requestId_lt := requestId.toNat_lt.trans (by decide)
  content_lt := (List.length_take_le 255 content).trans_lt (by decide)
  padding_lt := (List.length_take_le 255 padding).trans_lt (by decide)

end Record

def encodeAll (records : List Record) : Bytes := records.flatMap Record.encode

@[simp] theorem encodeAll_nil : encodeAll [] = [] := rfl

@[simp] theorem encodeAll_cons (r : Record) (records : List Record) :
    encodeAll (r :: records) = r.encode ++ encodeAll records := List.flatMap_cons

@[simp] theorem encodeAll_append (records records' : List Record) :
    encodeAll (records ++ records') = encodeAll records ++ encodeAll records' := List.flatMap_append

theorem Record.encode_ne_nil (r : Record) : r.encode ≠ [] := by
  simp [Record.encode, Header.bytes]

end HvmlFpm.Fcgi
