import HvmlFpm.Library.Outcome
import HvmlFpm.Library.CString

/-!
# The multipart parser

`multipart-parser.c`. The parser is generic in the state `σ` its callbacks work on, and takes the
body in buffers of any size.
-/

namespace HvmlFpm.Multipart
open Library

inductive Assertion
  | headersMapNew | headersMapDelete | addNewHeader | partDataName | partDataEndName | partDataEndFile
deriving DecidableEq, Repr

inductive Stop
  | assertion (failed : Assertion)
  | nullDereference
  | invalidVariant
  | outOfBlock
deriving DecidableEq, Repr

abbrev CR : UInt8 := 13
abbrev LF : UInt8 := 10

inductive State
  | uninitialized | start | startBoundary | headerFieldStart | headerField | headersAlmostDone
  | headerValueStart | headerValue | headerValueAlmostDone | partDataStart | partData
  | partDataAlmostBoundary | partDataBoundary | partDataAlmostEnd | partDataEnd
  | partDataFinalHyphen | ended
deriving DecidableEq, Repr

/-- `malloc` gives one block: the boundary with its terminating NUL, and right behind it the
look-behind buffer. -/
structure Parser where
  multipartBoundary : CString
  lookbehind : Bytes
  index : Nat
  state : State
deriving DecidableEq

namespace Parser

def boundaryLength (p : Parser) : Nat := p.multipartBoundary.length

/-- The byte at `multipart_boundary[index]`: an index behind the terminating NUL reads the look-behind
buffer, one behind that leaves the block. -/
def boundaryAt (p : Parser) (index : Nat) : Option UInt8 :=
  (p.multipartBoundary.bytes ++ 0 :: p.lookbehind)[index]?

def setLookbehind (p : Parser) (k : Nat) (c : UInt8) : Option Parser :=
  if k < p.lookbehind.length then some { p with lookbehind := p.lookbehind.set k c } else none

end Parser

/-- The fresh look-behind buffer holds whatever `malloc` left there; nothing reads a byte of it before
writing it. Of the `sizeof(multipart_parser) + 2 * strlen(boundary) + 9` bytes the first 48 are in front of the
boundary, 8 less than the padded structure has. -/
def multipartParserInit (boundary : CString) : Parser where
  multipartBoundary := boundary
  lookbehind := List.replicate (boundary.length + 16) 0
  index := 0
  state := .start

variable {σ : Type}

/-- `multipart_parser_settings`, every callback present. -/
structure Settings (σ : Type) where
  onHeaderField : Bytes → σ → Outcome Stop σ σ
  onHeaderValue : Bytes → σ → Outcome Stop σ σ
  onPartData : Bytes → σ → Outcome Stop σ σ
  onPartDataBegin : σ → Outcome Stop σ σ
  onHeadersComplete : σ → Outcome Stop σ σ
  onPartDataEnd : σ → Outcome Stop σ σ
  onBodyEnd : σ → Outcome Stop σ σ

inductive Pass (σ : Type)
  | next (mark : Nat) (p : Parser) (s : σ)
  | leave (consumed : Nat) (p : Parser) (s : σ)
  | stop (why : Stop) (s : σ)

/-- `NOTIFY_CB` and `EMIT_DATA_CB`: a callback that does not return 0 makes the parser `return i`. -/
def notifyCb (i : Nat) (p : Parser) (called : Outcome Stop σ σ) (go : σ → Pass σ) : Pass σ :=
  match called with
  | .ok s => go s
  | .fail s => .leave i p s
  | .stop why s => .stop why s

def inBlock {α : Type} (s : σ) (access : Option α) (go : α → Pass σ) : Pass σ :=
  match access with
  | some a => go a
  | none => .stop .outOfBlock s

def piece (buf : Bytes) (mark i : Nat) : Bytes := (buf.take i).drop mark

/-- `(c == '-') || (tolower(c) >= 'a' && tolower(c) <= 'z')`. -/
def isHeaderNameByte (c : UInt8) : Bool :=
  c == 45 || (65 ≤ c && c ≤ 90) || (97 ≤ c && c ≤ 122)

section Switch
variable (settings : Settings σ) (buf : Bytes) (i : Nat) (c : UInt8) (isLast : Bool)

def startBoundaryCase (mark : Nat) (p : Parser) (s : σ) : Pass σ :=
  if p.index = p.boundaryLength then
    if c ≠ CR then .leave i p s else .next mark { p with index := p.index + 1 } s
  else if p.index = p.boundaryLength + 1 then
    if c ≠ LF then .leave i p s
    else
      let p := { p with index := 0 }
      notifyCb i p (settings.onPartDataBegin s) fun s =>
        .next mark { p with state := .headerFieldStart } s
  else
    inBlock s (p.boundaryAt p.index) fun b =>
      if c ≠ b then .leave i p s else .next mark { p with index := p.index + 1 } s

def headerFieldCase (mark : Nat) (p : Parser) (s : σ) : Pass σ :=
  if c = CR then .next mark { p with state := .headersAlmostDone } s
  else if c = 58 then
    notifyCb i p (settings.onHeaderField (piece buf mark i) s) fun s =>
      .next mark { p with state := .headerValueStart } s
  else if !isHeaderNameByte c then .leave i p s
  else if isLast then
    notifyCb i p (settings.onHeaderField (piece buf mark (i + 1)) s) fun s => .next mark p s
  else .next mark p s

def headerValueCase (mark : Nat) (p : Parser) (s : σ) : Pass σ :=
  if c = CR then
    notifyCb i p (settings.onHeaderValue (piece buf mark i) s) fun s =>
      .next mark { p with state := .headerValueAlmostDone } s
  else if isLast then
    notifyCb i p (settings.onHeaderValue (piece buf mark (i + 1)) s) fun s => .next mark p s
  else .next mark p s

def partDataCase (mark : Nat) (p : Parser) (s : σ) : Pass σ :=
  if c = CR then
    notifyCb i p (settings.onPartData (piece buf mark i) s) fun s =>
      inBlock s ({ p with state := .partDataAlmostBoundary }.setLookbehind 0 CR) fun p => .next i p s
  else if isLast then
    notifyCb i p (settings.onPartData (piece buf mark (i + 1)) s) fun s => .next mark p s
  else .next mark p s

/-- The emission of `len` look-behind bytes, then `mark = i --`: the loop comes back to the same byte
in `s_part_data`, which never steps back again. -/
def replayLookbehind (len : Nat) (p : Parser) (s : σ) : Pass σ :=
  notifyCb i p (settings.onPartData (p.lookbehind.take len) s) fun s =>
    partDataCase settings buf i c isLast i { p with state := .partData } s

/-- The body of the loop: one byte `c = buf[i]`. -/
def pass (mark : Nat) (p : Parser) (s : σ) : Pass σ :=
  match p.state with
  | .start => startBoundaryCase settings i c mark { p with index := 0, state := .startBoundary } s
  | .startBoundary => startBoundaryCase settings i c mark p s
  | .headerFieldStart =>
      headerFieldCase settings buf i c isLast i { p with state := .headerField } s
  | .headerField => headerFieldCase settings buf i c isLast mark p s
  | .headersAlmostDone =>
      if c ≠ LF then .leave i p s else .next mark { p with state := .partDataStart } s
  | .headerValueStart =>
      if c = 32 then .next mark p s
      else headerValueCase settings buf i c isLast i { p with state := .headerValue } s
  | .headerValue => headerValueCase settings buf i c isLast mark p s
  | .headerValueAlmostDone =>
      if c ≠ LF then .leave i p s else .next mark { p with state := .headerFieldStart } s
  | .partDataStart =>
      notifyCb i p (settings.onHeadersComplete s) fun s =>
        partDataCase settings buf i c isLast i { p with state := .partData } s
  | .partData => partDataCase settings buf i c isLast mark p s
  | .partDataAlmostBoundary =>
      if c = LF then
        inBlock s ({ p with state := .partDataBoundary }.setLookbehind 1 LF) fun p =>
          .next mark { p with index := 0 } s
      else replayLookbehind settings buf i c isLast 1 p s
  | .partDataBoundary =>
      inBlock s (p.boundaryAt p.index) fun b =>
        if b ≠ c then replayLookbehind settings buf i c isLast (2 + p.index) p s
        else
          inBlock s (p.setLookbehind (2 + p.index) c) fun p =>
            let p := { p with index := p.index + 1 }
            if p.index = p.boundaryLength then
              notifyCb i p (settings.onPartDataEnd s) fun s =>
                .next mark { p with state := .partDataAlmostEnd } s
            else .next mark p s
  | .partDataAlmostEnd =>
      if c = 45 then .next mark { p with state := .partDataFinalHyphen } s
      else if c = CR then .next mark { p with state := .partDataEnd } s
      else .leave i p s
  | .partDataFinalHyphen =>
      if c = 45 then
        notifyCb i p (settings.onBodyEnd s) fun s => .next mark { p with state := .ended } s
      else .leave i p s
  | .partDataEnd =>
      if c = LF then
        let p := { p with state := .headerFieldStart }
        notifyCb i p (settings.onPartDataBegin s) fun s => .next mark p s
      else .leave i p s
  | .ended => .next mark p s
  | .uninitialized => .leave 0 p s

end Switch

inductive Executed (σ : Type)
  | returned (consumed : Nat) (p : Parser) (s : σ)
  | stopped (why : Stop) (s : σ)

/-- The loop from `buf[i]` on; `isLast` is `i == (len - 1)`. -/
def executeFrom (settings : Settings σ) (buf : Bytes) :
    Bytes → Nat → Nat → Parser → σ → Executed σ
  | [], _, _, p, s => .returned buf.length p s
  | c :: rest, i, mark, p, s =>
      match pass settings buf i c rest.isEmpty mark p s with
      | .next mark p s => executeFrom settings buf rest (i + 1) mark p s
      | .leave consumed p s => .returned consumed p s
      | .stop why s => .stopped why s

def multipartParserExecute (settings : Settings σ) (p : Parser) (buf : Bytes) (s : σ) : Executed σ :=
  executeFrom settings buf buf 0 0 p s

/-- The caller's view of a call: one that consumed fewer bytes than it was given has failed. -/
def Executed.outcome (len : Nat) : Executed σ → Outcome Stop σ (Parser × σ)
  | .returned consumed p s => if consumed < len then .fail s else .ok (p, s)
  | .stopped why s => .stop why s

def executeChunks (settings : Settings σ) (chunks : List Bytes) (start : Parser × σ) :
    Outcome Stop σ (Parser × σ) :=
  Outcome.sequence
    (fun buf from_ => (multipartParserExecute settings from_.1 buf from_.2).outcome buf.length)
    chunks start

end HvmlFpm.Multipart
