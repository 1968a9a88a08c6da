import HvmlFpm.Fcgi.Writing
import HvmlFpm.Library.Program

/-!
# The output of a request

What the calls of an application mean, without buffers and records: it puts bytes on two streams, closes them and
sets an exit status. The records on the wire say the same to the web server.
-/

namespace HvmlFpm.Fcgi
open Library

structure Reply where
  put : Side → Bytes
  closed : Side → Bool
  status : Int
  ended : Option Int

def Side.other : Side → Side
  | .out => .err
  | .err => .out

def Reply.append (a : Reply) (side : Side) (str : Bytes) : Reply :=
  { a with put := fun s => if s = side then a.put s ++ str else a.put s }

def Reply.perform (a : Reply) : WriteCall → Bool × Reply
  | .putStr side str => if a.closed side then (str.isEmpty, a) else (true, a.append side str)
  | .putChar side b => if a.closed side then (false, a) else (true, a.append side [b])
  | .fflush _ => (true, a)
  | .fclose side =>
      if a.closed side then (true, a)
      else
        (true, { a with
                  closed := fun s => if s = side then true else a.closed s
                  ended := if a.closed side.other then some a.status else a.ended })
  | .setExitStatus status => (true, { a with status })

def Reply.performAll (a : Reply) : List WriteCall → Reply
  | [] => a
  | call :: calls => (a.perform call).2.performAll calls

def Reply.start (status : Int) : Reply := ⟨fun _ => [], fun _ => false, status, none⟩

/-! ## What is on the wire -/

def Side.type : Side → UInt8
  | .out => RecordType.stdout
  | .err => RecordType.stderr

def Side.own (side : Side) (records : List Record) : List Record := records.filter (·.type = side.type)

def Record.IsEof (type : UInt8) (requestId : Nat) (record : Record) : Prop :=
  record.type = type ∧ record.requestId = requestId ∧ record.content = [] ∧ record.encode.length % 8 = 0

/-- All that was put on a stream, and its end. An error stream on which nothing was put has none. -/
def Finished (side : Side) (requestId : Nat) (put : Bytes) (own : List Record) : Prop :=
  (∃ carried eof, own = carried ++ [eof] ∧ (∀ record ∈ carried, record.Carries side.type requestId) ∧
    carried.flatMap Record.content = put ∧ eof.IsEof side.type requestId) ∨ (side = .err ∧ put = [] ∧ own = [])

inductive SideState (requestId : Nat) (side : Side) (put : Bytes) (own : List Record) : Writer → Bool → Prop
  | opened {w : Writer} (open' : w.Open side.type) (written : w.isAnythingWritten = !own.isEmpty)
      (carry : ∀ record ∈ own, record.Carries side.type requestId)
      (contents : own.flatMap Record.content ++ w.buffered = put) : SideState requestId side put own w false
  | closed {w : Writer} (isClosed : w.isClosed = true) (wasFCloseCalled : w.wasFCloseCalled = true) (room : w.room = 0)
      (errno : w.errno = 0) (finished : Finished side requestId put own) : SideState requestId side put own w true

def Record.IsEnd (requestId : Nat) (status : Int) (record : Record) : Prop :=
  record.type = RecordType.endRequest ∧ record.requestId = requestId ∧
    record.content = makeEndRequestBody status .requestComplete ∧ record.padding = []

/-- The end of the request is there once both streams are closed, behind everything else. -/
def Ended (requestId : Nat) (a : Reply) (records : List Record) : Prop :=
  match a.ended with
  | none => (∀ record ∈ records, record.type ≠ RecordType.endRequest) ∧ ∃ side, a.closed side = false
  | some status =>
      (∀ side, a.closed side = true) ∧ ∃ before last, records = before ++ [last] ∧ last.IsEnd requestId status ∧
        ∀ record ∈ before, record.type ≠ RecordType.endRequest

/-- The output with the records it has sent says what `a` says, but for what is in the buffers. -/
structure Tells (requestId : Nat) (a : Reply) (records : List Record) (o : Output) : Prop where
  writable : o.connection.Writable
  requestId_eq : o.request.requestId = requestId
  status : o.request.appStatus = a.status
  nWriters : o.request.nWriters = (if a.closed .out then 0 else 1) + (if a.closed .err then 0 else 1)
  sides : ∀ side, SideState requestId side (a.put side) (side.own records) (o.writer side) (a.closed side)
  types : ∀ record ∈ records, record.type = RecordType.endRequest ∨ ∃ side : Side, record.type = side.type
  ended : Ended requestId a records

section Own
variable {side : Side} {records more : List Record}

@[simp] theorem Side.own_append : side.own (records ++ more) = side.own records ++ side.own more := List.filter_append ..

theorem Side.own_all (all : ∀ record ∈ more, record.type = side.type) : side.own more = more :=
  List.filter_eq_self.2 fun record member => decide_eq_true (all record member)

theorem Side.own_none (none : ∀ record ∈ more, record.type ≠ side.type) : side.own more = [] :=
  List.filter_eq_nil_iff.2 fun record member => by simpa using none record member

theorem Side.type_ne {other : Side} (ne : other ≠ side) : other.type ≠ side.type := by
  cases side <;> cases other <;> first | exact absurd rfl ne | decide

theorem Side.type_ne_end (side : Side) : side.type ≠ RecordType.endRequest := by
  cases side <;> decide

end Own

section Closed
variable {requestId : Nat} {w : Writer} {c : Connection}

theorem putStrLoop_room {fuel : Nat} (str : Bytes) (room : str.length ≤ w.room) :
    w.putStrLoop requestId (fuel + 1) str c = (true, { w with buffered := w.buffered ++ str }, c) := by
  rw [Writer.putStrLoop, if_pos room]

theorem putStrLoop_full {fuel : Nat} {str : Bytes} (room : w.room = 0) (some : str ≠ []) :
    w.putStrLoop requestId (fuel + 1) str c =
      if w.isClosed then (false, w, c)
      else (w.emptyBuff requestId c).1.putStrLoop requestId fuel str (w.emptyBuff requestId c).2 := by
  have long : ¬ str.length ≤ w.room := by
    rw [room]
    exact Nat.not_le_of_lt (List.length_pos_iff.2 some)
  rw [Writer.putStrLoop, if_neg long]
  simp only [room, List.take_zero, List.append_nil, List.drop_zero]

theorem putStr_closed (isClosed : w.isClosed = true) (room : w.room = 0) (str : Bytes) :
    w.putStr requestId str c = (str.isEmpty, w, c) := by
  rw [Writer.putStr]
  cases str with
  | nil =>
      rw [putStrLoop_room [] (Nat.zero_le _), List.append_nil]
      rfl
  | cons b str =>
      rw [putStrLoop_full room (List.cons_ne_nil b str), if_pos isClosed]
      rfl

theorem emptyBuff_room (more : headerLen < w.stop) (room : w.room = 0) :
    (w.emptyBuff requestId c).1.room ≠ 0 ∨
      ((w.emptyBuff requestId c).1.isClosed = true ∧ (w.emptyBuff requestId c).1.room = 0) := by
  have full : w.stop ≤ (if w.rawWrite then 0 else headerLen) + w.buffered.length := Nat.sub_eq_zero_iff_le.1 room
  have some : w.buffered ≠ [] := by
    intro none
    rw [none] at full
    split_ifs at full <;> simp at full <;> omega
  have filled : w.encapsulated requestId ≠ [] := by
    rw [Writer.encapsulated]
    split_ifs
    · exact some
    · exact List.append_ne_nil_of_right_ne_nil _ (List.append_ne_nil_of_left_ne_nil some _)
  rw [Writer.emptyBuff, if_neg filled]
  cases wrote : c.write (w.encapsulated requestId) with
  | mk error c' =>
      cases error with
      | none =>
          left
          change w.stop - ((if w.rawWrite then 0 else headerLen) + ([] : Bytes).length) ≠ 0
          rw [List.length_nil]
          split_ifs <;> omega
      | some errno =>
          right
          refine ⟨rfl, Nat.sub_eq_zero_iff_le.2 ?_⟩
          change w.stop ≤ (if w.rawWrite then 0 else headerLen) +
            (if w.rawWrite then w.buffered else w.buffered ++ w.padding).length
          split_ifs at full ⊢
          · exact full
          · rw [List.length_append]
            omega

theorem putChar_eq_putStr (sound : w.isClosed = true ∨ headerLen < w.stop) (b : UInt8) :
    w.putChar requestId b c = w.putStr requestId [b] c := by
  rw [Writer.putChar, Writer.putStr]
  by_cases room : w.room = 0
  · rw [if_neg (not_not.2 room), putStrLoop_full room (List.cons_ne_nil b [])]
    cases closed : w.isClosed with
    | true => rfl
    | false =>
        have more : headerLen < w.stop := sound.resolve_left (by simp [closed])
        rw [if_neg Bool.false_ne_true, if_neg Bool.false_ne_true]
        dsimp only
        rcases emptyBuff_room (c := c) more room with some | ⟨closed', none⟩
        · rw [if_pos some, List.length_singleton, putStrLoop_room [b] (Nat.pos_of_ne_zero some)]
        · rw [if_neg (not_not.2 none), List.length_singleton, putStrLoop_full none (List.cons_ne_nil b []), if_pos closed']
  · rw [if_pos room, putStrLoop_room [b] (Nat.pos_of_ne_zero room)]

end Closed

section Step
variable {requestId : Nat} {c c' : Connection} {a : Reply} {records more : List Record} {o : Output} {side : Side}
  {w : Writer} {str : Bytes}

@[simp] theorem Output.writer_withWriter : (o.withWriter side w c').writer side = w := by
  cases side <;> rfl

theorem Output.writer_other {s : Side} (ne : s ≠ side) : (o.withWriter side w c').writer s = o.writer s := by
  cases s <;> cases side <;> first | exact absurd rfl ne | rfl

@[simp] theorem Output.withWriter_connection : (o.withWriter side w c').connection = c' := by
  cases side <;> rfl

@[simp] theorem Output.withWriter_request : (o.withWriter side w c').request = o.request := by
  cases side <;> rfl

theorem Output.withWriter_same : o.withWriter side (o.writer side) o.connection = o := by
  cases side <;> rfl

theorem Reply.append_nil : a.append side [] = a := by
  simp [Reply.append]

theorem Reply.putChar_eq_putStr (b : UInt8) : a.perform (.putChar side b) = a.perform (.putStr side [b]) := rfl

theorem Tells.open (tells : Tells requestId a records o) (open' : a.closed side = false) :
    (o.writer side).Open side.type ∧ (o.writer side).isAnythingWritten = !(side.own records).isEmpty ∧
      (∀ record ∈ side.own records, record.Carries side.type requestId) ∧
      (side.own records).flatMap Record.content ++ (o.writer side).buffered = a.put side := by
  have state := tells.sides side
  rw [open'] at state
  cases state with
  | opened open' written carry contents => exact ⟨open', written, carry, contents⟩

theorem Tells.closed (tells : Tells requestId a records o) (closed : a.closed side = true) :
    (o.writer side).isClosed = true ∧ (o.writer side).wasFCloseCalled = true ∧ (o.writer side).room = 0 ∧
      (o.writer side).errno = 0 := by
  have state := tells.sides side
  rw [closed] at state
  cases state with
  | closed isClosed wasFCloseCalled room errno finished => exact ⟨isClosed, wasFCloseCalled, room, errno⟩

theorem Tells.put (tells : Tells requestId a records o) (open' : a.closed side = false) (still : w.Open side.type)
    (writable : c'.Writable) (carry : ∀ record ∈ more, record.Carries side.type requestId)
    (contents : more.flatMap Record.content ++ w.buffered = (o.writer side).buffered ++ str)
    (written : w.isAnythingWritten = ((o.writer side).isAnythingWritten || !more.isEmpty)) :
    Tells requestId (a.append side str) (records ++ more) (o.withWriter side w c') := by
  obtain ⟨-, writtenBefore, carryBefore, contentsBefore⟩ := tells.open open'
  have own : side.own more = more := Side.own_all fun record member => (carry record member).type_eq
  refine ⟨?_, ?_, ?_, ?_, ?_, ?_, ?_⟩
  · rwa [Output.withWriter_connection]
  · rw [Output.withWriter_request]
    exact tells.requestId_eq
  · rw [Output.withWriter_request]
    exact tells.status
  · rw [Output.withWriter_request]
    exact tells.nWriters
  · intro s
    by_cases same : s = side
    · subst same
      have state : SideState requestId s (a.put s ++ str) (s.own (records ++ more)) w false := by
        refine .opened still ?_ ?_ ?_
        · rw [written, writtenBefore, Side.own_append, own]
          cases s.own records <;> simp
        · intro record member
          rw [Side.own_append, own] at member
          rcases List.mem_append.1 member with before | after
          · exact carryBefore record before
          · exact carry record after
        · rw [Side.own_append, own, List.flatMap_append, List.append_assoc, contents, ← List.append_assoc,
            contentsBefore]
      rw [Output.writer_withWriter]
      simpa only [Reply.append, if_true, open'] using state
    · have none : s.own more = [] := Side.own_none fun record member => by
        rw [(carry record member).type_eq]
        exact Side.type_ne (Ne.symm same)
      have state := tells.sides s
      rw [Output.writer_other same, Side.own_append, none, List.append_nil]
      simpa only [Reply.append, if_neg same] using state
  · intro record member
    rcases List.mem_append.1 member with before | after
    · exact tells.types record before
    · exact .inr ⟨side, (carry record after).type_eq⟩
  · have ended := tells.ended
    change Ended requestId a (records ++ more)
    rw [Ended] at ended ⊢
    cases status : a.ended with
    | none =>
        rw [status] at ended
        refine ⟨?_, ended.2⟩
        intro record member
        rcases List.mem_append.1 member with before | after
        · exact ended.1 record before
        · rw [(carry record after).type_eq]
          exact side.type_ne_end
    | some status' =>
        rw [status] at ended
        exact absurd (ended.1 side) (by simp [open'])

theorem exists_eof (type : UInt8) (bound : requestId < 2 ^ 16) :
    ∃ eof : Record, eof.IsEof type requestId ∧ eof.encode = eofBytes type requestId :=
  ⟨⟨type, requestId, [], [], 0, bound, by decide, by decide⟩, ⟨rfl, rfl, rfl, by
    change (headerLen + (([] : Bytes) ++ []).length) % 8 = 0
    decide⟩, rfl⟩

theorem exists_end (status : Int) (bound : requestId < 2 ^ 16) :
    ∃ last : Record, last.IsEnd requestId status ∧ last.encode = endRequestRecord requestId status .requestComplete :=
  ⟨⟨RecordType.endRequest, requestId, makeEndRequestBody status .requestComplete, [], 0, bound, Nat.le_of_ble_eq_true rfl,
    by decide⟩, ⟨rfl, rfl, rfl, rfl⟩, rfl⟩

/-- The records that closing a stream puts on the wire: the rest of its data, its end, and the end of the request. -/
structure Closing (request : Request) (type : UInt8) (w : Writer) (content eofs ends : List Record) : Prop where
  carry : ∀ record ∈ content, record.Carries type request.requestId
  contents : content.flatMap Record.content = w.buffered
  isEof : if w.Silent then eofs = [] else ∃ eof, eofs = [eof] ∧ eof.IsEof type request.requestId
  isEnd : if request.nWriters = 1 then ∃ last, ends = [last] ∧ last.IsEnd request.requestId request.appStatus
    else ends = []

theorem closing_records {request : Request} {type : UInt8} (open' : w.Open type) (bound : request.requestId < 2 ^ 16) :
    ∃ content eofs ends, Closing request type w content eofs ends ∧
      encodeAll (content ++ (eofs ++ ends)) = w.encapsulated request.requestId ++ closeBytes request w := by
  have first : ∃ content, encodeAll content = w.encapsulated request.requestId ∧
      (∀ record ∈ content, record.Carries type request.requestId) ∧ content.flatMap Record.content = w.buffered := by
    by_cases none : w.buffered = []
    · refine ⟨[], ?_, by simp, none.symm⟩
      rw [Writer.encapsulated, if_neg (by simp [open'.rawWrite]), if_pos none, encodeAll_nil]
    · obtain ⟨record, carries, content, encode, -⟩ := open'.record bound none
      refine ⟨[record], ?_, ?_, ?_⟩
      · rw [encodeAll_cons, encodeAll_nil, List.append_nil, encode]
      · intro other member
        rw [List.mem_singleton.1 member]
        exact carries
      · rw [List.flatMap_cons, List.flatMap_nil, List.append_nil, content]
  have second : ∃ eofs, encodeAll eofs = (if w.Silent then [] else eofBytes w.type request.requestId) ∧
      if w.Silent then eofs = [] else ∃ eof, eofs = [eof] ∧ eof.IsEof type request.requestId := by
    by_cases silent : w.Silent
    · exact ⟨[], by rw [if_pos silent, encodeAll_nil], by rw [if_pos silent]⟩
    · obtain ⟨eof, isEof, encode⟩ := exists_eof type bound
      refine ⟨[eof], ?_, by rw [if_neg silent]; exact ⟨eof, rfl, isEof⟩⟩
      rw [if_neg silent, encodeAll_cons, encodeAll_nil, List.append_nil, encode, open'.type_eq]
  have third : ∃ ends, encodeAll ends = (if request.nWriters = 1 then
        endRequestRecord request.requestId request.appStatus .requestComplete else []) ∧
      if request.nWriters = 1 then ∃ last, ends = [last] ∧ last.IsEnd request.requestId request.appStatus
      else ends = [] := by
    by_cases last : request.nWriters = 1
    · obtain ⟨record, isEnd, encode⟩ := exists_end request.appStatus bound
      refine ⟨[record], ?_, by rw [if_pos last]; exact ⟨record, rfl, isEnd⟩⟩
      rw [if_pos last, encodeAll_cons, encodeAll_nil, List.append_nil, encode]
    · exact ⟨[], by rw [if_neg last, encodeAll_nil], by rw [if_neg last]⟩
  obtain ⟨content, bytes, carry, contents⟩ := first
  obtain ⟨eofs, eofsBytes, isEof⟩ := second
  obtain ⟨ends, endsBytes, isEnd⟩ := third
  refine ⟨content, eofs, ends, ⟨carry, contents, isEof, isEnd⟩, ?_⟩
  rw [encodeAll_append, encodeAll_append, bytes, eofsBytes, endsBytes, closeBytes]

theorem Side.other_ne (side : Side) : side.other ≠ side := by
  cases side <;> decide

theorem Side.eq_or_other (side s : Side) : s = side ∨ s = side.other := by
  cases side <;> cases s <;> decide

theorem carries_nil {type : UInt8} {own : List Record} (carry : ∀ record ∈ own, record.Carries type requestId)
    (none : own.flatMap Record.content = []) : own = [] := by
  cases own with
  | nil => rfl
  | cons record own =>
      rw [List.flatMap_cons] at none
      exact absurd (List.append_eq_nil_iff.1 none).1 (carry record List.mem_cons_self).content

theorem Tells.silent (tells : Tells requestId a records o) (open' : a.closed side = false) :
    (o.writer side).Silent ↔ side = .err ∧ a.put side = [] := by
  obtain ⟨state, written, carry, contents⟩ := tells.open open'
  have err : side.type = RecordType.stderr ↔ side = .err := by cases side <;> decide
  rw [Writer.Silent, state.type_eq, err, written, ← contents]
  constructor
  · rintro ⟨isErr, none, nothing⟩
    have empty : side.own records = [] := by simpa using nothing
    exact ⟨isErr, by rw [empty, none]; rfl⟩
  · rintro ⟨isErr, none⟩
    obtain ⟨nothing, empty⟩ := List.append_eq_nil_iff.1 none
    exact ⟨isErr, empty, by rw [carries_nil carry nothing]; rfl⟩

theorem Tells.notEnded (tells : Tells requestId a records o) (open' : a.closed side = false) :
    a.ended = none ∧ ∀ record ∈ records, record.type ≠ RecordType.endRequest := by
  have ended := tells.ended
  rw [Ended] at ended
  cases status : a.ended with
  | none =>
      rw [status] at ended
      exact ⟨rfl, ended.1⟩
  | some status' =>
      rw [status] at ended
      exact absurd (ended.1 side) (by simp [open'])

theorem Tells.last (tells : Tells requestId a records o) (open' : a.closed side = false) :
    o.request.nWriters = 1 ↔ a.closed side.other = true := by
  rw [tells.nWriters]
  cases side <;> cases other : a.closed _ <;> simp_all [Side.other]

theorem Reply.perform_fclose (open' : a.closed side = false) :
    (a.perform (.fclose side)).2 =
      { a with
          closed := fun s => if s = side then true else a.closed s
          ended := if a.closed side.other then some a.status else a.ended } := by
  rw [Reply.perform, if_neg (by simp [open'])]

section Closing
variable {content eofs ends : List Record}

theorem Closing.type_eq {request : Request} {type : UInt8} (closing : Closing request type w content eofs ends) :
    ∀ record ∈ content ++ eofs, record.type = type := by
  intro record member
  rcases List.mem_append.1 member with here | eof
  · exact (closing.carry record here).type_eq
  · have isEof := closing.isEof
    split_ifs at isEof with quiet
    · rw [isEof] at eof
      cases eof
    · obtain ⟨last, rfl, isEof⟩ := isEof
      rw [List.mem_singleton.1 eof]
      exact isEof.1

theorem Closing.end_type {request : Request} {type : UInt8} (closing : Closing request type w content eofs ends) :
    ∀ record ∈ ends, record.type = RecordType.endRequest := by
  intro record member
  have isEnd := closing.isEnd
  split_ifs at isEnd with last
  · obtain ⟨last, rfl, isEnd⟩ := isEnd
    rw [List.mem_singleton.1 member]
    exact isEnd.1
  · rw [isEnd] at member
    cases member

theorem Closing.own_end {request : Request} {type : UInt8} (closing : Closing request type w content eofs ends) (s : Side) :
    s.own ends = [] :=
  Side.own_none fun record member => by
    rw [closing.end_type record member]
    exact s.type_ne_end.symm

theorem Closing.own {request : Request} (closing : Closing request side.type w content eofs ends) :
    side.own (content ++ (eofs ++ ends)) = content ++ eofs := by
  rw [← List.append_assoc, Side.own_append, Side.own_all closing.type_eq, closing.own_end, List.append_nil]

theorem Closing.own_other {request : Request} {s : Side} (closing : Closing request side.type w content eofs ends)
    (ne : s ≠ side) : s.own (content ++ (eofs ++ ends)) = [] := by
  have none : s.own (content ++ eofs) = [] := Side.own_none fun record member => by
    rw [closing.type_eq record member]
    exact Side.type_ne (Ne.symm ne)
  rw [← List.append_assoc, Side.own_append, none, closing.own_end, List.append_nil]

theorem Tells.closing_types (tells : Tells requestId a records o)
    (closing : Closing o.request side.type (o.writer side) content eofs ends) :
    ∀ record ∈ records ++ (content ++ (eofs ++ ends)),
      record.type = RecordType.endRequest ∨ ∃ side : Side, record.type = side.type := by
  intro record member
  rw [← List.append_assoc content] at member
  rcases List.mem_append.1 member with before | more
  · exact tells.types record before
  · rcases List.mem_append.1 more with here | last
    · exact .inr ⟨side, closing.type_eq record here⟩
    · exact .inl (closing.end_type record last)

variable (tells : Tells requestId a records o) (open' : a.closed side = false)
  (closing : Closing o.request side.type (o.writer side) content eofs ends)
include tells open' closing

theorem Tells.finished : Finished side requestId (a.put side) (side.own (records ++ (content ++ (eofs ++ ends)))) := by
  obtain ⟨-, -, carryBefore, contentsBefore⟩ := tells.open open'
  rw [Side.own_append, closing.own]
  obtain ⟨carry, contents, isEof, -⟩ := closing
  rw [tells.requestId_eq] at carry isEof
  by_cases quiet : (o.writer side).Silent
  · obtain ⟨isErr, none⟩ := (tells.silent open').1 quiet
    rw [if_pos quiet] at isEof
    rw [none] at contentsBefore
    obtain ⟨nothing, empty⟩ := List.append_eq_nil_iff.1 contentsBefore
    refine .inr ⟨isErr, none, ?_⟩
    rw [carries_nil carryBefore nothing, carries_nil carry (contents.trans empty), isEof]
    rfl
  · rw [if_neg quiet] at isEof
    obtain ⟨eof, rfl, isEof⟩ := isEof
    refine .inl ⟨side.own records ++ content, eof, (List.append_assoc _ _ _).symm, ?_, ?_, isEof⟩
    · intro record member
      rcases List.mem_append.1 member with before | after
      · exact carryBefore record before
      · exact carry record after
    · rw [List.flatMap_append, contents, contentsBefore]

theorem Tells.closing_ended :
    Ended requestId (a.perform (.fclose side)).2 (records ++ (content ++ (eofs ++ ends))) := by
  obtain ⟨notEnded, noEnd⟩ := tells.notEnded open'
  have isEnd := closing.isEnd
  have front : ∀ record ∈ records ++ (content ++ eofs), record.type ≠ RecordType.endRequest := by
    intro record member
    rcases List.mem_append.1 member with before | more
    · exact noEnd record before
    · rw [closing.type_eq record more]
      exact side.type_ne_end
  rw [Reply.perform_fclose open', Ended]
  -- The end record goes out with the stream that is closed last.
  cases other : a.closed side.other with
  | true =>
      rw [if_pos ((tells.last open').2 other)] at isEnd
      obtain ⟨last, rfl, isEnd⟩ := isEnd
      rw [if_pos rfl]
      refine ⟨?_, records ++ (content ++ eofs), last, by simp, ?_, front⟩
      · intro s
        rcases side.eq_or_other s with rfl | rfl
        · exact if_pos rfl
        · exact (if_neg side.other_ne).trans other
      · rwa [tells.status, tells.requestId_eq] at isEnd
  | false =>
      rw [if_neg (by rw [tells.last open', other]; exact Bool.false_ne_true)] at isEnd
      rw [if_neg Bool.false_ne_true, isEnd, List.append_nil, notEnded]
      exact ⟨front, side.other, (if_neg side.other_ne).trans other⟩

end Closing

theorem Tells.close (tells : Tells requestId a records o) (bound : requestId < 2 ^ 16) (open' : a.closed side = false) :
    ∃ more w c', (o.writer side).fclose o.request o.connection =
        (true, w, { o.request with nWriters := o.request.nWriters - 1 }, c') ∧ Sends o.connection (encodeAll more) c' ∧
      Tells requestId (a.perform (.fclose side)).2 (records ++ more)
        { o.withWriter side w c' with request := { o.request with nWriters := o.request.nWriters - 1 } } := by
  have state := (tells.open open').1
  have bound' : o.request.requestId < 2 ^ 16 := tells.requestId_eq ▸ bound
  obtain ⟨w, c', goes, isClosed, wasFCloseCalled, room, errno, sends⟩ := fclose_open state bound' tells.writable
  obtain ⟨content, eofs, ends, closing, bytes⟩ := closing_records state bound'
  rw [← bytes] at sends
  have ended := tells.closing_ended open' closing
  refine ⟨content ++ (eofs ++ ends), w, c', goes, sends, ?_⟩
  rw [Reply.perform_fclose open'] at ended ⊢
  refine ⟨?_, tells.requestId_eq, tells.status, ?_, ?_, tells.closing_types closing, ended⟩
  · change (o.withWriter side w c').connection.Writable
    rw [Output.withWriter_connection]
    exact sends.writable
  · change o.request.nWriters - 1 = _
    rw [tells.nWriters]
    cases side <;> simp [open']
  · intro s
    change SideState requestId s (a.put s) (s.own (records ++ (content ++ (eofs ++ ends))))
      ((o.withWriter side w c').writer s) (if s = side then true else a.closed s)
    -- No record of one stream is a record of the other.
    by_cases same : s = side
    · subst same
      rw [if_pos rfl, Output.writer_withWriter]
      exact .closed isClosed wasFCloseCalled room errno (tells.finished open' closing)
    · rw [if_neg same, Output.writer_other same, Side.own_append, closing.own_other same, List.append_nil]
      exact tells.sides s

theorem Tells.perform (tells : Tells requestId a records o) (bound : requestId < 2 ^ 16) (call : WriteCall) :
    (o.perform call).1 = (a.perform call).1 ∧
      ∃ more, Sends o.connection (encodeAll more) (o.perform call).2.connection ∧
        Tells requestId (a.perform call).2 (records ++ more) (o.perform call).2 := by
  have stays : ∃ more, Sends o.connection (encodeAll more) o.connection ∧ Tells requestId a (records ++ more) o :=
    ⟨[], .refl tells.writable, by rwa [List.append_nil]⟩
  -- `FCGX_PutChar` comes to a `FCGX_PutStr` of one byte, so both take the same case.
  have puts (side : Side) (str : Bytes) :
      ((o.writer side).putStr o.request.requestId str o.connection).1 = (a.perform (.putStr side str)).1 ∧
        ∃ more, Sends o.connection (encodeAll more) ((o.writer side).putStr o.request.requestId str o.connection).2.2 ∧
          Tells requestId (a.perform (.putStr side str)).2 (records ++ more)
            (o.withWriter side ((o.writer side).putStr o.request.requestId str o.connection).2.1
              ((o.writer side).putStr o.request.requestId str o.connection).2.2) := by
    rw [Reply.perform]
    cases closed : a.closed side with
    | true =>
        obtain ⟨isClosed, -, room, -⟩ := tells.closed closed
        rw [putStr_closed isClosed room str, if_pos rfl]
        dsimp only
        rw [Output.withWriter_same]
        exact ⟨rfl, stays⟩
    | false =>
        obtain ⟨open', -⟩ := tells.open closed
        obtain ⟨more, w, c', goes, still, sends, carry, contents, written⟩ :=
          putStr_open open' bound tells.writable str
        rw [tells.requestId_eq, goes, if_neg Bool.false_ne_true]
        exact ⟨rfl, more, sends, tells.put closed still sends.writable carry contents written⟩
  cases call with
  | putStr side str =>
      obtain ⟨result, more, sends, left⟩ := puts side str
      exact ⟨result, more, by rwa [Output.perform, Output.withWriter_connection], left⟩
  | putChar side b =>
      have sound : (o.writer side).isClosed = true ∨ headerLen < (o.writer side).stop := by
        cases closed : a.closed side with
        | true => exact .inl (tells.closed closed).1
        | false => exact .inr (tells.open closed).1.more
      obtain ⟨result, more, sends, left⟩ := puts side [b]
      rw [Output.perform, putChar_eq_putStr sound, Reply.putChar_eq_putStr]
      exact ⟨result, more, by rwa [Output.withWriter_connection], left⟩
  | fflush side =>
      rw [Output.perform, Writer.fflush, Reply.perform]
      cases closed : a.closed side with
      | true =>
          obtain ⟨isClosed, -⟩ := tells.closed closed
          rw [if_pos isClosed]
          dsimp only
          rw [Output.withWriter_same]
          exact ⟨rfl, stays⟩
      | false =>
          obtain ⟨open', -⟩ := tells.open closed
          obtain ⟨more, c', goes, sends, carry, contents⟩ := emptyBuff_open open' bound tells.writable
          have emptied : Writer.Open side.type { o.writer side with
              buffered := [], isAnythingWritten := (o.writer side).isAnythingWritten || !more.isEmpty } :=
            { open' with fits := Nat.le_of_lt open'.more }
          rw [if_neg (by simp [open'.isClosed]), tells.requestId_eq, goes]
          refine ⟨by rw [open'.isClosed]; rfl, more, by rwa [Output.withWriter_connection], ?_⟩
          have put : Tells requestId (a.append side []) _ _ :=
            tells.put closed emptied sends.writable carry (by rw [contents]) rfl
          rwa [Reply.append_nil] at put
  | fclose side =>
      rw [Output.perform]
      cases closed : a.closed side with
      | true =>
          obtain ⟨-, wasFCloseCalled, -, errno⟩ := tells.closed closed
          rw [Writer.fclose, if_pos wasFCloseCalled, Reply.perform, if_pos closed, errno]
          dsimp only
          rw [Output.withWriter_same]
          exact ⟨rfl, stays⟩
      | false =>
          obtain ⟨more, w, c', goes, sends, left⟩ := tells.close bound closed
          rw [goes]
          exact ⟨by rw [Reply.perform, if_neg (by simp [closed])], more, by rwa [Output.withWriter_connection], left⟩
  | setExitStatus status =>
      refine ⟨rfl, [], .refl tells.writable, ?_⟩
      rw [List.append_nil]
      exact { tells with status := rfl }

end Step

/-! ## Programs -/

section Programs
variable {α : Type} {request : Request} {c : Connection}

end Programs

end HvmlFpm.Fcgi
