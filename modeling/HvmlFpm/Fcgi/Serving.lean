import HvmlFpm.Fcgi.Reading
import HvmlFpm.Fcgi.Session
import HvmlFpm.Fcgi.Sharing

/-!
# Serving a request

An application reads from the one stream of its request and writes to the two others, in whatever order. All of them
are on one connection, on which the reader also answers the web server.
-/

namespace HvmlFpm.Fcgi
open Library

/-- A request that has been accepted. Its streams share the request and the connection of the reader. -/
structure Serving where
  reader : Reader
  out : Writer
  err : Writer

inductive Call
  | read (c : ReadCall)
  | write (c : WriteCall)

def Call.Answer : Call → Type
  | .read c => c.Answer
  | .write _ => Bool

def Serving.output (v : Serving) : Output := ⟨v.reader.request, v.reader.connection, v.out, v.err⟩

def Serving.withOutput (v : Serving) (o : Output) : Serving :=
  ⟨{ v.reader with request := o.request, connection := o.connection }, o.out, o.err⟩

def Call.perform : (c : Call) → Serving → c.Answer × Serving
  | .read c, v =>
      let (answer, reader) := c.perform fillBuffProc v.reader
      (answer, { v with reader })
  | .write c, v =>
      let (answer, o) := v.output.perform c
      (answer, v.withOutput o)

def Call.does : (c : Call) → Unread × Reply → c.Answer × (Unread × Reply)
  | .read c, (u, a) => ((c.read u).1, (c.read u).2, a)
  | .write c, (u, a) => ((a.perform c).1, u, (a.perform c).2)

/-- A piece of what is sent: a record of a stream or the end of the request, or answers of the reader. -/
inductive Sent
  | record (r : Record)
  | answers (bytes : Bytes)

def Sent.bytes : Sent → Bytes
  | .record r => r.encode
  | .answers bytes => bytes

def Sent.records (sent : List Sent) : List Record := sent.filterMap fun
  | .record r => some r
  | .answers _ => none

def Sent.replies (sent : List Sent) : Bytes := sent.flatMap fun
  | .record _ => []
  | .answers bytes => bytes

section Sent
variable (sent sent' : List Sent) (records : List Record) (bytes : Bytes)

@[simp] theorem Sent.records_append : Sent.records (sent ++ sent') = Sent.records sent ++ Sent.records sent' :=
  List.filterMap_append

@[simp] theorem Sent.replies_append : Sent.replies (sent ++ sent') = Sent.replies sent ++ Sent.replies sent' :=
  List.flatMap_append

@[simp] theorem Sent.records_map : Sent.records (records.map .record) = records := by
  induction records with
  | nil => rfl
  | cons r records ih => exact congrArg (r :: ·) ih

@[simp] theorem Sent.replies_map : Sent.replies (records.map .record) = [] := by
  induction records with
  | nil => rfl
  | cons r records ih => exact ih

@[simp] theorem Sent.bytes_map : (records.map Sent.record).flatMap Sent.bytes = encodeAll records := by
  rw [List.flatMap_map]
  rfl

end Sent

/-- The reader yields what has not been read, whatever is written beside it; what is sent for that is `more`, and what
it comes to is `t`. The writers have told what `a` is. -/
structure Goes (requestId : Nat) (t : Reader) (v : Serving) (u : Unread) (a : Reply) (sent : List Sent) (more : Bytes) :
    Prop where
  streams : Streams fillBuffProc v.reader u.bytes more t
  closed : v.reader.isClosed = u.ended
  clean : v.reader.Clean
  begun : v.reader.request.isBeginProcessed = true
  tells : Tells requestId a (Sent.records sent) v.output

section Calls
variable {requestId : Nat} {t r : Reader} {v : Serving} {u : Unread} {a : Reply} {sent : List Sent} {more bs : Bytes}

theorem Streams.beside {fill : Reader → Reader} (streams : Streams fill r bs more t) (s : Shared) :
    Streams fill (r.beside s) bs more t := streams

theorem Streams.here {fill : Reader → Reader} (streams : Streams fill r bs more t) (writable : r.connection.Writable) :
    ∃ s, r.shared.Sends more s ∧ Yields (getChar fill) r bs (t.beside s) := streams r.shared writable

theorem Streams.pulls {bs' : Bytes} (streams : Streams fillBuffProc r bs more t) (writable : r.connection.Writable) {n : Nat}
    (behind : ∀ e, Yields (getChar fillBuffProc) r bs e →
      Yields (getChar fillBuffProc) (pulls (getChar fillBuffProc) n r).2 bs' e) :
    ∃ response more', more = response ++ more' ∧
      Streams fillBuffProc (Library.pulls (getChar fillBuffProc) n r).2 bs' more' t ∧
      r.shared.Sends response (Library.pulls (getChar fillBuffProc) n r).2.shared := by
  obtain ⟨s, sends, yields⟩ := streams.here writable
  obtain ⟨x, response, goes⟩ := pulls_steady fillBuffProc_steady n r
  obtain ⟨s₁, sends₁, same⟩ := goes r.shared writable
  rw [Reader.beside_shared] at same
  have left := behind _ yields
  rw [same] at left ⊢
  obtain ⟨more', t', streams'⟩ := exists_streams fillBuffProc_steady left sends₁.writable
  obtain ⟨s₂, sends₂, yields₂⟩ := streams'.here sends₁.writable
  have ends : t.beside s = t'.beside s₂ := (left.unique yields₂).2
  have shared : s = s₂ := congrArg Reader.shared ends
  refine ⟨response, more', ?_, ?_, sends₁⟩
  · have first := sends.written
    rw [shared, (sends₁.trans sends₂).written] at first
    exact (List.append_cancel_left first).symm
  · intro s' writable'
    obtain ⟨s'', sends', yields'⟩ := streams' s' writable'
    have same : t'.beside s'' = t.beside s'' := congrArg (·.beside s'') ends.symm
    exact ⟨s'', sends', same ▸ yields'⟩

theorem Goes.read (goes : Goes requestId t v u a sent more) (c : ReadCall) :
    (c.perform fillBuffProc v.reader).1 = (c.read u).1 ∧ ∃ response more', more = response ++ more' ∧
      (c.perform fillBuffProc v.reader).2.connection.written = v.reader.connection.written ++ response ∧
      Goes requestId t { v with reader := (c.perform fillBuffProc v.reader).2 } (c.read u).2 a
        (sent ++ [.answers response]) more' := by
  have feeds := feeds_fillBuffProc v.reader.request v.reader.type
  have serves : v.reader.Serves v.reader.request v.reader.type := ⟨goes.begun, rfl, rfl⟩
  have writable : v.reader.connection.Writable := goes.tells.writable
  obtain ⟨s, -, yields⟩ := goes.streams.here writable
  have holds {e : Reader} (yields : Yields (getChar fillBuffProc) v.reader u.bytes e) :
      Holds fillBuffProc (Reader.Serves v.reader.request v.reader.type) e v.reader u := ⟨serves, yields, goes.closed⟩
  have pulled := perform_eq feeds serves yields c
  obtain ⟨answer, left⟩ := (holds yields).perform feeds c
  have reader : (c.perform fillBuffProc v.reader).2 = (pulls (getChar fillBuffProc) (c.asks u.bytes) v.reader).2 :=
    congrArg Prod.snd pulled
  obtain ⟨response, more', split, streams, sends⟩ := goes.streams.pulls (n := c.asks u.bytes) writable fun e yields =>
    reader ▸ ((holds yields).perform feeds c).2.yields
  rw [← reader] at streams sends
  refine ⟨answer, response, more', split, sends.written, streams, left.closed, ?_, ?_, ?_⟩
  · rw [reader]
    exact pulls_fillBuffProc_clean _ goes.clean
  · exact (congrArg Request.isBeginProcessed left.kept.2.1).trans goes.begun
  · have request : (c.perform fillBuffProc v.reader).2.request = v.reader.request := left.kept.2.1
    have told := goes.tells
    rw [Sent.records_append]
    change Tells requestId a (Sent.records sent ++ [])
      ⟨(c.perform fillBuffProc v.reader).2.request, (c.perform fillBuffProc v.reader).2.connection, v.out, v.err⟩
    rw [List.append_nil, request]
    exact { told with writable := sends.writable }

theorem Sends.connection {c c' : Connection} {bytes : Bytes} (sends : Sends c bytes c') :
    c' = { c with writes := c'.writes, written := c'.written } := by
  rw [← sends.arriving, ← sends.ending]

theorem Output.perform_request (o : Output) (c : WriteCall) : ∃ appStatus nWriters,
    (o.perform c).2.request = { o.request with appStatus, nWriters } := by
  cases c with
  | putStr side str => exact ⟨_, _, by rw [Output.perform, Output.withWriter_request]⟩
  | putChar side b => exact ⟨_, _, by rw [Output.perform, Output.withWriter_request]⟩
  | fflush side => exact ⟨_, _, by rw [Output.perform, Output.withWriter_request]⟩
  | fclose side =>
      rw [Output.perform, Writer.fclose]
      split_ifs
      · exact ⟨o.request.appStatus, o.request.nWriters, rfl⟩
      · exact ⟨o.request.appStatus, o.request.nWriters - 1, rfl⟩
  | setExitStatus status => exact ⟨status, o.request.nWriters, rfl⟩

theorem Goes.write (goes : Goes requestId t v u a sent more) (bound : requestId < 2 ^ 16) (c : WriteCall) :
    (v.output.perform c).1 = (a.perform c).1 ∧ ∃ records,
      (v.output.perform c).2.connection.written = v.reader.connection.written ++ encodeAll records ∧
      Goes requestId t (v.withOutput (v.output.perform c).2) u (a.perform c).2 (sent ++ records.map .record) more := by
  obtain ⟨answer, records, sends, tells⟩ := goes.tells.perform bound c
  obtain ⟨appStatus, nWriters, request⟩ := v.output.perform_request c
  have reader : (v.withOutput (v.output.perform c).2).reader = v.reader.beside
      ⟨appStatus, nWriters, (v.output.perform c).2.connection.writes, (v.output.perform c).2.connection.written⟩ := by
    change { v.reader with request := (v.output.perform c).2.request, connection := (v.output.perform c).2.connection } = _
    rw [request, sends.connection]
    rfl
  refine ⟨answer, records, sends.written, ?_, ?_, ?_, ?_, ?_⟩
  · rw [reader]
    exact goes.streams.beside _
  · rw [reader]
    exact goes.closed
  · rw [reader]
    exact goes.clean
  · rw [reader]
    exact goes.begun
  · rw [Sent.records_append, Sent.records_map]
    exact tells

end Calls

/-! ## Programs -/

def newServing (reader : Reader) : Serving where
  reader := { reader with request := { reader.request with nWriters := 2 } }
  out := newWriter 8192 RecordType.stdout
  err := newWriter 512 RecordType.stderr

section Programs
variable {α : Type} {request : Request} {r : Reader}

structure Served (request : Request) (r : Reader) (d : Demuxed) (v : Serving) (u : Unread) (a : Reply) (sent : List Sent)
    (more : Bytes) : Prop where
  written : v.reader.connection.written = r.connection.written ++ sent.flatMap Sent.bytes
  replies : d.replies = Sent.replies sent ++ more
  tells : Tells request.requestId a (Sent.records sent) v.output
  ended : u.ended = true → more = [] ∧ v.reader.errno = d.errno ∧ (d.errno = 0 → v.reader.ahead = d.rest)
  unread : u.ended = false → v.reader.errno = 0
  keepConnection : v.reader.request.keepConnection = request.keepConnection
  fault : r.fault = false → d.fits = true → v.reader.fault = false

theorem Goes.ended {requestId : Nat} {t : Reader} {v : Serving} {u : Unread} {a : Reply} {sent : List Sent} {more : Bytes}
    (goes : Goes requestId t v u a sent more) (ended : u.ended = true) : more = [] ∧ ∃ s, v.reader = t.beside s := by
  obtain ⟨s, sends, yields⟩ := goes.streams.here goes.tells.writable
  have last : getChar fillBuffProc v.reader = (none, v.reader) := getChar_closed (goes.closed.trans ended)
  obtain ⟨-, same⟩ := yields.unique (.nil last)
  have shared : s = v.reader.shared := congrArg Reader.shared same
  have written := sends.written
  rw [shared] at written
  exact ⟨List.append_right_eq_self.1 written.symm, s, same.symm⟩

theorem Goes.keeps {requestId : Nat} {t : Reader} {v : Serving} {u : Unread} {a : Reply} {sent : List Sent} {more : Bytes}
    (goes : Goes requestId t v u a sent more) : v.reader.request.keepConnection = t.request.keepConnection ∧
      (v.reader.fault = true → t.fault = true) := by
  have serves : v.reader.Serves v.reader.request v.reader.type := ⟨goes.begun, rfl, rfl⟩
  obtain ⟨s, -, yields⟩ := goes.streams.here goes.tells.writable
  have kept := (feeds_fillBuffProc v.reader.request v.reader.type).keeps_end serves yields
  refine ⟨(congrArg Request.keepConnection kept.2.1).symm, fun faulty => ?_⟩
  exact ((feeds_faulty v.reader.request v.reader.type).keeps_end ⟨serves, faulty⟩ yields).2

def Reaches (requestId : Nat) (t : Reader) (before replies : Bytes) (v : Serving) (x : Unread × Reply) : Prop :=
  ∃ sent more, v.reader.connection.written = before ++ sent.flatMap Sent.bytes ∧ replies = Sent.replies sent ++ more ∧
    Goes requestId t v x.1 x.2 sent more

section Reaches
variable {requestId : Nat} {t : Reader} {before replies : Bytes} {v : Serving} {x : Unread × Reply}

theorem Reaches.step (reached : Reaches requestId t before replies v x) (bound : requestId < 2 ^ 16) (c : Call) :
    (c.perform v).1 = (c.does x).1 ∧ Reaches requestId t before replies (c.perform v).2 (c.does x).2 := by
  obtain ⟨u, a⟩ := x
  obtain ⟨sent, more, written, split, goes⟩ := reached
  cases c with
  | read c =>
      obtain ⟨answer, response, more', rest, sends, left⟩ := goes.read c
      refine ⟨answer, _, more', sends.trans ?_, ?_, left⟩
      · simp [written, Sent.bytes]
      · simp [split, rest, Sent.replies]
  | write c =>
      obtain ⟨answer, records, sends, left⟩ := goes.write bound c
      refine ⟨answer, _, more, sends.trans ?_, ?_, left⟩
      · simp [written]
      · simp [split]

theorem Reaches.exec (reached : Reaches requestId t before replies v x) (bound : requestId < 2 ^ 16)
    (p : Program Call Call.Answer α) :
    (p.exec Call.perform v).1 = (p.exec Call.does x).1 ∧
      Reaches requestId t before replies (p.exec Call.perform v).2 (p.exec Call.does x).2 :=
  p.exec_simulated (fun c _ _ reached => reached.step bound c) reached

end Reaches

theorem Goes.reaches {requestId : Nat} {t : Reader} {v : Serving} {u : Unread} {a : Reply} {replies : Bytes}
    (start : Goes requestId t v u a [] replies) :
    Reaches requestId t v.reader.connection.written replies v (u, a) :=
  ⟨[], replies, (List.append_nil _).symm, rfl, start⟩

theorem Goes.served {t : Reader} {s : Shared} {d : Demuxed} {v : Serving} {u : Unread} {a : Reply} {sent : List Sent}
    {more : Bytes}
    (start : Goes request.requestId t (newServing r) ⟨d.bytes, false⟩ (.start request.appStatus) [] d.replies)
    (between : r.Between request RecordType.stdin) (ends : Ends r d (t.beside s))
    (goes : Goes request.requestId t v u a sent more)
    (written : v.reader.connection.written = r.connection.written ++ sent.flatMap Sent.bytes)
    (replies : d.replies = Sent.replies sent ++ more) : Served request r d v u a sent more := by
  obtain ⟨keeps, faulty⟩ := goes.keeps
  refine ⟨written, replies, goes.tells, fun ended => ?_, fun unread => goes.clean.none (goes.closed.trans unread), ?_,
    fun sound fits => ?_⟩
  · obtain ⟨none, s', left⟩ := goes.ended ended
    refine ⟨none, ?_, ?_⟩
    · rw [left]
      exact ends.errno
    · intro clean
      rw [left]
      exact ends.rest clean
  · rw [keeps, ← start.keeps.1, ← between.serves.2.1]
    rfl
  · cases now : v.reader.fault with
    | false => rfl
    | true =>
        have last : (t.beside s).fault = true := faulty now
        rw [ends.fault, sound, fits] at last
        cases last

end Programs

end HvmlFpm.Fcgi
