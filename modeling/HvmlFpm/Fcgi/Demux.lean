import HvmlFpm.Fcgi.Opened

/-!
# Taking the records of a connection apart

What the records of a connection mean to a stream of a request that has begun: the bytes that the application
reads, the replies that the web server gets, and how the stream ends. `FillBuffProc` gives just that.
-/

namespace HvmlFpm.Fcgi
open Library

/-- How a stream goes on: the bytes for the application, the replies, the error at the end (0 for the end of the
stream data), whether all blocks were long enough, and what is left behind the stream data. -/
structure Demuxed where
  bytes : Bytes
  replies : Bytes
  errno : Int
  fits : Bool
  rest : Bytes

def Demuxed.stop (errno : Int) : Demuxed := ⟨[], [], errno, true, []⟩

def Demuxed.give (bytes : Bytes) (d : Demuxed) : Demuxed := { d with bytes := bytes ++ d.bytes }

def Demuxed.reply (response : Bytes) (d : Demuxed) : Demuxed := { d with replies := response ++ d.replies }

def Demuxed.fit (fits : Bool) (d : Demuxed) : Demuxed := { d with fits := fits && d.fits }

def unknownTypeRecord (type : UInt8) : Bytes :=
  (makeHeader RecordType.unknownType 0 headerLen 0).bytes ++ makeUnknownTypeBody type

section Demux
variable (requestId : Nat) (type : UInt8) (stack : Nat → UInt8) (ending : Ending)

/-- `skip` tells whether the next content is dropped. It stays set where a record that is to be dropped has none. -/
def demux : Bool → List Record → Demuxed
  | _, [] => .stop ending.errno
  | skip, record :: records =>
      let content := if skip then [] else record.content
      let later := demux (if record.content = [] then skip else false) records
      if record.type = RecordType.beginRequest then
        if record.requestId = 0 ∨ record.content.length ≠ 8 then .stop protocolError
        else (demux false records).reply (endRequestRecord record.requestId 0 .cantMpxConn)
      else if record.requestId = 0 then
        if record.type = RecordType.getValues then
          let parsed := parsePairs content
          if WantsMore skip record.content record.padding (encodeAll records) then
            (Demuxed.stop ending.errno).fit parsed.fits
          else if parsed.complete then
            let vec := parsed.pairs.map NameValue.entry
            (later.reply (valuesResponse stack vec)).fit (parsed.fits && responseFits vec)
          else (Demuxed.stop paramsError).fit parsed.fits
        else (later.give content).reply (unknownTypeRecord record.type)
      else if record.requestId ≠ requestId then demux (if record.content = [] then true else false) records
      else if record.type ≠ type then .stop protocolError
      else if record.content = [] then { Demuxed.stop 0 with rest := record.padding ++ encodeAll records }
      else later.give content

end Demux

section Step
variable {w : Reader} {content padding tail : Bytes}

theorem Ending.errno_ne_zero (ending : Ending) : ending.errno ≠ 0 := by
  cases ending with
  | closed => decide
  | failed errno =>
      have pos := errno.property
      change (errno.val : Int) ≠ 0
      omega

structure Ends (w : Reader) (d : Demuxed) (e : Reader) : Prop where
  errno : e.errno = d.errno
  written : e.connection.written = w.connection.written ++ d.replies
  fault : e.fault = (w.fault || !d.fits)
  rest : d.errno = 0 → e.ahead = d.rest
  writable : w.connection.Writable → e.connection.Writable
  ending : e.connection.ending = w.connection.ending
  stack : e.stack = w.stack

theorem ends_whole {d : Demuxed} {e : Reader} : Ends w d e.whole ↔ Ends w d e := by
  constructor
  · intro ends
    exact ⟨ends.errno, ends.written, ends.fault, fun none => e.whole_ahead.symm.trans (ends.rest none), ends.writable,
      ends.ending, ends.stack⟩
  · intro ends
    exact ⟨ends.errno, ends.written, ends.fault, fun none => e.whole_ahead.trans (ends.rest none), ends.writable,
      ends.ending, ends.stack⟩

theorem Ends.of_whole {d : Demuxed} {e e' : Reader} (ends : Ends w d e) (same : e.whole = e'.whole) : Ends w d e' :=
  ends_whole.1 (same ▸ ends_whole.2 ends)

theorem respond_writable {r : Reader} (response : Bytes) (status : Status) (writable : r.connection.Writable) :
    ∃ c, respond response status r = (status, { r with connection := c }) ∧ c.Writable ∧
      c.written = r.connection.written ++ response ∧ c.arriving = r.connection.arriving ∧
      c.ending = r.connection.ending := by
  obtain ⟨c, goes, left⟩ := writable.write response
  refine ⟨c, ?_, left⟩
  rw [respond, Reader.write, goes]

theorem frame_connection {r r' : Reader} (same : r.frame = r'.frame) : r.connection.written = r'.connection.written ∧
    r.connection.writes = r'.connection.writes ∧ r.connection.ending = r'.connection.ending := by
  have connection := congrArg (·.2.2.2.2) same
  exact ⟨(congrArg Connection.written connection :), (congrArg Connection.writes connection :),
    (congrArg Connection.ending connection :)⟩

theorem ends_stop {t : Reader} (frame : t.frame = w.frame) (failed : t.errno ≠ 0)
    (fits : Bool) : Ends w ((Demuxed.stop t.errno).fit fits) { t with fault := t.fault || !fits } := by
  obtain ⟨written, writes, ending⟩ := frame_connection frame
  have fault : t.fault = w.fault := congrArg (·.2.2.2.1) frame
  have stack : t.stack = w.stack := congrArg (·.2.2.1) frame
  refine ⟨rfl, written.trans (List.append_nil _).symm, ?_, fun none => absurd none failed, ?_, ending, stack⟩
  · rw [fault]
    simp [Demuxed.fit, Demuxed.stop]
  · intro writable
    rw [Connection.Writable, writes]
    exact writable

section Values
variable (before : w.AtHeader) (errno : w.errno = 0)
include errno

theorem stopped_errno : (w.stopped content padding tail).errno =
    if WantsMore w.skip content padding tail then w.connection.ending.errno else 0 := by
  rw [Reader.stopped]
  split_ifs
  · exact if_pos errno
  · exact errno

include before

theorem inRecord_read (content padding tail : Bytes) : ∃ e : Reader, e.avail = [] ∧ e.contentLen = 0 ∧
    e.errno = (if WantsMore w.skip content padding tail then w.connection.ending.errno else 0) ∧
    e.frame = w.frame ∧ e.whole = (w.stopped content padding tail).whole ∧
    ∀ params : Params, readParams fillRecord params (w.inRecord content padding tail) =
      (⟨(parsePairs (if w.skip then [] else content)).complete,
        params.putAll ((parsePairs (if w.skip then [] else content)).pairs.map NameValue.entry),
        (parsePairs (if w.skip then [] else content)).fits⟩,
        if (parsePairs (if w.skip then [] else content)).complete then e else e.setError paramsError) := by
  obtain ⟨e, yields, empty, whole⟩ := inRecord_yields content padding tail before
  have contentLen := congrArg Reader.contentLen whole
  have stopped : (w.stopped content padding tail).whole.contentLen = 0 := by
    rw [Reader.whole_contentLen, Reader.stopped]
    split_ifs
    · simp [Reader.setError, before.contentLen, before.avail]
    · simp [Reader.passed, before.contentLen, before.avail]
  rw [stopped, Reader.whole_contentLen] at contentLen
  have same : e.errno = (w.stopped content padding tail).errno := (congrArg Reader.errno whole :)
  have frame : e.whole.frame = w.frame := by
    rw [whole, Reader.stopped]
    split_ifs <;> rfl
  exact ⟨e, empty, by omega, same.trans (stopped_errno errno), frame, whole,
    fun params => readParams_yields feeds_record trivial yields params⟩

theorem processValues_fails (fails : WantsMore w.skip content padding tail ∨
      (parsePairs (if w.skip then [] else content)).complete = false) :
    ∃ x, processManagementRecord RecordType.getValues (w.inRecord content padding tail) = (.error protocolError, x) ∧
      x.avail = [] ∧ Ends w ((Demuxed.stop
        (if WantsMore w.skip content padding tail then w.connection.ending.errno else paramsError)).fit
        (parsePairs (if w.skip then [] else content)).fits) x := by
  obtain ⟨e, empty, -, e_errno, frame, -, read⟩ :=
    inRecord_read before errno content padding tail
  have nonzero := w.connection.ending.errno_ne_zero
  rw [processManagementRecord, if_pos rfl, read]
  generalize parsePairs (if w.skip then [] else content) = p at fails
  have left : ∃ t, (if p.complete then e else e.setError paramsError) = t ∧ t.avail = [] ∧ t.frame = w.frame ∧
      t.errno = if WantsMore w.skip content padding tail then w.connection.ending.errno else paramsError := by
    refine ⟨_, rfl, ?_⟩
    cases complete : p.complete with
    | true =>
        have wants := fails.resolve_right (by simp [complete])
        rw [if_pos rfl, if_pos wants]
        rw [if_pos wants] at e_errno
        exact ⟨empty, frame, e_errno⟩
    | false =>
        rw [if_neg Bool.false_ne_true]
        refine ⟨empty, frame, ?_⟩
        change (if e.errno = 0 then paramsError else e.errno) = _
        by_cases wants : WantsMore w.skip content padding tail
        · rw [if_pos wants] at e_errno ⊢
          rw [e_errno, if_neg nonzero]
        · rw [if_neg wants] at e_errno ⊢
          rw [if_pos e_errno]
  obtain ⟨t, same, empty', frame', t_errno⟩ := left
  have failed : t.errno ≠ 0 := by
    rw [t_errno]
    split_ifs
    · exact nonzero
    · decide
  rw [same]
  dsimp only
  rw [if_pos (.inl failed)]
  refine ⟨_, rfl, empty', ?_⟩
  rw [← t_errno]
  exact ends_stop frame' failed p.fits

theorem processValues_replies (writable : w.connection.Writable) (more : ¬ WantsMore w.skip content padding tail)
    {nvs : List NameValue} {fits : Bool} (parsed : parsePairs (if w.skip then [] else content) = ⟨true, nvs, fits⟩) :
    ∃ c x, processManagementRecord RecordType.getValues (w.inRecord content padding tail) = (.mgmtRecord, x) ∧
      x.avail = [] ∧ c.Writable ∧ c.arriving = [] ∧ c.ending = w.connection.ending ∧
      c.written = w.connection.written ++ valuesResponse w.stack (nvs.map NameValue.entry) ∧
      x.whole = { w.passed content tail with
                    eorStop := true, isClosed := true, connection := c
                    fault := w.fault || !fits || !responseFits (nvs.map NameValue.entry) } := by
  obtain ⟨e, empty, contentLen, e_errno, frame, whole, read⟩ :=
    inRecord_read before errno content padding tail
  obtain ⟨written, writes, ending⟩ := frame_connection frame
  have fault : e.fault = w.fault := congrArg (·.2.2.2.1) frame
  have stack : e.stack = w.stack := congrArg (·.2.2.1) frame
  rw [if_neg more] at e_errno
  have going : ¬ (e.errno ≠ 0 ∨ e.contentLen ≠ 0) := by
    rintro (failed | left)
    · exact failed e_errno
    · exact left contentLen
  have writable' : e.connection.Writable := by
    rw [Connection.Writable, writes]
    exact writable
  have stopped : e.whole = { w.passed content tail with eorStop := true, isClosed := true } := by
    rw [whole, Reader.stopped, if_neg more]
    exact Reader.whole_self (r := { w.passed content tail with eorStop := true, isClosed := true }) before.avail
      before.arriving
  rw [processManagementRecord, if_pos rfl, read, parsed]
  dsimp only
  rw [if_pos rfl, if_neg going, Params.putAll_vec]
  obtain ⟨c, goes, succeeds, written', arriving, ending'⟩ := respond_writable
    (r := { e with fault := e.fault || !fits || !responseFits (nvs.map NameValue.entry) })
    (valuesResponse e.stack (nvs.map NameValue.entry)) .mgmtRecord writable'
  refine ⟨{ c with arriving := [] }, _, goes, empty, succeeds, rfl, ending'.trans ending, ?_, ?_⟩
  · exact written'.trans (by rw [written, stack])
  · have connected := congrArg (fun r : Reader =>
      { r with
          connection := { c with arriving := [] }
          fault := w.fault || !fits || !responseFits (nvs.map NameValue.entry) }) stopped
    simpa [Reader.whole, Reader.ahead, arriving, fault] using connected

end Values

theorem record_turn {record : Record} (before : w.AtHeader) (rest : w.rest = record.encode ++ tail) :
    fillTurn processHeader w [] = interpreted
      (if record.type = RecordType.beginRequest then
        processBeginRecord record.requestId (w.inRecord record.content record.padding tail)
      else if record.requestId = 0 then
        processManagementRecord record.type (w.inRecord record.content record.padding tail)
      else if record.requestId ≠ w.request.requestId then (.skip, w.inRecord record.content record.padding tail)
      else if record.type ≠ w.type then (.error protocolError, w.inRecord record.content record.padding tail)
      else (.streamRecord, w.inRecord record.content record.padding tail)) := by
  have announced : { w with rest := record.content ++ (record.padding ++ tail), eorStop := true }.announced record.header =
      w.inRecord record.content record.padding tail := by
    simp [Reader.announced, Reader.inRecord, Reader.opened]
  rw [header_turn before rest, processHeader_eq, announced, Record.header_type, Record.header_requestId,
    if_neg (by simp)]

theorem Ends.reply_fit {w' e : Reader} {d : Demuxed} {response : Bytes} {fits : Bool} (ends : Ends w' d e)
    (writable : w'.connection.Writable)
    (written : w'.connection.written = w.connection.written ++ response) (fault : w'.fault = (w.fault || !fits))
    (ending : w'.connection.ending = w.connection.ending) (stack : w'.stack = w.stack) :
    Ends w ((d.reply response).fit fits) e where
  errno := ends.errno
  written := by
    rw [ends.written, written, List.append_assoc]
    rfl
  fault := by
    rw [ends.fault, fault]
    simp [Demuxed.fit, Demuxed.reply, Bool.or_assoc]
  rest := ends.rest
  writable := fun _ => ends.writable writable
  ending := ends.ending.trans ending
  stack := ends.stack.trans stack

theorem Ends.reply {w' e : Reader} {d : Demuxed} {response : Bytes} (ends : Ends w' d e)
    (writable : w'.connection.Writable)
    (written : w'.connection.written = w.connection.written ++ response) (fault : w'.fault = w.fault)
    (ending : w'.connection.ending = w.connection.ending) (stack : w'.stack = w.stack) : Ends w (d.reply response) e :=
  ends.reply_fit writable written (show w'.fault = (w.fault || !true) by rw [fault]; simp) ending stack

theorem Ends.same {w' e : Reader} {d : Demuxed} (ends : Ends w' d e) (connection : w'.connection = w.connection)
    (fault : w'.fault = w.fault) (stack : w'.stack = w.stack) : Ends w d e where
  errno := ends.errno
  written := connection ▸ ends.written
  fault := fault ▸ ends.fault
  rest := ends.rest
  writable := connection ▸ ends.writable
  ending := connection ▸ ends.ending
  stack := stack ▸ ends.stack

theorem Ends.setError {e : Reader} {d : Demuxed} (ends : Ends w d e) (failed : d.errno ≠ 0) (errno : Int) :
    Ends w d ({ e with eorStop := false, isClosed := false }.setError errno) where
  errno := by
    rw [← ends.errno] at failed
    exact (if_neg failed).trans ends.errno
  written := ends.written
  fault := ends.fault
  rest := ends.rest
  writable := ends.writable
  ending := ends.ending
  stack := ends.stack

theorem ends_error (errno : w.errno = 0) {n : Int} (failed : n ≠ 0) :
    Ends w (.stop n) ((w.opened content padding tail).setError n) where
  errno := if_pos errno
  written := (List.append_nil _).symm
  fault := by simp [Demuxed.stop, Reader.setError, Reader.opened]
  rest := fun none => absurd none failed
  writable := id
  ending := rfl
  stack := rfl

end Step

/-! ## All records -/

/-- No write fails, or there is nothing to write. -/
def Connection.CanSend (c : Connection) (bytes : Bytes) : Prop := c.Writable ∨ bytes = []

theorem Connection.CanSend.writable {c : Connection} {bytes : Bytes} (sends : c.CanSend bytes) (some : bytes ≠ []) :
    c.Writable :=
  sends.resolve_right some

structure Reader.Ready (request : Request) (type : UInt8) (w : Reader) : Prop where
  before : w.AtHeader
  serves : w.Serves request type
  errno : w.errno = 0

section Branches
variable {request : Request} {type : UInt8} {w v : Reader} {content padding tail : Bytes} {d : Demuxed}

theorem Reader.Ready.passed (ready : w.Ready request type) (content tail : Bytes) :
    (w.passed content tail).Ready request type :=
  ⟨ready.before.passed content tail, ready.serves, ready.errno⟩

theorem Reader.Ready.replied (ready : w.Ready request type) {c : Connection} (arriving : c.arriving = []) :
    { w with connection := c }.Ready request type :=
  ⟨⟨ready.before.avail, arriving, ready.before.contentLen, ready.before.paddingLen, ready.before.eorStop,
    ready.before.isClosed⟩, ready.serves, ready.errno⟩

theorem Reader.Ready.skipping (ready : w.Ready request type) : { w with skip := true }.Ready request type :=
  ⟨⟨ready.before.avail, ready.before.arriving, ready.before.contentLen, ready.before.paddingLen, ready.before.eorStop,
    ready.before.isClosed⟩, ready.serves, ready.errno⟩

theorem opened_step (before : w.AtHeader) (ready : v.Ready request type)
    (turn : fillTurn processHeader w [] = .continues (v.opened content padding tail) [])
    (later : ∃ e, Yields (getChar fillBuffProc) (v.passed content tail) d.bytes e ∧ Ends (v.passed content tail) d e) :
    ∃ e, Yields (getChar fillBuffProc) w (d.give (if v.skip then [] else content)).bytes e ∧
      Ends v (d.give (if v.skip then [] else content)) e := by
  obtain ⟨e, yields, ends⟩ := later
  obtain ⟨e', yields', alike⟩ := yields_opened padding lawful_processHeader ready.before yields
  have ends' : Ends v d e' := (ends.of_whole alike.whole).same rfl rfl rfl
  exact ⟨e', yields_of_turn lawful_processHeader before turn ready.before.avail ready.before.isClosed yields',
    ends'.errno, ends'.written, ends'.fault, ends'.rest, ends'.writable, ends'.ending, ends'.stack⟩

theorem error_step {errno : Int} (ready : w.Ready request type) (failed : errno ≠ 0)
    (turn : fillTurn processHeader w [] = interpreted (.error errno, w.inRecord content padding tail)) :
    ∃ e, Yields (getChar fillBuffProc) w (Demuxed.stop errno).bytes e ∧ Ends w (.stop errno) e := by
  have same : interpreted (.error errno, w.inRecord content padding tail) =
      .returns ((w.opened content padding tail).setError errno) :=
    congrArg (fun v : Reader => Turn.returns (v.setError errno)) (Reader.reopened (w := w) ready.before)
  exact ⟨_, yields_stop lawful_processHeader ready.before (turn.trans same) rfl,
    ends_error ready.errno failed⟩

theorem Reader.Ready.record (ready : w.Ready request type) {record : Record} (rest : w.rest = record.encode ++ tail) :
    fillTurn processHeader w [] = interpreted
      (if record.type = RecordType.beginRequest then
        processBeginRecord record.requestId (w.inRecord record.content record.padding tail)
      else if record.requestId = 0 then
        processManagementRecord record.type (w.inRecord record.content record.padding tail)
      else if record.requestId ≠ request.requestId then (.skip, w.inRecord record.content record.padding tail)
      else if record.type ≠ type then (.error protocolError, w.inRecord record.content record.padding tail)
      else (.streamRecord, w.inRecord record.content record.padding tail)) := by
  have turn := record_turn ready.before rest
  rwa [ready.serves.2.1, ready.serves.2.2] at turn

theorem begin_step {record : Record} (ready : w.Ready request type) (writable : w.connection.Writable)
    (turn : fillTurn processHeader w [] =
      interpreted (processBeginRecord record.requestId (w.inRecord record.content record.padding tail)))
    (valid : ¬ (record.requestId = 0 ∨ record.content.length ≠ 8))
    (later : ∀ c : Connection, c.arriving = [] → c.Writable → c.ending = w.connection.ending →
      ∃ e, Yields (getChar fillBuffProc) { w with connection := c, skip := false, rest := tail } d.bytes e ∧
        Ends { w with connection := c, skip := false, rest := tail } d e) :
    ∃ e, Yields (getChar fillBuffProc) w (d.reply (endRequestRecord record.requestId 0 .cantMpxConn)).bytes e ∧
      Ends w (d.reply (endRequestRecord record.requestId 0 .cantMpxConn)) e := by
  obtain ⟨c, goes, succeeds, written, arriving, ending⟩ := respond_writable
    (r := w.inRecord record.content record.padding tail) (endRequestRecord record.requestId 0 .cantMpxConn) .skip
    writable
  have begun : (w.inRecord record.content record.padding tail).request.isBeginProcessed = true :=
    (congrArg Request.isBeginProcessed ready.serves.2.1).trans ready.serves.1
  have valid' : ¬ (record.requestId = 0 ∨ (w.inRecord record.content record.padding tail).contentLen ≠ 8) := valid
  have arrived : c.arriving = [] := arriving.trans ready.before.arriving
  have skipping := (ready.replied arrived).skipping
  have same : interpreted (.skip, { w.inRecord record.content record.padding tail with connection := c }) =
      .continues ({ w with connection := c, skip := true }.opened record.content record.padding tail) [] :=
    congrArg (fun v : Reader => Turn.continues { v with connection := c, skip := true } [])
      (Reader.reopened (w := w) ready.before)
  have some : record.content ≠ [] := by
    intro none
    exact valid (.inr (by rw [none]; decide))
  have passed : { w with connection := c, skip := true }.passed record.content tail =
      { w with connection := c, skip := false, rest := tail } := by
    rw [Reader.passed, if_neg some]
  rw [processBeginRecord, if_neg valid', if_pos begun, goes] at turn
  obtain ⟨e, yields, ends⟩ := opened_step ready.before skipping (turn.trans same)
    (by rw [passed]; exact later c arrived succeeds ending)
  exact ⟨e, yields, ends.reply (w := w) succeeds written rfl ending rfl⟩

theorem values_step {record : Record} (ready : w.Ready request type)
    (turn : fillTurn processHeader w [] =
      interpreted (processManagementRecord RecordType.getValues (w.inRecord record.content record.padding tail)))
    (later : ∀ (c : Connection) (fault : Bool), c.arriving = [] → c.Writable → c.ending = w.connection.ending →
      ∃ e, Yields (getChar fillBuffProc) { w.passed record.content tail with connection := c, fault } d.bytes e ∧
        Ends { w.passed record.content tail with connection := c, fault } d e) :
    let content := if w.skip then [] else record.content
    let parsed := parsePairs content
    let vec := parsed.pairs.map NameValue.entry
    let outcome := if WantsMore w.skip record.content record.padding tail then
        (Demuxed.stop w.connection.ending.errno).fit parsed.fits
      else if parsed.complete then (d.reply (valuesResponse w.stack vec)).fit (parsed.fits && responseFits vec)
      else (Demuxed.stop paramsError).fit parsed.fits
    w.connection.CanSend outcome.replies →
      ∃ e, Yields (getChar fillBuffProc) w outcome.bytes e ∧ Ends w outcome e := by
  intro content parsed vec outcome sends
  by_cases fails : WantsMore w.skip record.content record.padding tail ∨ parsed.complete = false
  · obtain ⟨x, goes, -, ends⟩ := processValues_fails ready.before ready.errno fails
    have same : outcome = (Demuxed.stop (if WantsMore w.skip record.content record.padding tail then
        w.connection.ending.errno else paramsError)).fit parsed.fits := by
      by_cases wants : WantsMore w.skip record.content record.padding tail
      · simp only [outcome, if_pos wants]
      · simp only [outcome, if_neg wants, fails.resolve_left wants, Bool.false_eq_true, if_false]
    have failed : (if WantsMore w.skip record.content record.padding tail then w.connection.ending.errno
        else paramsError) ≠ 0 := by
      split_ifs
      · exact w.connection.ending.errno_ne_zero
      · decide
    rw [goes] at turn
    rw [same]
    exact ⟨_, yields_stop lawful_processHeader ready.before turn rfl, ends.setError failed protocolError⟩
  · have more : ¬ WantsMore w.skip record.content record.padding tail := fun wants => fails (.inl wants)
    have complete : parsed.complete = true := by
      cases whole : parsed.complete with
      | true => rfl
      | false => exact absurd (.inr whole) fails
    have parsed_eq : parsed = ⟨true, parsed.pairs, parsed.fits⟩ := by rw [← complete]
    have same : outcome = (d.reply (valuesResponse w.stack vec)).fit (parsed.fits && responseFits vec) := by
      simp only [outcome, if_neg more, complete, if_true]
    have writable : w.connection.Writable := by
      rw [same] at sends
      exact sends.writable (List.cons_ne_nil _ _)
    obtain ⟨c, x, goes, empty, succeeds, arriving, ending, written, whole⟩ :=
      processValues_replies ready.before ready.errno writable more parsed_eq
    have fault : (w.fault || !parsed.fits || !responseFits vec) = (w.fault || !(parsed.fits && responseFits vec)) := by
      rw [Bool.not_and, Bool.or_assoc]
    obtain ⟨e, yields, ends⟩ := later c (w.fault || !parsed.fits || !responseFits vec) arriving succeeds ending
    have alike : Alike { w.passed record.content tail with
          connection := c, fault := w.fault || !parsed.fits || !responseFits vec }
        { x with eorStop := false, isClosed := false } := by
      refine ⟨?_, .inl ready.before.avail, .inl empty⟩
      rw [Reader.whole_self (r := { w.passed record.content tail with
        connection := c, fault := w.fault || !parsed.fits || !responseFits vec }) ready.before.avail arriving]
      have reopened := congrArg (fun r : Reader => { r with eorStop := false, isClosed := false }) whole
      refine Eq.trans ?_ reopened.symm
      simp only [Reader.passed, ready.before.eorStop, ready.before.isClosed]
      rfl
    obtain ⟨e', yields', ends'⟩ := alike.yields lawful_processHeader yields
    rw [goes] at turn
    rw [same]
    exact ⟨e', yields_of_turn lawful_processHeader ready.before turn empty rfl yields',
      (ends.of_whole ends'.whole).reply_fit (w := w) succeeds written fault ending rfl⟩

theorem unknown_step {record : Record} (ready : w.Ready request type) (writable : w.connection.Writable)
    (unknown : record.type ≠ RecordType.getValues)
    (turn : fillTurn processHeader w [] =
      interpreted (processManagementRecord record.type (w.inRecord record.content record.padding tail)))
    (later : ∀ c : Connection, c.arriving = [] → c.Writable → c.ending = w.connection.ending →
      ∃ e, Yields (getChar fillBuffProc) ({ w with connection := c }.passed record.content tail) d.bytes e ∧
        Ends ({ w with connection := c }.passed record.content tail) d e) :
    ∃ e, Yields (getChar fillBuffProc) w (d.give (if w.skip then [] else record.content)).bytes e ∧
      Ends w ((d.give (if w.skip then [] else record.content)).reply (unknownTypeRecord record.type)) e := by
  obtain ⟨c, goes, succeeds, written, arriving, ending⟩ := respond_writable
    (r := w.inRecord record.content record.padding tail) (unknownTypeRecord record.type) .mgmtRecord writable
  have arrived : c.arriving = [] := arriving.trans ready.before.arriving
  have replied := ready.replied arrived
  have same : interpreted (.mgmtRecord, { w.inRecord record.content record.padding tail with connection := c }) =
      .continues ({ w with connection := c }.opened record.content record.padding tail) [] :=
    congrArg (fun v : Reader => Turn.continues { v with connection := c } []) (Reader.reopened (w := w) ready.before)
  rw [processManagementRecord, if_neg unknown] at turn
  obtain ⟨e, yields, ends⟩ := opened_step ready.before replied (turn.trans ((congrArg interpreted goes).trans same))
    (later c arrived succeeds ending)
  exact ⟨e, yields, ends.reply (w := w) succeeds written rfl ending rfl⟩

end Branches

theorem demux_whole {request : Request} {type : UInt8} (records : List Record) {w : Reader} (ready : w.Ready request type)
    (sends : w.connection.CanSend
      (demux request.requestId type w.stack w.connection.ending w.skip records).replies)
    (rest : w.rest = encodeAll records) :
    ∃ e, Yields (getChar fillBuffProc) w
        (demux request.requestId type w.stack w.connection.ending w.skip records).bytes e ∧
      Ends w (demux request.requestId type w.stack w.connection.ending w.skip records) e := by
  induction records generalizing w with
  | nil =>
      have failed := w.connection.ending.errno_ne_zero
      have turn : fillTurn processHeader w [] = .returns (w.setError w.connection.ending.errno) :=
        fillTurn_error (refill_end rest (congrArg List.flatten ready.before.arriving))
      refine ⟨_, yields_stop lawful_processHeader ready.before turn rfl, if_pos ready.errno, (List.append_nil _).symm, ?_,
        fun none => absurd none failed, id, rfl, rfl⟩
      exact (Bool.or_false w.fault).symm
  | cons record records ih =>
      rw [encodeAll_cons] at rest
      have turn := ready.record rest
      rw [demux] at sends ⊢
      dsimp only at sends ⊢
      by_cases begins : record.type = RecordType.beginRequest
      · rw [if_pos begins] at turn sends ⊢
        by_cases invalid : record.requestId = 0 ∨ record.content.length ≠ 8
        · rw [if_pos invalid]
          have refused : processBeginRecord record.requestId (w.inRecord record.content record.padding (encodeAll records)) =
              (.error protocolError, w.inRecord record.content record.padding (encodeAll records)) := if_pos invalid
          exact error_step ready (by decide) (turn.trans (congrArg interpreted refused))
        · rw [if_neg invalid] at sends ⊢
          refine begin_step ready (sends.writable (List.cons_ne_nil _ _)) turn invalid ?_
          -- The reply has been written on `c`, so the rest of the records is read behind it.
          intro c arriving writable ending
          have ready' := ready.replied arriving
          have again := ih (w := { w with connection := c, skip := false, rest := encodeAll records })
            ⟨⟨ready'.before.avail, arriving, ready'.before.contentLen, ready'.before.paddingLen, ready'.before.eorStop,
              ready'.before.isClosed⟩, ready'.serves, ready'.errno⟩ (.inl writable) rfl
          rwa [ending] at again
      · rw [if_neg begins] at turn sends ⊢
        by_cases management : record.requestId = 0
        · rw [if_pos management] at turn sends ⊢
          by_cases values : record.type = RecordType.getValues
          · rw [values] at turn
            rw [if_pos values] at sends ⊢
            refine values_step ready turn ?_ sends
            intro c fault arriving writable ending
            have ready' := (ready.passed record.content (encodeAll records)).replied arriving
            have again := ih (w := { w.passed record.content (encodeAll records) with connection := c, fault })
              ⟨⟨ready'.before.avail, arriving, ready'.before.contentLen, ready'.before.paddingLen, ready'.before.eorStop,
                ready'.before.isClosed⟩, ready'.serves, ready'.errno⟩ (.inl writable) rfl
            rwa [ending] at again
          · rw [if_neg values] at sends ⊢
            refine unknown_step ready (sends.writable (List.cons_ne_nil _ _)) values turn ?_
            intro c arriving writable ending
            have again := ih ((ready.replied arriving).passed record.content (encodeAll records)) (.inl writable) rfl
            change ∃ e, Yields _ _ (demux request.requestId type w.stack c.ending _ records).bytes e ∧
              Ends _ (demux request.requestId type w.stack c.ending _ records) e at again
            rwa [ending] at again
        · rw [if_neg management] at turn sends ⊢
          by_cases foreign : record.requestId ≠ request.requestId
          · rw [if_pos foreign] at turn sends ⊢
            have same : interpreted (.skip, w.inRecord record.content record.padding (encodeAll records)) =
                .continues ({ w with skip := true }.opened record.content record.padding (encodeAll records)) [] :=
              congrArg (fun v : Reader => Turn.continues { v with skip := true } []) (Reader.reopened (w := w) ready.before)
            -- A record of another request is passed over; the induction goes on with `skip` set.
            obtain ⟨e, yields, ends⟩ := opened_step ready.before ready.skipping (turn.trans same)
              (ih (ready.skipping.passed record.content (encodeAll records)) sends rfl)
            exact ⟨e, yields, ends.same rfl rfl rfl⟩
          · rw [if_neg foreign] at turn sends ⊢
            by_cases other : record.type ≠ type
            · rw [if_pos other] at turn ⊢
              exact error_step ready (by decide) turn
            · rw [if_neg other] at turn sends ⊢
              by_cases last : record.content = []
              · rw [if_pos last]
                rw [last] at turn
                have same : interpreted (.streamRecord, w.inRecord [] record.padding (encodeAll records)) =
                    .returns { w.opened [] record.padding (encodeAll records) with
                                eorStop := false, avail := [], isClosed := true } := by
                  rw [interpreted]
                  exact if_pos rfl
                -- The empty record closes the stream; what follows stays on the connection.
                refine ⟨_, yields_stop lawful_processHeader ready.before (turn.trans same) rfl, ready.errno,
                  (List.append_nil _).symm, (Bool.or_false w.fault).symm, ?_, id, rfl, rfl⟩
                intro _
                simp [Reader.ahead, Reader.opened, ready.before.arriving]
              · rw [if_neg last] at sends ⊢
                have same : interpreted (.streamRecord, w.inRecord record.content record.padding (encodeAll records)) =
                    .continues (w.opened record.content record.padding (encodeAll records)) [] :=
                  (if_neg (mt List.eq_nil_of_length_eq_zero last)).trans
                    (congrArg (fun v : Reader => Turn.continues v []) (Reader.reopened (w := w) ready.before))
                exact opened_step ready.before ready (turn.trans same)
                  (ih (ready.passed record.content (encodeAll records)) sends rfl)

structure Reader.Between (request : Request) (type : UInt8) (r : Reader) : Prop where
  avail : r.avail = []
  contentLen : r.contentLen = 0
  paddingLen : r.paddingLen = 0
  eorStop : r.eorStop = false
  isClosed : r.isClosed = false
  serves : r.Serves request type
  errno : r.errno = 0

theorem demux_yields {request : Request} {type : UInt8} {r : Reader} (records : List Record)
    (between : r.Between request type)
    (sends : r.connection.CanSend (demux request.requestId type r.stack r.connection.ending r.skip records).replies)
    (ahead : r.ahead = encodeAll records) :
    ∃ e, Yields (getChar fillBuffProc) r
        (demux request.requestId type r.stack r.connection.ending r.skip records).bytes e ∧
      Ends r (demux request.requestId type r.stack r.connection.ending r.skip records) e := by
  have content : r.whole.contentLen = 0 := by
    rw [Reader.whole_contentLen, between.contentLen, between.avail]
    rfl
  have ready : r.whole.Ready request type :=
    ⟨⟨rfl, rfl, content, between.paddingLen, between.eorStop, between.isClosed⟩, between.serves, between.errno⟩
  have sound : r.Sound := .inl between.avail
  obtain ⟨e, yields, ends⟩ := demux_whole records ready sends ahead
  obtain ⟨e', yields', alike⟩ := (alike_whole sound).symm.yields lawful_processHeader yields
  have left := ends.of_whole alike.whole
  exact ⟨e', yields', left.errno, left.written, left.fault, left.rest, left.writable, left.ending, left.stack⟩

def Record.Of (type : UInt8) (requestId : Nat) (record : Record) : Prop := record.type = type ∧ record.requestId = requestId

def askingRecords : List Record :=
  [.brief RecordType.stdin 7 (ascii "h") [], .brief RecordType.getValues 0 ([14, 0] ++ ascii "FCGI_MAX_CONNS") [],
    .brief RecordType.stdin 7 (ascii "i") [0, 0], .brief RecordType.stdin 7 [] []]

def askingReader : Reader :=
  newReader ⟨7, 1, false, true, 0, 2⟩ ⟨[encodeAll askingRecords], .closed, [], []⟩ (fun _ => 0) RecordType.stdin

example : (demux 7 RecordType.stdin (fun _ => 0) .closed false askingRecords).bytes = ascii "hi" := by decide

end HvmlFpm.Fcgi
