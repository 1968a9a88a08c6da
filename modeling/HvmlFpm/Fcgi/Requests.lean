import HvmlFpm.Fcgi.Accepting

/-!
# The records of a request

A request begins with its record, its environment is in the records behind that, and its input in those behind the
environment. `FCGX_Accept_r` gives the application just these.
-/

namespace HvmlFpm.Fcgi
open Library

section Begin
variable {w : Reader} {record : Record} {tail : Bytes}

theorem getStr_inRecord (content padding tail : Bytes) (before : w.AtHeader) (taken : w.skip = false) (some : content ≠ []) :
    getStr fillRecord content.length (w.inRecord content padding tail) = (content, w.inRecord [] padding tail) := by
  have open' : (w.inRecord content padding tail).isClosed = false := before.isClosed
  have empty : (w.inRecord content padding tail).avail = [] := before.avail
  have long : 0 < content.length := List.length_pos_iff.2 some
  have filled : fillRecord (w.inRecord content padding tail) = { w.inRecord [] padding tail with avail := content } := by
    have count : min (w.inRecord content padding tail).contentLen (w.inRecord content padding tail).rest.length =
        content.length := by
      simp [Reader.inRecord, Reader.opened]
    have rest : (w.inRecord content padding tail).rest ≠ [] := List.append_ne_nil_of_left_ne_nil some _
    apply fillRecord_turn
    rw [fillTurn_ok (refill_of_rest rest), filledTurn_deliver (r := w.inRecord content padding tail) taken long, count]
    simp [Reader.inRecord, Reader.opened]
  have still : (fillRecord (w.inRecord content padding tail)).isClosed = false := by
    rw [filled]
    exact before.isClosed
  have available : (fillRecord (w.inRecord content padding tail)).avail = content := by rw [filled]
  have onwards : pulls (getChar fillRecord) content.length (w.inRecord content padding tail) =
      pulls (getChar fillRecord) content.length (fillRecord (w.inRecord content padding tail)) := by
    obtain ⟨k, more⟩ : ∃ k, content.length = k + 1 := ⟨content.length - 1, by omega⟩
    rw [more, pulls, pulls, getChar_fill open' empty, if_neg (by simp [still]), getChar_avail still (by rwa [available])]
  rw [getStr_eq_pulls feeds_record trivial, onwards, pulls_avail still (by rw [available]), available, List.take_length,
    List.drop_length, filled]
  simp [Reader.inRecord, Reader.opened, before.avail]

theorem fillBuffProc_begin (before : w.AtHeader) (rest : w.rest = record.encode ++ tail)
    (begins : record.type = RecordType.beginRequest) (id : record.requestId ≠ 0) (size : record.content.length = 8)
    (idle : w.request.isBeginProcessed = false) (taken : w.skip = false) :
    fillBuffProc w =
      { w with
          rest := record.padding ++ tail
          paddingLen := record.padding.length
          request := Request.begin { w.request with requestId := record.requestId } record.content } := by
  have turn := record_turn before rest
  have valid : ¬ (record.requestId = 0 ∨ (w.inRecord record.content record.padding tail).contentLen ≠ 8) := by
    rintro (none | other)
    · exact id none
    · exact other size
  have idle' : ¬ (w.inRecord record.content record.padding tail).request.isBeginProcessed = true := by
    rw [show (w.inRecord record.content record.padding tail).request = w.request from rfl, idle]
    exact Bool.false_ne_true
  have body := getStr_inRecord (w := { w with request := { w.request with requestId := record.requestId } })
    record.content record.padding tail
    ⟨before.avail, before.arriving, before.contentLen, before.paddingLen, before.eorStop, before.isClosed⟩ taken
    (fun none => by simp [none] at size)
  rw [size] at body
  have read : getStr fillRecord 8 { w.inRecord record.content record.padding tail with
      request := { (w.inRecord record.content record.padding tail).request with requestId := record.requestId } } =
      (record.content,
        { w with request := { w.request with requestId := record.requestId } }.inRecord [] record.padding tail) :=
    body
  rw [if_pos begins, processBeginRecord, if_neg valid, if_neg idle', read] at turn
  dsimp only at turn
  rw [if_pos size] at turn
  rw [fillBuffProc, fillBuff_of_fills lawful_processHeader before.avail before.isClosed (.returns turn)]
  simp [Reader.inRecord, Reader.opened, before.eorStop, before.isClosed, before.contentLen]

structure Begun (request : Request) (c : Connection) (stack : Nat → UInt8) (type : UInt8) (rest : Bytes) (y : Reader) :
    Prop where
  between : y.Between request type
  writes : y.connection.writes = c.writes
  ahead : y.ahead = rest
  ending : y.connection.ending = c.ending
  written : y.connection.written = c.written
  stack_eq : y.stack = stack
  skip : y.skip = false
  fault : y.fault = false

theorem newReader_begins {request : Request} {c : Connection} (stack : Nat → UInt8) (type : UInt8)
    (arriving : c.arriving.flatten = record.encode ++ tail) (begins : record.type = RecordType.beginRequest)
    (id : record.requestId ≠ 0) (size : record.content.length = 8) (plain : record.padding = [])
    (idle : request.isBeginProcessed = false) :
    (fillBuffProc (newReader request c stack 0)).request =
        Request.begin { request with requestId := record.requestId } record.content ∧
      Begun (Request.begin { request with requestId := record.requestId } record.content) c stack type tail
        (setReaderType (fillBuffProc (newReader request c stack 0)) type) := by
  have whole : (newReader request c stack 0).whole =
      { newReader request { c with arriving := [] } stack 0 with rest := record.encode ++ tail } := by
    simp [Reader.whole, Reader.ahead, newReader, arriving]
  have same : (newReader request c stack 0).whole = (newReader request c stack 0).whole.whole :=
    (newReader request c stack 0).whole_whole.symm
  have rest : (newReader request c stack 0).whole.rest = record.encode ++ tail := by rw [whole]
  obtain ⟨alike, -, available⟩ := fillBuff_alike lawful_processHeader rfl rfl rfl same
  have filled := fillBuffProc_begin ⟨rfl, rfl, rfl, rfl, rfl, rfl⟩ rest begins id size idle rfl
  change (fillBuffProc (newReader request c stack 0)).whole = (fillBuffProc (newReader request c stack 0).whole).whole at alike
  change (fillBuffProc (newReader request c stack 0)).avail = [] ↔
    (fillBuffProc (newReader request c stack 0).whole).avail = [] at available
  rw [filled] at alike available
  have empty := available.2 rfl
  generalize fillBuffProc (newReader request c stack 0) = x at alike empty
  have begun : x.request = Request.begin { request with requestId := record.requestId } record.content :=
    (congrArg Reader.request alike :)
  have connection := congrArg (fun r : Reader => (r.connection.ending, r.connection.written, r.connection.writes)) alike
  have rest : x.ahead = tail := by
    have ahead := congrArg Reader.rest alike
    simpa [Reader.ahead, plain] using ahead
  refine ⟨begun, ⟨rfl, rfl, rfl, rfl, rfl, ⟨?_, begun, rfl⟩, (congrArg Reader.errno alike :)⟩, ?_, ?_, ?_, ?_, ?_, rfl, ?_⟩
  · rfl
  · exact (congrArg (·.2.2) connection :)
  · rw [← rest]
    simp [Reader.ahead, setReaderType]
  · exact (congrArg (·.1) connection :)
  · exact (congrArg (·.2.1) connection :)
  · exact (congrArg Reader.stack alike :)
  · exact (congrArg Reader.fault alike :)

end Begin

/-! ## The environment and the input -/

theorem demux_own {requestId : Nat} {type : UInt8} {stack : Nat → UInt8} {ending : Ending} {last : Record}
    (some : requestId ≠ 0) (stream : type ≠ RecordType.beginRequest) (own : List Record) (later : List Record)
    (data : ∀ record ∈ own, record.Of type requestId ∧ record.content ≠ []) (ends : last.Of type requestId)
    (none : last.content = []) :
    demux requestId type stack ending false (own ++ last :: later) =
      ⟨own.flatMap Record.content, [], 0, true, last.padding ++ encodeAll later⟩ := by
  induction own with
  | nil =>
      obtain ⟨type_eq, id_eq⟩ := ends
      rw [List.nil_append, demux]
      simp [type_eq, id_eq, some, stream, none, Demuxed.stop]
  | cons record own ih =>
      obtain ⟨⟨type_eq, id_eq⟩, content⟩ := data record List.mem_cons_self
      have rest := ih fun record member => data record (List.mem_cons_of_mem _ member)
      rw [List.cons_append, demux]
      simp [type_eq, id_eq, some, stream, content, rest, Demuxed.give]

section Environment
variable {env : Settings} {request : Request} {c : Connection} {first : Record} {role : CString}

theorem tryRequest_demux (env : Settings) (request : Request) (records : List Record)
    (arriving : c.arriving.flatten = encodeAll (first :: records)) (begins : first.type = RecordType.beginRequest)
    (id : first.requestId ≠ 0) (size : first.content.length = 8) (plain : first.padding = [])
    (known : roleName (request.begin first.content).role = some role) :
    let begun := Request.begin { request with isBeginProcessed := false, requestId := first.requestId } first.content
    let d := demux first.requestId RecordType.params env.stack c.ending false records
    let parsed := parsePairs d.bytes
    c.CanSend d.replies →
      (parsed.complete = false → (tryRequest env request c).1 = none) ∧
        (parsed.complete = true → ∃ params z, tryRequest env request c = (some params, z) ∧
          params.vec = role :: parsed.pairs.map NameValue.entry ∧ z.fault = (!d.fits || !parsed.fits) ∧
          z.connection.written = c.written ++ d.replies ∧
          (d.errno = 0 → z.Between begun RecordType.stdin ∧ z.ahead = d.rest ∧ z.connection.ending = c.ending ∧
            (c.Writable → z.connection.Writable) ∧ z.stack = env.stack ∧ z.skip = false)) := by
  intro begun d parsed sends
  obtain ⟨request_eq, starts⟩ := newReader_begins env.stack RecordType.params arriving begins id size
    plain (show { request with isBeginProcessed := false }.isBeginProcessed = false from rfl)
  have writable : c.Writable →
      (setReaderType (fillBuffProc (newReader { request with isBeginProcessed := false } c env.stack 0))
        RecordType.params).connection.Writable := by
    intro succeeds
    rw [Connection.Writable, starts.writes]
    exact succeeds
  obtain ⟨e, yields, ends⟩ := demux_yields records starts.between
    (by
      rw [starts.stack_eq, starts.ending, starts.skip]
      exact sends.imp_left writable) starts.ahead
  rw [starts.stack_eq, starts.ending, starts.skip] at yields ends
  change Ends _ d e at ends
  have kept := (feeds_fillBuffProc begun RecordType.params).keeps_end starts.between.serves yields
  -- `FCGX_ReadParams` sees the bytes of the stream only, whatever records carry them.
  have read (params : Params) : readParams fillBuffProc params
      (setReaderType (fillBuffProc (newReader { request with isBeginProcessed := false } c env.stack 0)) RecordType.params) =
      (⟨parsed.complete, params.putAll (parsed.pairs.map NameValue.entry), parsed.fits⟩,
        if parsed.complete then e else e.setError paramsError) :=
    readParams_yields (feeds_fillBuffProc begun RecordType.params) starts.between.serves yields params
  have tried : tryRequest env request c =
      if parsed.complete then
        (some (((newParams 30 (by decide)).putParam role).putAll (parsed.pairs.map NameValue.entry)),
          setReaderType { e with fault := e.fault || !parsed.fits } RecordType.stdin)
      else (none, { e.setError paramsError with fault := e.fault || !parsed.fits }) := by
    have begun_eq : (fillBuffProc (newReader { request with isBeginProcessed := false } c env.stack 0)).request.isBeginProcessed =
        true := by
      rw [request_eq]
      rfl
    have role_eq : roleName (fillBuffProc (newReader { request with isBeginProcessed := false } c env.stack 0)).request.role =
        some role := by
      rw [request_eq]
      exact known
    rw [tryRequest]
    dsimp only
    rw [if_pos begun_eq, role_eq]
    dsimp only
    rw [read]
    cases parsed.complete with
    | true => rfl
    | false => rfl
  refine ⟨fun incomplete => by rw [tried, if_neg (by simp [incomplete])], fun complete => ?_⟩
  rw [if_pos complete] at tried
  refine ⟨_, _, tried, by simp [Params.putParam, newParams], ?_, ?_, fun clean => ?_⟩
  · change (e.fault || !parsed.fits) = _
    rw [ends.fault, starts.fault, Bool.false_or]
  · rw [← starts.written]
    exact ends.written
  · refine ⟨⟨rfl, rfl, rfl, rfl, rfl, ⟨kept.1, kept.2.1, rfl⟩, ends.errno.trans clean⟩, ?_,
      ends.ending.trans starts.ending, fun succeeds => ends.writable (writable succeeds),
      ends.stack.trans starts.stack_eq, rfl⟩
    rw [← ends.rest clean]
    simp [Reader.ahead, setReaderType]

end Environment

/-! ## The whole of a request -/

structure Submission where
  first : Record
  params : List Record
  paramsEnd : Record
  input : List Record
  inputEnd : Record
  role : CString
  environ : List NameValue
  id : first.requestId ≠ 0
  begins : first.type = RecordType.beginRequest
  size : first.content.length = 8
  known : roleName (256 * (first.content.getD 0 0).toNat + (first.content.getD 1 0).toNat) = some role
  plain : first.padding = [] ∧ paramsEnd.padding = []
  params_of : ∀ record ∈ params, record.Of RecordType.params first.requestId ∧ record.content ≠ []
  paramsEnd_of : paramsEnd.Of RecordType.params first.requestId ∧ paramsEnd.content = []
  pairs : PairsBytes environ (params.flatMap Record.content)
  short : ∀ nv ∈ environ, pairFits nv.name.length nv.value.length = true
  input_of : ∀ record ∈ input, record.Of RecordType.stdin first.requestId ∧ record.content ≠ []
  inputEnd_of : inputEnd.Of RecordType.stdin first.requestId ∧ inputEnd.content = []

namespace Submission

def records (sub : Submission) : List Record :=
  sub.first :: (sub.params ++ sub.paramsEnd :: (sub.input ++ [sub.inputEnd]))

def keepConnection (sub : Submission) : Bool := sub.first.content.getD 2 0 % 2 = 1

def stdin (sub : Submission) : Bytes := sub.input.flatMap Record.content

def begun (sub : Submission) (request : Request) : Request :=
  Request.begin { request with isBeginProcessed := false, requestId := sub.first.requestId } sub.first.content

end Submission

/-- A pair that can be told from its string. -/
structure NameValue.Clean (nv : NameValue) : Prop where
  name : 61 ∉ nv.name ∧ 0 ∉ nv.name
  value : 0 ∉ nv.value

section Lookup
variable {nv : NameValue} {name : CString}

theorem NameValue.Clean.bytes (clean : nv.Clean) : nv.entry.bytes = nv.name ++ 61 :: nv.value := by
  have nulFree : 0 ∉ nv.name ++ 61 :: nv.value := by
    simp [clean.name.2, clean.value]
  exact congrArg CString.bytes (CString.ofBuffer_bytes ⟨nv.name ++ 61 :: nv.value, nulFree⟩)

theorem NameValue.Clean.binds (clean : nv.Clean) (plain : 61 ∉ name.bytes) : Binds name nv.entry ↔ nv.name = name.bytes := by
  rw [Binds, clean.bytes]
  constructor
  · rintro ⟨rest, same⟩
    rw [List.append_assoc] at same
    have upTo {x y : Bytes} (none : 61 ∉ x) : (x ++ 61 :: y).takeWhile (· != 61) = x := by
      rw [List.takeWhile_append_of_pos fun c member => by simpa using fun h : c = 61 => none (h ▸ member)]
      simp
    have parts := congrArg (List.takeWhile (· != 61)) same
    rwa [List.singleton_append, upTo plain, upTo clean.name.1, eq_comm] at parts
  · intro same
    rw [same]
    exact ⟨nv.value, by simp⟩

theorem getParam_entries (nvs : List NameValue) (clean : ∀ nv ∈ nvs, nv.Clean) (plain : 61 ∉ name.bytes) :
    (getParam name (nvs.map NameValue.entry)).map CString.bytes =
      (nvs.find? (·.name = name.bytes)).map NameValue.value := by
  induction nvs with
  | nil => rfl
  | cons nv nvs ih =>
      have here := clean nv List.mem_cons_self
      have binds := here.binds plain
      rw [List.map_cons, getParam, List.find?_cons]
      by_cases same : nv.name = name.bytes
      · have value : (nv.entry.drop (name.length + 1)).bytes = nv.value := by
          change nv.entry.bytes.drop (name.bytes.length + 1) = nv.value
          rw [here.bytes, ← same, ← List.drop_drop, List.drop_left]
          rfl
        rw [if_pos (binds.2 same)]
        simp [same, value]
      · rw [if_neg (mt binds.1 same)]
        simpa [same] using ih fun nv member => clean nv (List.mem_cons_of_mem _ member)

theorem roleName_entry {n : Nat} {role : CString} (known : roleName n = some role) :
    ∃ nv : NameValue, role = nv.entry ∧ nv.Clean ∧ nv.name = ascii "FCGI_ROLE" := by
  rw [roleName] at known
  split_ifs at known
  · exact ⟨⟨ascii "FCGI_ROLE", ascii "RESPONDER"⟩, (Option.some.inj known).symm, ⟨by decide, by decide⟩, rfl⟩
  · exact ⟨⟨ascii "FCGI_ROLE", ascii "AUTHORIZER"⟩, (Option.some.inj known).symm, ⟨by decide, by decide⟩, rfl⟩
  · exact ⟨⟨ascii "FCGI_ROLE", ascii "FILTER"⟩, (Option.some.inj known).symm, ⟨by decide, by decide⟩, rfl⟩

end Lookup

def Reply.finish (a : Reply) : Reply := ((a.perform (.fclose .err)).2.perform (.fclose .out)).2

/-- All that was put on the streams has been sent, and the request has been ended, once and behind everything else. -/
structure Answered (requestId : Nat) (a : Reply) (records : List Record) : Prop where
  streams : ∀ side, Finished side requestId (a.put side) (side.own records)
  ends : ∃ before last, records = before ++ [last] ∧ last.IsEnd requestId (a.ended.getD a.status) ∧
    ∀ record ∈ before, record.type ≠ RecordType.endRequest

section Finish
variable {requestId : Nat} {v : Serving} {a : Reply} {records : List Record} {o : Output}

theorem Reply.finish_put (a : Reply) : a.finish.put = a.put := by
  rw [Reply.finish, Reply.perform, Reply.perform]
  split_ifs <;> rfl

theorem Reply.finish_closed (a : Reply) (side : Side) : a.finish.closed side = true := by
  cases out : a.closed .out <;> cases err : a.closed .err <;> cases side <;>
    simp [Reply.finish, Reply.perform, out, err]

theorem Reply.finish_ended (a : Reply) (ended : a.ended = none → ∃ side, a.closed side = false)
    (closed : a.ended ≠ none → ∀ side, a.closed side = true) : a.finish.ended = some (a.ended.getD a.status) := by
  cases status : a.ended with
  | none =>
      obtain ⟨side, open'⟩ := ended status
      cases side with
      | out => cases err : a.closed .err <;> simp [Reply.finish, Reply.perform, Side.other, open', err, status]
      | err => cases out : a.closed .out <;> simp [Reply.finish, Reply.perform, Side.other, open', out, status]
  | some status' =>
      have all := closed (by simp [status])
      simp [Reply.finish, Reply.perform, all, status]

theorem Tells.answered (tells : Tells requestId a records o) (closed : ∀ side, a.closed side = true) {status : Int}
    (ended : a.ended = some status) : (∀ side, Finished side requestId (a.put side) (side.own records)) ∧
      ∃ before last, records = before ++ [last] ∧ last.IsEnd requestId status ∧
        ∀ record ∈ before, record.type ≠ RecordType.endRequest := by
  constructor
  · intro side
    have state := tells.sides side
    rw [closed side] at state
    cases state with
    | closed isClosed wasFCloseCalled room errno finished => exact finished
  · have last := tells.ended
    rw [Ended, ended] at last
    exact last.2

theorem Tells.finish (tells : Tells requestId a records v.output) (bound : requestId < 2 ^ 16) (fd : Nat) (params : Params)
    (l : Listener) : ∃ more request c, Sends v.reader.connection (encodeAll more) c ∧
      request.keepConnection = v.reader.request.keepConnection ∧ Answered requestId a (records ++ more) ∧
      Service.finish ⟨l, .serving fd params v⟩ = freed (!v.reader.request.keepConnection || v.reader.errno ≠ 0) request fd c
        { l with fault := l.fault || v.reader.fault } := by
  obtain ⟨errClosed, more, sends, tells₁⟩ := tells.perform bound (.fclose .err)
  obtain ⟨outClosed, more', sends', tells₂⟩ := tells₁.perform bound (.fclose .out)
  obtain ⟨status₁, nWriters₁, request₁⟩ := v.output.perform_request (.fclose .err)
  obtain ⟨status₂, nWriters₂, request₂⟩ := (v.output.perform (.fclose .err)).2.perform_request (.fclose .out)
  have closes (a : Reply) (side : Side) : (a.perform (.fclose side)).1 = true := by
    rw [Reply.perform]
    split_ifs <;> rfl
  rw [closes] at errClosed outClosed
  have keep : ((v.output.perform (.fclose .err)).2.perform (.fclose .out)).2.request.keepConnection =
      v.reader.request.keepConnection := by
    rw [request₂, request₁]
    rfl
  have before := tells.ended
  have ended : a.finish.ended = some (a.ended.getD a.status) := by
    rw [Ended] at before
    refine a.finish_ended (fun none => ?_) (fun some => ?_)
    · rw [none] at before
      exact before.2
    · cases status : a.ended with
      | none => exact absurd status some
      | some status' =>
          rw [status] at before
          exact before.1
  obtain ⟨streams, ends⟩ := Tells.answered (a := a.finish) tells₂ a.finish_closed ended
  rw [a.finish_put, List.append_assoc] at streams
  rw [List.append_assoc] at ends
  have all := sends.trans sends'
  rw [← encodeAll_append] at all
  refine ⟨more ++ more', _, _, all, keep, ⟨streams, ends⟩, ?_⟩
  rw [Service.finish]
  dsimp only
  rw [errClosed, outClosed]
  simp only [Serving.withOutput, keep, Bool.not_true, Bool.or_false]
  rfl

end Finish

section Submission
variable {sub : Submission} {env : Settings} {request : Request} {c : Connection}

theorem tryRequest_submission (env : Settings) (request : Request) (sub : Submission)
    (arriving : c.arriving.flatten = encodeAll sub.records) :
    ∃ params z, tryRequest env request c = (some params, z) ∧ params.vec = sub.role :: sub.environ.map NameValue.entry ∧
      z.Between (sub.begun request) RecordType.stdin ∧ z.ahead = encodeAll (sub.input ++ [sub.inputEnd]) ∧
      (c.Writable → z.connection.Writable) ∧ z.connection.written = c.written ∧ z.skip = false ∧ z.fault = false := by
  have taken : demux sub.first.requestId RecordType.params env.stack c.ending false
      (sub.params ++ sub.paramsEnd :: (sub.input ++ [sub.inputEnd])) =
        ⟨sub.params.flatMap Record.content, [], 0, true, encodeAll (sub.input ++ [sub.inputEnd])⟩ := by
    rw [demux_own sub.id (by decide) sub.params _ sub.params_of sub.paramsEnd_of.1 sub.paramsEnd_of.2, sub.plain.2,
      List.nil_append]
  obtain ⟨complete, pairs⟩ := parsePairs_complete.2 sub.pairs
  have tried := tryRequest_demux env request (sub.params ++ sub.paramsEnd :: (sub.input ++ [sub.inputEnd])) arriving
    sub.begins sub.id sub.size sub.plain.1 sub.known
  rw [taken] at tried
  obtain ⟨params, z, same, vec, fault, written, ready⟩ := (tried (.inr rfl)).2 complete
  obtain ⟨between, ahead, -, writable, -, skip⟩ := ready rfl
  have fits : (parsePairs (sub.params.flatMap Record.content)).fits = true := by
    rw [parsePairs_fits sub.pairs, List.all_eq_true]
    exact sub.short
  rw [pairs] at vec
  rw [fits] at fault
  exact ⟨params, z, same, vec, between, ahead, writable, written.trans (List.append_nil _), skip, fault⟩

/-- What is looked up in the environment is what was sent under the name first. Nothing that is sent hides the role. -/
theorem submission_environment (env : Settings) (request : Request) (sub : Submission)
    (arriving : c.arriving.flatten = encodeAll sub.records) (clean : ∀ nv ∈ sub.environ, nv.Clean) :
    ∃ params z role, tryRequest env request c = (some params, z) ∧
      sub.role.bytes = ascii "FCGI_ROLE=" ++ role ∧
      ∀ name : CString, 61 ∉ name.bytes → (getParam name params.vec).map CString.bytes =
        ((⟨ascii "FCGI_ROLE", role⟩ :: sub.environ).find? (·.name = name.bytes)).map NameValue.value := by
  obtain ⟨params, z, tried, vec, -⟩ := tryRequest_submission env request sub arriving
  obtain ⟨nv, entry, plain, named⟩ := roleName_entry sub.known
  have role : sub.role.bytes = ascii "FCGI_ROLE=" ++ nv.value := by
    rw [entry, plain.bytes, named]
    rfl
  refine ⟨params, z, nv.value, tried, role, fun name free => ?_⟩
  rw [vec, entry, ← named, ← List.map_cons]
  refine getParam_entries (nv :: sub.environ) (fun other member => ?_) free
  rcases List.mem_cons.1 member with rfl | member
  · exact plain
  · exact clean other member

def hiSubmission : Submission where
  first := .brief RecordType.beginRequest 7 [0, 1, 1, 0, 0, 0, 0, 0] []
  params := [.brief RecordType.params 7 [1, 2, 65, 98, 99] [0, 0, 0]]
  paramsEnd := .brief RecordType.params 7 [] []
  input := [.brief RecordType.stdin 7 [104] [0], .brief RecordType.stdin 7 [105] []]
  inputEnd := .brief RecordType.stdin 7 [] []
  role := .lit "FCGI_ROLE=RESPONDER"
  environ := [⟨[65], [98, 99]⟩]
  id := by decide
  begins := rfl
  size := rfl
  known := rfl
  plain := ⟨rfl, rfl⟩
  params_of := by simp [Record.Of, Record.brief]
  paramsEnd_of := ⟨⟨rfl, rfl⟩, rfl⟩
  pairs := .cons (.short (by decide)) (.short (by decide)) .nil
  short := by decide
  input_of := by simp [Record.Of, Record.brief]
  inputEnd_of := ⟨⟨rfl, rfl⟩, rfl⟩

def hiConnection : Connection := ⟨(encodeAll hiSubmission.records).toChunks 7, .closed, [], []⟩

def plainSettings : Settings := ⟨false, fun _ => 0, none, fun _ => 0⟩

theorem hiConnection_arriving : hiConnection.arriving.flatten = encodeAll hiSubmission.records := by
  decide

theorem hi_submission_environment :
    ∃ params z role, tryRequest plainSettings ⟨0, 0, false, false, 0, 0⟩ hiConnection = (some params, z) ∧
      hiSubmission.role.bytes = ascii "FCGI_ROLE=" ++ role ∧
      ∀ name : CString, 61 ∉ name.bytes → (getParam name params.vec).map CString.bytes =
        ((⟨ascii "FCGI_ROLE", role⟩ :: hiSubmission.environ).find? (·.name = name.bytes)).map NameValue.value :=
  submission_environment plainSettings ⟨0, 0, false, false, 0, 0⟩ hiSubmission hiConnection_arriving (by
      intro nv member
      obtain rfl := List.mem_singleton.1 member
      exact ⟨by decide, by decide⟩)

end Submission

end HvmlFpm.Fcgi
