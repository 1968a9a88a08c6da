import HvmlFpm.Fcgi.Demux

/-!
# Answers to the web server

What the reader of a request writes is a row of records: one for each record that asks the library or that would begin
another request, and in their order.
-/

namespace HvmlFpm.Fcgi
open Library

def knownValue (nameValue : CString) : Option NameValue :=
  (valueOf (nameValue.takeWhile (· != 61))).map fun value => ⟨(nameValue.takeWhile (· != 61)).bytes, [value]⟩

section Values
variable {name : CString} {value : UInt8}

theorem valueOf_length (known : valueOf name = some value) : 13 ≤ name.length ∧ name.length ≤ 15 := by
  rw [valueOf] at known
  split_ifs at known with maxConns maxReqs mpxsConns
  · subst maxConns
    decide
  · subst maxReqs
    decide
  · subst mpxsConns
    decide

theorem valueEntry_some {nameValue : CString} {nv : NameValue} (known : knownValue nameValue = some nv) :
    valueEntry nameValue = [.ofNat nv.name.length] ++ ([1] ++ (nv.name ++ nv.value)) ∧
      LengthBytes nv.name.length [.ofNat nv.name.length] ∧ LengthBytes nv.value.length [1] ∧
      16 ≤ (valueEntry nameValue).length ∧ (valueEntry nameValue).length ≤ 18 := by
  rw [knownValue] at known
  obtain ⟨value, answers, rfl⟩ := Option.map_eq_some_iff.1 known
  have bounds : 13 ≤ (nameValue.takeWhile (· != 61)).bytes.length ∧
      (nameValue.takeWhile (· != 61)).bytes.length ≤ 15 :=
    valueOf_length answers
  have entry : valueEntry nameValue = .ofNat (nameValue.takeWhile (· != 61)).length :: 1 ::
      ((nameValue.takeWhile (· != 61)).bytes ++ [value]) := by
    rw [valueEntry, answers]
  refine ⟨entry, .short ?_, .short (by simp), ?_, ?_⟩
  · change (nameValue.takeWhile (· != 61)).bytes.length < 2 ^ 7
    omega
  · rw [entry]
    simp only [List.length_cons, List.length_append]
    omega
  · rw [entry]
    simp only [List.length_cons, List.length_append, List.length_nil]
    omega

theorem valueEntry_none {nameValue : CString} (unknown : knownValue nameValue = none) : valueEntry nameValue = [] := by
  rw [valueEntry, Option.map_eq_none_iff.1 unknown]

theorem values_pairs (vec : List CString) : PairsBytes (vec.filterMap knownValue) (vec.flatMap valueEntry) := by
  induction vec with
  | nil => exact .nil
  | cons nameValue vec ih =>
      cases known : knownValue nameValue with
      | none =>
          rw [List.filterMap_cons_none known, List.flatMap_cons, valueEntry_none known]
          exact ih
      | some nv =>
          obtain ⟨entry, name, one, -⟩ := valueEntry_some known
          rw [List.filterMap_cons_some known, List.flatMap_cons, entry]
          simpa only [List.append_assoc] using PairsBytes.cons name one ih

theorem values_length (vec : List CString) :
    16 * (vec.filterMap knownValue).length ≤ (vec.flatMap valueEntry).length ∧
      (vec.flatMap valueEntry).length ≤ 18 * (vec.filterMap knownValue).length := by
  induction vec with
  | nil => exact ⟨Nat.le_refl 0, Nat.le_refl 0⟩
  | cons nameValue vec ih =>
      rw [List.flatMap_cons, List.length_append]
      cases known : knownValue nameValue with
      | none =>
          rw [List.filterMap_cons_none known, valueEntry_none known, List.length_nil]
          omega
      | some nv =>
          obtain ⟨-, -, -, least, most⟩ := valueEntry_some known
          rw [List.filterMap_cons_some known, List.length_cons]
          omega

theorem responseFits_iff (vec : List CString) : responseFits vec = true ↔ (vec.filterMap knownValue).length ≤ 3 := by
  have bounds := values_length vec
  rw [responseFits, decide_eq_true_iff, headerLen]
  omega

end Values

/-- How a record is answered. The content of one that asks for values may be dropped before. -/
inductive Answers : Record → Record → Prop
  | cantMpxConn {query answer : Record} (begins : query.type = RecordType.beginRequest)
      (type : answer.type = RecordType.endRequest) (requestId : answer.requestId = query.requestId)
      (content : answer.content = makeEndRequestBody 0 .cantMpxConn) : Answers query answer
  | values {query answer : Record} {asked : List NameValue} {read : Bytes} (begins : query.type = RecordType.getValues)
      (management : query.requestId = 0) (reads : read = query.content ∨ read = []) (pairs : PairsBytes asked read)
      (type : answer.type = RecordType.getValuesResult) (requestId : answer.requestId = 0)
      (content : PairsBytes ((asked.map NameValue.entry).filterMap knownValue) answer.content)
      (few : ((asked.map NameValue.entry).filterMap knownValue).length ≤ 3) : Answers query answer
  | unknownType {query answer : Record} (other : query.type ≠ RecordType.getValues) (management : query.requestId = 0)
      (type : answer.type = RecordType.unknownType) (requestId : answer.requestId = 0)
      (content : answer.content = makeUnknownTypeBody query.type) : Answers query answer

def Record.isQuery (record : Record) : Bool := record.type = RecordType.beginRequest ∨ record.requestId = 0

section Answers
variable {requestId : Nat} {type : UInt8} {stack : Nat → UInt8} {ending : Ending}

theorem endRequestRecord_answers {query : Record} (begins : query.type = RecordType.beginRequest) :
    ∃ answer : Record, answer.encode = endRequestRecord query.requestId 0 .cantMpxConn ∧ Answers query answer :=
  ⟨⟨RecordType.endRequest, query.requestId, makeEndRequestBody 0 .cantMpxConn, [], 0, query.requestId_lt, by decide,
    by decide⟩, rfl, .cantMpxConn begins rfl rfl rfl⟩

theorem unknownTypeRecord_answers {query : Record} (other : query.type ≠ RecordType.getValues)
    (management : query.requestId = 0) :
    ∃ answer : Record, answer.encode = unknownTypeRecord query.type ∧ Answers query answer :=
  ⟨⟨RecordType.unknownType, 0, makeUnknownTypeBody query.type, [], 0, by decide, by simp [makeUnknownTypeBody],
    by decide⟩, rfl, .unknownType other management rfl rfl rfl⟩

theorem valuesResponse_answers (stack : Nat → UInt8) {query : Record} {asked : List NameValue} {read : Bytes}
    (asks : query.type = RecordType.getValues) (management : query.requestId = 0)
    (reads : read = query.content ∨ read = []) (pairs : PairsBytes asked read)
    (fits : responseFits (asked.map NameValue.entry) = true) :
    ∃ answer : Record, answer.encode = valuesResponse stack (asked.map NameValue.entry) ∧ Answers query answer := by
  have few := (responseFits_iff (asked.map NameValue.entry)).1 fits
  have most := (values_length (asked.map NameValue.entry)).2
  have size := alignInt8_lt ((asked.map NameValue.entry).flatMap valueEntry).length
  have least := le_alignInt8 ((asked.map NameValue.entry).flatMap valueEntry).length
  refine ⟨⟨RecordType.getValuesResult, 0, (asked.map NameValue.entry).flatMap valueEntry,
    (List.range (alignInt8 ((asked.map NameValue.entry).flatMap valueEntry).length -
      ((asked.map NameValue.entry).flatMap valueEntry).length)).map fun i =>
        if i = 0 then 0 else stack (headerLen + ((asked.map NameValue.entry).flatMap valueEntry).length + i),
    0, by decide, by omega, ?_⟩, ?_, .values asks management reads pairs rfl rfl (values_pairs _) few⟩
  · rw [List.length_map, List.length_range]
    omega
  · simp only [valuesResponse, Record.encode, Record.header, List.length_map, List.length_range, List.append_assoc]
    rfl

structure Replied (requestId : Nat) (type : UInt8) (records : List Record) (d : Demuxed)
    (before after answers : List Record) : Prop where
  split : records = before ++ after
  replies : d.replies = encodeAll answers
  answered : List.Forall₂ Answers (before.filter Record.isQuery) answers
  ended : d.errno = 0 → ∃ last later, after = last :: later ∧ last.Of type requestId ∧ last.content = [] ∧
    d.rest = last.padding ++ encodeAll later

section Records
variable {record : Record} {records before after answers : List Record} {d : Demuxed}

theorem answered_stop {errno : Int} (failed : errno ≠ 0) :
    Replied requestId type records (.stop errno) [] records [] :=
  ⟨rfl, rfl, .nil, fun none => absurd none failed⟩

theorem Replied.pass (answered : Replied requestId type records d before after answers)
    (silent : record.isQuery = false) : Replied requestId type (record :: records) d (record :: before) after answers := by
  refine ⟨congrArg (record :: ·) answered.split, answered.replies, ?_, answered.ended⟩
  rw [List.filter_cons_of_neg (by simp [silent])]
  exact answered.answered

theorem Replied.answer {answer : Record} {response : Bytes}
    (answered : Replied requestId type records d before after answers) (query : record.isQuery = true)
    (encode : answer.encode = response) (answers_it : Answers record answer) :
    Replied requestId type (record :: records) (d.reply response) (record :: before) after (answer :: answers) := by
  refine ⟨congrArg (record :: ·) answered.split, ?_, ?_, answered.ended⟩
  · rw [encodeAll_cons, encode, ← answered.replies]
    rfl
  · rw [List.filter_cons_of_pos query]
    exact .cons answers_it answered.answered

theorem Replied.give (answered : Replied requestId type records d before after answers) (bytes : Bytes) :
    Replied requestId type records (d.give bytes) before after answers :=
  ⟨answered.split, answered.replies, answered.answered, answered.ended⟩

theorem Replied.fit (answered : Replied requestId type records d before after answers) (fits : Bool) :
    Replied requestId type records (d.fit fits) before after answers :=
  ⟨answered.split, answered.replies, answered.answered, answered.ended⟩

end Records

theorem demux_replied (skip : Bool) (records : List Record)
    (fits : (demux requestId type stack ending skip records).fits = true) :
    ∃ before after answers,
      Replied requestId type records (demux requestId type stack ending skip records) before after answers := by
  induction records generalizing skip with
  | nil => exact ⟨[], [], [], answered_stop ending.errno_ne_zero⟩
  | cons record records ih =>
      have failed (errno : Int) (nonzero : errno ≠ 0) : ∃ before after answers,
          Replied requestId type (record :: records) (.stop errno) before after answers :=
        ⟨[], _, [], answered_stop nonzero⟩
      rw [demux] at fits ⊢
      dsimp only at fits ⊢
      by_cases begins : record.type = RecordType.beginRequest
      · rw [if_pos begins] at fits ⊢
        by_cases invalid : record.requestId = 0 ∨ record.content.length ≠ 8
        · rw [if_pos invalid]
          exact failed protocolError (by decide)
        · rw [if_neg invalid] at fits ⊢
          obtain ⟨before, after, answers, answered⟩ := ih false fits
          obtain ⟨answer, encode, answers_it⟩ := endRequestRecord_answers begins
          exact ⟨_, _, _, answered.answer (by simp [Record.isQuery, begins]) encode answers_it⟩
      · rw [if_neg begins] at fits ⊢
        by_cases management : record.requestId = 0
        · have query : record.isQuery = true := by simp [Record.isQuery, management]
          rw [if_pos management] at fits ⊢
          by_cases values : record.type = RecordType.getValues
          · rw [if_pos values] at fits ⊢
            by_cases more : WantsMore skip record.content record.padding (encodeAll records)
            · rw [if_pos more]
              obtain ⟨before, after, answers, answered⟩ := failed ending.errno ending.errno_ne_zero
              exact ⟨before, after, answers, answered.fit _⟩
            · rw [if_neg more] at fits ⊢
              cases complete : (parsePairs (if skip then [] else record.content)).complete with
              | false =>
                  rw [if_neg Bool.false_ne_true]
                  obtain ⟨before, after, answers, answered⟩ := failed paramsError (by decide)
                  exact ⟨before, after, answers, answered.fit _⟩
              | true =>
                  rw [complete, if_pos rfl] at fits
                  rw [if_pos rfl]
                  obtain ⟨allFit, laterFits⟩ := Bool.and_eq_true_iff.1 fits
                  obtain ⟨-, roomy⟩ := Bool.and_eq_true_iff.1 allFit
                  obtain ⟨before, after, answers, answered⟩ := ih _ laterFits
                  -- Behind a record of another request the names are read from nothing, and the answer is empty.
                  have reads : (if skip then [] else record.content) = record.content ∨
                      (if skip then [] else record.content) = [] := by
                    cases skip with
                    | true => exact .inr rfl
                    | false => exact .inl rfl
                  obtain ⟨answer, encode, answers_it⟩ := valuesResponse_answers stack values management reads
                    (parsePairs_complete.1 ⟨complete, rfl⟩) roomy
                  exact ⟨_, _, _, (answered.answer query encode answers_it).fit _⟩
          · rw [if_neg values] at fits ⊢
            obtain ⟨before, after, answers, answered⟩ := ih _ fits
            obtain ⟨answer, encode, answers_it⟩ := unknownTypeRecord_answers values management
            exact ⟨_, _, _, (answered.give _).answer query encode answers_it⟩
        · have silent : record.isQuery = false := by simp [Record.isQuery, begins, management]
          rw [if_neg management] at fits ⊢
          by_cases foreign : record.requestId ≠ requestId
          · rw [if_pos foreign] at fits ⊢
            obtain ⟨before, after, answers, answered⟩ := ih _ fits
            exact ⟨_, _, _, answered.pass silent⟩
          · rw [if_neg foreign] at fits ⊢
            by_cases other : record.type ≠ type
            · rw [if_pos other]
              exact failed protocolError (by decide)
            · rw [if_neg other] at fits ⊢
              by_cases last : record.content = []
              · rw [if_pos last]
                exact ⟨[], record :: records, [], rfl, rfl, .nil,
                  fun _ => ⟨record, records, rfl, ⟨not_not.1 other, not_not.1 foreign⟩, last, rfl⟩⟩
              · rw [if_neg last] at fits ⊢
                obtain ⟨before, after, answers, answered⟩ := ih _ fits
                exact ⟨_, _, _, (answered.give _).pass silent⟩

/-- While a stream of a request is read to its end, the web server gets an answer to each record that wants one, in
their order and nothing else, as long as it never asks for more than the array of the library holds. -/
theorem queries_answered {request : Request} {r : Reader} (records : List Record) (between : r.Between request type)
    (writable : r.connection.Writable) (ahead : r.ahead = encodeAll records) :
    ∃ bytes e, Yields (getChar fillBuffProc) r bytes e ∧
      (e.fault = false → ∃ before after answers, records = before ++ after ∧
        e.connection.written = r.connection.written ++ encodeAll answers ∧
        List.Forall₂ Answers (before.filter Record.isQuery) answers ∧
        (e.errno = 0 → ∃ last later, after = last :: later ∧ last.Of type request.requestId ∧ last.content = [] ∧
          e.ahead = last.padding ++ encodeAll later)) := by
  obtain ⟨e, yields, ends⟩ := demux_yields records between (.inl writable) ahead
  refine ⟨_, e, yields, fun still => ?_⟩
  have fits : (demux request.requestId type r.stack r.connection.ending r.skip records).fits = true := by
    have fault := (Bool.or_eq_false_iff.1 (ends.fault.symm.trans still)).2
    simpa using fault
  obtain ⟨before, after, answers, replied⟩ := demux_replied r.skip records fits
  refine ⟨before, after, answers, replied.split, ?_, replied.answered, fun none => ?_⟩
  · rw [ends.written, replied.replies]
  · have clean := ends.errno.symm.trans none
    obtain ⟨last, later, split, own, empty, rest⟩ := replied.ended clean
    exact ⟨last, later, split, own, empty, (ends.rest clean).trans rest⟩

theorem asking_queries_answered :
    ∃ bytes e, Yields (getChar fillBuffProc) askingReader bytes e ∧
      (e.fault = false → ∃ before after answers, askingRecords = before ++ after ∧
        e.connection.written = askingReader.connection.written ++ encodeAll answers ∧
        List.Forall₂ Answers (before.filter Record.isQuery) answers ∧
        (e.errno = 0 → ∃ last later, after = last :: later ∧ last.Of RecordType.stdin 7 ∧ last.content = [] ∧
          e.ahead = last.padding ++ encodeAll later)) :=
  have between : askingReader.Between askingReader.request RecordType.stdin :=
    ⟨rfl, rfl, rfl, rfl, rfl, ⟨rfl, rfl, rfl⟩, rfl⟩
  queries_answered askingRecords between (fun errno member => by cases member)
    (by simp [Reader.ahead, askingReader, newReader])

end Answers

end HvmlFpm.Fcgi
