import HvmlFpm.Fcgi.ReadParams

/-!
# Processing headers

The content of a record that `ProcessHeader` reads itself comes from `FillBuffProc` too, which closes the stream at
the end of the record. So the processing of headers leaves to the pieces what filling may leave to them, and
`FillBuffProc` as a whole does.
-/

namespace HvmlFpm.Fcgi
open Library

theorem lawful_error : Lawful fun _ r => (.error 0, r) where
  status := fun _ _ _ _ _ _ => rfl
  alike := fun _ _ _ _ _ same => same
  empty := fun _ _ empty => empty
  shorter := fun _ _ _ => Nat.le_refl _

theorem feeds_fillBuff {process : Header → Reader → Status × Reader} {P : Reader → Prop} (lawful : Lawful process)
    (stable : ∀ r r' : Reader, r'.frame = r.frame → P r → P r')
    (kept : ∀ header r, r.avail = [] → P r →
      (process header r).1 ≠ .beginRecord ∧ (process header r).2.avail = [] ∧
      P (process header r).2) : Feeds (fillBuff process) P where
  moves := fun r _ holds => stable r _ rfl holds
  keeps := fun _ holds empty open' => ((fillBuff_fills lawful empty open').keeps stable kept holds empty open').1
  fed := fun _ holds empty open' => ((fillBuff_fills lawful empty open').keeps stable kept holds empty open').2
  less := fun _ _ empty open' => fillBuff_uses lawful empty open'

theorem feeds_fillRecord {P : Reader → Prop} (stable : ∀ r r' : Reader, r'.frame = r.frame → P r → P r') :
    Feeds fillRecord P :=
  feeds_fillBuff lawful_error stable fun _ _ empty holds => ⟨Status.noConfusion, empty, holds⟩

def Reader.Dry (r : Reader) : Prop := r.skip = true ∨ r.contentLen = 0 ∨ r.ahead = []

def Turn.Dries : Turn → Prop
  | .returns r => r.isClosed = true ∧ r.avail = []
  | .continues r _ => r.avail = [] ∧ r.isClosed = false ∧ r.Dry

section Dry
variable {r : Reader} {header : Bytes}

theorem behindRecord_dries (empty : r.avail = []) (open' : r.isClosed = false) (content : r.contentLen = 0) :
    (behindRecord (fun _ r => (.error 0, r)) r header).Dries := by
  rw [behindRecord]
  split_ifs
  · exact ⟨rfl, rfl⟩
  · dsimp only
    split_ifs
    · exact ⟨empty, open', .inr (.inl content)⟩
    · exact ⟨rfl, rfl⟩

theorem behindContent_dries (empty : r.avail = []) (open' : r.isClosed = false) (content : r.contentLen = 0) :
    (behindContent (fun _ r => (.error 0, r)) r header).Dries := by
  rcases Nat.lt_or_ge r.rest.length r.paddingLen with few | enough
  · rw [behindContent_few few]
    exact ⟨empty, open', .inr (.inl content)⟩
  · rw [behindContent_enough enough]
    exact behindRecord_dries empty open' content

theorem fillTurn_dries (header : Bytes) (empty : r.avail = []) (open' : r.isClosed = false) (dry : r.Dry) :
    (fillTurn (fun _ r => (.error 0, r)) r header).Dries := by
  cases filled : refill r with
  | error r' =>
      obtain ⟨-, rfl⟩ := refill_error empty filled
      rw [fillTurn_error filled]
      exact ⟨rfl, empty⟩
  | ok r' =>
      obtain ⟨same, empty', some, -⟩ := refill_ok empty filled
      have open'' : r'.isClosed = false := (congrArg Reader.isClosed same).trans open'
      rw [fillTurn_ok filled]
      rcases Nat.eq_zero_or_pos r'.contentLen with none | content
      · rw [filledTurn_behind none]
        exact behindContent_dries empty' open'' none
      · have skip : r'.skip = true := by
          have content' : r.contentLen = r'.contentLen := by
            simpa [Reader.whole, empty, empty'] using (congrArg Reader.contentLen same).symm
          have ahead : r'.ahead = r.ahead := congrArg Reader.rest same
          rcases dry with skip | none | nothing
          · exact (congrArg Reader.skip same).trans skip
          · omega
          · rw [← ahead, Reader.ahead_of_empty empty'] at nothing
            exact absurd (List.append_eq_nil_iff.1 nothing).1 some
        rcases Nat.lt_or_ge r'.rest.length r'.contentLen with few | enough
        · rw [filledTurn_few skip few]
          exact ⟨empty', open'', .inl skip⟩
        · rw [filledTurn_enough skip content enough]
          exact behindContent_dries empty' open'' rfl

theorem Fills.dries {filled : Reader} (fills : Fills (fun _ r => (.error 0, r)) r header filled) (empty : r.avail = [])
    (open' : r.isClosed = false) (dry : r.Dry) : filled.isClosed = true ∧ filled.avail = [] := by
  induction fills with
  | @returns r filled header turn =>
      have dries := fillTurn_dries header empty open' dry
      rwa [turn] at dries
  | @continues r s filled header header' turn fills ih =>
      have dries := fillTurn_dries header empty open' dry
      rw [turn] at dries
      exact ih dries.1 dries.2.1 dries.2.2

theorem fillRecord_dry (empty : r.avail = []) (open' : r.isClosed = false) (dry : r.Dry) :
    (fillRecord r).isClosed = true ∧ (fillRecord r).avail = [] :=
  (fillBuff_fills lawful_error empty open').dries empty open' dry

end Dry

section Content
variable {r r' e : Reader} {bs : Bytes}

theorem getChar_dry (sound : r.Sound) (open' : r.isClosed = false) (dry : r.whole.Dry) :
    getChar fillRecord r = (none, fillRecord r) := by
  have empty : r.avail = [] := by
    rcases sound with empty | ⟨taken, -⟩
    · exact empty
    · rcases dry with skip | content | nothing
      · exact absurd skip (by simp [taken])
      · rw [Reader.whole_contentLen] at content
        exact List.eq_nil_of_length_eq_zero (by omega)
      · rw [Reader.whole_ahead, Reader.ahead] at nothing
        exact (List.append_eq_nil_iff.1 nothing).1
  have dry' : r.Dry := by
    rcases dry with skip | content | nothing
    · exact .inl skip
    · exact .inr (.inl (by rw [Reader.whole_contentLen] at content; omega))
    · exact .inr (.inr (by rwa [Reader.whole_ahead] at nothing))
  rw [getChar_fill open' empty, if_pos (fillRecord_dry empty open' dry').1]

def Reader.behind (w : Reader) (n : Nat) : Reader := { w with rest := w.rest.drop n, contentLen := w.contentLen - n }

theorem Reader.behindByte_behind (w : Reader) (n : Nat) : w.behindByte.behind n = w.behind (n + 1) := by
  simp only [Reader.behind, Reader.behindByte, List.drop_tail, Nat.sub_sub, Nat.add_comm 1 n]

theorem record_yields (sound : r.Sound) (open' : r.isClosed = false) (taken : r.skip = false) :
    ∃ s, s.Sound ∧ s.isClosed = false ∧ s.whole.Dry ∧
      s.whole = r.whole.behind (min r.whole.contentLen r.ahead.length) ∧
      Yields (getChar fillRecord) r (r.ahead.take r.whole.contentLen) (fillRecord s) := by
  induction size : r.ahead generalizing r with
  | nil =>
      have dry : r.whole.Dry := .inr (.inr (by rw [Reader.whole_ahead, size]))
      refine ⟨r, sound, open', dry, ?_, ?_⟩
      · rw [List.length_nil, Nat.min_zero]
        rfl
      · rw [List.take_nil]
        exact .nil (getChar_dry sound open' dry)
  | cons c more ih =>
      rcases Nat.eq_zero_or_pos r.whole.contentLen with none | some
      · have dry : r.whole.Dry := .inr (.inl none)
        refine ⟨r, sound, open', dry, ?_, ?_⟩
        · rw [none, Nat.zero_min]
          rfl
        · rw [none, List.take_zero]
          exact .nil (getChar_dry sound open' dry)
      · obtain ⟨t, given, whole, sound'⟩ := getChar_ready (fun _ r => (.error 0, r)) sound open' taken some size
        have open'' : t.isClosed = false := (congrArg Reader.isClosed whole).trans open'
        have taken' : t.skip = false := (congrArg Reader.skip whole).trans taken
        have ahead : t.ahead = more :=
          (congrArg Reader.rest whole).trans (by rw [Reader.behindByte, Reader.whole_rest, size]; rfl)
        have content : t.whole.contentLen = r.whole.contentLen - 1 := congrArg Reader.contentLen whole
        obtain ⟨s, sound, open', dry, same, rest⟩ := ih sound' open'' taken' ahead
        refine ⟨s, sound, open', dry, ?_, ?_⟩
        · have count : min r.whole.contentLen (c :: more).length = min t.whole.contentLen more.length + 1 := by
            rw [List.length_cons]
            omega
          rw [same, count, ← Reader.behindByte_behind, whole]
        · obtain ⟨k, succ⟩ : ∃ k, r.whole.contentLen = k + 1 := ⟨r.whole.contentLen - 1, by omega⟩
          rw [content, succ, Nat.add_sub_cancel] at rest
          rw [succ, List.take_succ_cons]
          exact .cons given rest

theorem skipped_yields (sound : r.Sound) (open' : r.isClosed = false) (skips : r.skip = true) :
    Yields (getChar fillRecord) r [] (fillRecord r) :=
  .nil (getChar_dry sound open' (.inl skips))

theorem Alike.of_empty (empty : r.avail = []) (empty' : r'.avail = []) (same : r.whole = r'.whole) : Alike r r' :=
  ⟨same, .inl empty, .inl empty'⟩

theorem Reader.Sound.empty (sound : r.Sound) (closed : r.isClosed = true) : r.avail = [] :=
  sound.resolve_right (by simp [closed])

theorem record_yields_le (sound : r.Sound) (yields : Yields (getChar fillRecord) r bs e) :
    bs.length ≤ r.whole.contentLen := by
  cases now : r.isClosed with
  | true =>
      obtain ⟨rfl, -⟩ := yields.unique (.nil (getChar_closed now))
      exact Nat.zero_le _
  | false =>
      cases skips : r.skip with
      | true =>
          obtain ⟨rfl, -⟩ := yields.unique (skipped_yields sound now skips)
          exact Nat.zero_le _
      | false =>
          obtain ⟨s, -, -, -, -, yields'⟩ := record_yields sound now skips
          obtain ⟨rfl, -⟩ := yields.unique yields'
          rw [List.length_take]
          exact Nat.min_le_left _ _

theorem Reader.Sound.spent (sound : r.Sound) (yields : Yields (getChar fillRecord) r [] e) : r.avail = [] := by
  rcases sound with empty | ⟨-, open'⟩
  · exact empty
  · cases available : r.avail with
    | nil => rfl
    | cons c avail =>
        cases yields with
        | nil ends =>
            rw [getChar_avail open' (by simp [available]), fromBuffer, available] at ends
            cases (Prod.mk.inj ends).1

end Content

/-! ## The lawfulness of the processing -/

section Lawful
variable {r r' e : Reader}

theorem write_whole (buf : Bytes) : (r.write buf).1 = (r.whole.write buf).1 ∧
    (r.write buf).2.whole = (r.whole.write buf).2.whole ∧ (r.write buf).2.avail = r.avail ∧
    (r.write buf).2.left = r.left := by
  refine ⟨rfl, ?_, rfl, rfl⟩
  simp [Reader.write, Connection.write, Reader.whole, Reader.ahead]

theorem respond_whole (response : Bytes) (status : Status) (r : Reader) :
    (respond response status r).1 = (respond response status r.whole).1 ∧
      (respond response status r).2.whole = (respond response status r.whole).2.whole ∧
      (respond response status r).2.avail = r.avail ∧ (respond response status r).2.left = r.left := by
  obtain ⟨same, whole, avail, left⟩ := write_whole (r := r) response
  rw [respond, respond]
  cases first : r.write response with
  | mk error s =>
      cases second : r.whole.write response with
      | mk error' s' =>
          rw [first] at same whole avail left
          rw [second] at same whole
          obtain rfl : error = error' := same
          cases error with
          | none => exact ⟨rfl, whole, avail, left⟩
          | some errno => exact ⟨rfl, congrArg (fun w : Reader => w.setError errno.val) whole, avail, left⟩

theorem respond_alike (response : Bytes) (status : Status) (same : r.whole = r'.whole) :
    (respond response status r).1 = (respond response status r').1 ∧
      (respond response status r).2.whole = (respond response status r').2.whole := by
  obtain ⟨first, whole, -, -⟩ := respond_whole response status r
  obtain ⟨first', whole', -, -⟩ := respond_whole response status r'
  rw [first, whole, same]
  exact ⟨first'.symm, whole'.symm⟩

structure SameResult (x x' : Status × Reader) : Prop where
  status : x.1 = x'.1
  whole : x.2.whole = x'.2.whole

theorem feeds_record : Feeds fillRecord fun _ => True := feeds_fillRecord fun _ _ _ _ => trivial

theorem readParams_record (params : Params) (alike : Alike r r') :
    (readParams fillRecord params r).1 = (readParams fillRecord params r').1 ∧
      (readParams fillRecord params r).2.whole = (readParams fillRecord params r').2.whole ∧
      (readParams fillRecord params r).2.avail = [] ∧ (readParams fillRecord params r').2.avail = [] := by
  obtain ⟨bs, e, yields⟩ := feeds_record.yields (r := r) trivial
  obtain ⟨e', yields', ends⟩ := alike.yields lawful_error yields
  have empty := ends.left.empty (feeds_record.ends_closed trivial yields)
  have empty' := ends.right.empty (feeds_record.ends_closed trivial yields')
  rw [readParams_yields feeds_record trivial yields, readParams_yields feeds_record trivial yields']
  refine ⟨rfl, ?_⟩
  dsimp only
  split_ifs
  · exact ⟨ends.whole, empty, empty'⟩
  · exact ⟨congrArg (fun w : Reader => w.setError paramsError) ends.whole, empty, empty'⟩

theorem processManagementRecord_same (type : UInt8) (alike : Alike r r') :
    SameResult (processManagementRecord type r) (processManagementRecord type r') := by
  rw [processManagementRecord, processManagementRecord]
  by_cases values : type = RecordType.getValues
  · obtain ⟨read, whole, empty, empty'⟩ := readParams_record (newParams 3 (by decide)) alike
    rw [if_pos values, if_pos values]
    dsimp only
    rw [← read]
    generalize (readParams fillRecord (newParams 3 (by decide)) r).1 = p
    generalize (readParams fillRecord (newParams 3 (by decide)) r).2 = s at whole empty
    generalize (readParams fillRecord (newParams 3 (by decide)) r').2 = s' at whole empty'
    have errno : s.errno = s'.errno := (congrArg Reader.errno whole :)
    have content : s.contentLen = s'.contentLen := by
      simpa [Reader.whole, empty, empty'] using congrArg Reader.contentLen whole
    have stack : s.stack = s'.stack := (congrArg Reader.stack whole :)
    have faulty (f : Bool → Bool) : { s with fault := f s.fault }.whole = { s' with fault := f s'.fault }.whole :=
      congrArg (fun w : Reader => { w with fault := f w.fault }) whole
    have response : valuesResponse s.stack p.params.vec = valuesResponse s'.stack p.params.vec := by rw [stack]
    by_cases stop : s.errno ≠ 0 ∨ s.contentLen ≠ 0
    · have stop' : s'.errno ≠ 0 ∨ s'.contentLen ≠ 0 := by rwa [← errno, ← content]
      rw [if_pos stop, if_pos stop']
      exact ⟨rfl, faulty (· || !p.fits)⟩
    · have going : ¬ (s'.errno ≠ 0 ∨ s'.contentLen ≠ 0) := by rwa [← errno, ← content]
      rw [if_neg stop, if_neg going, ← response]
      obtain ⟨status, whole⟩ := respond_alike (valuesResponse s.stack p.params.vec) .mgmtRecord
        (faulty fun fault => fault || !p.fits || !responseFits p.params.vec)
      exact ⟨status, whole⟩
  · rw [if_neg values, if_neg values]
    obtain ⟨status, whole⟩ :=
      respond_alike ((makeHeader RecordType.unknownType 0 headerLen 0).bytes ++ makeUnknownTypeBody type)
      .mgmtRecord alike.whole
    exact ⟨status, whole⟩

theorem getStr_record (n : Nat) (alike : Alike r r') :
    (getStr fillRecord n r).1 = (getStr fillRecord n r').1 ∧
      Alike (getStr fillRecord n r).2 (getStr fillRecord n r').2 := by
  rw [getStr_eq_pulls feeds_record trivial, getStr_eq_pulls feeds_record trivial]
  exact pulls_simulated (fun _ _ alike => getChar_alike lawful_error alike) alike n

theorem getStr_spends (sound : r.Sound) : (getStr fillRecord r.whole.contentLen r).2.avail = [] := by
  obtain ⟨bs, e, yields⟩ := feeds_record.yields (r := r) trivial
  have left := (getStr_record r.whole.contentLen ⟨rfl, sound, sound⟩).2.left
  rcases Nat.lt_or_ge bs.length r.whole.contentLen with beyond | within
  · rw [feeds_record.getStr_beyond trivial yields beyond] at left ⊢
    exact left.empty (feeds_record.ends_closed trivial yields)
  · obtain ⟨s, taken, -, rest⟩ := feeds_record.getStr_within trivial yields within
    rw [taken] at left ⊢
    have le := record_yields_le sound yields
    rw [List.drop_eq_nil_of_le le] at rest
    exact left.spent rest

theorem processBeginRecord_same (requestId : Nat) (empty : r.avail = []) (empty' : r'.avail = [])
    (same : r.whole = r'.whole) :
    SameResult (processBeginRecord requestId r) (processBeginRecord requestId r') := by
  have content : r.contentLen = r'.contentLen := by
    simpa [Reader.whole, empty, empty'] using congrArg Reader.contentLen same
  have request : r.request = r'.request := (congrArg Reader.request same :)
  rw [processBeginRecord, processBeginRecord]
  by_cases wrong : requestId = 0 ∨ r.contentLen ≠ 8
  · have wrong' : requestId = 0 ∨ r'.contentLen ≠ 8 := by rwa [← content]
    rw [if_pos wrong, if_pos wrong']
    exact ⟨rfl, same⟩
  · have right : ¬ (requestId = 0 ∨ r'.contentLen ≠ 8) := by rwa [← content]
    rw [if_neg wrong, if_neg right]
    cases begun : r.request.isBeginProcessed with
    | true =>
        have begun' : r'.request.isBeginProcessed = true := request ▸ begun
        rw [if_pos rfl, if_pos begun']
        obtain ⟨status, whole⟩ := respond_alike (endRequestRecord requestId 0 .cantMpxConn) .skip same
        exact ⟨status, whole⟩
    | false =>
        have begun' : r'.request.isBeginProcessed = false := request ▸ begun
        rw [if_neg Bool.false_ne_true, if_neg (by simp [begun'])]
        have alike : Alike { r with request := { r.request with requestId } }
            { r' with request := { r'.request with requestId } } :=
          .of_empty empty empty' (congrArg (fun w : Reader => { w with request := { w.request with requestId } }) same)
        obtain ⟨bytes, left⟩ := getStr_record 8 alike
        dsimp only
        rw [← bytes]
        generalize (getStr fillRecord 8 { r with request := { r.request with requestId } }).1 = body
        generalize (getStr fillRecord 8 { r with request := { r.request with requestId } }).2 = s at left
        generalize (getStr fillRecord 8 { r' with request := { r'.request with requestId } }).2 = s' at left
        split_ifs
        · exact ⟨rfl, congrArg (fun w : Reader => { w with request := w.request.begin body }) left.whole⟩
        · exact ⟨rfl, left.whole⟩

theorem processBeginRecord_empty (requestId : Nat) (empty : r.avail = []) :
    (processBeginRecord requestId r).2.avail = [] := by
  rw [processBeginRecord]
  by_cases wrong : requestId = 0 ∨ r.contentLen ≠ 8
  · rw [if_pos wrong]
    exact empty
  · rw [if_neg wrong]
    split_ifs
    · exact (respond_whole _ _ r).2.2.1.trans empty
    · have content : Reader.contentLen (Reader.whole { r with request := { r.request with requestId } }) = 8 := by
        rw [Reader.whole_contentLen, empty]
        simp only [not_or, not_not] at wrong
        exact wrong.2
      have spent := getStr_spends (r := { r with request := { r.request with requestId } }) (.inl empty)
      rw [content] at spent
      dsimp only
      split_ifs
      · exact spent
      · exact spent

theorem processManagementRecord_empty (type : UInt8) (empty : r.avail = []) :
    (processManagementRecord type r).2.avail = [] := by
  rw [processManagementRecord]
  by_cases values : type = RecordType.getValues
  · obtain ⟨-, -, spent, -⟩ := readParams_record (newParams 3 (by decide)) (.of_empty empty empty rfl)
    rw [if_pos values]
    dsimp only
    split_ifs
    · exact spent
    · exact (respond_whole _ _ _).2.2.1.trans spent
  · rw [if_neg values]
    exact (respond_whole _ _ r).2.2.1.trans empty

theorem Reader.left_le (r : Reader) : r.left ≤ r.ahead.length := r.length_ahead ▸ Nat.le_add_left _ _

theorem readParams_left (params : Params) (empty : r.avail = []) : (readParams fillRecord params r).2.left ≤ r.left := by
  have within := feeds_record.within r.ahead.length
  obtain ⟨bs, e, yields⟩ := within.yields (r := r) ⟨trivial, Nat.le_refl _⟩
  have le := (within.keeps_end ⟨trivial, Nat.le_refl _⟩ yields).2
  have shorter : e.left ≤ r.left := Reader.left_of_empty empty ▸ Nat.le_trans e.left_le le
  rw [readParams_yields within ⟨trivial, Nat.le_refl _⟩ yields]
  dsimp only
  split_ifs
  · exact shorter
  · exact shorter

theorem getStr_left (n : Nat) (empty : r.avail = []) : (getStr fillRecord n r).2.left ≤ r.left := by
  have within := feeds_record.within r.ahead.length
  have kept := (pulls_keeps within (r := r) ⟨trivial, Nat.le_refl _⟩ n).2
  rw [getStr_eq_pulls feeds_record trivial, Reader.left_of_empty empty]
  exact Nat.le_trans (Reader.left_le _) kept

theorem processBeginRecord_left (requestId : Nat) (empty : r.avail = []) :
    (processBeginRecord requestId r).2.left ≤ r.left := by
  have less := getStr_left (r := { r with request := { r.request with requestId } }) 8 empty
  rw [processBeginRecord]
  split_ifs
  · exact Nat.le_refl _
  · exact Nat.le_of_eq (respond_whole _ _ r).2.2.2
  · dsimp only
    split_ifs
    · exact less
    · exact less

theorem processManagementRecord_left (type : UInt8) (empty : r.avail = []) :
    (processManagementRecord type r).2.left ≤ r.left := by
  have less := readParams_left (newParams 3 (by decide)) empty
  rw [processManagementRecord]
  by_cases values : type = RecordType.getValues
  · rw [if_pos values]
    dsimp only
    split_ifs
    · exact less
    · exact (respond_whole _ _ _).2.2.2.trans_le less
  · rw [if_neg values]
    exact Nat.le_of_eq (respond_whole _ _ r).2.2.2

def Reader.announced (r : Reader) (header : Header) : Reader :=
  { r with contentLen := header.contentLength, paddingLen := header.paddingLength.toNat }

theorem announced_whole (header : Header) (empty : r.avail = []) :
    (r.announced header).whole = r.whole.announced header := by
  simp [Reader.whole, Reader.announced, Reader.ahead, empty]

theorem processHeader_eq (header : Header) (r : Reader) : processHeader header r =
    if header.version ≠ 1 then (.error unsupportedVersion, r)
    else if header.type = RecordType.beginRequest then processBeginRecord header.requestId (r.announced header)
    else if header.requestId = 0 then processManagementRecord header.type (r.announced header)
    else if header.requestId ≠ r.request.requestId then (.skip, r.announced header)
    else if header.type ≠ r.type then (.error protocolError, r.announced header)
    else (.streamRecord, r.announced header) := rfl

theorem processHeader_same (header : Header) (empty : r.avail = []) (empty' : r'.avail = []) (same : r.whole = r'.whole) :
    SameResult (processHeader header r) (processHeader header r') := by
  have type : r.type = r'.type := (congrArg Reader.type same :)
  have request : r.request = r'.request := (congrArg Reader.request same :)
  have announced : (r.announced header).whole = (r'.announced header).whole := by
    rw [announced_whole header empty, announced_whole header empty', same]
  rw [processHeader_eq, processHeader_eq, ← type, ← request]
  split_ifs
  · exact ⟨rfl, same⟩
  · exact processBeginRecord_same header.requestId empty empty' announced
  · exact processManagementRecord_same header.type (.of_empty empty empty' announced)
  · exact ⟨rfl, announced⟩
  · exact ⟨rfl, announced⟩
  · exact ⟨rfl, announced⟩

theorem lawful_processHeader : Lawful processHeader where
  status := fun header _ _ empty empty' same => (processHeader_same header empty empty' same).status
  alike := fun header _ _ empty empty' same => (processHeader_same header empty empty' same).whole
  empty := by
    intro header r empty
    rw [processHeader_eq]
    split_ifs
    · exact empty
    · exact processBeginRecord_empty header.requestId empty
    · exact processManagementRecord_empty header.type empty
    · exact empty
    · exact empty
    · exact empty
  shorter := by
    intro header r empty
    rw [processHeader_eq]
    split_ifs
    · exact Nat.le_refl _
    · exact processBeginRecord_left header.requestId empty
    · exact processManagementRecord_left header.type empty
    · exact Nat.le_refl _
    · exact Nat.le_refl _
    · exact Nat.le_refl _

end Lawful

/-! ## Streams of a request that has begun -/

section Begun
variable {r : Reader}

def Reader.Serves (request : Request) (type : UInt8) (r : Reader) : Prop :=
  request.isBeginProcessed = true ∧ r.request = request ∧ r.type = type

theorem respond_serves {request : Request} {type : UInt8} (response : Bytes) (status : Status)
    (serves : r.Serves request type) : (respond response status r).2.Serves request type := by
  rw [respond]
  cases wrote : r.write response with
  | mk error s =>
      obtain rfl : { r with connection := (r.connection.write response).2 } = s := congrArg Prod.snd wrote
      cases error with
      | none => exact serves
      | some errno => exact serves

theorem respond_status (response : Bytes) {status : Status} (going : status ≠ .beginRecord) (r : Reader) :
    (respond response status r).1 ≠ .beginRecord := by
  rw [respond]
  cases r.write response with
  | mk error s =>
      cases error with
      | none => exact going
      | some errno => exact Status.noConfusion

theorem serves_stable (request : Request) (type : UInt8) (r r' : Reader) (same : r'.frame = r.frame)
    (serves : r.Serves request type) : r'.Serves request type := by
  have type_eq : r'.type = r.type := congrArg Prod.fst same
  have request_eq : r'.request = r.request := congrArg (·.2.1) same
  exact ⟨serves.1, request_eq.trans serves.2.1, type_eq.trans serves.2.2⟩

theorem processManagementRecord_serves {request : Request} {type : UInt8} (recordType : UInt8)
    (serves : r.Serves request type) : (processManagementRecord recordType r).1 ≠ .beginRecord ∧
      (processManagementRecord recordType r).2.Serves request type := by
  rw [processManagementRecord]
  by_cases values : recordType = RecordType.getValues
  · have feeds := feeds_fillRecord (serves_stable request type)
    obtain ⟨bs, e, yields⟩ := feeds.yields serves
    have kept := feeds.keeps_end serves yields
    rw [if_pos values, readParams_yields feeds serves yields]
    have left : (if (parsePairs bs).complete then e else e.setError paramsError).Serves request type := by
      split_ifs
      · exact kept
      · exact kept
    generalize (if (parsePairs bs).complete then e else e.setError paramsError) = s at left
    dsimp only
    split_ifs
    · exact ⟨Status.noConfusion, left⟩
    · exact ⟨respond_status _ Status.noConfusion _, respond_serves _ _ left⟩
  · rw [if_neg values]
    exact ⟨respond_status _ Status.noConfusion r, respond_serves _ _ serves⟩

theorem processHeader_serves {request : Request} {type : UInt8} (header : Header) (serves : r.Serves request type) :
    (processHeader header r).1 ≠ .beginRecord ∧ (processHeader header r).2.Serves request type := by
  rw [processHeader_eq]
  split_ifs
  · exact ⟨Status.noConfusion, serves⟩
  · have begun : (r.announced header).request.isBeginProcessed = true :=
      (congrArg Request.isBeginProcessed serves.2.1).trans serves.1
    rw [processBeginRecord, if_pos begun]
    split_ifs
    · exact ⟨Status.noConfusion, serves⟩
    · exact ⟨respond_status _ Status.noConfusion _, respond_serves _ _ serves⟩
  · exact processManagementRecord_serves header.type serves
  · exact ⟨Status.noConfusion, serves⟩
  · exact ⟨Status.noConfusion, serves⟩
  · exact ⟨Status.noConfusion, serves⟩

theorem feeds_fillBuffProc (request : Request) (type : UInt8) : Feeds fillBuffProc (Reader.Serves request type) :=
  feeds_fillBuff lawful_processHeader (serves_stable request type) fun header r empty serves =>
    ⟨(processHeader_serves header serves).1, lawful_processHeader.empty header r empty,
      (processHeader_serves header serves).2⟩

theorem respond_fault (response : Bytes) (status : Status) (r : Reader) : (respond response status r).2.fault = r.fault := by
  rw [respond]
  cases wrote : r.write response with
  | mk error s =>
      obtain rfl : { r with connection := (r.connection.write response).2 } = s := congrArg Prod.snd wrote
      cases error with
      | none => rfl
      | some errno => rfl

theorem fault_stable (r r' : Reader) (same : r'.frame = r.frame) (faulty : r.fault = true) : r'.fault = true :=
  (congrArg (·.2.2.2.1) same : r'.fault = r.fault).trans faulty

theorem processManagementRecord_fault (recordType : UInt8) (faulty : r.fault = true) :
    (processManagementRecord recordType r).2.fault = true := by
  rw [processManagementRecord]
  split_ifs
  · have feeds := feeds_fillRecord fault_stable
    obtain ⟨bs, e, yields⟩ := feeds.yields faulty
    have kept := feeds.keeps_end faulty yields
    rw [readParams_yields feeds faulty yields]
    have left : (if (parsePairs bs).complete then e else e.setError paramsError).fault = true := by
      split_ifs
      · exact kept
      · exact kept
    generalize (if (parsePairs bs).complete then e else e.setError paramsError) = s at left
    dsimp only
    split_ifs
    · exact Bool.or_eq_true_iff.2 (.inl left)
    · rw [respond_fault]
      simp [left]
  · rwa [respond_fault]

theorem feeds_faulty (request : Request) (type : UInt8) :
    Feeds fillBuffProc fun r => r.Serves request type ∧ r.fault = true := by
  refine feeds_fillBuff lawful_processHeader
    (fun r r' same holds => ⟨serves_stable request type r r' same holds.1, fault_stable r r' same holds.2⟩) ?_
  intro header r empty holds
  obtain ⟨serves, faulty⟩ := holds
  obtain ⟨going, kept⟩ := processHeader_serves header serves
  refine ⟨going, lawful_processHeader.empty header r empty, kept, ?_⟩
  rw [processHeader_eq]
  split_ifs
  · exact faulty
  · have begun : (r.announced header).request.isBeginProcessed = true :=
      (congrArg Request.isBeginProcessed serves.2.1).trans serves.1
    rw [processBeginRecord, if_pos begun]
    split_ifs
    · exact faulty
    · rwa [respond_fault]
  · exact processManagementRecord_fault header.type faulty
  · exact faulty
  · exact faulty
  · exact faulty

end Begun

end HvmlFpm.Fcgi
