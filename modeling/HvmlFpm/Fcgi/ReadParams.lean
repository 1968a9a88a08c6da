import HvmlFpm.Fcgi.NameValues

namespace HvmlFpm.Fcgi
open Library

def Params.putAll (p : Params) (entries : List CString) : Params := entries.foldl Params.putParam p

@[simp] theorem Params.putAll_nil (p : Params) : p.putAll [] = p := rfl

@[simp] theorem Params.putAll_cons (p : Params) (entry : CString) (entries : List CString) :
    p.putAll (entry :: entries) = (p.putParam entry).putAll entries := rfl

@[simp] theorem Params.putAll_vec (p : Params) (entries : List CString) : (p.putAll entries).vec = p.vec ++ entries := by
  induction entries generalizing p with
  | nil => rw [putAll_nil, List.append_nil]
  | cons entry entries ih => rw [putAll_cons, ih, putParam, List.append_assoc, List.singleton_append]

section Read
variable {fill : Reader → Reader} {P : Reader → Prop} {r e : Reader} {bs rest : Bytes} {c : UInt8}
variable (feeds : Feeds fill P) (holds : P r) (yields : Yields (getChar fill) r bs e)
include feeds holds yields

theorem getChar_yields : match bs with
    | [] => getChar fill r = (none, e)
    | c :: rest => ∃ s, getChar fill r = (some c, s) ∧ P s ∧ Yields (getChar fill) s rest e := by
  have kept := getChar_keeps feeds holds
  cases yields with
  | nil ends => exact ends
  | cons gives rest =>
      rw [gives] at kept
      exact ⟨_, gives, kept, rest⟩

theorem readLength_yields : match lengthOf (c :: bs) with
    | none => readLength fill c r = (none, e.setError paramsError)
    | some (n, rest) => ∃ s, readLength fill c r = (some n, s) ∧ P s ∧ Yields (getChar fill) s rest e := by
  by_cases large : 128 ≤ c
  · rcases Nat.lt_or_ge bs.length 3 with few | enough
    · rw [lengthOf_few large few, readLength, if_pos large, feeds.getStr_beyond holds yields few]
      rcases bs with _ | ⟨b2, _ | ⟨b1, _ | ⟨b0, bs⟩⟩⟩
      · rfl
      · rfl
      · rfl
      · simp only [List.length_cons] at few
        omega
    · obtain ⟨s, taken, kept, left⟩ := feeds.getStr_within holds yields enough
      rcases bs with _ | ⟨b2, _ | ⟨b1, _ | ⟨b0, bs⟩⟩⟩
      · simp at enough
      · simp at enough
      · simp at enough
      · rw [lengthOf_long large, readLength, if_pos large, taken]
        exact ⟨s, rfl, kept, left⟩
  · rw [lengthOf_short large, readLength, if_neg large]
    exact ⟨r, rfl, holds, yields⟩

theorem readNameValue_yields (nameLen valueLen : Nat) :
    if nameLen + valueLen ≤ bs.length then
      ∃ s, readNameValue fill nameLen valueLen r =
          (some (NameValue.entry ⟨bs.take nameLen, (bs.drop nameLen).take valueLen⟩), s) ∧ P s ∧
        Yields (getChar fill) s (bs.drop (nameLen + valueLen)) e
    else readNameValue fill nameLen valueLen r = (none, e.setError paramsError) := by
  rcases Nat.lt_or_ge bs.length nameLen with few | enough
  · rw [if_neg (by omega), readNameValue, feeds.getStr_beyond holds yields few]
    exact if_neg (Nat.ne_of_lt few)
  · obtain ⟨s, taken, kept, left⟩ := feeds.getStr_within holds yields enough
    have full : (bs.take nameLen).length = nameLen := List.length_take_of_le enough
    rw [readNameValue, taken]
    dsimp only
    rw [if_pos full]
    have size : (bs.drop nameLen).length = bs.length - nameLen := List.length_drop
    rcases Nat.lt_or_ge (bs.drop nameLen).length valueLen with few | enough'
    · rw [if_neg (by omega), feeds.getStr_beyond kept left few]
      exact if_neg (Nat.ne_of_lt few)
    · obtain ⟨t, taken', kept', left'⟩ := feeds.getStr_within kept left enough'
      have full' : ((bs.drop nameLen).take valueLen).length = valueLen := List.length_take_of_le enough'
      rw [if_pos (by omega), taken']
      dsimp only
      rw [if_pos full']
      rw [List.drop_drop] at left'
      exact ⟨t, rfl, kept', left'⟩

theorem readPair_yields : match pairOf (c :: bs) with
    | (none, fits) => readPair fill c r = ((none, fits), e.setError paramsError)
    | (some (nv, rest), fits) =>
        ∃ s, readPair fill c r = ((some nv.entry, fits), s) ∧ P s ∧ Yields (getChar fill) s rest e := by
  have first := readLength_yields (c := c) feeds holds yields
  rw [pairOf, readPair]
  cases name : lengthOf (c :: bs) with
  | none =>
      rw [name] at first
      simp only [first]
  | some found =>
      obtain ⟨nameLen, bs'⟩ := found
      rw [name] at first
      obtain ⟨s, read, kept, left⟩ := first
      have second := getChar_yields feeds kept left
      simp only [read]
      cases bs' with
      | nil =>
          simp only [second, lengthOf]
      | cons c bs' =>
          obtain ⟨t, given, kept, left⟩ := second
          have third := readLength_yields (c := c) feeds kept left
          simp only [given]
          cases value : lengthOf (c :: bs') with
          | none =>
              rw [value] at third
              simp only [third]
          | some found =>
              obtain ⟨valueLen, bs''⟩ := found
              rw [value] at third
              obtain ⟨u, read, kept, left⟩ := third
              have last := readNameValue_yields feeds kept left nameLen valueLen
              simp only [read]
              by_cases enough : nameLen + valueLen ≤ bs''.length
              · rw [if_pos enough] at last ⊢
                obtain ⟨v, read, kept, left⟩ := last
                exact ⟨v, by rw [read], kept, left⟩
              · rw [if_neg enough] at last ⊢
                simp only [last]

end Read

theorem readParamsLoop_yields {fill : Reader → Reader} {P : Reader → Prop} {r e : Reader} {bs : Bytes} {fuel : Nat}
    (feeds : Feeds fill P) (holds : P r) (yields : Yields (getChar fill) r bs e) (params : Params)
    (enough : bs.length < fuel) :
    readParamsLoop fill fuel params r =
      (⟨(parsePairs bs).complete, params.putAll ((parsePairs bs).pairs.map NameValue.entry), (parsePairs bs).fits⟩,
        if (parsePairs bs).complete then e else e.setError paramsError) := by
  induction fuel generalizing bs r params with
  | zero => simp at enough
  | succ fuel ih =>
      have first := getChar_yields feeds holds yields
      rw [readParamsLoop]
      cases bs with
      | nil =>
          simp only [first]
          rfl
      | cons c bs =>
          obtain ⟨s, given, kept, left⟩ := first
          have next := readPair_yields (c := c) feeds kept left
          simp only [given]
          cases pair : pairOf (c :: bs) with
          | mk found fits =>
              rw [pair] at next
              cases found with
              | none =>
                  rw [parsePairs_stops (List.cons_ne_nil c bs) pair]
                  simp only [next]
                  rfl
              | some found =>
                  obtain ⟨nv, rest⟩ := found
                  obtain ⟨t, read, kept, left⟩ := next
                  have shorter := pairOf_shorter pair
                  rw [parsePairs_goes pair]
                  simp only [read, ih kept left (params.putParam nv.entry) (by omega), List.map_cons, Params.putAll_cons]

/-- What `ReadParams` returns depends on the bytes that the stream yields, and on nothing else. -/
theorem readParams_yields {fill : Reader → Reader} {P : Reader → Prop} {r e : Reader} {bs : Bytes}
    (feeds : Feeds fill P) (holds : P r) (yields : Yields (getChar fill) r bs e) (params : Params) :
    readParams fill params r =
      (⟨(parsePairs bs).complete, params.putAll ((parsePairs bs).pairs.map NameValue.entry), (parsePairs bs).fits⟩,
        if (parsePairs bs).complete then e else e.setError paramsError) := by
  have le := feeds.yields_le holds yields
  rw [Reader.length_ahead] at le
  exact readParamsLoop_yields feeds holds yields params (Nat.lt_succ_of_le le)

end HvmlFpm.Fcgi
