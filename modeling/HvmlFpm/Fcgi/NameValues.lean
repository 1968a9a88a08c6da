import HvmlFpm.Fcgi.Pull

/-!
# Name-value pairs

The format in which FastCGI sends pairs of a name and a value. A length below 128 may take one byte or four. What
`ReadParams` takes from a stream is what stands in its bytes in this format.
-/

namespace HvmlFpm.Fcgi
open Library

structure NameValue where
  name : Bytes
  value : Bytes
deriving DecidableEq

def NameValue.entry (nv : NameValue) : CString := .ofBuffer (nv.name ++ 61 :: nv.value)

inductive LengthBytes (n : Nat) : Bytes → Prop
  | short (lt : n < 2 ^ 7) : LengthBytes n [.ofNat n]
  | long (lt : n < 2 ^ 31) : LengthBytes n [.ofNat (n / 2 ^ 24 + 128), .ofNat (n / 2 ^ 16), .ofNat (n / 2 ^ 8), .ofNat n]

inductive PairsBytes : List NameValue → Bytes → Prop
  | nil : PairsBytes [] []
  | cons {nv : NameValue} {nvs : List NameValue} {nameLen valueLen bs : Bytes}
      (name : LengthBytes nv.name.length nameLen) (value : LengthBytes nv.value.length valueLen)
      (later : PairsBytes nvs bs) :
      PairsBytes (nv :: nvs) (nameLen ++ (valueLen ++ (nv.name ++ (nv.value ++ bs))))

def lengthOf : Bytes → Option (Nat × Bytes)
  | [] => none
  | c :: bs =>
      if 128 ≤ c then
        match bs with
        | b2 :: b1 :: b0 :: bs =>
            some (2 ^ 24 * (c.toNat % 128) + 2 ^ 16 * b2.toNat + 2 ^ 8 * b1.toNat + b0.toNat, bs)
        | _ => none
      else some (c.toNat, bs)

def pairOf (bs : Bytes) : Option (NameValue × Bytes) × Bool :=
  match lengthOf bs with
  | none => (none, true)
  | some (nameLen, bs) =>
      match lengthOf bs with
      | none => (none, true)
      | some (valueLen, bs) =>
          (if nameLen + valueLen ≤ bs.length then
              some (⟨bs.take nameLen, (bs.drop nameLen).take valueLen⟩, bs.drop (nameLen + valueLen))
            else none,
            pairFits nameLen valueLen)

/-- The pairs at the beginning, whether nothing stands behind them, and whether all blocks are long enough. -/
structure Parsed where
  complete : Bool
  pairs : List NameValue
  fits : Bool
deriving DecidableEq

def parseLoop : Nat → Bytes → Parsed
  | 0, _ => ⟨false, [], true⟩
  | _ + 1, [] => ⟨true, [], true⟩
  | fuel + 1, c :: bs =>
      match pairOf (c :: bs) with
      | (none, fits) => ⟨false, [], fits⟩
      | (some (nv, rest), fits) =>
          let later := parseLoop fuel rest
          ⟨later.complete, nv :: later.pairs, fits && later.fits⟩

def parsePairs (bs : Bytes) : Parsed := parseLoop (bs.length + 1) bs

section Lengths
variable {c : UInt8} {n : Nat} {bs rest : Bytes}

theorem lengthOf_short (small : ¬ 128 ≤ c) : lengthOf (c :: bs) = some (c.toNat, bs) := by
  unfold lengthOf
  exact if_neg small

theorem lengthOf_long {b2 b1 b0 : UInt8} (large : 128 ≤ c) :
    lengthOf (c :: b2 :: b1 :: b0 :: bs) =
      some (2 ^ 24 * (c.toNat % 128) + 2 ^ 16 * b2.toNat + 2 ^ 8 * b1.toNat + b0.toNat, bs) := by
  unfold lengthOf
  exact if_pos large

theorem lengthOf_few (large : 128 ≤ c) (few : bs.length < 3) : lengthOf (c :: bs) = none := by
  unfold lengthOf
  rcases bs with _ | ⟨b2, _ | ⟨b1, _ | ⟨b0, bs⟩⟩⟩
  · exact if_pos large
  · exact if_pos large
  · exact if_pos large
  · simp only [List.length_cons] at few
    omega

theorem LengthBytes.lengthOf {bytes : Bytes} (length : LengthBytes n bytes) (rest : Bytes) :
    lengthOf (bytes ++ rest) = some (n, rest) := by
  cases length with
  | short lt =>
      have value : (UInt8.ofNat n).toNat = n := by
        rw [UInt8.toNat_ofNat']
        omega
      have small : ¬ 128 ≤ UInt8.ofNat n := by
        rw [UInt8.le_iff_toNat_le, value]
        exact Nat.not_le_of_lt lt
      rw [List.singleton_append, lengthOf_short small, value]
  | long lt =>
      have large : 128 ≤ UInt8.ofNat (n / 2 ^ 24 + 128) := by
        rw [UInt8.le_iff_toNat_le, UInt8.toNat_ofNat']
        change 128 ≤ _
        omega
      simp only [List.cons_append, List.nil_append]
      rw [lengthOf_long large]
      simp only [UInt8.toNat_ofNat', Option.some.injEq, Prod.mk.injEq, and_true]
      omega

theorem ofNat_long {b2 b1 b0 : UInt8} (large : 128 ≤ c)
    (number : n = 2 ^ 24 * (c.toNat % 128) + 2 ^ 16 * b2.toNat + 2 ^ 8 * b1.toNat + b0.toNat) :
    [UInt8.ofNat (n / 2 ^ 24 + 128), .ofNat (n / 2 ^ 16), .ofNat (n / 2 ^ 8), .ofNat n] = [c, b2, b1, b0] := by
  have c_lt := c.toNat_lt
  have b2_lt := b2.toNat_lt
  have b1_lt := b1.toNat_lt
  have b0_lt := b0.toNat_lt
  have le : 128 ≤ c.toNat := UInt8.le_iff_toNat_le.1 large
  simp only [List.cons.injEq, ← UInt8.toNat_inj, UInt8.toNat_ofNat', and_true]
  omega

theorem lengthBytes_of_lengthOf (first : lengthOf bs = some (n, rest)) :
    ∃ bytes, bs = bytes ++ rest ∧ LengthBytes n bytes := by
  cases bs with
  | nil => cases first
  | cons c bs =>
      by_cases large : 128 ≤ c
      · rcases Nat.lt_or_ge bs.length 3 with few | enough
        · rw [lengthOf_few large few] at first
          cases first
        · obtain ⟨b2, b1, b0, bs, rfl⟩ : ∃ b2 b1 b0 more, bs = b2 :: b1 :: b0 :: more := by
            rcases bs with _ | ⟨b2, _ | ⟨b1, _ | ⟨b0, bs⟩⟩⟩
            · simp at enough
            · simp at enough
            · simp at enough
            · exact ⟨b2, b1, b0, bs, rfl⟩
          rw [lengthOf_long large] at first
          obtain ⟨number, rfl⟩ := Prod.mk.inj (Option.some.inj first)
          refine ⟨[c, b2, b1, b0], rfl, ?_⟩
          rw [← ofNat_long large number.symm]
          have b2_lt := b2.toNat_lt
          have b1_lt := b1.toNat_lt
          have b0_lt := b0.toNat_lt
          exact .long (by omega)
      · rw [lengthOf_short large] at first
        obtain ⟨rfl, rfl⟩ := Prod.mk.inj (Option.some.inj first)
        have small : c.toNat < 2 ^ 7 := Nat.lt_of_not_le fun le => large (UInt8.le_iff_toNat_le.2 le)
        refine ⟨[c], rfl, ?_⟩
        have bytes := LengthBytes.short small
        rwa [UInt8.ofNat_toNat] at bytes

theorem lengthOf_shorter (first : lengthOf bs = some (n, rest)) : rest.length < bs.length := by
  obtain ⟨bytes, rfl, length⟩ := lengthBytes_of_lengthOf first
  rw [List.length_append]
  cases length with
  | short lt => exact Nat.lt_add_of_pos_left Nat.one_pos
  | long lt => exact Nat.lt_add_of_pos_left (Nat.succ_pos 3)

end Lengths

section Pairs
variable {bs rest : Bytes} {nv : NameValue} {fits : Bool}

theorem pairOf_shorter (first : pairOf bs = (some (nv, rest), fits)) : rest.length < bs.length := by
  rw [pairOf] at first
  cases name : lengthOf bs with
  | none => simp [name] at first
  | some found =>
      obtain ⟨nameLen, bs'⟩ := found
      have shorter := lengthOf_shorter name
      cases value : lengthOf bs' with
      | none => simp [name, value] at first
      | some found =>
          obtain ⟨valueLen, bs''⟩ := found
          have shorter' := lengthOf_shorter value
          simp only [name, value] at first
          split_ifs at first
          · obtain ⟨same, -⟩ := Prod.mk.inj first
            obtain ⟨-, rfl⟩ := Prod.mk.inj (Option.some.inj same)
            rw [List.length_drop]
            omega
          · cases (Prod.mk.inj first).1

theorem parseLoop_fuel (fuel fuel' : Nat) (enough : bs.length < fuel) (enough' : bs.length < fuel') :
    parseLoop fuel bs = parseLoop fuel' bs := by
  induction fuel generalizing fuel' bs with
  | zero => simp at enough
  | succ fuel ih =>
      cases fuel' with
      | zero => simp at enough'
      | succ fuel' =>
          cases bs with
          | nil => rfl
          | cons c bs =>
              rw [parseLoop, parseLoop]
              cases first : pairOf (c :: bs) with
              | mk found fits =>
                  cases found with
                  | none => rfl
                  | some found =>
                      obtain ⟨nv, rest⟩ := found
                      have shorter := pairOf_shorter first
                      dsimp only
                      rw [ih fuel' (by omega) (by omega)]

@[simp] theorem parsePairs_nil : parsePairs [] = ⟨true, [], true⟩ := rfl

theorem parsePairs_stops (some : bs ≠ []) (first : pairOf bs = (none, fits)) : parsePairs bs = ⟨false, [], fits⟩ := by
  cases bs with
  | nil => exact absurd rfl some
  | cons c bs =>
      rw [parsePairs, parseLoop]
      simp only [first]

theorem parsePairs_goes (first : pairOf bs = (some (nv, rest), fits)) :
    parsePairs bs = ⟨(parsePairs rest).complete, nv :: (parsePairs rest).pairs, fits && (parsePairs rest).fits⟩ := by
  have shorter := pairOf_shorter first
  cases bs with
  | nil => simp at shorter
  | cons c bs =>
      rw [parsePairs, parseLoop]
      simp only [first]
      rw [parsePairs, parseLoop_fuel (c :: bs).length (rest.length + 1) (by omega) (by omega)]

theorem pairOf_encoded {nameLen valueLen : Bytes} (name : LengthBytes nv.name.length nameLen)
    (value : LengthBytes nv.value.length valueLen) (rest : Bytes) :
    pairOf (nameLen ++ (valueLen ++ (nv.name ++ (nv.value ++ rest)))) =
      (some (nv, rest), pairFits nv.name.length nv.value.length) := by
  have enough : nv.name.length + nv.value.length ≤ (nv.name ++ (nv.value ++ rest)).length := by
    rw [List.length_append, List.length_append]
    omega
  simp only [pairOf, name.lengthOf, value.lengthOf, if_pos enough, List.take_left, List.drop_left]
  rw [← List.drop_drop, List.drop_left, List.drop_left]

theorem encoded_of_pairOf (first : pairOf bs = (some (nv, rest), fits)) :
    fits = pairFits nv.name.length nv.value.length ∧ ∃ nameLen valueLen, LengthBytes nv.name.length nameLen ∧
      LengthBytes nv.value.length valueLen ∧ bs = nameLen ++ (valueLen ++ (nv.name ++ (nv.value ++ rest))) := by
  rw [pairOf] at first
  cases name : lengthOf bs with
  | none => simp [name] at first
  | some found =>
      obtain ⟨nameLen, bs'⟩ := found
      obtain ⟨nameBytes, rfl, nameLength⟩ := lengthBytes_of_lengthOf name
      cases value : lengthOf bs' with
      | none => simp [name, value] at first
      | some found =>
          obtain ⟨valueLen, bs''⟩ := found
          obtain ⟨valueBytes, rfl, valueLength⟩ := lengthBytes_of_lengthOf value
          simp only [name, value] at first
          split_ifs at first with enough
          · obtain ⟨same, rfl⟩ := Prod.mk.inj first
            obtain ⟨rfl, rfl⟩ := Prod.mk.inj (Option.some.inj same)
            have nameFull : (bs''.take nameLen).length = nameLen := by
              rw [List.length_take]
              omega
            have valueFull : ((bs''.drop nameLen).take valueLen).length = valueLen := by
              rw [List.length_take, List.length_drop]
              omega
            dsimp only
            rw [nameFull, valueFull]
            refine ⟨rfl, nameBytes, valueBytes, nameLength, valueLength, ?_⟩
            rw [← List.drop_drop, List.take_append_drop, List.take_append_drop]
          · cases (Prod.mk.inj first).1

end Pairs

section Parse
variable {bs : Bytes} {nvs : List NameValue}

/-- Nothing is left over exactly where the bytes are pairs one behind the other. -/
theorem parsePairs_complete : (parsePairs bs).complete = true ∧ (parsePairs bs).pairs = nvs ↔ PairsBytes nvs bs := by
  constructor
  · rintro ⟨complete, rfl⟩
    induction size : bs.length using Nat.strongRecOn generalizing bs with
    | ind n ih =>
        subst size
        by_cases none : bs = []
        · subst none
          exact .nil
        · cases first : pairOf bs with
          | mk found fits =>
              cases found with
              | none =>
                  rw [parsePairs_stops none first] at complete
                  cases complete
              | some found =>
                  obtain ⟨nv, rest⟩ := found
                  have shorter := pairOf_shorter first
                  obtain ⟨-, nameLen, valueLen, name, value, same⟩ := encoded_of_pairOf first
                  rw [parsePairs_goes first] at complete ⊢
                  rw [same]
                  exact .cons name value (ih rest.length shorter complete rfl)
  · intro written
    induction written with
    | nil => exact ⟨rfl, rfl⟩
    | cons name value later ih =>
        rw [parsePairs_goes (pairOf_encoded name value _)]
        exact ⟨ih.1, congrArg _ ih.2⟩

theorem parsePairs_fits (written : PairsBytes nvs bs) :
    (parsePairs bs).fits = nvs.all fun nv => pairFits nv.name.length nv.value.length := by
  induction written with
  | nil => rfl
  | cons name value later ih =>
      rw [parsePairs_goes (pairOf_encoded name value _), List.all_cons, ← ih]

end Parse

end HvmlFpm.Fcgi
