import Mathlib.Algebra.Order.Ring.Nat
import HvmlFpm.Library.CString

/-!
# Numerals

A numeral is blanks, a sign and digits of a base, and `scan` reads the longest one that a text begins
with, as the functions of the `strtol` family do before they narrow the value.
-/

namespace HvmlFpm.Library

inductive Sign
  | none | plus | minus
deriving DecidableEq

namespace Sign

def bytes : Sign → Bytes
  | none => []
  | plus => [43]
  | minus => [45]

def apply : Sign → Nat → Int
  | minus, n => -n
  | _, n => n

def ofText : Bytes → Sign
  | 43 :: _ => plus
  | 45 :: _ => minus
  | _ => none

end Sign

def digitIn (base : Nat) (c : UInt8) : Bool := 48 ≤ c && decide (c.toNat < 48 + base)

def digitsValue (base : Nat) (digits : Bytes) : Nat :=
  digits.foldl (fun n c => base * n + (c - 48).toNat) 0

def Denotes (blank : UInt8 → Bool) (base : Nat) (text : Bytes) (value : Int) : Prop :=
  ∃ (blanks : Bytes) (sign : Sign) (digits : Bytes), text = blanks ++ (sign.bytes ++ digits) ∧
    (∀ c ∈ blanks, blank c = true) ∧ digits ≠ [] ∧ (∀ c ∈ digits, digitIn base c = true) ∧
    value = sign.apply (digitsValue base digits)

def scan (blank : UInt8 → Bool) (base : Nat) (text : Bytes) : Option (Int × Bytes) :=
  let body := text.dropWhile blank
  let sign := Sign.ofText body
  let unsigned := body.drop sign.bytes.length
  let digits := unsigned.takeWhile (digitIn base)
  if digits = [] then none else some (sign.apply (digitsValue base digits), unsigned.dropWhile (digitIn base))

section Scan
variable {blank : UInt8 → Bool} {base : Nat}

theorem Sign.ofText_split (body : Bytes) : body = (Sign.ofText body).bytes ++ body.drop (Sign.ofText body).bytes.length := by
  unfold Sign.ofText
  split <;> rfl

theorem Sign.ofText_append (sign : Sign) {c : UInt8} {rest : Bytes} (digit : digitIn base c = true) :
    Sign.ofText (sign.bytes ++ c :: rest) = sign := by
  have large : 48 ≤ c := by
    rw [digitIn, Bool.and_eq_true] at digit
    simpa using digit.1
  cases sign with
  | none =>
      rw [Sign.bytes, List.nil_append, Sign.ofText]
      · rintro tail ⟨rfl, -⟩
        exact absurd large (by decide)
      · rintro tail ⟨rfl, -⟩
        exact absurd large (by decide)
  | plus => rfl
  | minus => rfl

theorem scan_of_denotes {text : Bytes} {value : Int} (unmarked : ∀ c, blank c = true → c ≠ 43 ∧ c ≠ 45)
    (undigital : ∀ c, blank c = true → digitIn base c = false) (denotes : Denotes blank base text value) :
    scan blank base text = some (value, []) := by
  obtain ⟨blanks, sign, digits, rfl, allBlank, nonempty, allDigits, rfl⟩ := denotes
  obtain ⟨first, rest, rfl⟩ := List.exists_cons_of_ne_nil nonempty
  have digit : digitIn base first = true := allDigits first (by simp)
  have unblank : ∀ c tail, sign.bytes ++ first :: rest = c :: tail → blank c ≠ true := by
    intro c tail split marked
    cases sign with
    | none =>
        obtain ⟨rfl, -⟩ := List.cons.inj split
        simp [undigital _ marked] at digit
    | plus =>
        obtain ⟨rfl, -⟩ := List.cons.inj split
        exact (unmarked _ marked).1 rfl
    | minus =>
        obtain ⟨rfl, -⟩ := List.cons.inj split
        exact (unmarked _ marked).2 rfl
  have body : (blanks ++ (sign.bytes ++ first :: rest)).dropWhile blank = sign.bytes ++ first :: rest := by
    rw [List.dropWhile_append_of_pos allBlank]
    cases split : sign.bytes ++ first :: rest with
    | nil => rfl
    | cons c tail => exact List.dropWhile_cons_of_neg (unblank c tail split)
  have taken : (first :: rest).takeWhile (digitIn base) = first :: rest := List.takeWhile_eq_self_iff.2 allDigits
  have dropped : (first :: rest).dropWhile (digitIn base) = [] := List.dropWhile_eq_nil_iff.2 allDigits
  simp only [scan, body, Sign.ofText_append sign digit, List.drop_left, taken, dropped, reduceCtorEq, if_false]

theorem scan_split {text rest : Bytes} {value : Int} (scanned : scan blank base text = some (value, rest)) :
    ∃ numeral, text = numeral ++ rest ∧ Denotes blank base numeral value := by
  simp only [scan] at scanned
  split_ifs at scanned with nodigits
  simp only [Option.some.injEq, Prod.mk.injEq] at scanned
  obtain ⟨rfl, rfl⟩ := scanned
  have whole := (List.takeWhile_append_dropWhile (p := blank) (l := text)).symm
  have signed := Sign.ofText_split (text.dropWhile blank)
  have digits := (List.takeWhile_append_dropWhile (p := digitIn base)
    (l := (text.dropWhile blank).drop (Sign.ofText (text.dropWhile blank)).bytes.length)).symm
  refine ⟨_, ?_, text.takeWhile blank, Sign.ofText (text.dropWhile blank), _, rfl, ?_, nodigits, ?_, rfl⟩
  · rw [List.append_assoc, List.append_assoc, ← digits, ← signed]
    exact whole
  · intro c member
    exact List.mem_takeWhile_imp member
  · intro c member
    exact List.mem_takeWhile_imp member

theorem scan_eq_iff {text : Bytes} {value : Int} (unmarked : ∀ c, blank c = true → c ≠ 43 ∧ c ≠ 45)
    (undigital : ∀ c, blank c = true → digitIn base c = false) :
    scan blank base text = some (value, []) ↔ Denotes blank base text value := by
  constructor
  · intro scanned
    obtain ⟨numeral, split, denotes⟩ := scan_split scanned
    rw [split, List.append_nil]
    exact denotes
  · exact scan_of_denotes unmarked undigital

end Scan

def toUnsigned (bits : Nat) (value : Int) : Nat := (value % 2 ^ bits).toNat

/-- What a 32-bit `int` keeps of a value. -/
def toInt (value : Int) : Int := (value + 2 ^ 31) % 2 ^ 32 - 2 ^ 31

theorem toInt_lt (value : Int) : toInt value < 2 ^ 31 := by
  rw [toInt]
  omega

theorem toInt_le (n : Nat) : toInt n ≤ n := by
  rw [toInt]
  omega

theorem toInt_of_lt {n : Nat} (small : n < 2 ^ 31) : toInt n = n := by
  rw [toInt]
  omega

end HvmlFpm.Library
