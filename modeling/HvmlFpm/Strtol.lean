import HvmlFpm.Library.Numeral
import HvmlFpm.Multipart.Attributes

namespace HvmlFpm
open Library Multipart

def DenotesInt (base : Nat) (text : CString) (value : Int) : Prop := Denotes isspace base text.bytes value

def toLong (value : Int) : Int := max (-2 ^ 63) (min value (2 ^ 63 - 1))

/-- The value, and what `*endptr` points to. -/
def strtol (text : CString) (base : Nat) : Int × Bytes :=
  match scan isspace base text.bytes with
  | none => (0, text.bytes)
  | some (value, rest) => (toLong value, rest)

theorem isspace_unmarked (c : UInt8) (blank : isspace c = true) : c ≠ 43 ∧ c ≠ 45 := by
  constructor
  · rintro rfl
    exact absurd blank (by decide)
  · rintro rfl
    exact absurd blank (by decide)

theorem isspace_undigital (base : Nat) (c : UInt8) (blank : isspace c = true) : digitIn base c = false := by
  have small : ¬ 48 ≤ c := by
    intro large
    simp only [isspace, Bool.or_eq_true, beq_iff_eq, Bool.and_eq_true, decide_eq_true_eq] at blank
    rcases blank with rfl | ⟨_, le⟩
    · exact absurd large (by decide)
    · have small : c.toNat ≤ 13 := UInt8.le_iff_toNat_le.1 le
      have atLeast : 48 ≤ c.toNat := UInt8.le_iff_toNat_le.1 large
      omega
  simp [digitIn, small]

theorem scan_of_denotesInt {base : Nat} {text : CString} {value : Int} (denotes : DenotesInt base text value) :
    scan isspace base text.bytes = some (value, []) :=
  scan_of_denotes isspace_unmarked (isspace_undigital base) denotes

theorem denotesInt_unique {base : Nat} {text : CString} {v w : Int} (denotes : DenotesInt base text v)
    (denotes' : DenotesInt base text w) : v = w := by
  have same := (scan_of_denotesInt denotes).symm.trans (scan_of_denotesInt denotes')
  exact (Prod.mk.inj (Option.some.inj same)).1

theorem strtol_of_denotes {base : Nat} {text : CString} {value : Int} (denotes : DenotesInt base text value) :
    strtol text base = (toLong value, []) := by
  rw [strtol, scan_of_denotesInt denotes]

theorem toUnsigned16_eq_iff (value : Int) : (toUnsigned 16 (toLong value) : Int) = value ↔ 0 ≤ value ∧ value < 2 ^ 16 := by
  rw [toUnsigned, toLong]
  omega

theorem toUnsigned32_eq_iff (value : Int) : (toUnsigned 32 (toLong value) : Int) = value ↔ 0 ≤ value ∧ value < 2 ^ 32 := by
  rw [toUnsigned, toLong]
  omega

end HvmlFpm
