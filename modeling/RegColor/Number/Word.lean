/-!
# Sixty-four bit integers

Sizes, offsets and costs are 64-bit signed integers. `Word.wrap` gives the value that such an
integer holds after an arithmetic operation whose exact result is known.
-/

namespace RegColor.Word

/-- The number of 64-bit words, `2 ^ 64`. -/
def modulus : Nat := 18446744073709551616

/-- The least number above the 64-bit signed integers, `2 ^ 63`. -/
def bound : Int := 9223372036854775808

/-- The 64-bit signed integer that agrees with `n` modulo `2 ^ 64`. -/
def wrap (n : Int) : Int := n.bmod modulus

/-- Whether a 64-bit signed integer holds `n` exactly. -/
def fits (n : Int) : Bool := -bound ≤ n && n < bound

theorem fits_iff {n : Int} : fits n = true ↔ -bound ≤ n ∧ n < bound := by
  simp [fits]

theorem wrap_of_fits {n : Int} (h : fits n = true) : wrap n = n := by
  rw [fits_iff, bound] at h
  exact Int.bmod_eq_of_le (by rw [modulus]; omega) (by rw [modulus]; omega)

theorem fits_wrap (n : Int) : fits (wrap n) = true := by
  have lo := @Int.le_bmod n modulus (by decide)
  have hi := @Int.bmod_lt n modulus (by decide)
  rw [fits_iff, wrap, bound]
  rw [modulus] at lo hi ⊢
  omega

/-- Wrapping the parts of a sum first makes no difference. -/
theorem wrap_wrap_add (m n : Int) : wrap (wrap m + n) = wrap (m + n) :=
  Int.bmod_add_bmod

theorem wrap_add_wrap (m n : Int) : wrap (m + wrap n) = wrap (m + n) :=
  Int.add_bmod_bmod

end RegColor.Word
