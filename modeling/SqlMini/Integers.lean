import Mathlib.Tactic

/-!
# Machine integers

Unsigned integers are natural numbers, reduced modulo `uint16Size` or
`uint32Size` wherever the code computes with them and the result may leave
the range. A signed `int32_t` is a `CInt`, and the two conversions between
it and `uint32_t` keep the bits.
-/

/-- The range of a `uint32_t`. -/
abbrev uint32Size : ℕ := 4294967296

/-- The range of a `uint16_t`. -/
abbrev uint16Size : ℕ := 65536

/-- **An `int32_t`**: an integer with the proof that it is in range. -/
abbrev CInt := { z : ℤ // -2147483648 ≤ z ∧ z ≤ 2147483647 }

instance : Inhabited CInt := ⟨⟨0, by omega⟩⟩

namespace CInt

/-- The value of an `int32_t` converted to `uint32_t`. -/
def toUInt (z : CInt) : ℕ := (z.val % 4294967296).toNat

/-- The value of a `uint32_t` converted to `int32_t`. -/
def ofUInt (u : ℕ) : CInt :=
  ⟨if u % 4294967296 < 2147483648 then (u % 4294967296 : ℕ)
    else (u % 4294967296 : ℕ) - 4294967296, by split <;> omega⟩

/-- A value in the positive range keeps its meaning. -/
theorem val_ofUInt {u : ℕ} (h : u < 2147483648) : (ofUInt u).val = u := by
  show (if u % 4294967296 < 2147483648 then ((u % 4294967296 : ℕ) : ℤ)
    else ((u % 4294967296 : ℕ) : ℤ) - 4294967296) = u
  rw [if_pos (by omega), Nat.mod_eq_of_lt (by omega)]

theorem toUInt_lt (z : CInt) : z.toUInt < 4294967296 := by
  unfold toUInt
  omega

/-- A value of the type converted to `int32_t` and back. -/
theorem toUInt_ofUInt {u : ℕ} (h : u < 4294967296) : (ofUInt u).toUInt = u := by
  show ((if u % 4294967296 < 2147483648 then ((u % 4294967296 : ℕ) : ℤ)
    else ((u % 4294967296 : ℕ) : ℤ) - 4294967296) % 4294967296).toNat = u
  rw [Nat.mod_eq_of_lt h]
  split <;> omega

/-- **The two conversions are inverse.** -/
@[simp] theorem ofUInt_toUInt (z : CInt) : ofUInt z.toUInt = z := by
  have hz := z.property
  refine Subtype.ext ?_
  show (if z.toUInt % 4294967296 < 2147483648 then ((z.toUInt % 4294967296 : ℕ) : ℤ)
    else ((z.toUInt % 4294967296 : ℕ) : ℤ) - 4294967296) = z.val
  unfold toUInt
  split <;> omega

end CInt
