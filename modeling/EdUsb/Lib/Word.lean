import Mathlib.Data.Int.ModEq

/-!
# Conversions between the integer types of C

What the conversions of Lean's fixed-width types do to the integer they hold, and what setting and clearing flags of a
`USHORT` does to its other flags.
-/

namespace EdUsb.Lib

/-- An `int` seen as an `unsigned int`. -/
theorem toNat_toUInt32 (x : Int32) : (x.toUInt32.toNat : ℤ) = x.toInt % 2 ^ 32 := by
  have h : (x.toUInt32.toNat : ℤ) = (x.toBitVec.toNat : ℤ) := rfl
  have := x.toBitVec.isLt
  rw [h, ← x.toInt_toBitVec, BitVec.toInt_eq_toNat_cond]
  split <;> omega

/-- A small `unsigned int` seen as an `int`. -/
theorem toInt_toInt32 {x : UInt32} (h : x.toNat < 2 ^ 31) : x.toInt32.toInt = x.toNat := by
  have h1 := toNat_toUInt32 x.toInt32
  have h2 := x.toInt32.toInt_lt
  have h3 := x.toInt32.le_toInt
  rw [UInt32.toUInt32_toInt32] at h1
  omega

/-! ### Flags -/

section Flags

variable {flag other : UInt16} (x : UInt16)

theorem not_both {i : ℕ} (hi : i < 16) (h : other &&& flag = 0) :
    ¬ (other.toBitVec[i] = true ∧ flag.toBitVec[i] = true) := by
  have := congrArg (fun z : UInt16 => z.toBitVec[i]) h
  simpa using this

theorem and_clear : flag &&& (x &&& ~~~flag) = 0 := by
  rw [← UInt16.toBitVec_inj]
  ext i hi
  have hzero : (UInt16.toBitVec 0)[i] = false := by simp
  simp only [UInt16.toBitVec_and, UInt16.toBitVec_not, BitVec.getElem_and, BitVec.getElem_not, hzero]
  grind

theorem and_raise : flag &&& (x ||| flag) = flag := by
  rw [← UInt16.toBitVec_inj]
  ext i hi
  simp only [UInt16.toBitVec_and, UInt16.toBitVec_or, BitVec.getElem_and, BitVec.getElem_or]
  grind

theorem and_raise_of_disjoint (h : other &&& flag = 0) : other &&& (x ||| flag) = other &&& x := by
  rw [← UInt16.toBitVec_inj]
  ext i hi
  have := not_both hi h
  simp only [UInt16.toBitVec_and, UInt16.toBitVec_or, BitVec.getElem_and, BitVec.getElem_or]
  grind

end Flags

end EdUsb.Lib
