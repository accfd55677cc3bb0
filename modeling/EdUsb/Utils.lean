import EdUsb.Lib.Mem
import EdUsb.Lib.Word
import Mathlib.Tactic.IntervalCases

/-!
# utils.c: packing numbers into a buffer

`value >> (i * 8) & 0xFF` is taken in the type C gives it: a `uint32_t` stays unsigned, an `int32_t` shifts its sign
in, a `uint16_t` and a `short` are promoted to `int` first.
-/

namespace EdUsb

open EdUsb.Lib

/-- The byte `value >> (i * 8) & 0xFF` of an `unsigned int`. -/
def unsignedByte (value : UInt32) (i : ℕ) : UInt8 := (value >>> UInt32.ofNat (i * 8) &&& 0xFF).toUInt8

/-- The byte `value >> (i * 8) & 0xFF` of an `int`. -/
def intByte (value : Int32) (i : ℕ) : UInt8 := (value >>> Int32.ofNat (i * 8) &&& 0xFF).toUInt32.toUInt8

/-- `_pack_uint32` -/
def packUint32 (m : Mem) (pos : ℕ) (value : UInt32) : Mem := m.fill pos 4 (unsignedByte value)

/-- `_pack_int32` -/
def packInt32 (m : Mem) (pos : ℕ) (value : Int32) : Mem := m.fill pos 4 (intByte value)

/-- `_pack_uint16` -/
def packUint16 (m : Mem) (pos : ℕ) (value : UInt16) : Mem := m.fill pos 2 (intByte value.toUInt32.toInt32)

/-- `_pack_short`: one byte, whatever the name says -/
def packShort (m : Mem) (pos : ℕ) (value : Int16) : Mem := m.fill pos 1 (intByte value.toInt32)

/-- `_pack_uint8_arr` -/
def packUint8Arr (m : Mem) (pos : ℕ) (src : List UInt8) (size : ℕ) : Mem := m.fill pos size fun i => src.getD i 0

/-! ### What the bytes are -/

theorem toNat_unsignedByte (value : UInt32) {i : ℕ} (hi : i < 4) :
    (unsignedByte value i).toNat = value.toNat / 256 ^ i % 256 := by
  have hs : (UInt32.ofNat (i * 8)).toNat = i * 8 := by
    rw [UInt32.toNat_ofNat', Nat.mod_eq_of_lt (by omega)]
  have hp : (2 : ℕ) ^ (i * 8) = 256 ^ i := by rw [Nat.mul_comm, pow_mul]; norm_num
  simp only [unsignedByte, UInt32.toNat_toUInt8, UInt32.toNat_and, UInt32.toNat_shiftRight, hs]
  rw [Nat.mod_eq_of_lt (show i * 8 < 32 by omega), Nat.shiftRight_eq_div_pow, hp]
  rw [show (UInt32.toNat 0xFF) = 2 ^ 8 - 1 from rfl, Nat.and_two_pow_sub_one_eq_mod]
  omega

/-- The low bytes do not tell an arithmetic shift from a logical one. -/
theorem intByte_eq (value : Int32) {i : ℕ} (hi : i < 4) : intByte value i = unsignedByte value.toUInt32 i := by
  apply UInt8.toBitVec_inj.1
  apply BitVec.eq_of_getLsbD_eq
  intro j hj
  have h : i * 8 + j < 32 := by omega
  unfold intByte unsignedByte
  interval_cases i <;> simp [BitVec.getLsbD_sshiftRight, h, show ¬ 32 ≤ j by omega]

theorem toNat_intByte (value : Int32) {i : ℕ} (hi : i < 4) :
    (intByte value i).toNat = value.toUInt32.toNat / 256 ^ i % 256 := by
  rw [intByte_eq value hi, toNat_unsignedByte _ hi]

/-! ### What is read back -/

theorem readLE_packUint32 (m : Mem) (pos : ℕ) (value : UInt32) :
    (packUint32 m pos value).readLE pos 4 = value.toNat := by
  unfold packUint32
  rw [Mem.readLE_fill m pos 4 value.toNat fun i hi => toNat_unsignedByte value hi]
  exact Nat.mod_eq_of_lt value.toNat_lt

theorem readLE_packInt32 (m : Mem) (pos : ℕ) (value : Int32) :
    ((packInt32 m pos value).readLE pos 4 : ℤ) = value.toInt % 2 ^ 32 := by
  unfold packInt32
  rw [Mem.readLE_fill m pos 4 value.toUInt32.toNat fun i hi => toNat_intByte value hi, ← toNat_toUInt32]
  exact congrArg Int.ofNat (Nat.mod_eq_of_lt value.toUInt32.toNat_lt)

theorem readLE_packUint16 (m : Mem) (pos : ℕ) (value : UInt16) :
    (packUint16 m pos value).readLE pos 2 = value.toNat := by
  have hf : ∀ i < 2, (intByte value.toUInt32.toInt32 i).toNat = value.toNat / 256 ^ i % 256 := by
    intro i hi
    rw [toNat_intByte _ (by omega)]
    simp
  unfold packUint16
  rw [Mem.readLE_fill m pos 2 value.toNat hf]
  exact Nat.mod_eq_of_lt value.toNat_lt

theorem readLE_packShort (m : Mem) (pos : ℕ) (value : Int16) :
    ((packShort m pos value).readLE pos 1 : ℤ) = value.toInt % 256 := by
  have hv : (value.toInt32.toUInt32.toNat : ℤ) = value.toInt % 2 ^ 32 := by
    rw [toNat_toUInt32, Int16.toInt_toInt32]
  unfold packShort
  rw [Mem.readLE_fill m pos 1 value.toInt32.toUInt32.toNat fun i hi => toNat_intByte _ (by omega)]
  push_cast
  omega

section Disjoint

variable (m : Mem) {pos q k : ℕ}

theorem readLE_packUint32_of_disjoint (value : UInt32) (h : q + k ≤ pos ∨ pos + 4 ≤ q) :
    (packUint32 m pos value).readLE q k = m.readLE q k := Mem.readLE_fill_disjoint m _ h

theorem readLE_packUint16_of_disjoint (value : UInt16) (h : q + k ≤ pos ∨ pos + 2 ≤ q) :
    (packUint16 m pos value).readLE q k = m.readLE q k := Mem.readLE_fill_disjoint m _ h

theorem readLE_packShort_of_disjoint (value : Int16) (h : q + k ≤ pos ∨ pos + 1 ≤ q) :
    (packShort m pos value).readLE q k = m.readLE q k := Mem.readLE_fill_disjoint m _ h

end Disjoint

/-! ### The four helpers -/

/-- A number to be packed, by the type of the helper's parameter. -/
inductive Packed where
  | uint32 (value : UInt32)
  | int32 (value : Int32)
  | uint16 (value : UInt16)
  | short (value : Int16)

namespace Packed

/-- The helper's effect on a buffer. -/
def store (p : Packed) (m : Mem) (pos : ℕ) : Mem :=
  match p with
  | .uint32 value => packUint32 m pos value
  | .int32 value => packInt32 m pos value
  | .uint16 value => packUint16 m pos value
  | .short value => packShort m pos value

/-- How many bytes are stored. -/
def width : Packed → ℕ
  | .uint32 _ => 4
  | .int32 _ => 4
  | .uint16 _ => 2
  | .short _ => 1

def toInt : Packed → ℤ
  | .uint32 value => value.toNat
  | .int32 value => value.toInt
  | .uint16 value => value.toNat
  | .short value => value.toInt

theorem exists_store_eq (p : Packed) : ∃ f, ∀ (m : Mem) (pos : ℕ), p.store m pos = m.fill pos p.width f := by
  cases p with
  | uint32 value => exact ⟨_, fun _ _ => rfl⟩
  | int32 value => exact ⟨_, fun _ _ => rfl⟩
  | uint16 value => exact ⟨_, fun _ _ => rfl⟩
  | short value => exact ⟨_, fun _ _ => rfl⟩

theorem readLE_store (p : Packed) (m : Mem) (pos : ℕ) :
    ((p.store m pos).readLE pos p.width : ℤ) = p.toInt % 2 ^ (8 * p.width) := by
  cases p with
  | uint32 value =>
    have hlt := value.toNat_lt
    rw [store, width, readLE_packUint32, toInt]
    omega
  | int32 value => exact readLE_packInt32 m pos value
  | uint16 value =>
    have hlt := value.toNat_lt
    rw [store, width, readLE_packUint16, toInt]
    omega
  | short value => exact readLE_packShort m pos value

end Packed

theorem packInt32_eq_packUint32 (m : Mem) (pos : ℕ) {value : Int32} {residue : UInt32}
    (h : (residue.toNat : ℤ) = value.toInt % 2 ^ 32) : packInt32 m pos value = packUint32 m pos residue := by
  have hres : residue = value.toUInt32 := by
    apply UInt32.toNat_inj.1
    apply Int.ofNat_inj.1
    rw [h, toNat_toUInt32]
  unfold packInt32 packUint32
  rw [hres]
  exact Mem.fill_congr m pos fun i hi => intByte_eq value hi

/-- **Packing.**  For every buffer, offset and number: the bytes outside the range are as they were, those in it do not
depend on what it held and are, least significant first, the number modulo its width; an `int32_t` is packed as its
residue is as a `uint32_t`; and packing to ranges that do not meet may be done in either order. -/
theorem packs_littleEndian (p : Packed) (m : Mem) (pos : ℕ) :
    (∀ i, i < pos ∨ pos + p.width ≤ i → p.store m pos i = m i) ∧
    (∀ m' : Mem, (p.store m' pos).bytes pos p.width = (p.store m pos).bytes pos p.width) ∧
    ((p.store m pos).readLE pos p.width : ℤ) = p.toInt % 2 ^ (8 * p.width) ∧
    (∀ (value : Int32) (residue : UInt32), (residue.toNat : ℤ) = value.toInt % 2 ^ 32 →
      packInt32 m pos value = packUint32 m pos residue) ∧
    ∀ (q : Packed) (pos' : ℕ), pos + p.width ≤ pos' ∨ pos' + q.width ≤ pos →
      q.store (p.store m pos) pos' = p.store (q.store m pos') pos := by
  obtain ⟨f, hf⟩ := p.exists_store_eq
  refine ⟨?_, ?_, p.readLE_store m pos, fun _ _ h => packInt32_eq_packUint32 m pos h, ?_⟩
  · intro i hi
    rw [hf, Mem.fill_apply, if_neg (by omega)]
  · intro m'
    rw [hf, hf, Mem.bytes_fill, Mem.bytes_fill]
  · intro q pos' h
    obtain ⟨g, hg⟩ := q.exists_store_eq
    rw [hf, hg, hf, hg]
    exact Mem.fill_comm m f g h

theorem packs_littleEndian_minusOne :
    (∀ i, i < 8 ∨ 12 ≤ i → packInt32 (fun _ => 0) 8 (-1) i = 0) ∧
      packInt32 (fun _ => 0) 8 (-1) = packUint32 (fun _ => 0) 8 0xFFFFFFFF ∧
      packShort (packInt32 (fun _ => 0) 8 (-1)) 12 3 = packInt32 (packShort (fun _ => 0) 12 3) 8 (-1) := by
  obtain ⟨hframe, -, -, hresidue, hcomm⟩ := packs_littleEndian (.int32 (-1)) (fun _ => 0) 8
  exact ⟨hframe, hresidue (-1) 0xFFFFFFFF (by decide), hcomm (.short 3) 12 (.inl (by decide))⟩

end EdUsb
