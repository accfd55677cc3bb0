import Mathlib.Data.List.Basic
import Mathlib.Tactic.Common

/-!
# Records laid end to end

A record begins with a byte that says how long it is and a byte for its type; the rest is its payload.  `records` walks
from record to record by these lengths.  A payload may be text in 16-bit units, least significant byte first (`units`).
-/

namespace EdUsb.Lib

/-- A record of the type `t`. -/
def record (t : UInt8) (payload : List UInt8) : List UInt8 := UInt8.ofNat (payload.length + 2) :: t :: payload

/-- The types and payloads of records that are laid end to end, if the bytes are such records. -/
def records : List UInt8 → Option (List (UInt8 × List UInt8))
  | [] => some []
  | [_] => none
  | n :: t :: rest =>
    if 2 ≤ n.toNat ∧ n.toNat - 2 ≤ rest.length then
      (records (rest.drop (n.toNat - 2))).map ((t, rest.take (n.toNat - 2)) :: ·)
    else none
termination_by l => l.length
decreasing_by
  rw [List.length_drop]
  simp only [List.length_cons]
  omega

/-- The 16-bit units that the bytes are. -/
def units : List UInt8 → Option (List UInt16)
  | [] => some []
  | [_] => none
  | lo :: hi :: rest => (units rest).map ((lo.toUInt16 ||| hi.toUInt16 <<< 8) :: ·)

theorem record_length (t : UInt8) (payload : List UInt8) : (record t payload).length = payload.length + 2 := rfl

/-- A record in front is read first. -/
theorem records_append {t : UInt8} {payload : List UInt8} (h : payload.length + 2 < 256) (rest : List UInt8) :
    records (record t payload ++ rest) = (records rest).map ((t, payload) :: ·) := by
  have hn : (UInt8.ofNat (payload.length + 2)).toNat - 2 = payload.length := by
    rw [UInt8.toNat_ofNat', Nat.mod_eq_of_lt h]
    rfl
  have hlen : 2 ≤ (UInt8.ofNat (payload.length + 2)).toNat ∧
      (UInt8.ofNat (payload.length + 2)).toNat - 2 ≤ (payload ++ rest).length := by
    rw [hn, UInt8.toNat_ofNat', Nat.mod_eq_of_lt h, List.length_append]
    omega
  rw [record, List.cons_append, List.cons_append, records, if_pos hlen, hn, List.drop_left, List.take_left]

theorem units_map (l : List UInt8) : units (l.flatMap fun b => [b, 0]) = some (l.map UInt8.toUInt16) := by
  induction l with
  | nil => rfl
  | cons b l ih => simp [units, ih]

end EdUsb.Lib
