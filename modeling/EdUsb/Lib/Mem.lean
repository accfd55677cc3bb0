import Mathlib.Data.Nat.Digits.Lemmas
import Mathlib.Logic.Function.Basic

/-!
# Byte memories

A memory is a byte at every offset, so a store past the end of a buffer is seen and not lost.  `fill` is the loop
`for (i = 0; i < n; i++) *(pos + i) = f(i)`, from which the stores of a C helper are built; `bytes` reads a range back
and `readLE` reads it as a little-endian number.
-/

namespace EdUsb.Lib

/-- A byte at every offset. -/
abbrev Mem := ℕ → UInt8

/-- A list of bytes as a little-endian number. -/
def leNat (l : List UInt8) : ℕ := Nat.ofDigits 256 (l.map UInt8.toNat)

/-- The `n` bytes of a list from `pos` on, as a little-endian number. -/
def decodeLE (l : List UInt8) (pos n : ℕ) : ℕ := leNat ((l.drop pos).take n)

namespace Mem

/-- `for (i = 0; i < n; i++) *(pos + i) = f(i);` -/
def fill (m : Mem) (pos n : ℕ) (f : ℕ → UInt8) : Mem :=
  (List.range n).foldl (fun m i => Function.update m (pos + i) (f i)) m

/-- The `n` bytes from `pos` on. -/
def bytes (m : Mem) (pos n : ℕ) : List UInt8 := (List.range n).map fun i => m (pos + i)

/-- The memory with the bytes of `l` stored from `pos` on. -/
def write (m : Mem) (pos : ℕ) (l : List UInt8) : Mem := m.fill pos l.length fun i => l.getD i 0

/-- The `n` bytes from `pos` on, as a little-endian number. -/
def readLE (m : Mem) (pos n : ℕ) : ℕ := leNat (m.bytes pos n)

/-! ### What a loop of stores leaves -/

theorem fill_apply (m : Mem) (pos n : ℕ) (f : ℕ → UInt8) (k : ℕ) :
    m.fill pos n f k = if pos ≤ k ∧ k < pos + n then f (k - pos) else m k := by
  induction n with
  | zero => simp [fill]
  | succ n ih =>
    have hs : m.fill pos (n + 1) f = Function.update (m.fill pos n f) (pos + n) (f n) := by
      simp [fill, List.range_succ]
    rw [hs]
    by_cases hk : k = pos + n
    · subst hk
      rw [Function.update_self, if_pos (by omega), Nat.add_sub_cancel_left]
    · rw [Function.update_of_ne hk, ih]
      by_cases h : pos ≤ k ∧ k < pos + n
      · rw [if_pos h, if_pos (by omega)]
      · rw [if_neg h, if_neg (by omega)]

theorem fill_of_le (m : Mem) {pos n : ℕ} (f : ℕ → UInt8) {k : ℕ} (h : pos + n ≤ k) : m.fill pos n f k = m k := by
  rw [fill_apply, if_neg (by omega)]

theorem fill_add (m : Mem) {pos n : ℕ} (f : ℕ → UInt8) {i : ℕ} (h : i < n) : m.fill pos n f (pos + i) = f i := by
  rw [fill_apply, if_pos (by omega), Nat.add_sub_cancel_left]

theorem fill_congr (m : Mem) (pos : ℕ) {n : ℕ} {f g : ℕ → UInt8} (h : ∀ i < n, f i = g i) :
    m.fill pos n f = m.fill pos n g := by
  funext k
  rw [fill_apply, fill_apply]
  by_cases hk : pos ≤ k ∧ k < pos + n
  · rw [if_pos hk, if_pos hk, h _ (by omega)]
  · rw [if_neg hk, if_neg hk]

/-- Loops of stores to ranges that do not meet may be exchanged. -/
theorem fill_comm (m : Mem) {pos n q k : ℕ} (f g : ℕ → UInt8) (h : pos + n ≤ q ∨ q + k ≤ pos) :
    (m.fill pos n f).fill q k g = (m.fill q k g).fill pos n f := by
  funext i
  simp only [fill_apply]
  by_cases hp : pos ≤ i ∧ i < pos + n
  · rw [if_pos hp, if_neg (by omega), if_pos hp]
  · rw [if_neg hp, if_neg hp]

/-! ### Ranges -/

@[simp] theorem bytes_length (m : Mem) (pos n : ℕ) : (m.bytes pos n).length = n := by simp [bytes]

theorem bytes_congr {m m' : Mem} {pos n : ℕ} (h : ∀ i < n, m (pos + i) = m' (pos + i)) :
    m.bytes pos n = m'.bytes pos n :=
  List.map_congr_left fun i hi => h i (List.mem_range.1 hi)

theorem bytes_eq_iff {m m' : Mem} {pos n : ℕ} :
    m.bytes pos n = m'.bytes pos n ↔ ∀ i < n, m (pos + i) = m' (pos + i) := by
  refine ⟨?_, bytes_congr⟩
  intro h i hi
  have := List.map_inj_left.1 h i (List.mem_range.2 hi)
  exact this

theorem bytes_add (m : Mem) (pos n k : ℕ) : m.bytes pos (n + k) = m.bytes pos n ++ m.bytes (pos + n) k := by
  simp [bytes, List.range_add, Function.comp_def, Nat.add_assoc]

theorem bytes_take (m : Mem) (pos : ℕ) {n k : ℕ} (h : n ≤ k) : (m.bytes pos k).take n = m.bytes pos n := by
  obtain ⟨d, rfl⟩ := Nat.exists_eq_add_of_le h
  rw [bytes_add, List.take_left' (bytes_length ..)]

theorem bytes_fill (m : Mem) (pos n : ℕ) (f : ℕ → UInt8) : (m.fill pos n f).bytes pos n = (List.range n).map f :=
  List.map_congr_left fun _ hi => fill_add m f (List.mem_range.1 hi)

/-- A range inside one that is set to one value. -/
theorem bytes_fill_const (m : Mem) {pos n q k : ℕ} (v : UInt8) (hq : pos ≤ q) (hk : q + k ≤ pos + n) :
    (m.fill pos n fun _ => v).bytes q k = List.replicate k v := by
  refine List.eq_replicate_iff.2 ⟨bytes_length .., ?_⟩
  intro b hb
  obtain ⟨i, hi, rfl⟩ := List.mem_map.1 hb
  have := List.mem_range.1 hi
  rw [fill_apply, if_pos (by omega)]

/-- A range that a loop of stores does not touch reads as before. -/
theorem bytes_fill_disjoint (m : Mem) {pos n : ℕ} (f : ℕ → UInt8) {q k : ℕ} (h : q + k ≤ pos ∨ pos + n ≤ q) :
    (m.fill pos n f).bytes q k = m.bytes q k :=
  bytes_congr fun i hi => by rw [fill_apply, if_neg (by omega)]

theorem bytes_write (m : Mem) (pos : ℕ) (l : List UInt8) : (m.write pos l).bytes pos l.length = l := by
  unfold write
  rw [bytes_fill]
  apply List.ext_getElem (by simp)
  intro i h1 h2
  simp [List.getElem?_eq_getElem h2]

/-- Reading back at least the bytes that were stored. -/
theorem bytes_write_take (m : Mem) (pos : ℕ) {l : List UInt8} {n : ℕ} (h : n ≤ l.length) :
    (m.write pos l).bytes pos n = l.take n := by
  rw [← bytes_take _ _ h, bytes_write]

/-- Reading back more than the bytes that were stored. -/
theorem bytes_write_append (m : Mem) (pos : ℕ) {l : List UInt8} {n : ℕ} (h : l.length ≤ n) :
    (m.write pos l).bytes pos n = l ++ m.bytes (pos + l.length) (n - l.length) := by
  obtain ⟨d, rfl⟩ := Nat.exists_eq_add_of_le h
  rw [bytes_add, bytes_write, Nat.add_sub_cancel_left, write, bytes_fill_disjoint m _ (.inr le_rfl)]

theorem write_cons (m : Mem) (pos : ℕ) (b : UInt8) (l : List UInt8) :
    m.write pos (b :: l) = (write (Function.update m pos b) (pos + 1) l) := by
  funext k
  simp only [write, fill_apply, List.length_cons]
  by_cases hk : k = pos
  · subst hk
    rw [if_pos (by omega), if_neg (by omega), Nat.sub_self, Function.update_self]
    rfl
  · rw [Function.update_of_ne hk]
    by_cases h : pos + 1 ≤ k ∧ k < pos + 1 + l.length
    · rw [if_pos (by omega), if_pos h, show k - pos = k - (pos + 1) + 1 by omega, List.getD_cons_succ]
    · rw [if_neg (by omega), if_neg h]

/-- Storing one list and then another behind it. -/
theorem write_append (m : Mem) (pos : ℕ) (l l' : List UInt8) :
    m.write pos (l ++ l') = (m.write pos l).write (pos + l.length) l' := by
  induction l generalizing m pos with
  | nil => rfl
  | cons b l ih =>
    rw [List.cons_append, write_cons, ih, write_cons, List.length_cons, Nat.add_assoc, Nat.add_comm 1]

theorem write_of_le (m : Mem) {pos : ℕ} {l : List UInt8} {k : ℕ} (h : pos + l.length ≤ k) : m.write pos l k = m k :=
  fill_of_le m _ h

theorem write_of_lt (m : Mem) {pos : ℕ} (l : List UInt8) {k : ℕ} (h : k < pos) : m.write pos l k = m k := by
  rw [write, fill_apply, if_neg (by omega)]

/-! ### Little-endian numbers -/

/-- The base-256 digits of a number, read back, are the number modulo the width read. -/
theorem ofDigits_range (v n : ℕ) :
    Nat.ofDigits 256 ((List.range n).map fun i => v / 256 ^ i % 256) = v % 256 ^ n := by
  induction n with
  | zero => simp [Nat.mod_one]
  | succ n ih =>
    rw [List.range_succ, List.map_append, Nat.ofDigits_append, ih]
    simp [Nat.mod_pow_succ]

/-- A loop that stores the base-256 digits of `v` is read back as `v` modulo the width. -/
theorem readLE_fill (m : Mem) (pos n v : ℕ) {f : ℕ → UInt8} (hf : ∀ i < n, (f i).toNat = v / 256 ^ i % 256) :
    (m.fill pos n f).readLE pos n = v % 256 ^ n := by
  unfold readLE leNat
  rw [bytes_fill, ← ofDigits_range, List.map_map]
  congr 1
  exact List.map_congr_left fun i hi => hf i (List.mem_range.1 hi)

theorem readLE_fill_disjoint (m : Mem) {pos n : ℕ} (f : ℕ → UInt8) {q k : ℕ} (h : q + k ≤ pos ∨ pos + n ≤ q) :
    (m.fill pos n f).readLE q k = m.readLE q k := by
  rw [readLE, bytes_fill_disjoint m f h, readLE]

/-- Decoding a part of a range that was read out. -/
theorem decodeLE_bytes (m : Mem) {n q k : ℕ} (h : q + k ≤ n) : decodeLE (m.bytes 0 n) q k = m.readLE q k := by
  obtain ⟨d, rfl⟩ := Nat.exists_eq_add_of_le h
  unfold decodeLE
  rw [Nat.add_assoc, bytes_add, List.drop_left' (bytes_length ..), Nat.zero_add,
    bytes_take _ _ (Nat.le_add_right ..), readLE]

/-- A little-endian number determines its bytes. -/
theorem bytes_eq_of_readLE_eq {m m' : Mem} {pos n : ℕ} (h : m.readLE pos n = m'.readLE pos n) :
    m.bytes pos n = m'.bytes pos n := by
  have hlt : ∀ m'' : Mem, ∀ d ∈ (m''.bytes pos n).map UInt8.toNat, d < 256 := by
    intro m'' d hd
    obtain ⟨b, -, rfl⟩ := List.mem_map.1 hd
    exact b.toNat_lt
  have := Nat.ofDigits_inj_of_len_eq (by norm_num) (by simp) (hlt m) (hlt m') h
  exact List.map_injective_iff.2 (fun a b hab => UInt8.toNat_inj.1 hab) this

theorem eq_of_readLE_eq {m m' : Mem} (pos n : ℕ) {i : ℕ} (h : m.readLE pos n = m'.readLE pos n) (h1 : pos ≤ i)
    (h2 : i < pos + n) : m i = m' i := by
  have := bytes_eq_iff.1 (bytes_eq_of_readLE_eq h) (i - pos) (by omega)
  rwa [Nat.add_sub_cancel' h1] at this

end Mem

end EdUsb.Lib
