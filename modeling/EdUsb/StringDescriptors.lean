import EdUsb.Lib.CString
import EdUsb.Lib.Mem
import EdUsb.Lib.Records

/-!
# ed.c: the string descriptors of the chip

`SetStringDescriptorsExample` on a byte buffer.  A C string is the list of its bytes before the terminator; `LONG` is an
unsigned 32-bit number and `bLen` a byte, so a length is reduced as it is stored in them.
-/

namespace EdUsb

open EdUsb.Lib

/-- The check of one string: its length is from 1 to `bound - 1` and its characters are as asked. -/
def stringOk (s : List UInt8) (bound : UInt32) (ok : UInt8 → Bool) : Bool :=
  let lLen := (UInt64.ofNat s.length).toUInt32
  if lLen < 1 || lLen ≥ bound then false else (s.take lLen.toNat).all ok

/-- `for (i, j; i < pPtr[0]; i += 2, j++) { pPtr[i] = s[j]; pPtr[i + 1] = '\0'; }` -/
def descriptorLoop (m : Mem) (pPtr : ℕ) (s : List UInt8) (i j : ℕ) : Mem :=
  if i < (m pPtr).toNat then
    descriptorLoop (Function.update (Function.update m (pPtr + i) (s.getD j 0)) (pPtr + i + 1) 0) pPtr s (i + 2) (j + 1)
  else m
termination_by 256 - i
decreasing_by
  have := (m pPtr).toNat_lt
  omega

/-- One descriptor: its length, the type 3, and the characters as 16-bit numbers. -/
def putDescriptor (m : Mem) (pPtr : ℕ) (s : List UInt8) : Mem :=
  let bLen := UInt8.ofNat s.length
  descriptorLoop (Function.update (Function.update m pPtr (bLen * 2 + 2)) (pPtr + 1) 3) pPtr s 2 0

/-- `SetStringDescriptorsExample`.  The size of the buffer is not looked at. -/
def setStringDescriptorsExample (pStringDescriptors : Mem)
    (pManufacturer pProductDescription pSerialNumber : List UInt8) : Bool × Mem :=
  if !stringOk pManufacturer 16 isprint then (false, pStringDescriptors)
  else if !stringOk pProductDescription 32 isprint then (false, pStringDescriptors)
  else if !stringOk pSerialNumber 16 isalnum then (false, pStringDescriptors)
  else
    let pPtr := 0
    let m := putDescriptor pStringDescriptors pPtr pManufacturer
    let pPtr := pPtr + (m pPtr).toNat
    let m := putDescriptor m pPtr pProductDescription
    let pPtr := pPtr + (m pPtr).toNat
    (true, putDescriptor m pPtr pSerialNumber)

/-! ### What one descriptor is -/

/-- The descriptor of a string: a record of type 3 with its characters as 16-bit units. -/
def descriptor (s : List UInt8) : List UInt8 := record 3 (s.flatMap fun c => [c, 0])

theorem payload_length (s : List UInt8) : (s.flatMap fun c => [c, (0 : UInt8)]).length = 2 * s.length := by
  simp [List.length_flatMap, Nat.mul_comm]

theorem descriptor_length (s : List UInt8) : (descriptor s).length = 2 * s.length + 2 := by
  rw [descriptor, record_length, payload_length]

/-- The loop stores the characters from the `j`-th on. -/
theorem descriptorLoop_eq {m : Mem} {pPtr j : ℕ} {s : List UInt8} (hn : (m pPtr).toNat = 2 * s.length + 2) :
    descriptorLoop m pPtr s (2 * j + 2) j = m.write (pPtr + (2 * j + 2)) ((s.drop j).flatMap fun c => [c, 0]) := by
  by_cases hj : j < s.length
  · have hlt : 2 * j + 2 < (m pPtr).toNat := by omega
    have hn' : (Function.update (Function.update m (pPtr + (2 * j + 2)) (s.getD j 0)) (pPtr + (2 * j + 2) + 1) 0 pPtr).toNat =
        2 * s.length + 2 := by
      rw [Function.update_of_ne (by omega), Function.update_of_ne (by omega), hn]
    rw [descriptorLoop, if_pos hlt]
    have ih := descriptorLoop_eq (j := j + 1) hn'
    rw [show 2 * (j + 1) + 2 = 2 * j + 2 + 2 by ring] at ih
    rw [ih, List.drop_eq_getElem_cons hj, List.flatMap_cons, List.cons_append, List.cons_append, List.nil_append,
      Mem.write_cons, Mem.write_cons, List.getD_eq_getElem?_getD, List.getElem?_eq_getElem hj]
    rfl
  · have hge : ¬ 2 * j + 2 < (m pPtr).toNat := by omega
    rw [descriptorLoop, if_neg hge, List.drop_eq_nil_of_le (by omega)]
    rfl
termination_by s.length - j

/-- **One descriptor.**  A string whose length fits its byte is stored as its descriptor. -/
theorem putDescriptor_eq (m : Mem) (pPtr : ℕ) {s : List UInt8} (hs : s.length < 127) :
    putDescriptor m pPtr s = m.write pPtr (descriptor s) := by
  have hbyte : UInt8.ofNat s.length * 2 + 2 = UInt8.ofNat (2 * s.length + 2) := by
    apply UInt8.toNat_inj.1
    simp only [UInt8.toNat_add, UInt8.toNat_mul, UInt8.toNat_ofNat', UInt8.reduceToNat]
    omega
  have hn : (Function.update (Function.update m pPtr (UInt8.ofNat (2 * s.length + 2))) (pPtr + 1) 3 pPtr).toNat =
      2 * s.length + 2 := by
    rw [Function.update_of_ne (by omega), Function.update_self, UInt8.toNat_ofNat', Nat.mod_eq_of_lt (by omega)]
  have hloop := descriptorLoop_eq (j := 0) hn
  simp only [putDescriptor, hbyte, descriptor, record, Mem.write_cons, payload_length]
  exact hloop

theorem write_descriptor_head (m : Mem) (pPtr : ℕ) {s : List UInt8} (hs : s.length < 127) :
    (m.write pPtr (descriptor s) pPtr).toNat = 2 * s.length + 2 := by
  have hhead : m.write pPtr (descriptor s) (pPtr + 0) = UInt8.ofNat (2 * s.length + 2) := by
    rw [Mem.write, Mem.fill_add _ _ (by rw [descriptor_length]; omega), descriptor, record, payload_length]
    rfl
  rw [Nat.add_zero] at hhead
  rw [hhead, UInt8.toNat_ofNat', Nat.mod_eq_of_lt (by omega)]

/-! ### The encoder -/

/-- From 1 to `n` characters of a kind. -/
def Fits (n : ℕ) (ok : UInt8 → Bool) (s : List UInt8) : Prop := 1 ≤ s.length ∧ s.length ≤ n ∧ ∀ c ∈ s, ok c = true

/-- What the three strings are asked to be. -/
def Asked (pManufacturer pProductDescription pSerialNumber : List UInt8) : Prop :=
  Fits 15 isprint pManufacturer ∧ Fits 31 isprint pProductDescription ∧ Fits 15 isalnum pSerialNumber

/-- What the check sees of a string: its length is kept in 32 bits. -/
def seenPart (s : List UInt8) : List UInt8 := s.take (s.length % 2 ^ 32)

theorem seenPart_of_lt {s : List UInt8} (h : s.length < 2 ^ 32) : seenPart s = s := by
  rw [seenPart, Nat.mod_eq_of_lt h, List.take_length]

theorem stringOk_iff {s : List UInt8} (bound : UInt32) {ok : UInt8 → Bool} {n : ℕ} (hb : bound.toNat = n + 1) :
    stringOk s bound ok = true ↔ Fits n ok (seenPart s) := by
  have hlen : (UInt64.ofNat s.length).toUInt32.toNat = s.length % 2 ^ 32 := by
    simp
  have hle : s.length % 2 ^ 32 ≤ s.length := Nat.mod_le ..
  have hcond : ((UInt64.ofNat s.length).toUInt32 < 1 || (UInt64.ofNat s.length).toUInt32 ≥ bound) = true ↔
      ¬ (1 ≤ s.length % 2 ^ 32 ∧ s.length % 2 ^ 32 ≤ n) := by
    simp only [Bool.or_eq_true, decide_eq_true_eq, UInt32.lt_iff_toNat_lt, ge_iff_le, UInt32.le_iff_toNat_le, hlen, hb]
    simp
    omega
  simp only [stringOk, Fits, seenPart, List.length_take, hlen, Nat.min_eq_left hle]
  by_cases h : 1 ≤ s.length % 2 ^ 32 ∧ s.length % 2 ^ 32 ≤ n
  · rw [if_neg (fun hc => hcond.1 hc h), List.all_eq_true]
    exact ⟨fun ha => ⟨h.1, h.2, ha⟩, fun ha => ha.2.2⟩
  · rw [if_pos (hcond.2 h)]
    constructor
    · intro hf
      cases hf
    · intro ha
      exact absurd ⟨ha.1, ha.2.1⟩ h

section Encoder

variable {b : Mem} {m p s : List UInt8}

theorem setStringDescriptorsExample_of_not (h : ¬ Asked (seenPart m) (seenPart p) (seenPart s)) :
    setStringDescriptorsExample b m p s = (false, b) := by
  unfold Asked at h
  rw [← stringOk_iff 16 rfl, ← stringOk_iff 32 rfl, ← stringOk_iff 16 rfl] at h
  unfold setStringDescriptorsExample
  by_cases hm : stringOk m 16 isprint = true
  · by_cases hp : stringOk p 32 isprint = true
    · have hs : stringOk s 16 isalnum = false := by
        simpa [hm, hp] using h
      simp [hm, hp, hs]
    · simp [hm, hp]
  · simp [hm]

theorem setStringDescriptorsExample_fst (h : Asked (seenPart m) (seenPart p) (seenPart s)) :
    (setStringDescriptorsExample b m p s).1 = true := by
  obtain ⟨hm, hp, hs⟩ := h
  rw [← stringOk_iff 16 rfl] at hm
  rw [← stringOk_iff 32 rfl] at hp
  rw [← stringOk_iff 16 rfl] at hs
  simp only [setStringDescriptorsExample, hm, hp, hs, Bool.not_true, Bool.false_eq_true, if_false]

/-- The three descriptors are stored one behind the other. -/
theorem setStringDescriptorsExample_of_asked (h : Asked m p s) :
    setStringDescriptorsExample b m p s = (true, b.write 0 (descriptor m ++ descriptor p ++ descriptor s)) := by
  obtain ⟨hm, hp, hs⟩ := h
  have hm' : m.length < 127 := by
    have := hm.2.1
    omega
  have hp' : p.length < 127 := by
    have := hp.2.1
    omega
  have hs' : s.length < 127 := by
    have := hs.2.1
    omega
  rw [← seenPart_of_lt (show m.length < 2 ^ 32 by omega), ← stringOk_iff 16 rfl] at hm
  rw [← seenPart_of_lt (show p.length < 2 ^ 32 by omega), ← stringOk_iff 32 rfl] at hp
  rw [← seenPart_of_lt (show s.length < 2 ^ 32 by omega), ← stringOk_iff 16 rfl] at hs
  simp only [setStringDescriptorsExample, hm, hp, hs, Bool.not_true, Bool.false_eq_true, if_false]
  rw [putDescriptor_eq b 0 hm', write_descriptor_head b 0 hm', putDescriptor_eq _ _ hp', write_descriptor_head _ _ hp',
    putDescriptor_eq _ _ hs', Mem.write_append, Mem.write_append, List.length_append, descriptor_length,
    descriptor_length, Nat.zero_add, Nat.zero_add]

/-- The bytes that the descriptors of three strings take. -/
def totalLength (m p s : List UInt8) : ℕ := 2 * (m.length + p.length + s.length) + 6

/-- **What the encoder should leave in the buffer** `b'`, in which it found `b`. -/
structure Encoded (b b' : Mem) (m p s : List UInt8) : Prop where
  walk : ∃ x y z, records (b'.bytes 0 (totalLength m p s)) = some [(3, x), (3, y), (3, z)] ∧
    units x = some (m.map UInt8.toUInt16) ∧ units y = some (p.map UInt8.toUInt16) ∧ units z = some (s.map UInt8.toUInt16)
  fits : totalLength m p s ≤ 128
  frame : ∀ i, totalLength m p s ≤ i → b' i = b i
  first : (b' 0).toNat = 2 * m.length + 2
  second : (b' (2 * m.length + 2)).toNat = 2 * p.length + 2
  third : (b' (2 * m.length + 2 + (2 * p.length + 2))).toNat = 2 * s.length + 2

theorem encoded_write (h : Asked m p s) : Encoded b (b.write 0 (descriptor m ++ descriptor p ++ descriptor s)) m p s := by
  obtain ⟨⟨-, hm, -⟩, ⟨-, hp, -⟩, ⟨-, hs, -⟩⟩ := h
  have hlen : (descriptor m ++ descriptor p ++ descriptor s).length = totalLength m p s := by
    simp only [List.length_append, descriptor_length, totalLength]
    ring
  have hwrite : b.write 0 (descriptor m ++ descriptor p ++ descriptor s) =
      ((b.write 0 (descriptor m)).write (2 * m.length + 2) (descriptor p)).write
        (2 * m.length + 2 + (2 * p.length + 2)) (descriptor s) := by
    rw [Mem.write_append, Mem.write_append, List.length_append, descriptor_length, descriptor_length, Nat.zero_add,
      Nat.zero_add]
  refine ⟨?_, ?_, ?_, ?_, ?_, ?_⟩
  · refine ⟨_, _, _, ?_, units_map m, units_map p, units_map s⟩
    have hfits : ∀ x : List UInt8, x.length ≤ 31 → (x.flatMap fun c => [c, (0 : UInt8)]).length + 2 < 256 := by
      intro x hx
      rw [payload_length]
      omega
    rw [← hlen, Mem.bytes_write, List.append_assoc, descriptor, descriptor, descriptor,
      records_append (hfits m (by omega)), records_append (hfits p hp),
      ← List.append_nil (record 3 (s.flatMap fun c => [c, 0])), records_append (hfits s (by omega)), records]
    rfl
  · unfold totalLength
    omega
  · intro i hi
    exact Mem.write_of_le b (by omega)
  · rw [hwrite, Mem.write_of_lt _ _ (by omega), Mem.write_of_lt _ _ (by omega)]
    exact write_descriptor_head _ _ (by omega)
  · rw [hwrite, Mem.write_of_lt _ _ (by omega)]
    exact write_descriptor_head _ _ (by omega)
  · rw [hwrite]
    exact write_descriptor_head _ _ (by omega)

end Encoder

/-- **What the encoder should do**: it accepts exactly the strings it asks for, encodes them, and changes nothing
otherwise. -/
structure EncoderLaw (b : Mem) (m p s : List UInt8) : Prop where
  accepts : (setStringDescriptorsExample b m p s).1 = true ↔ Asked m p s
  accepted : (setStringDescriptorsExample b m p s).1 = true → Encoded b (setStringDescriptorsExample b m p s).2 m p s
  rejected : (setStringDescriptorsExample b m p s).1 = false → (setStringDescriptorsExample b m p s).2 = b

theorem EncoderLaw.short {b : Mem} {m p s : List UInt8} (h : EncoderLaw b m p s)
    (hseen : Asked (seenPart m) (seenPart p) (seenPart s)) :
    m.length < 2 ^ 32 ∧ p.length < 2 ^ 32 ∧ s.length < 2 ^ 32 := by
  obtain ⟨⟨-, hm, -⟩, ⟨-, hp, -⟩, ⟨-, hs, -⟩⟩ := h.accepts.1 (setStringDescriptorsExample_fst hseen)
  exact ⟨by omega, by omega, by omega⟩

/-- **When the encoder does what it should.**  A length is kept in 32 bits while it is checked, so strings that pass with
their lengths reduced must not be longer than that. -/
theorem encoderLaw_iff (b : Mem) (m p s : List UInt8) :
    EncoderLaw b m p s ↔
      (Asked (seenPart m) (seenPart p) (seenPart s) → m.length < 2 ^ 32 ∧ p.length < 2 ^ 32 ∧ s.length < 2 ^ 32) := by
  refine ⟨EncoderLaw.short, ?_⟩
  intro h
  by_cases hseen : Asked (seenPart m) (seenPart p) (seenPart s)
  · obtain ⟨hm, hp, hs⟩ := h hseen
    rw [seenPart_of_lt hm, seenPart_of_lt hp, seenPart_of_lt hs] at hseen
    have heq := setStringDescriptorsExample_of_asked (b := b) hseen
    refine ⟨?_, ?_, ?_⟩
    · rw [heq]
      exact iff_of_true rfl hseen
    · intro _
      rw [heq]
      exact encoded_write hseen
    · intro hfalse
      rw [heq] at hfalse
      cases hfalse
  · have heq := setStringDescriptorsExample_of_not (b := b) hseen
    refine ⟨?_, ?_, ?_⟩
    · rw [heq]
      refine iff_of_false Bool.false_ne_true ?_
      intro hasked
      obtain ⟨⟨-, hm, -⟩, ⟨-, hp, -⟩, ⟨-, hs, -⟩⟩ := id hasked
      rw [seenPart_of_lt (by omega), seenPart_of_lt (by omega), seenPart_of_lt (by omega)] at hseen
      exact hseen hasked
    · intro htrue
      rw [heq] at htrue
      cases htrue
    · intro _
      rw [heq]

/-- A manufacturer of `2 ^ 32 + 1` characters passes for one of a single character. -/
theorem not_encoderLaw_of_long :
    ¬ EncoderLaw (fun _ => 0) (List.replicate (2 ^ 32 + 1) 0x41) (cString "A") (cString "A") := by
  have hseen : seenPart (List.replicate (2 ^ 32 + 1) 0x41) = [0x41] := by
    rw [seenPart, List.take_replicate, List.length_replicate, show min ((2 ^ 32 + 1) % 2 ^ 32) (2 ^ 32 + 1) = 1 by omega]
    rfl
  have hone : seenPart (cString "A") = [0x41] := rfl
  have hfits : ∀ (n : ℕ) (ok : UInt8 → Bool), 1 ≤ n → ok 0x41 = true → Fits n ok [0x41] := by
    intro n ok hn hok
    refine ⟨le_rfl, hn, ?_⟩
    intro c hc
    rwa [List.mem_singleton.1 hc]
  have hasked : Asked (seenPart (List.replicate (2 ^ 32 + 1) 0x41)) (seenPart (cString "A")) (seenPart (cString "A")) := by
    rw [hseen, hone]
    exact ⟨hfits 15 _ (by decide) rfl, hfits 31 _ (by decide) rfl, hfits 15 _ (by decide) rfl⟩
  intro h
  have hlen := (h.short hasked).1
  rw [List.length_replicate] at hlen
  omega

end EdUsb
