import EdUsb.Lib.Word
import EdUsb.Loading

/-!
# Numbers in a file

A file of lines `key=integer`, with integers of any size.  `load_config` keeps of each line the first 127 bytes, and of
the number what fits the field, and always reports success; `faultless_iff` says of which files it then keeps the integers
that are written.
-/

namespace EdUsb

open EdUsb.Lib

/-- A line `key=integer`. -/
structure Entry where
  key : Key
  number : Numeral

def Entry.text (e : Entry) : List UInt8 := e.key.name ++ 0x3D :: e.number.text

/-- The file of such lines.  The last line may lack its newline. -/
def entryBytes (es : List Entry) (ended : Bool) : List UInt8 :=
  if ended then unlines (es.map Entry.text) else (unlines (es.map Entry.text)).dropLast

namespace Key

/-- The integer in the field. -/
def number (k : Key) (c : UsbConfig) : ℤ :=
  match k with
  | .sampleCount => c.sampleCount.toNat
  | .delayCount => c.delayCount.toNat
  | .repeatCount => c.repeatCount.toNat
  | .downSampleCount => c.downSampleCount.toNat
  | .adChannel => c.adChannel.toInt
  | .adBit => c.adBit.toInt
  | .trigger => c.trigger.toInt
  | .outerTrigger => c.outerTrigger.toInt

/-- The field can hold the integer. -/
def Holds (k : Key) (v : ℤ) : Prop :=
  match k with
  | .sampleCount | .delayCount => 0 ≤ v ∧ v < 2 ^ 32
  | .repeatCount | .downSampleCount => 0 ≤ v ∧ v < 2 ^ 16
  | .adChannel | .adBit | .trigger | .outerTrigger => -2 ^ 15 ≤ v ∧ v < 2 ^ 15

/-- What the field makes of an integer. -/
def wrap (k : Key) (v : ℤ) : ℤ :=
  match k with
  | .sampleCount | .delayCount => v % 2 ^ 32
  | .repeatCount | .downSampleCount => v % 2 ^ 16
  | .adChannel | .adBit | .trigger | .outerTrigger => v.bmod (2 ^ 16)

theorem wrap_eq_iff (k : Key) (v : ℤ) : k.wrap v = v ↔ k.Holds v := by
  have hmod : ∀ m : ℤ, 0 < m → (v % m = v ↔ 0 ≤ v ∧ v < m) := by
    intro m hm
    constructor
    · intro h
      rw [← h]
      exact ⟨Int.emod_nonneg _ (by omega), Int.emod_lt_of_pos _ hm⟩
    · rintro ⟨h0, h1⟩
      exact Int.emod_eq_of_lt h0 h1
  have hbmod : v.bmod (2 ^ 16) = v ↔ -2 ^ 15 ≤ v ∧ v < 2 ^ 15 := by
    rw [Int.bmod_def]
    split <;> omega
  cases k with
  | sampleCount | delayCount => exact hmod (2 ^ 32) (by omega)
  | repeatCount | downSampleCount => exact hmod (2 ^ 16) (by omega)
  | adChannel | adBit | trigger | outerTrigger => exact hbmod

theorem holds_wrap (k : Key) (v : ℤ) : k.Holds (k.wrap v) := by
  rw [← wrap_eq_iff]
  cases k <;> simp only [wrap, Int.emod_emod_of_dvd _ (dvd_refl _), Int.bmod_bmod]

/-- A field that can hold an integer can hold smaller ones of the same sign. -/
theorem Holds.mono {k : Key} {v v' : ℤ} (h : k.Holds v) (hv : 0 ≤ v' ∧ v' ≤ v ∨ v ≤ v' ∧ v' ≤ 0) : k.Holds v' := by
  cases k <;> (simp only [Holds] at h ⊢; omega)

end Key

/-! ### What is read of a line -/

/-- The number of a line that is left when it is cut after 127 bytes. -/
def Entry.kept (e : Entry) : Numeral :=
  e.number.cut (126 - e.key.name.length - e.number.sign.text.length) (by
    have := e.key.name_length
    have := e.number.sign.text_length
    omega)

theorem Key.name_not_digit (k : Key) : ∃ c ∈ k.name, isdigit c = false := by
  cases k <;> exact ⟨_, List.mem_cons_self, by decide⟩

namespace Entry

theorem text_ne (e : Entry) : ∀ c ∈ e.text, c ≠ 0x0A ∧ c ≠ 0 := by
  intro c hc
  rcases List.mem_append.1 hc with hc | hc
  · exact (e.key.name_ne c hc).2
  · rcases List.mem_cons.1 hc with rfl | hc
    · decide
    · rcases Numeral.mem_text hc with rfl | rfl | hc
      · decide
      · decide
      · exact isdigit_ne hc

theorem text_not_mem (e : Entry) : 0x0A ∉ e.text := fun h => (e.text_ne _ h).1 rfl

theorem text_take (e : Entry) : e.text.take 127 = e.key.name ++ 0x3D :: e.kept.text := by
  have hname := e.key.name_length
  have hsign := e.number.sign.text_length
  obtain ⟨n, hn⟩ : ∃ n, 127 - e.key.name.length = n + 1 := ⟨126 - e.key.name.length, by omega⟩
  rw [text, List.take_append, List.take_of_length_le (by omega), hn, List.take_succ_cons, kept, Numeral.cut_text]
  congr 3
  omega

/-- Behind the first 127 bytes of a line there are only digits. -/
theorem isdigit_of_mem_drop (e : Entry) {c : UInt8} (h : c ∈ e.text.drop 127) : isdigit c = true := by
  have hname := e.key.name_length
  have hsign := e.number.sign.text_length
  obtain ⟨n, hn⟩ : ∃ n, 127 - e.key.name.length = n + 1 := ⟨126 - e.key.name.length, by omega⟩
  rw [text, List.drop_append, List.drop_eq_nil_of_le (by omega), List.nil_append, hn, List.drop_succ_cons, Numeral.text,
    List.drop_append, List.drop_eq_nil_of_le (by omega), List.nil_append] at h
  exact isdigit_of_mem_digitText (List.mem_of_mem_drop h)

/-- The number that the first 127 bytes of a line give, and to which field. -/
theorem value_take (e : Entry) (k : Key) :
    Key.value (e.text.take 127) k = if decide (e.key = k) then some (Int32.ofInt e.kept.value) else none := by
  have hnot : 0x3D ∉ e.key.name := fun h => (e.key.name_ne _ h).1 rfl
  have hparse : parseInt (e.kept.text ++ []) = e.kept.value := parseInt_text e.kept (by simp)
  rw [List.append_nil] at hparse
  rw [text_take, Key.value, Key.begins, Key.hasPrefix_name, readConfigProp_append hnot, atoi, hparse]

/-- The pieces behind the first of a line give no number. -/
theorem value_rest (e : Entry) {p : List UInt8} (hp : ∀ c ∈ p, c ∈ e.text.drop 127) (k : Key) :
    Key.value p k = none := by
  rw [Key.value, if_neg]
  intro h
  rw [Key.begins, hasPrefix_iff] at h
  obtain ⟨c, hc, hdigit⟩ := k.name_not_digit
  rw [e.isdigit_of_mem_drop (hp c (h.subset hc))] at hdigit
  cases hdigit

end Entry

/-! ### What is read of a file -/

/-- The last line with the key. -/
def lastEntry (es : List Entry) (k : Key) : Option Entry := (es.filter fun e => decide (e.key = k)).getLast?

theorem entryBytes_nulFree (es : List Entry) (ended : Bool) : 0 ∉ entryBytes es ended := by
  have hlines : 0 ∉ unlines (es.map Entry.text) := by
    intro h
    rcases mem_unlines h with h | ⟨l, hl, hc⟩
    · cases h
    · obtain ⟨e, -, rfl⟩ := List.mem_map.1 hl
      exact (e.text_ne _ hc).2 rfl
  cases ended with
  | true => exact hlines
  | false => exact fun h => hlines ((List.dropLast_subset _) h)

/-- An empty line gives no value, so the last newline does not matter. -/
theorem lastOf_lines_entryBytes {V : Type} (value : List UInt8 → Key → Option V) {k : Key} (hnil : value [] k = none)
    (es : List Entry) (ended : Bool) :
    lastOf value (lines (entryBytes es ended)) k = lastOf (fun e => value e.text) es k := by
  have hnot : ∀ l ∈ es.map Entry.text, 0x0A ∉ l := by
    intro l hl
    obtain ⟨e, -, rfl⟩ := List.mem_map.1 hl
    exact e.text_not_mem
  cases ended with
  | true =>
    change lastOf value (lines (unlines (es.map Entry.text))) k = _
    rw [lines_unlines hnot, lastOf_append, lastOf_singleton, hnil, Option.none_or, lastOf_map]
  | false =>
    change lastOf value (lines (unlines (es.map Entry.text)).dropLast) k = _
    by_cases hes : es = []
    · rw [hes]
      exact (lastOf_singleton value [] k).trans hnil
    · rw [lines_dropLast_unlines (by simpa using hes) hnot, lastOf_map]

/-- The first 127 bytes of every line count, and nothing else. -/
theorem lastOf_entryBytes (es : List Entry) (ended : Bool) (k : Key) :
    lastOf Key.value (pieces 127 (entryBytes es ended)) k =
      lastOf (fun (e : Entry) k => if decide (e.key = k) then some (Int32.ofInt e.kept.value) else none) es k := by
  have hline : ∀ e : Entry, lastOf Key.value (pieces 127 e.text) k = Key.value (e.text.take 127) k := by
    intro e
    have hrest : lastOf Key.value (pieces 127 (e.text.drop 127)) k = none :=
      lastOf_eq_none fun p hp => e.value_rest (fun c hc => mem_of_mem_pieces hp hc) k
    rw [lastOf_pieces_line (Key.value_nil k) e.text_not_mem (by decide), hrest, Option.none_or]
  rw [lastOf_pieces (Key.value_nil k) fun l => Key.value_newline l k,
    lastOf_lines_entryBytes (fun l => lastOf Key.value (pieces 127 l)) (by rw [pieces_nil, lastOf_nil])]
  apply lastOf_ext
  intro e _
  rw [hline, e.value_take]

/-- **Loading numbers.**  Each field is left with the number of the last line with its key, after the cut. -/
theorem load_entries (es : List Entry) (ended : Bool) (pos : ℕ) (c₀ : UsbConfig) :
    (loadConfig c₀ ⟨entryBytes es ended, pos⟩).2.1 =
      c₀.updated fun k => (lastEntry es k).map fun e => Int32.ofInt e.kept.value := by
  rw [loadConfig_updated c₀ (entryBytes_nulFree es ended)]
  congr 1
  funext k
  rw [lastOf_entryBytes, lastEntry]
  exact lastOf_ite (fun k (e : Entry) => decide (e.key = k)) (fun e => Int32.ofInt e.kept.value) es k

/-! ### Which numbers survive -/

theorem number_updated (k : Key) (c : UsbConfig) {u : Key → Option Int32} {z : ℤ} (h : u k = some (Int32.ofInt z)) :
    k.number (c.updated u) = k.wrap z := by
  have hunsigned : ((Int32.ofInt z).toUInt32.toNat : ℤ) = z % 2 ^ 32 := by
    rw [toNat_toUInt32, Int32.toInt_ofInt]
    exact Int.bmod_emod
  have hshort : ((Int32.ofInt z).toUInt32.toUInt16.toNat : ℤ) = z % 2 ^ 16 := by
    rw [UInt32.toNat_toUInt16]
    omega
  have hsigned : (Int32.ofInt z).toInt16.toInt = z.bmod (2 ^ 16) := by
    rw [Int32.toInt_toInt16, Int32.toInt_ofInt]
    exact Int.bmod_bmod_of_dvd (by decide)
  cases k <;> simp only [UsbConfig.updated, Key.number, Key.wrap, h, Option.map_some, Option.getD_some] <;> assumption

/-- A field holds the integer of a line exactly if it can, and nothing of the number was cut off. -/
theorem wrap_kept_iff (e : Entry) :
    e.key.wrap e.kept.value = e.number.value ↔
      e.key.Holds e.number.value ∧ (e.text.length ≤ 127 ∨ e.number.value = 0) := by
  have hname := e.key.name_length
  have hsign := e.number.sign.text_length
  have hlen : e.text.length = e.key.name.length + 1 + (e.number.sign.text.length + e.number.digits.length) := by
    simp only [Entry.text, Numeral.text, digitText, List.length_append, List.length_cons, List.length_map]
    omega
  by_cases hshort : e.text.length ≤ 127
  · have hkept : e.kept = e.number := e.number.cut_of_le _ (by omega)
    rw [hkept, Key.wrap_eq_iff]
    exact (and_iff_left (.inl hshort)).symm
  · have hcut : _ ∨ _ := e.number.cut_value (n := 126 - e.key.name.length - e.number.sign.text.length) (by omega) (by omega)
    change (0 ≤ e.kept.value ∧ 10 * e.kept.value ≤ e.number.value) ∨
      (e.kept.value ≤ 0 ∧ e.number.value ≤ 10 * e.kept.value) at hcut
    constructor
    · intro h
      have hholds : e.key.Holds e.number.value := by
        rw [← h]
        exact e.key.holds_wrap _
      have hkept : e.key.Holds e.kept.value := hholds.mono (by omega)
      rw [(e.key.wrap_eq_iff _).2 hkept] at h
      exact ⟨hholds, .inr (by omega)⟩
    · rintro ⟨hholds, hzero⟩
      have hzero := hzero.resolve_left hshort
      have hkept : e.kept.value = 0 := by omega
      rw [hkept, hzero, Key.wrap_eq_iff]
      rwa [hzero] at hholds

/-- **What loading numbers should do**: it reports success only if every field that the file names holds the integer of
the last line with its key, and failure otherwise. -/
def Faultless (es : List Entry) (ended : Bool) (pos : ℕ) (c₀ : UsbConfig) : Prop :=
  ((loadConfig c₀ ⟨entryBytes es ended, pos⟩).1 = usbReadConfigSuccess → ∀ k, ∀ e ∈ lastEntry es k,
    k.number (loadConfig c₀ ⟨entryBytes es ended, pos⟩).2.1 = e.number.value) ∧
  ((loadConfig c₀ ⟨entryBytes es ended, pos⟩).1 ≠ usbReadConfigSuccess →
    (loadConfig c₀ ⟨entryBytes es ended, pos⟩).1 = usbReadConfigFail)

theorem key_of_mem_lastEntry {es : List Entry} {k : Key} {e : Entry} (h : e ∈ lastEntry es k) : e.key = k := by
  have hmem := List.mem_of_getLast? h
  exact of_decide_eq_true (List.mem_filter.1 hmem).2

theorem number_load_iff (es : List Entry) (ended : Bool) (pos : ℕ) (c₀ : UsbConfig) {k : Key} {e : Entry}
    (he : e ∈ lastEntry es k) :
    k.number (loadConfig c₀ ⟨entryBytes es ended, pos⟩).2.1 = e.number.value ↔
      k.Holds e.number.value ∧ (e.text.length ≤ 127 ∨ e.number.value = 0) := by
  obtain rfl := key_of_mem_lastEntry he
  have hu : (lastEntry es e.key).map (fun e => Int32.ofInt e.kept.value) = some (Int32.ofInt e.kept.value) := by
    rw [Option.mem_def.1 he]
    rfl
  rw [load_entries, number_updated _ c₀ hu, wrap_kept_iff]

/-- **Which numbers survive.**  Loading does what it should if and only if the integer of every last line can be held by
its field, and the line is not cut or its integer is 0. -/
theorem faultless_iff (es : List Entry) (ended : Bool) (pos : ℕ) (c₀ : UsbConfig) :
    Faultless es ended pos c₀ ↔ ∀ k, ∀ e ∈ lastEntry es k,
      k.Holds e.number.value ∧ (e.text.length ≤ 127 ∨ e.number.value = 0) := by
  constructor
  · intro h k e he
    exact (number_load_iff es ended pos c₀ he).1 (h.1 rfl k e he)
  · intro h
    refine ⟨?_, fun hne => absurd rfl hne⟩
    intro _ k e he
    exact (number_load_iff es ended pos c₀ he).2 (h k e he)

/-- `sample_count=4294967296` -/
def tooLarge : Entry where
  key := .sampleCount
  number := ⟨.none, [4, 2, 9, 4, 9, 6, 7, 2, 9, 6], by decide⟩

/-- It sets the sample count to 0, and success is reported. -/
theorem not_faultless_of_large : ¬ Faultless [tooLarge] true 0 defaultConfig := by
  intro h
  have hlast : tooLarge ∈ lastEntry [tooLarge] .sampleCount := rfl
  obtain ⟨⟨-, hlt⟩, -⟩ := (number_load_iff [tooLarge] true 0 defaultConfig hlast).1 (h.1 rfl .sampleCount tooLarge hlast)
  have hvalue : tooLarge.number.value = 4294967296 := by decide
  rw [hvalue] at hlt
  omega

end EdUsb
