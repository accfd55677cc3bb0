import EdUsb.Numbers

/-!
# Lines longer than the buffer

`load_config` takes every piece that `fgets` returns for a line.  Of a line of more than 127 bytes the first piece may cut
the number off, and a later one may begin with a key (`strayPiece`).  `agrees_iff` says when neither makes a difference.
-/

namespace EdUsb

open EdUsb.Lib

/-- What the lines of a text make of a configuration, each taken whole and once. -/
def byLine (c₀ : UsbConfig) (t : List UInt8) : UsbConfig := (lines t).foldl loadLine c₀

namespace Key

/-- The last piece behind the first 127 bytes of a line that begins with the key. -/
def strayPiece (k : Key) (l : List UInt8) : Option (List UInt8) := k.lastLine (pieces 127 (l.drop 127))

/-- Some piece of a line begins with the key. -/
def hits (k : Key) (l : List UInt8) : Bool := k.begins l || (k.strayPiece l).isSome

/-- What the lines of a text should leave in the field. -/
def expected (k : Key) (c₀ : UsbConfig) (t : List UInt8) : ℤ :=
  match k.lastLine (lines t) with
  | some l => k.wrap (readConfigProp l).toInt
  | none => k.number c₀

/-- Long lines do no harm to the field.  Of the last line with a piece that begins with the key, the number is not cut off,
or not so that the field would notice; and if a later piece begins with the key, it happens to have the right number. -/
structure Harmless (k : Key) (c₀ : UsbConfig) (t : List UInt8) : Prop where
  notCut : ∀ l ∈ ((lines t).filter k.hits).getLast?, k.strayPiece l = none →
    k.wrap (readConfigProp (l.take 127)).toInt = k.wrap (readConfigProp l).toInt
  notStray : ∀ l ∈ ((lines t).filter k.hits).getLast?, ∀ p ∈ k.strayPiece l,
    k.wrap (readConfigProp p).toInt = k.expected c₀ t

end Key

/-! ### What is read of a long line -/

theorem Key.begins_take (k : Key) (l : List UInt8) : k.begins (l.take 127) = k.begins l := by
  have hname := k.name_length
  rw [Bool.eq_iff_iff, begins, begins, hasPrefix_iff, hasPrefix_iff, List.prefix_take_iff]
  exact and_iff_left (by omega)

theorem lastOf_pieces_eq {l : List UInt8} (hl : 0x0A ∉ l) (k : Key) :
    lastOf Key.value (pieces 127 l) k =
      ((k.strayPiece l).map readConfigProp).or (if k.begins l then some (readConfigProp (l.take 127)) else none) := by
  rw [lastOf_pieces_line (Key.value_nil k) hl (by decide), lastOf_value, Key.strayPiece, Key.value, k.begins_take]

theorem hits_eq_isSome {l : List UInt8} (hl : 0x0A ∉ l) (k : Key) :
    k.hits l = (lastOf Key.value (pieces 127 l) k).isSome := by
  rw [lastOf_pieces_eq hl, Key.hits]
  cases k.strayPiece l <;> cases k.begins l <;> rfl

theorem filter_begins (k : Key) (ls : List (List UInt8)) : ls.filter k.begins = (ls.filter k.hits).filter k.begins := by
  rw [List.filter_filter]
  apply List.filter_congr
  intro l _
  cases h : k.begins l
  · rfl
  · rw [Key.hits, h, Bool.true_or, Bool.true_and]

/-- If the last line with a piece that begins with the key begins with it, it is the last that does. -/
theorem lastLine_of_hits {k : Key} {ls : List (List UInt8)} {l : List UInt8} (hl : (ls.filter k.hits).getLast? = some l)
    (hk : k.begins l = true) : k.lastLine ls = some l := by
  obtain ⟨init, hinit⟩ := List.getLast?_eq_some_iff.1 hl
  rw [Key.lastLine, filter_begins, hinit, List.filter_append, List.filter_cons_of_pos hk, List.filter_nil,
    List.getLast?_concat]

theorem lastLine_eq_none {k : Key} {ls : List (List UInt8)} (h : (ls.filter k.hits).getLast? = none) :
    k.lastLine ls = none := by
  rw [Key.lastLine, filter_begins, List.getLast?_eq_none_iff.1 h]
  rfl

/-! ### What is left in the fields -/

theorem number_updated_eq (k : Key) (c : UsbConfig) (u : Key → Option Int32) :
    k.number (c.updated u) = ((u k).map fun v => k.wrap v.toInt).getD (k.number c) := by
  cases h : u k with
  | none => cases k <;> simp only [UsbConfig.updated, Key.number, h, Option.map_none, Option.getD_none]
  | some v =>
    have hv : u k = some (Int32.ofInt v.toInt) := by rw [h, Int32.ofInt_toInt]
    exact number_updated k c hv

/-- The saved part of a configuration is its eight numbers. -/
theorem restored_congr (c₀ : UsbConfig) {c c' : UsbConfig} (h : ∀ k : Key, k.number c = k.number c') :
    c₀.restored c = c₀.restored c' := by
  have h1 : c.sampleCount = c'.sampleCount := UInt32.toNat_inj.1 (Int.ofNat_inj.1 (h .sampleCount))
  have h2 : c.delayCount = c'.delayCount := UInt32.toNat_inj.1 (Int.ofNat_inj.1 (h .delayCount))
  have h3 : c.repeatCount = c'.repeatCount := UInt16.toNat_inj.1 (Int.ofNat_inj.1 (h .repeatCount))
  have h4 : c.downSampleCount = c'.downSampleCount := UInt16.toNat_inj.1 (Int.ofNat_inj.1 (h .downSampleCount))
  have h5 : c.adChannel = c'.adChannel := Int16.toInt_inj.1 (h .adChannel)
  have h6 : c.adBit = c'.adBit := Int16.toInt_inj.1 (h .adBit)
  have h7 : c.trigger = c'.trigger := Int16.toInt_inj.1 (h .trigger)
  have h8 : c.outerTrigger = c'.outerTrigger := Int16.toInt_inj.1 (h .outerTrigger)
  simp only [UsbConfig.restored, h1, h2, h3, h4, h5, h6, h7, h8]

theorem updated_eq_iff (c : UsbConfig) (u u' : Key → Option Int32) :
    c.updated u = c.updated u' ↔ ∀ k : Key, k.number (c.updated u) = k.number (c.updated u') := by
  constructor
  · intro h k
    rw [h]
  · intro h
    exact restored_congr c h

theorem byLine_eq (c₀ : UsbConfig) (t : List UInt8) : byLine c₀ t = c₀.updated (lastOf Key.value (lines t)) := by
  rw [byLine, ← foldl_act updated_none updated_updated]
  apply List.foldl_ext
  intro c l _
  exact loadLine_eq_updated c l

theorem number_byLine (k : Key) (c₀ : UsbConfig) (t : List UInt8) : k.number (byLine c₀ t) = k.expected c₀ t := by
  rw [byLine_eq, number_updated_eq, lastOf_value, Key.expected]
  cases k.lastLine (lines t) <;> rfl

/-- What loading leaves in a field, by the last line with a piece that begins with its key. -/
theorem number_load (k : Key) (c₀ : UsbConfig) {t : List UInt8} (h : 0 ∉ t) (pos : ℕ) :
    k.number (loadConfig c₀ ⟨t, pos⟩).2.1 =
      ((((lines t).filter k.hits).getLast?.bind fun l => lastOf Key.value (pieces 127 l) k).map
        fun v => k.wrap v.toInt).getD (k.number c₀) := by
  have hhits : ∀ l ∈ lines t, k.hits l = (lastOf Key.value (pieces 127 l) k).isSome :=
    fun l hl => hits_eq_isSome (not_mem_of_mem_lines hl) k
  rw [loadConfig_updated c₀ (f := ⟨t, pos⟩) h, number_updated_eq,
    lastOf_pieces (Key.value_nil k) fun l => Key.value_newline l k, lastOf_eq_bind _ hhits]

section Harmless

variable {k : Key} {c₀ : UsbConfig} {t l : List UInt8} (hlast : ((lines t).filter k.hits).getLast? = some l)
include hlast

theorem harmless_iff_of_stray {p : List UInt8} (hstray : k.strayPiece l = some p) :
    k.Harmless c₀ t ↔ k.wrap (readConfigProp p).toInt = k.expected c₀ t := by
  constructor
  · intro h
    exact h.notStray l hlast p hstray
  · intro h
    constructor
    · intro l' hl' hnone
      obtain rfl := Option.some_inj.1 (hlast.symm.trans hl')
      rw [hstray] at hnone
      cases hnone
    · intro l' hl' p' hp'
      obtain rfl := Option.some_inj.1 (hlast.symm.trans hl')
      obtain rfl := Option.some_inj.1 (hstray.symm.trans hp')
      exact h

theorem harmless_iff_of_none (hstray : k.strayPiece l = none) :
    k.Harmless c₀ t ↔ k.wrap (readConfigProp (l.take 127)).toInt = k.wrap (readConfigProp l).toInt := by
  constructor
  · intro h
    exact h.notCut l hlast hstray
  · intro h
    constructor
    · intro l' hl' _
      obtain rfl := Option.some_inj.1 (hlast.symm.trans hl')
      exact h
    · intro l' hl' p hp
      obtain rfl := Option.some_inj.1 (hlast.symm.trans hl')
      rw [hstray] at hp
      cases hp

end Harmless

/-- A field agrees exactly if long lines do no harm to it. -/
theorem number_load_eq_iff (k : Key) (c₀ : UsbConfig) {t : List UInt8} (h : 0 ∉ t) (pos : ℕ) :
    k.number (loadConfig c₀ ⟨t, pos⟩).2.1 = k.number (byLine c₀ t) ↔ k.Harmless c₀ t := by
  rw [number_load k c₀ h pos, number_byLine]
  cases hlast : ((lines t).filter k.hits).getLast? with
  | none =>
    have hexp : k.expected c₀ t = k.number c₀ := by rw [Key.expected, lastLine_eq_none hlast]
    have hharm : k.Harmless c₀ t := by
      constructor <;> simp [hlast]
    exact iff_of_true hexp.symm hharm
  | some l =>
    obtain ⟨hl, hhit⟩ := List.mem_filter.1 (List.mem_of_getLast? hlast)
    rw [Option.bind_some, lastOf_pieces_eq (not_mem_of_mem_lines hl)]
    cases hstray : k.strayPiece l with
    | some p => exact (harmless_iff_of_stray hlast hstray).symm
    | none =>
      have hk : k.begins l = true := by
        rwa [Key.hits, hstray, Option.isSome_none, Bool.or_false] at hhit
      have hexp : k.expected c₀ t = k.wrap (readConfigProp l).toInt := by rw [Key.expected, lastLine_of_hits hlast hk]
      rw [hexp, if_pos hk]
      exact (harmless_iff_of_none hlast hstray).symm

/-- Lines that fit the buffer do no harm. -/
theorem harmless_of_short (k : Key) (c₀ : UsbConfig) {t : List UInt8} (h : ∀ l ∈ lines t, l.length ≤ 127) :
    k.Harmless c₀ t := by
  constructor
  · intro l hl _
    have hmem := List.mem_of_mem_filter (List.mem_of_getLast? hl)
    rw [List.take_of_length_le (h l hmem)]
  · intro l hl p hp
    have hmem := List.mem_of_mem_filter (List.mem_of_getLast? hl)
    have hnone : k.strayPiece l = none := by
      rw [Key.strayPiece, List.drop_eq_nil_of_le (h l hmem), pieces_nil]
      rfl
    rw [hnone] at hp
    cases hp

/-- **When reading by pieces is reading by lines.**  For every text without NUL bytes and every initial configuration:
`load_config` leaves what the lines of the text make of it if and only if long lines do no harm to any field. -/
theorem agrees_iff {t : List UInt8} (h : 0 ∉ t) (pos : ℕ) (c₀ : UsbConfig) :
    (loadConfig c₀ ⟨t, pos⟩).2.1 = byLine c₀ t ↔ ∀ k : Key, k.Harmless c₀ t := by
  have hupdated : (loadConfig c₀ ⟨t, pos⟩).2.1 = byLine c₀ t ↔
      ∀ k : Key, k.number (loadConfig c₀ ⟨t, pos⟩).2.1 = k.number (byLine c₀ t) := by
    rw [loadConfig_updated c₀ (f := ⟨t, pos⟩) h, byLine_eq]
    exact updated_eq_iff c₀ _ _
  rw [hupdated]
  exact forall_congr' fun k => number_load_eq_iff k c₀ h pos

theorem agrees_iff_twoTriggers :
    (loadConfig defaultConfig ⟨twoTriggers.bytes, 0⟩).2.1 = byLine defaultConfig twoTriggers.bytes := by
  apply (agrees_iff twoTriggers.nulFree 0 defaultConfig).2
  intro k
  exact harmless_of_short k defaultConfig fun l hl => (twoTriggers.short l hl).trans (by decide)

/-- A line that begins with no key, but goes on with one behind its first 127 bytes. -/
def strayLine : List UInt8 := List.replicate 127 0x78 ++ cString "trigger=0"

theorem strayLine_not_mem : 0x0A ∉ strayLine ∧ 0 ∉ strayLine := by
  have hkey : 0x0A ∉ cString "trigger=0" ∧ 0 ∉ cString "trigger=0" := by decide
  simp [strayLine, hkey]

/-- It sets the trigger, although the line as a whole is no line of a key. -/
theorem not_agrees_of_stray : ¬ ∀ (t : List UInt8) (c₀ : UsbConfig), 0 ∉ t →
    (loadConfig c₀ ⟨t, 0⟩).2.1 = byLine c₀ t := by
  intro h
  have hlines : lines strayLine = [strayLine] := lines_of_not_mem strayLine_not_mem.1
  have hdrop : strayLine.drop 127 = cString "trigger=0" := List.drop_left' (by simp)
  have hstray : Key.trigger.strayPiece strayLine = some (cString "trigger=0") := by
    have hpieces : pieces 127 (cString "trigger=0") = [cString "trigger=0"] := by
      rw [pieces_of_not_mem (by decide) (by decide) (by decide), List.take_of_length_le (by decide),
        List.drop_eq_nil_of_le (by decide), pieces_nil]
    rw [Key.strayPiece, hdrop, hpieces]
    decide
  have hbegins : Key.trigger.begins strayLine = false := by
    rw [Bool.eq_false_iff, Ne, Key.begins, hasPrefix_iff]
    rintro ⟨s, hs⟩
    have hhead : some (0x74 : UInt8) = some 0x78 := congrArg List.head? hs
    exact absurd hhead (by decide)
  have hlast : strayLine ∈ ((lines strayLine).filter Key.trigger.hits).getLast? := by
    rw [hlines, List.filter_cons_of_pos (by rw [Key.hits, hstray]; simp), List.filter_nil]
    rfl
  have hexp : Key.trigger.expected defaultConfig strayLine = 1 := by
    rw [Key.expected, Key.lastLine, hlines, List.filter_cons_of_neg (by simp [hbegins]), List.filter_nil]
    rfl
  have hload := congrArg Key.trigger.number (h strayLine defaultConfig strayLine_not_mem.2)
  have hharm := (number_load_eq_iff .trigger defaultConfig strayLine_not_mem.2 0).1 hload
  have hwrap := hharm.notStray strayLine hlast _ hstray
  rw [hexp] at hwrap
  exact absurd hwrap (by decide)

end EdUsb
