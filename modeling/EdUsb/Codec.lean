import EdUsb.Config

/-!
# The text of a configuration

`write_config` prints eight lines `key=number`, and `load_config` reads them back (`parse_print`).  Both are the same
for every field but for its key and its conversions, so they are stated over the table of the fields (`Key`).
-/

namespace EdUsb

open EdUsb.Lib

/-- The fields that are saved. -/
inductive Key where
  | sampleCount
  | delayCount
  | repeatCount
  | downSampleCount
  | adChannel
  | adBit
  | trigger
  | outerTrigger
  deriving DecidableEq

namespace Key

/-- In the order in which they are written, and looked for in a line. -/
def all : List Key :=
  [.sampleCount, .delayCount, .repeatCount, .downSampleCount, .adChannel, .adBit, .trigger, .outerTrigger]

def name : Key → List UInt8
  | .sampleCount => keySampleCount
  | .delayCount => keyDelayCount
  | .repeatCount => keyRepeatCount
  | .downSampleCount => keyDownSampleCount
  | .adChannel => keyAdChannel
  | .adBit => keyAdBit
  | .trigger => keyTrigger
  | .outerTrigger => keyOuterTrigger

/-- The `int` that the field is printed as. -/
def get (k : Key) (c : UsbConfig) : Int32 :=
  match k with
  | .sampleCount => c.sampleCount.toInt32
  | .delayCount => c.delayCount.toInt32
  | .repeatCount => c.repeatCount.toUInt32.toInt32
  | .downSampleCount => c.downSampleCount.toUInt32.toInt32
  | .adChannel => c.adChannel.toInt32
  | .adBit => c.adBit.toInt32
  | .trigger => c.trigger.toInt32
  | .outerTrigger => c.outerTrigger.toInt32

/-- The configuration with the field set from an `int`. -/
def set (k : Key) (c : UsbConfig) (v : Int32) : UsbConfig :=
  match k with
  | .sampleCount => { c with sampleCount := v.toUInt32 }
  | .delayCount => { c with delayCount := v.toUInt32 }
  | .repeatCount => { c with repeatCount := v.toUInt32.toUInt16 }
  | .downSampleCount => { c with downSampleCount := v.toUInt32.toUInt16 }
  | .adChannel => { c with adChannel := v.toInt16 }
  | .adBit => { c with adBit := v.toInt16 }
  | .trigger => { c with trigger := v.toInt16 }
  | .outerTrigger => { c with outerTrigger := v.toInt16 }

/-- The line of the field, without its newline. -/
def text (k : Key) (c : UsbConfig) : List UInt8 := k.name ++ 0x3D :: printInt (k.get c).toInt

/-- The line of the field. -/
def line (k : Key) (c : UsbConfig) : List UInt8 := k.text c ++ [0x0A]

end Key

/-- The eight lines of a configuration. -/
def configLines (c : UsbConfig) : List UInt8 := (Key.all.map fun k => k.line c).flatten

/-- The configuration `c₀` with the eight fields of `c`. -/
def UsbConfig.restored (c₀ c : UsbConfig) : UsbConfig :=
  { c₀ with
    sampleCount := c.sampleCount
    delayCount := c.delayCount
    repeatCount := c.repeatCount
    downSampleCount := c.downSampleCount
    adChannel := c.adChannel
    adBit := c.adBit
    trigger := c.trigger
    outerTrigger := c.outerTrigger }

/-! ### Writing -/

namespace Lib.File

/-- The operations on a file when none of them fails. -/
def handler (f : File) : (o : FileOp) → o.Ans × File
  | .ftruncate n => ((0 : Int32), f.ftruncate n)
  | .fprintf s => (Int32.ofNat s.length, f.fwrite s)
  | .fflush => ((0 : Int32), f)

/-- The file after `write_config`, when no operation fails. -/
def save (f : File) (c : UsbConfig) : File := ((writeConfig c).exec handler f).2

end Lib.File

/-- Each field is written by printing its line. -/
theorem save_eq_fwrite (f : File) (c : UsbConfig) :
    f.save c = (Key.all.map fun k => k.line c).foldl File.fwrite (f.ftruncate 0) := rfl

/-- Saving at the position `p` leaves `p` zeros and the lines behind them. -/
theorem save_eq (f : File) (c : UsbConfig) :
    f.save c = ⟨List.replicate f.pos 0 ++ configLines c, f.pos + (configLines c).length⟩ := by
  rw [save_eq_fwrite, File.foldl_fwrite _ (by simp [Key.all])]
  simp [File.ftruncate, File.fwrite, configLines]

theorem save_contents (f : File) (c : UsbConfig) (h : f.pos = 0) : (f.save c).contents = configLines c := by
  rw [save_eq, h]
  rfl

/-! ### Reading -/

theorem hasPrefix_append (pre t : List UInt8) : hasPrefix (pre ++ t) pre = true := by
  simp [hasPrefix]

theorem hasPrefix_eq_false {a pre : List UInt8} (t : List UInt8) (h : pre.isPrefixOf a = false)
    (h' : a.isPrefixOf pre = false) : hasPrefix (a ++ t) pre = false := by
  by_contra hp
  have hpre : pre <+: a ++ t := by
    simp only [hasPrefix, Bool.not_eq_false] at hp
    split at hp
    · cases hp
    · rw [of_decide_eq_true hp]
      exact List.take_prefix _ _
  rcases List.prefix_or_prefix_of_prefix hpre (List.prefix_append a t) with hx | hx
  · rw [List.isPrefixOf_iff_prefix.2 hx] at h
    cases h
  · rw [List.isPrefixOf_iff_prefix.2 hx] at h'
    cases h'

namespace Key

/-- A line that starts with a key and `=` starts with no other key. -/
theorem hasPrefix_name (k k' : Key) (t : List UInt8) : hasPrefix (k.name ++ 0x3D :: t) k'.name = decide (k = k') := by
  have hsplit : k.name ++ 0x3D :: t = (k.name ++ [0x3D]) ++ t := by simp
  by_cases h : k = k'
  · rw [h, hasPrefix_append, decide_eq_true rfl]
  · rw [decide_eq_false h, hsplit]
    refine hasPrefix_eq_false t ?_ ?_ <;> (revert h; cases k <;> cases k' <;> decide)

theorem name_ne (k : Key) : ∀ x ∈ k.name, x ≠ 0x3D ∧ x ≠ 0x0A ∧ x ≠ 0 := by
  have h : k.name.all (fun x => x ≠ 0x3D ∧ x ≠ 0x0A ∧ x ≠ 0) = true := by cases k <;> decide
  intro x hx
  exact of_decide_eq_true (List.all_eq_true.1 h x hx)

theorem name_length (k : Key) : k.name.length ≤ 17 := by
  cases k <;> decide

end Key

/-- The body of the loop looks for each key in turn. -/
theorem loadLine_eq (c : UsbConfig) (buf : List UInt8) :
    loadLine c buf = Key.all.foldl (fun c k => if hasPrefix buf k.name then k.set c (readConfigProp buf) else c) c := rfl

/-- A line of one key sets its field alone. -/
theorem loadLine_key (c : UsbConfig) (k : Key) (t : List UInt8) :
    loadLine c (k.name ++ 0x3D :: t) = k.set c (readConfigProp (k.name ++ 0x3D :: t)) := by
  rw [loadLine_eq]
  simp only [Key.hasPrefix_name]
  cases k <;> rfl

theorem isdigit_ne {x : UInt8} (h : isdigit x = true) : x ≠ 0x0A ∧ x ≠ 0 := by
  rw [isdigit_iff] at h
  constructor
  · rintro rfl
    exact absurd h.1 (by decide)
  · rintro rfl
    exact absurd h.1 (by decide)

/-- A printed number is neither cut by a newline nor by a zero. -/
theorem printInt_ne {z : ℤ} {x : UInt8} (h : x ∈ printInt z) : x ≠ 0x0A ∧ x ≠ 0 := by
  rcases mem_printInt h with rfl | h
  · decide
  · exact isdigit_ne h

theorem text_ne (k : Key) (c : UsbConfig) : ∀ x ∈ k.text c, x ≠ 0x0A ∧ x ≠ 0 := by
  intro x hx
  unfold Key.text at hx
  rcases List.mem_append.1 hx with hx | hx
  · exact (k.name_ne x hx).2
  · rcases List.mem_cons.1 hx with rfl | hx
    · decide
    · exact printInt_ne hx

theorem text_length (k : Key) (c : UsbConfig) : (k.text c).length < 127 := by
  have hn := k.name_length
  have h1 := (k.get c).toInt_lt
  have h2 := (k.get c).le_toInt
  have hp : (printInt (k.get c).toInt).length ≤ 9 + 2 := printInt_length (by omega)
  unfold Key.text
  rw [List.length_append, List.length_cons]
  omega

/-- What was printed for a field is read back. -/
theorem readConfigProp_line (k : Key) (c : UsbConfig) : readConfigProp (k.line c) = k.get c := by
  have hline : k.line c = k.name ++ 0x3D :: (printInt (k.get c).toInt ++ [0x0A]) := by simp [Key.line, Key.text]
  rw [readConfigProp, hline, strchr_append fun x hx => (k.name_ne x hx).1]
  simp only [List.drop_succ_cons, List.drop_zero]
  rw [atoi, parseInt_printInt _ (by simp [isdigit])]
  exact Int32.ofInt_toInt _

theorem loadLine_line (c₀ c : UsbConfig) (k : Key) : loadLine c₀ (terminated (k.line c)) = k.set c₀ (k.get c) := by
  have hline : k.line c = k.name ++ 0x3D :: (printInt (k.get c).toInt ++ [0x0A]) := by simp [Key.line, Key.text]
  have hne : ∀ x ∈ k.line c, x ≠ 0 := by
    intro x hx
    rcases List.mem_append.1 hx with hx | hx
    · exact (text_ne k c x hx).2
    · rw [List.mem_singleton.1 hx]
      decide
  rw [terminated_of_ne hne]
  conv_lhs => rw [hline]
  rw [loadLine_key, ← hline, readConfigProp_line]

/-- The buffer of `load_config` cuts the lines where they end. -/
theorem pieces_lines (c : UsbConfig) (ks : List Key) :
    pieces 127 (ks.map fun k => k.line c).flatten = ks.map fun k => k.line c := by
  induction ks with
  | nil => exact pieces_nil 127
  | cons k ks ih =>
    have hsplit : ((k :: ks).map fun k => k.line c).flatten =
        k.text c ++ 0x0A :: (ks.map fun k => k.line c).flatten := by simp [Key.line]
    rw [hsplit, pieces_line (fun x hx => (text_ne k c x hx).1) (text_length k c), ih]
    rfl

/-- Setting every field of `c` gives them all. -/
theorem foldl_set (c₀ c : UsbConfig) : Key.all.foldl (fun c' k => k.set c' (k.get c)) c₀ = c₀.restored c := by
  simp [Key.all, Key.set, Key.get, UsbConfig.restored]

/-- Loading the lines of `c` gives its eight fields. -/
theorem loadConfig_lines (c₀ c : UsbConfig) (f : File) (h : f.contents = configLines c) :
    (loadConfig c₀ f).2.1 = c₀.restored c := by
  have hw := (f.rewind.whileFgets_eq 128 (fun c buf => loadLine c (terminated buf)) c₀).1
  have hr : f.rewind.contents.drop f.rewind.pos = configLines c := by rw [← h]; rfl
  rw [hr, configLines, pieces_lines, List.foldl_map] at hw
  simp only [loadLine_line] at hw
  exact hw.trans (foldl_set c₀ c)

theorem loadConfig_contents (c₀ : UsbConfig) (f : File) : (loadConfig c₀ f).2.2.contents = f.contents :=
  (f.rewind.whileFgets_eq 128 (fun c buf => loadLine c (terminated buf)) c₀).2

/-! ### The round trip -/

/-- What `write_config` prints into an empty file. -/
def printConfig (c : UsbConfig) : List UInt8 := ((⟨[], 0⟩ : File).save c).contents

/-- What `load_config` makes of a text. -/
def parseConfig (t : List UInt8) (c₀ : UsbConfig) : UsbConfig := (loadConfig c₀ ⟨t, 0⟩).2.1

theorem printConfig_eq (c : UsbConfig) : printConfig c = configLines c := save_contents _ c rfl

/-- The lines of a configuration depend on the eight fields only. -/
theorem configLines_restored (c₀ c : UsbConfig) : configLines (c₀.restored c) = configLines c := rfl

/-- **Round trip.**  Loading what was saved gives the eight fields that were saved and leaves all others as they were, and
saving that prints the same text. -/
theorem parse_print (c c₀ : UsbConfig) :
    parseConfig (printConfig c) c₀ = c₀.restored c ∧ printConfig (parseConfig (printConfig c) c₀) = printConfig c := by
  have h : parseConfig (printConfig c) c₀ = c₀.restored c := loadConfig_lines c₀ c _ (printConfig_eq c)
  refine ⟨h, ?_⟩
  rw [h, printConfig_eq, printConfig_eq, configLines_restored]

end EdUsb
