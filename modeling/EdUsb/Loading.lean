import EdUsb.Codec
import EdUsb.Lib.Lines
import EdUsb.Lib.Numeral

/-!
# What a file does to a configuration

`load_config` leaves in each field the number of the last piece of the file that begins with its key
(`loadConfig_updated`).  Where the lines are short enough for the buffer the pieces are the lines (`ConfigText`), so what
counts is the last line of each key (`last_line_wins`), and lines that begin with no key may be left out (`keys_only`).
-/

namespace EdUsb

open EdUsb.Lib

/-! ### One line -/

theorem hasPrefix_iff (l pre : List UInt8) : hasPrefix l pre = true ↔ pre <+: l := by
  constructor
  · intro h
    unfold hasPrefix at h
    split at h
    · cases h
    · rw [of_decide_eq_true h]
      exact List.take_prefix _ _
  · rintro ⟨t, rfl⟩
    exact hasPrefix_append pre t

namespace Key

/-- A line begins with the key. -/
def begins (k : Key) (l : List UInt8) : Bool := hasPrefix l k.name

/-- The number that a line gives to the field of a key. -/
def value (l : List UInt8) (k : Key) : Option Int32 := if k.begins l then some (readConfigProp l) else none

theorem value_nil (k : Key) : value [] k = none := by
  cases k <;> rfl

theorem begins_newline (k : Key) (l : List UInt8) : k.begins (l ++ [0x0A]) = k.begins l := by
  rw [Bool.eq_iff_iff, begins, begins, hasPrefix_iff, hasPrefix_iff, List.prefix_concat_iff]
  constructor
  · intro h
    refine h.resolve_left ?_
    intro heq
    have hmem : (0x0A : UInt8) ∈ k.name := by simp [heq]
    exact (k.name_ne _ hmem).2.1 rfl
  · exact .inr

/-- No key is the beginning of another, so a line begins with one at most. -/
theorem eq_of_begins {k k' : Key} {l : List UInt8} (h : k.begins l = true) (h' : k'.begins l = true) : k = k' := by
  rw [begins, hasPrefix_iff] at h h'
  have hdisj : ∀ a b : Key, a.name.isPrefixOf b.name = true → a = b := by
    intro a b
    cases a <;> cases b <;> decide
  rcases List.prefix_or_prefix_of_prefix h h' with hp | hp
  · exact hdisj k k' (List.isPrefixOf_iff_prefix.2 hp)
  · exact (hdisj k' k (List.isPrefixOf_iff_prefix.2 hp)).symm

end Key

theorem readConfigProp_of_not_mem {l : List UInt8} (h : 0x3D ∉ l) : readConfigProp l = 0 := by
  rw [readConfigProp, strchr_of_not_mem h]

theorem readConfigProp_append {s : List UInt8} (h : 0x3D ∉ s) (t : List UInt8) : readConfigProp (s ++ 0x3D :: t) = atoi t := by
  have hs : ∀ x ∈ s, x ≠ 0x3D := by
    rintro x hx rfl
    exact h hx
  rw [readConfigProp, strchr_append hs]
  rfl

theorem readConfigProp_newline (l : List UInt8) : readConfigProp (l ++ [0x0A]) = readConfigProp l := by
  by_cases h : 0x3D ∈ l
  · obtain ⟨s, t, rfl, hs⟩ := List.eq_append_cons_of_mem h
    rw [List.append_assoc, List.cons_append, readConfigProp_append hs, readConfigProp_append hs, atoi,
      parseInt_append t (by decide) (by decide), atoi]
  · rw [readConfigProp_of_not_mem h, readConfigProp_of_not_mem (by simp [h])]

theorem Key.value_newline (l : List UInt8) (k : Key) : value (l ++ [0x0A]) k = value l k := by
  rw [value, value, begins_newline, readConfigProp_newline]

/-! ### Many fields at once -/

/-- The configuration with the fields set that `u` gives a number to. -/
def UsbConfig.updated (c : UsbConfig) (u : Key → Option Int32) : UsbConfig :=
  { c with
    sampleCount := ((u .sampleCount).map Int32.toUInt32).getD c.sampleCount
    delayCount := ((u .delayCount).map Int32.toUInt32).getD c.delayCount
    repeatCount := ((u .repeatCount).map fun v => v.toUInt32.toUInt16).getD c.repeatCount
    downSampleCount := ((u .downSampleCount).map fun v => v.toUInt32.toUInt16).getD c.downSampleCount
    adChannel := ((u .adChannel).map Int32.toInt16).getD c.adChannel
    adBit := ((u .adBit).map Int32.toInt16).getD c.adBit
    trigger := ((u .trigger).map Int32.toInt16).getD c.trigger
    outerTrigger := ((u .outerTrigger).map Int32.toInt16).getD c.outerTrigger }

theorem updated_none (c : UsbConfig) : c.updated (fun _ => none) = c := rfl

theorem getD_map_or {α β : Type} (f : α → β) (x y : Option α) (d : β) :
    (x.map f).getD ((y.map f).getD d) = ((x.or y).map f).getD d := by
  cases x <;> rfl

theorem updated_updated (c : UsbConfig) (u u' : Key → Option Int32) :
    (c.updated u).updated u' = c.updated fun k => (u' k).or (u k) := by
  simp only [UsbConfig.updated, getD_map_or]

theorem set_eq_updated (k : Key) (c : UsbConfig) (v : Int32) :
    k.set c v = c.updated fun k' => if k' = k then some v else none := by
  cases k <;> rfl

/-- The body of the loop sets the fields that the line gives a number to. -/
theorem loadLine_eq_updated (c : UsbConfig) (l : List UInt8) : loadLine c l = c.updated (Key.value l) := by
  have hfold : ∀ (ks : List Key) (c' : UsbConfig),
      ks.foldl (fun c k => if hasPrefix l k.name then k.set c (readConfigProp l) else c) c' =
        c'.updated fun k => if k ∈ ks then Key.value l k else none := by
    intro ks
    induction ks with
    | nil => intro c'; rfl
    | cons k ks ih =>
      intro c'
      have hstep : (if hasPrefix l k.name then k.set c' (readConfigProp l) else c') =
          c'.updated fun k' => if k' = k then Key.value l k' else none := by
        cases hp : hasPrefix l k.name with
        | false =>
          have hnone : (fun k' => if k' = k then Key.value l k' else none) = fun _ => none := by
            funext k'
            by_cases hk : k' = k
            · rw [if_pos hk, hk, Key.value, Key.begins, hp, if_neg Bool.false_ne_true]
            · rw [if_neg hk]
          rw [hnone, updated_none, if_neg Bool.false_ne_true]
        | true =>
          rw [if_pos rfl, set_eq_updated]
          congr 1
          funext k'
          by_cases hk : k' = k
          · rw [if_pos hk, if_pos hk, hk, Key.value, Key.begins, hp, if_pos rfl]
          · rw [if_neg hk, if_neg hk]
      rw [List.foldl_cons, ih, hstep, updated_updated]
      congr 1
      funext k'
      by_cases hk : k' = k
      · subst hk
        by_cases hks : k' ∈ ks <;> simp [hks]
      · by_cases hks : k' ∈ ks <;> simp [hk, hks]
  rw [loadLine_eq, hfold]
  congr 1
  funext k
  exact if_pos (by cases k <;> decide)

/-! ### A whole file -/

/-- **Loading.**  Each field is left with the number of the last piece that begins with its key. -/
theorem loadConfig_updated (c₀ : UsbConfig) {f : File} (h : 0 ∉ f.contents) :
    (loadConfig c₀ f).2.1 = c₀.updated (lastOf Key.value (pieces 127 f.contents)) := by
  have hw := (f.rewind.whileFgets_eq 128 (fun c buf => loadLine c (terminated buf)) c₀).1
  have hterm : ∀ p ∈ pieces 127 f.contents, terminated p = p := by
    intro p hp
    apply terminated_of_ne
    rintro c hc rfl
    exact h (mem_of_mem_pieces hp hc)
  refine hw.trans ?_
  rw [← foldl_act updated_none updated_updated]
  apply List.foldl_ext
  intro c p hp
  rw [hterm p hp, loadLine_eq_updated]

/-- A file without NUL bytes and with lines of at most 126 bytes. -/
structure ConfigText where
  bytes : List UInt8
  nulFree : 0 ∉ bytes
  short : ∀ l ∈ lines bytes, l.length ≤ 126

namespace ConfigText

/-- What loading the file makes of a configuration, wherever the stream stands. -/
def load (t : ConfigText) (pos : ℕ) (c₀ : UsbConfig) : UsbConfig := (loadConfig c₀ ⟨t.bytes, pos⟩).2.1

/-- Every line is terminated by a newline. -/
def Terminated (t : ConfigText) : Prop := t.bytes = [] ∨ ∃ s, t.bytes = s ++ [0x0A]

theorem load_eq (t : ConfigText) (pos : ℕ) (c₀ : UsbConfig) :
    t.load pos c₀ = c₀.updated (lastOf Key.value (lines t.bytes)) := by
  have hshort : ∀ l ∈ lines t.bytes, ∀ k, lastOf Key.value (pieces 127 l) k = Key.value l k := by
    intro l hl k
    exact lastOf_pieces_short (Key.value_nil k) (not_mem_of_mem_lines hl) ((t.short l hl).trans (by decide))
  rw [load, loadConfig_updated c₀ t.nulFree]
  congr 1
  funext k
  rw [lastOf_pieces (Key.value_nil k) (fun l => Key.value_newline l k)]
  exact lastOf_ext fun l hl => hshort l hl k

end ConfigText

/-- The last line that begins with the key. -/
def Key.lastLine (k : Key) (ls : List (List UInt8)) : Option (List UInt8) := (ls.filter k.begins).getLast?

theorem lastOf_value (ls : List (List UInt8)) (k : Key) : lastOf Key.value ls k = (k.lastLine ls).map readConfigProp :=
  lastOf_ite Key.begins readConfigProp ls k

/-- **Last line wins.**  For files whose lines fit the buffer and any initial configuration: loading leaves in each field
the number of the last line that begins with its key, and all else as it was; only the order of lines that begin with the
same key matters; loading a file twice is loading it once; and loading two files one behind the other is loading the first
and then the second. -/
theorem last_line_wins (t : ConfigText) (pos : ℕ) (c₀ : UsbConfig) :
    (t.load pos c₀ = c₀.updated fun k => (k.lastLine (lines t.bytes)).map readConfigProp) ∧
    (∀ t' : ConfigText, (∀ k : Key, (lines t'.bytes).filter k.begins = (lines t.bytes).filter k.begins) →
      t'.load pos c₀ = t.load pos c₀) ∧
    (loadConfig (t.load pos c₀) (loadConfig c₀ ⟨t.bytes, pos⟩).2.2).2.1 = t.load pos c₀ ∧
    (∀ (t' : ConfigText) (pos' : ℕ), t.Terminated →
      (loadConfig c₀ ⟨t.bytes ++ t'.bytes, pos⟩).2.1 = t'.load pos' (t.load pos c₀)) := by
  have hload : ∀ (t : ConfigText) (pos : ℕ) (c : UsbConfig),
      t.load pos c = c.updated fun k => (k.lastLine (lines t.bytes)).map readConfigProp := by
    intro t pos c
    rw [t.load_eq]
    congr 1
    funext k
    exact lastOf_value ..
  refine ⟨hload t pos c₀, ?_, ?_, ?_⟩
  · intro t' h
    rw [hload, hload]
    simp only [Key.lastLine, h]
  · have hsame : (loadConfig c₀ ⟨t.bytes, pos⟩).2.2.contents = t.bytes := loadConfig_contents c₀ _
    rw [loadConfig_updated _ (by rw [hsame]; exact t.nulFree), hsame, ConfigText.load,
      loadConfig_updated c₀ (f := ⟨t.bytes, pos⟩) t.nulFree, updated_updated]
    simp only [Option.or_self]
  · intro t' pos' hterm
    have hnul : 0 ∉ t.bytes ++ t'.bytes := by
      rw [List.mem_append, not_or]
      exact ⟨t.nulFree, t'.nulFree⟩
    have hpieces : pieces 127 (t.bytes ++ t'.bytes) = pieces 127 t.bytes ++ pieces 127 t'.bytes := by
      rcases hterm with hnil | ⟨s, hs⟩
      · rw [hnil, pieces_nil, List.nil_append, List.nil_append]
      · rw [hs, List.append_assoc, List.singleton_append, pieces_append]
    rw [loadConfig_updated c₀ (f := ⟨t.bytes ++ t'.bytes, pos⟩) hnul, ConfigText.load, ConfigText.load,
      loadConfig_updated _ (f := ⟨t'.bytes, pos'⟩) t'.nulFree, loadConfig_updated c₀ (f := ⟨t.bytes, pos⟩) t.nulFree,
      updated_updated]
    congr 1
    funext k
    rw [hpieces, lastOf_append]

def twoTriggers : ConfigText where
  bytes := cString "trigger=1\nad_bit=8\ntrigger=0\n"
  nulFree := by decide
  short := by decide

def triggersFirst : ConfigText where
  bytes := cString "trigger=1\ntrigger=0\nad_bit=8\n"
  nulFree := by decide
  short := by decide

theorem last_line_wins_twoTriggers :
    triggersFirst.load 0 defaultConfig = twoTriggers.load 0 defaultConfig ∧
      (loadConfig defaultConfig ⟨twoTriggers.bytes ++ triggersFirst.bytes, 0⟩).2.1 =
        triggersFirst.load 0 (twoTriggers.load 0 defaultConfig) := by
  obtain ⟨-, horder, -, hconcat⟩ := last_line_wins twoTriggers 0 defaultConfig
  constructor
  · apply horder
    intro k
    cases k <;> decide
  · exact hconcat triggersFirst 0 (.inr ⟨cString "trigger=1\nad_bit=8\ntrigger=0", by decide⟩)

/-! ### Lines that count -/

/-- The file that is left when the lines without `p` are deleted. -/
def ConfigText.keep (t : ConfigText) (p : List UInt8 → Bool) : ConfigText where
  bytes := unlines ((lines t.bytes).filter p)
  nulFree := by
    intro h
    rcases mem_unlines h with h | ⟨l, hl, hc⟩
    · cases h
    · exact t.nulFree (mem_of_mem_lines (List.mem_of_mem_filter hl) hc)
  short := by
    intro l hl
    rw [lines_unlines fun l hl => not_mem_of_mem_lines (List.mem_of_mem_filter hl), List.mem_append,
      List.mem_singleton] at hl
    rcases hl with hl | rfl
    · exact t.short l (List.mem_of_mem_filter hl)
    · exact Nat.zero_le _

theorem ConfigText.load_keep (t : ConfigText) (pos : ℕ) (c₀ : UsbConfig) {p : List UInt8 → Bool}
    (hp : ∀ (l : List UInt8) (k : Key), k.begins l = true → p l = true) : (t.keep p).load pos c₀ = t.load pos c₀ := by
  have hlines : lines (t.keep p).bytes = (lines t.bytes).filter p ++ [[]] :=
    lines_unlines fun l hl => not_mem_of_mem_lines (List.mem_of_mem_filter hl)
  rw [load_eq, load_eq]
  congr 1
  funext k
  have hnone : ∀ l, p l = false → Key.value l k = none := by
    intro l hl
    rw [Key.value, if_neg]
    intro hk
    rw [hp l k hk] at hl
    cases hl
  rw [hlines, lastOf_append, lastOf_singleton, Key.value_nil, Option.none_or, lastOf_filter hnone]

/-- A line `key=integer`. -/
def Grammatical (l : List UInt8) : Prop := ∃ (k : Key) (n : Numeral), l = k.name ++ 0x3D :: n.text

theorem loadLine_of_not_begins (c : UsbConfig) {l : List UInt8} (h : ∀ k : Key, k.begins l = false) : loadLine c l = c := by
  have hnone : Key.value l = fun _ => none := by
    funext k
    rw [Key.value, h k, if_neg Bool.false_ne_true]
  rw [loadLine_eq_updated, hnone, updated_none]

theorem loadLine_of_begins (c : UsbConfig) {l : List UInt8} {k : Key} (h : k.begins l = true) :
    loadLine c l = k.set c (readConfigProp l) := by
  rw [loadLine_eq_updated, set_eq_updated]
  congr 1
  funext k'
  by_cases hk : k' = k
  · rw [Key.value, hk, h, if_pos rfl, if_pos rfl]
  · rw [Key.value, if_neg, if_neg hk]
    intro hk'
    exact hk (Key.eq_of_begins hk' h)

theorem atoi_of_not {s : List UInt8} (h : ¬ BeginsNumber s) : atoi s = 0 := by
  rw [atoi, parseInt_of_not h]
  rfl

/-- **Only lines that begin with a key count.**  A line that begins with none changes nothing, so deleting such lines from
a file whose lines fit the buffer changes nothing either.  A line that begins with a key, whatever comes behind it, sets
the field of that key alone: to the number behind its first `=`, or to 0 if it has no `=` or there is no number. -/
theorem keys_only (t : ConfigText) (pos : ℕ) (c₀ : UsbConfig) :
    (∀ l, (∀ k : Key, k.begins l = false) → ∀ c, loadLine c l = c) ∧
    (∀ p : List UInt8 → Bool, (∀ l (k : Key), k.begins l = true → p l = true) →
      (t.keep p).load pos c₀ = t.load pos c₀) ∧
    (∀ l (k : Key), k.begins l = true → ∀ c, loadLine c l = k.set c (readConfigProp l)) ∧
    (∀ l, 0x3D ∉ l → readConfigProp l = 0) ∧
    (∀ s t, 0x3D ∉ s → readConfigProp (s ++ 0x3D :: t) = atoi t) ∧
    (∀ t, ¬ BeginsNumber t → atoi t = 0) :=
  ⟨fun _ h c => loadLine_of_not_begins c h, fun _ hp => t.load_keep pos c₀ hp, fun _ _ h c => loadLine_of_begins c h,
    fun _ h => readConfigProp_of_not_mem h, fun _ t h => readConfigProp_append h t, fun _ h => atoi_of_not h⟩

/-- A file of one line, whose key goes on behind `sample_count`. -/
def longerKey : ConfigText where
  bytes := cString "sample_count_max=5\n"
  nulFree := by decide
  short := by decide

theorem keys_only_longerKey :
    loadLine defaultConfig (cString "sample_count_max=5") =
      Key.sampleCount.set defaultConfig (readConfigProp (cString "sample_count_max=5")) ∧
    (longerKey.keep fun l => Key.all.any fun k => k.begins l).load 0 defaultConfig = longerKey.load 0 defaultConfig := by
  obtain ⟨-, hkeep, hset, -⟩ := keys_only longerKey 0 defaultConfig
  refine ⟨hset _ .sampleCount (by decide) defaultConfig, hkeep _ ?_⟩
  intro l k hk
  exact List.any_eq_true.2 ⟨k, by cases k <;> decide, hk⟩

/-- It sets the sample count, although no line of it is `key=integer`. -/
theorem not_grammatical_only : ¬ ∀ (t : ConfigText) (c₀ : UsbConfig),
    (∀ l ∈ lines t.bytes, ¬ Grammatical l) → t.load 0 c₀ = c₀ := by
  intro h
  have hline : ∀ l ∈ lines longerKey.bytes, ¬ Grammatical l := by
    rintro l hl ⟨k, n, rfl⟩
    have hnot : ∀ l ∈ lines longerKey.bytes, (k.name ++ [0x3D]).isPrefixOf l = false := by
      cases k <;> decide
    have hpre : (k.name ++ [0x3D]).isPrefixOf (k.name ++ 0x3D :: n.text) = true := by
      rw [List.isPrefixOf_iff_prefix]
      exact ⟨n.text, by simp⟩
    rw [hnot _ hl] at hpre
    cases hpre
  have hcount := congrArg UsbConfig.sampleCount (h longerKey defaultConfig hline)
  rw [longerKey.load_eq] at hcount
  exact absurd hcount (by decide)

end EdUsb
