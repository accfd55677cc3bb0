import EdUsb.Agreement
import EdUsb.Numbers

/-!
# From the file to the device

A file of lines `key=integer` is loaded, and what it left in the configuration is sent.  Six of the eight fields travel, and
a field has fewer bytes in the frame than in the configuration where `_pack_short` packs it.  So the device holds the integer
of a last line exactly if the bytes of the frame can hold it and the line was not cut (`delivered_iff`).
-/

namespace EdUsb

open EdUsb.Lib Ed

/-! ### The place of a field in the frame -/

/-- Where the bytes of a field begin in the frame, and how many they are. -/
def Key.slot : Key → Option (ℕ × ℕ)
  | .sampleCount => some (8, 4)
  | .delayCount => some (12, 4)
  | .repeatCount => some (16, 2)
  | .downSampleCount => some (18, 2)
  | .adChannel => none
  | .adBit => none
  | .trigger => some (24, 1)
  | .outerTrigger => some (25, 1)

variable {k : Key} {i n : ℕ}

/-- A field is sent without the bits that its bytes cannot hold. -/
theorem decode_configFrame (h : k.slot = some (i, n)) (c : UsbConfig) :
    (decodeLE (configFrame c) i n : ℤ) = k.number c % 2 ^ (8 * n) := by
  have hf := configFrame_fields c
  have h32 : ∀ x : UInt32, (x.toNat : ℤ) = (x.toNat : ℤ) % 2 ^ (8 * 4) := by
    intro x
    have := x.toNat_lt
    omega
  have h16 : ∀ x : UInt16, (x.toNat : ℤ) = (x.toNat : ℤ) % 2 ^ (8 * 2) := by
    intro x
    have := x.toNat_lt
    omega
  cases k with
  | adChannel => cases h
  | adBit => cases h
  | sampleCount => cases h; rw [hf.sampleCount]; exact h32 _
  | delayCount => cases h; rw [hf.delayCount]; exact h32 _
  | repeatCount => cases h; rw [hf.repeatCount]; exact h16 _
  | downSampleCount => cases h; rw [hf.downSampleCount]; exact h16 _
  | trigger => cases h; exact hf.trigger
  | outerTrigger => cases h; exact hf.outerTrigger

/-- The field keeps all that its bytes in the frame can hold. -/
theorem wrap_emod (h : k.slot = some (i, n)) (v : ℤ) : k.wrap v % 2 ^ (8 * n) = v % 2 ^ (8 * n) := by
  have hshort : v.bmod (2 ^ 16) % 2 ^ (8 * 1) = v % 2 ^ (8 * 1) := by
    have hdvd : (2 : ℤ) ^ (8 * 1) ∣ ((2 ^ 16 : ℕ) : ℤ) := by decide
    rw [← Int.emod_emod_of_dvd _ hdvd, Int.bmod_emod, Int.emod_emod_of_dvd _ hdvd]
  cases k with
  | adChannel => cases h
  | adBit => cases h
  | sampleCount => cases h; exact Int.emod_emod_of_dvd _ (by decide)
  | delayCount => cases h; exact Int.emod_emod_of_dvd _ (by decide)
  | repeatCount => cases h; exact Int.emod_emod_of_dvd _ (by decide)
  | downSampleCount => cases h; exact Int.emod_emod_of_dvd _ (by decide)
  | trigger => cases h; exact hshort
  | outerTrigger => cases h; exact hshort

/-! ### What is sent of a file -/

variable {es : List Entry} {ended : Bool} {pos : ℕ} {c₀ : UsbConfig}

/-- A field that the file does not name. -/
theorem number_load_none (h : lastEntry es k = none) :
    k.number (loadConfig c₀ ⟨entryBytes es ended, pos⟩).2.1 = k.number c₀ := by
  rw [load_entries]
  cases k <;> simp [Key.number, UsbConfig.updated, h]

/-- A field that it names: the bytes that were cut off are lost, and those that the frame has no room for. -/
theorem decode_load (h : k.slot = some (i, n)) {e : Entry} (he : e ∈ lastEntry es k) :
    (decodeLE (configFrame (loadConfig c₀ ⟨entryBytes es ended, pos⟩).2.1) i n : ℤ) = e.kept.value % 2 ^ (8 * n) := by
  have hu : (lastEntry es k).map (fun e => Int32.ofInt e.kept.value) = some (Int32.ofInt e.kept.value) := by
    rw [Option.mem_def.1 he]
    rfl
  rw [decode_configFrame h, load_entries, number_updated k c₀ hu, wrap_emod h]

/-- What is left of the number of a line: all of it, or an integer at least ten times smaller. -/
theorem kept_cases (e : Entry) : e.text.length ≤ 127 ∧ e.kept.value = e.number.value ∨
    127 < e.text.length ∧ ((0 ≤ e.kept.value ∧ 10 * e.kept.value ≤ e.number.value) ∨
      (e.kept.value ≤ 0 ∧ e.number.value ≤ 10 * e.kept.value)) := by
  have hname := e.key.name_length
  have hsign := e.number.sign.text_length
  have hlen : e.text.length = e.key.name.length + 1 + (e.number.sign.text.length + e.number.digits.length) := by
    simp only [Entry.text, Numeral.text, digitText, List.length_append, List.length_cons, List.length_map]
    omega
  by_cases hshort : e.text.length ≤ 127
  · have hkept : e.kept = e.number := e.number.cut_of_le _ (by omega)
    exact .inl ⟨hshort, by rw [hkept]⟩
  · exact .inr ⟨by omega, e.number.cut_value (by omega) (by omega)⟩

/-- Bytes hold the integer of a line exactly if they can, and nothing of the number was cut off. -/
theorem kept_emod_iff (e : Entry) {m : ℤ} (hm : 0 < m) :
    e.kept.value % m = e.number.value ↔
      (0 ≤ e.number.value ∧ e.number.value < m) ∧ (e.text.length ≤ 127 ∨ e.number.value = 0) := by
  have h0 := Int.emod_nonneg e.kept.value hm.ne'
  have h1 := Int.emod_lt_of_pos e.kept.value hm
  rcases kept_cases e with ⟨hshort, hkept⟩ | ⟨hlong, hkept⟩
  · rw [hkept] at h0 h1 ⊢
    constructor
    · intro h
      rw [h] at h0 h1
      exact ⟨⟨h0, h1⟩, .inl hshort⟩
    · rintro ⟨⟨hv0, hv1⟩, -⟩
      exact Int.emod_eq_of_lt hv0 hv1
  · constructor
    · intro h
      rw [h] at h0 h1
      refine ⟨⟨h0, h1⟩, .inr ?_⟩
      rcases hkept with ⟨hk0, hk⟩ | ⟨hk0, hk⟩
      · rw [Int.emod_eq_of_lt hk0 (by omega)] at h
        omega
      · omega
    · rintro ⟨-, hzero⟩
      have hz : e.number.value = 0 := hzero.resolve_left (by omega)
      have hk : e.kept.value = 0 := by omega
      rw [hk, hz, Int.zero_emod]

/-! ### What arrives -/

/-- What a frame says of a file of lines and of the configuration that it was loaded into. -/
structure Delivered (es : List Entry) (c₀ : UsbConfig) (frame : List UInt8) : Prop where
  /-- A field that the file names has the integer of its last line, or not. -/
  named : ∀ k i n, k.slot = some (i, n) → ∀ e ∈ lastEntry es k, (decodeLE frame i n : ℤ) = e.number.value ↔
    (0 ≤ e.number.value ∧ e.number.value < 2 ^ (8 * n)) ∧ (e.text.length ≤ 127 ∨ e.number.value = 0)
  /-- A field that it does not name is sent as it was. -/
  other : ∀ k i n, k.slot = some (i, n) → lastEntry es k = none →
    (decodeLE frame i n : ℤ) = k.number c₀ % 2 ^ (8 * n)

theorem delivered_load (es : List Entry) (ended : Bool) (pos : ℕ) (c₀ : UsbConfig) :
    Delivered es c₀ (configFrame (loadConfig c₀ ⟨entryBytes es ended, pos⟩).2.1) where
  named k i n h e he := by
    rw [decode_load h he]
    exact kept_emod_iff e (by positivity)
  other k i n h hnone := by rw [decode_configFrame h, number_load_none hnone]

variable {W : Type} {E : Env Op Op.Ans W} {addr : UsbAddr} {x y : W × Wire}

/-- **From the file to the device.**  With any device and driver by which every transfer stores its count and a frame
reaches the device exactly if its count is 32, in every sequence of commands: once the configuration that a file of lines
`key=integer` was loaded into was sent and did not fail, and as long as no configuration with other fields is sent, the
device holds one frame, and held it at each start since.  The frame has the integer of a last line exactly if the bytes of
its field there can hold it and the line is not cut or its integer is 0; the fields that the file does not name are those
that the configuration had before. -/
theorem delivered_iff (hE : Quiet E) {l₁ l₂ : List (Done Command Int32 (W × Wire))} {d : Done Command Int32 (W × Wire)}
    (h : Trace (E.prod Wire.env) (Command.prog addr) x (l₁ ++ d :: l₂) y)
    (hc : d.cmd = .config (loadConfig c₀ ⟨entryBytes es ended, pos⟩).2.1) (hv : d.val ≠ usbSendConfigFail)
    (hsame : ∀ e ∈ l₂, ∀ cfg, e.cmd = .config cfg → SameFrame (loadConfig c₀ ⟨entryBytes es ended, pos⟩).2.1 cfg) :
    ∃ frame, y.2.held = some frame ∧ (∀ held ∈ y.2.starts.drop d.after.2.starts.length, held = some frame) ∧
      Delivered es c₀ frame := by
  obtain ⟨v, -, h₂⟩ := h.cut
  obtain ⟨hheld, new, hnew, hall⟩ := held_sent hE h₂ hc hv hsame
  refine ⟨_, hheld, ?_, delivered_load es ended pos c₀⟩
  rw [hnew, List.drop_left]
  exact hall

/-- A line that is loaded as it is written, and the device has another trigger. -/
theorem delivered_iff_wideTrigger : ∃ (e : Entry) (v : Link × Wire) (frame : List UInt8), e.text = cString "trigger=256" ∧
    v.2.held = some frame ∧ (decodeLE frame 24 1 : ℤ) ≠ 256 ∧
    (usbSendConfigToDevice (loadConfig defaultConfig ⟨entryBytes [e] true, 0⟩).2.1 ⟨1⟩).Runs
      ((flakyDevice (asked oneSample)).env.prod Wire.env) (.init, ⟨none, []⟩) usbSendConfigSuccess v := by
  let e : Entry := ⟨.trigger, ⟨.none, [2, 5, 6], List.cons_ne_nil _ _⟩⟩
  let c := (loadConfig defaultConfig ⟨entryBytes [e] true, 0⟩).2.1
  have hrun := heard_runs ⟨1⟩ (c := .config c) rfl (k := 32) le_rfl asked_oneSample .init
  rw [show heardVal (.config c) codeSendConfigResponse 32 .init = usbSendConfigSuccess by decide] at hrun
  obtain ⟨v, hrun⟩ := hrun.prod (F := Wire.env) (fun w o r => ⟨w.after o r, rfl⟩) ⟨none, []⟩
  have htrace : Trace ((flakyDevice (asked oneSample)).env.prod Wire.env) (Command.prog ⟨1⟩) (.init, ⟨none, []⟩)
      ([] ++ ⟨.config c, _, _, _⟩ :: []) _ := .cons (.refl _) hrun (.nil (.refl _))
  have hne : usbSendConfigSuccess ≠ usbSendConfigFail := by decide
  obtain ⟨frame, hheld, -, hdelivered⟩ := delivered_iff (Device.quiet _) htrace rfl hne (by simp)
  refine ⟨e, _, frame, by decide, hheld, fun he => ?_, hrun⟩
  have hlast : e ∈ lastEntry [e] .trigger := rfl
  have hlt := ((hdelivered.named .trigger 24 1 rfl e hlast).1 he).1.2
  exact absurd hlt (by decide)

end EdUsb
