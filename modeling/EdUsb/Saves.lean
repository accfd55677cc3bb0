import EdUsb.Codec

/-!
# Saving and loading on one stream

`load_config` rewinds the stream, `write_config` does not: it truncates the file and then writes where the stream stands.
So a file holds what was saved last exactly as long as every save finds the stream at the start (`faithful_iff`).
-/

namespace EdUsb

open EdUsb.Lib

/-- A call on the stream. -/
inductive FileCall where
  | write (c : UsbConfig)
  | load (c₀ : UsbConfig)

/-- In the sequence of calls `l` on the stream `f`, the file holds exactly the lines of a configuration after that was
saved, and a load gives its eight fields; `last` is what was saved before, if anything was. -/
def Faithful (last : Option UsbConfig) (f : File) : List FileCall → Prop
  | [] => True
  | .write c :: l => (f.save c).contents = configLines c ∧ Faithful (some c) (f.save c) l
  | .load c₀ :: l => (∀ c ∈ last, (loadConfig c₀ f).2.1 = c₀.restored c) ∧ Faithful last (loadConfig c₀ f).2.2 l

/-- In the sequence of calls `l` on the stream `f`, every save finds the stream at the start of the file. -/
def AtStart (f : File) : List FileCall → Prop
  | [] => True
  | .write c :: l => f.pos = 0 ∧ AtStart (f.save c) l
  | .load c₀ :: l => AtStart (loadConfig c₀ f).2.2 l

theorem configLines_ne_nil (c : UsbConfig) : configLines c ≠ [] := by
  simp [configLines, Key.all, Key.line]

/-- A save leaves its lines and nothing else exactly if it is made at the start. -/
theorem save_contents_iff (f : File) (c : UsbConfig) : (f.save c).contents = configLines c ↔ f.pos = 0 := by
  constructor
  · intro h
    rw [save_eq] at h
    have hlen := congrArg List.length h
    rw [List.length_append, List.length_replicate] at hlen
    omega
  · exact save_contents f c

theorem faithful_iff_of_last {last : Option UsbConfig} {f : File} (l : List FileCall)
    (h : ∀ c ∈ last, f.contents = configLines c) : Faithful last f l ↔ AtStart f l := by
  induction l generalizing last f with
  | nil => exact Iff.rfl
  | cons call l ih =>
    cases call with
    | write c =>
      unfold Faithful AtStart
      rw [save_contents_iff]
      apply and_congr_right
      intro hpos
      apply ih
      intro c' hc'
      obtain rfl := Option.some_inj.1 hc'
      exact save_contents f c hpos
    | load c₀ =>
      have hload : ∀ c ∈ last, (loadConfig c₀ f).2.1 = c₀.restored c := fun c hc => loadConfig_lines c₀ c f (h c hc)
      have hlast : ∀ c ∈ last, (loadConfig c₀ f).2.2.contents = configLines c := by
        intro c hc
        rw [loadConfig_contents, h c hc]
      unfold Faithful AtStart
      rw [ih hlast]
      exact and_iff_right hload

/-- **When a stream keeps what was saved.**  In every sequence of saves and loads on a stream, whatever the file holds and
wherever the stream stands: each save leaves exactly its lines, and each load gives what was saved last, if and only if
every save finds the stream at the start. -/
theorem faithful_iff (f : File) (l : List FileCall) : Faithful none f l ↔ AtStart f l :=
  faithful_iff_of_last l (by simp)

/-- The second save of the default configuration leaves zeros in front of its lines. -/
theorem not_faithful_of_saves : ¬ ∀ (f : File) (l : List FileCall), Faithful none f l := by
  intro h
  obtain ⟨-, hsecond, -⟩ := h ⟨[], 0⟩ [.write defaultConfig, .write defaultConfig]
  have hpos := (save_contents_iff _ _).1 hsecond
  rw [save_eq, Nat.zero_add, List.length_eq_zero_iff] at hpos
  exact configLines_ne_nil _ hpos

end EdUsb
