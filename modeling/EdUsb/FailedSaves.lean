import EdUsb.Saves

/-!
# Saves that fail

Every operation of `write_config` may fail, or store only a part of its bytes.  `write_config` looks at no result and
always reports success; `honest_iff` says after which outcomes (`Disk`) the file does hold the lines of the configuration.
-/

namespace EdUsb

open EdUsb.Lib

/-- How the operations of a save turn out: whether the file can be truncated, and how many bytes at most are stored by
each `fprintf`, in the order of the calls, and by `fflush`. -/
structure Disk where
  truncates : Bool
  stored : ℕ → ℕ
  flushed : ℕ

/-- A stream with the bytes that were printed and not flushed yet, and how often something was printed. -/
structure OutStream where
  file : File
  buffered : List UInt8
  printed : ℕ

namespace Disk

/-- Operations that do not do all of their work return a negative number. -/
def handler (d : Disk) (s : OutStream) : (o : FileOp) → o.Ans × OutStream
  | .ftruncate n => if d.truncates then ((0 : Int32), { s with file := s.file.ftruncate n }) else ((-1 : Int32), s)
  | .fprintf t =>
    (if t.length ≤ d.stored s.printed then Int32.ofNat t.length else -1,
      { s with buffered := s.buffered ++ t.take (d.stored s.printed), printed := s.printed + 1 })
  | .fflush =>
    (if s.buffered.length ≤ d.flushed then 0 else -1,
      { s with file := s.file.fwrite (s.buffered.take d.flushed), buffered := s.buffered.drop d.flushed })

/-- `write_config` on a stream at the start of a file with the bytes `old`: what it returns, and the bytes of the file
afterwards. -/
def save (d : Disk) (old : List UInt8) (c : UsbConfig) : Option Int32 × List UInt8 :=
  let r := (writeConfig c).exec d.handler ⟨⟨old, 0⟩, [], 0⟩
  (r.1, r.2.file.contents)

/-- **What `write_config` should report**: success only if the file holds exactly the eight lines afterwards, so that
loading it restores the fields; and failure in every other case. -/
structure Honest (d : Disk) (old : List UInt8) (c : UsbConfig) : Prop where
  success : (d.save old c).1 = some usbWriteConfigSuccess →
    (d.save old c).2 = configLines c ∧ ∀ c₀ pos, (loadConfig c₀ ⟨(d.save old c).2, pos⟩).2.1 = c₀.restored c
  failure : (d.save old c).1 ≠ some usbWriteConfigSuccess ∨ (d.save old c).2 ≠ configLines c →
    (d.save old c).1 = some usbWriteConfigFail

/-- Every byte of the lines is stored. -/
structure Stores (d : Disk) (c : UsbConfig) : Prop where
  printed : ∀ k ∈ Key.all, (k.line c).length ≤ d.stored (Key.all.idxOf k)
  flushed : (configLines c).length ≤ d.flushed

/-- What the calls of `fprintf` store of the lines. -/
def buffer (d : Disk) (c : UsbConfig) : List UInt8 :=
  (Key.all.map fun k => (k.line c).take (d.stored (Key.all.idxOf k))).flatten

/-- What reaches the file of it. -/
def text (d : Disk) (c : UsbConfig) : List UInt8 := (d.buffer c).take d.flushed

/-- In an empty file every byte has to be stored.  If the old bytes could not be truncated away, what is stored has to be
a beginning of the lines, and the old bytes have to go on with the rest. -/
def Fits (d : Disk) (old : List UInt8) (c : UsbConfig) : Prop :=
  if d.truncates then d.Stores c
  else d.text c <+: configLines c ∧ old.drop (d.text c).length = (configLines c).drop (d.text c).length

/-! ### What a save leaves -/

theorem exec_writeConfig (d : Disk) (c : UsbConfig) (f : File) :
    (writeConfig c).exec d.handler ⟨f, [], 0⟩ =
      (some usbWriteConfigSuccess,
        ⟨(if d.truncates then f.ftruncate 0 else f).fwrite (d.text c), (d.buffer c).drop d.flushed, 8⟩) := by
  obtain ⟨truncates, stored, flushed⟩ := d
  cases truncates <;>
    simp [writeConfig, writeConfigPropUint32, writeConfigPropUint16, writeConfigPropShort, writeConfigProp, fileOp, handler,
      text, buffer, Key.all, Key.line, Key.text, Key.get, Key.name]

theorem save_eq (d : Disk) (old : List UInt8) (c : UsbConfig) :
    d.save old c =
      (some usbWriteConfigSuccess, d.text c ++ (if d.truncates then [] else old).drop (d.text c).length) := by
  rw [save, exec_writeConfig]
  cases d.truncates <;> simp [File.fwrite, File.ftruncate]

/-- A save is reported as it should be exactly if it leaves the lines: it is always reported as a success. -/
theorem honest_iff_contents (d : Disk) (old : List UInt8) (c : UsbConfig) :
    d.Honest old c ↔ (d.save old c).2 = configLines c := by
  have hret : (d.save old c).1 = some usbWriteConfigSuccess := by rw [save_eq]
  constructor
  · intro h
    exact (h.success hret).1
  · intro h
    constructor
    · intro _
      exact ⟨h, fun c₀ pos => loadConfig_lines c₀ c ⟨(d.save old c).2, pos⟩ h⟩
    · rintro (hne | hne)
      · exact absurd hret hne
      · exact absurd h hne

/-! ### Which bytes are stored -/

theorem buffer_eq_iff (d : Disk) (c : UsbConfig) :
    d.buffer c = configLines c ↔ ∀ k ∈ Key.all, (k.line c).length ≤ d.stored (Key.all.idxOf k) :=
  flatten_map_take_eq_iff (fun k : Key => k.line c) (fun k => d.stored (Key.all.idxOf k)) Key.all

theorem text_eq_iff (d : Disk) (c : UsbConfig) : d.text c = configLines c ↔ d.Stores c := by
  constructor
  · intro h
    have hbuffer : (d.buffer c).length ≤ (configLines c).length :=
      length_flatten_map_take_le (fun k : Key => k.line c) (fun k => d.stored (Key.all.idxOf k)) Key.all
    have hlen := congrArg List.length h
    rw [text, List.length_take] at hlen
    rw [text, List.take_of_length_le (by omega)] at h
    exact ⟨(d.buffer_eq_iff c).1 h, by omega⟩
  · intro h
    rw [text, (d.buffer_eq_iff c).2 h.printed, List.take_of_length_le h.flushed]

/-- **When a save is reported as it should be.**  For every configuration, every old contents of the file and every
outcome of the operations: if and only if every byte of the lines is stored in the truncated file, or what is stored and
what is left of the old contents are the lines by chance. -/
theorem honest_iff (d : Disk) (old : List UInt8) (c : UsbConfig) : d.Honest old c ↔ d.Fits old c := by
  rw [honest_iff_contents, save_eq, Fits]
  cases d.truncates with
  | true =>
    rw [if_pos rfl, if_pos rfl, List.drop_nil, List.append_nil]
    exact d.text_eq_iff c
  | false =>
    rw [if_neg Bool.false_ne_true, if_neg Bool.false_ne_true]
    constructor
    · intro h
      rw [← h]
      exact ⟨List.prefix_append _ _, List.drop_left.symm⟩
    · rintro ⟨hpre, hrest⟩
      rw [hrest]
      exact List.prefix_iff_eq_append.1 hpre

/-- A disk that is full. -/
def full : Disk where
  truncates := true
  stored := fun _ => 1000
  flushed := 0

/-- It keeps nothing of a save, and success is reported. -/
theorem not_honest_of_full : ¬ ∀ (d : Disk) (old : List UInt8) (c : UsbConfig), d.Honest old c := by
  intro h
  have hcontents := (full.honest_iff_contents [] defaultConfig).1 (h full [] defaultConfig)
  rw [save_eq, text] at hcontents
  exact configLines_ne_nil defaultConfig hcontents.symm

end Disk

end EdUsb
