import EdUsb.Saves
import EdUsb.Loading

/-!
# What a stream gives back

A save at the position `p` leaves `p` zeros in front of its lines.  `load_config` reads pieces of 127 bytes, and a piece
that begins with a zero is the empty string to it: the zeros hide what is left of their last piece, which is the line of
the sample count or the beginning of it.  What is left of that line begins with no key, so a load restores everything but
the sample count, which it leaves alone unless the zeros fill their pieces (`loadConfig_padded`).  Over any sequence of
saves and loads `p` is what the saves before the last one wrote (`load_history`).
-/

namespace EdUsb

open EdUsb.Lib

/-! ### One load -/

/-- All fields that are saved but the sample count. -/
def UsbConfig.restoredBut (c₀ c : UsbConfig) : UsbConfig := { c₀.restored c with sampleCount := c₀.sampleCount }

section Padded

variable {c₀ c : UsbConfig} {n : ℕ}

theorem zeros_ne (n : ℕ) : 0x0A ∉ List.replicate n (0 : UInt8) := by
  intro h
  exact absurd (List.eq_of_mem_replicate h) (by decide)

theorem text_not_mem (k : Key) (c : UsbConfig) : 0x0A ∉ k.text c := fun h => (text_ne k c _ h).1 rfl

/-- What follows the first character of the line of the sample count begins with no key. -/
theorem begins_drop (c : UsbConfig) {j : ℕ} (hj : j ≠ 0) (k : Key) : k.begins ((Key.sampleCount.text c).drop j) = false := by
  by_cases hlt : j ≤ 12
  · -- the key would end before the `=`
    have hsplit : (Key.sampleCount.text c).drop j =
        (keySampleCount.drop j ++ [0x3D]) ++ printInt (Key.sampleCount.get c).toInt := by
      have hlen : j ≤ keySampleCount.length := hlt
      rw [Key.text, Key.name, List.drop_append_of_le_length hlen]
      simp
    have hdec : ∀ j ∈ List.range' 1 12, ∀ k : Key, k.name.isPrefixOf (keySampleCount.drop j ++ [0x3D]) = false ∧
        (keySampleCount.drop j ++ [0x3D]).isPrefixOf k.name = false := by
      intro j hj k
      revert j
      cases k <;> decide
    obtain ⟨h, h'⟩ := hdec j (List.mem_range'_1.2 ⟨by omega, by omega⟩) k
    rw [hsplit]
    exact hasPrefix_eq_false _ h h'
  · -- only digits are left
    have hdigits : ∀ x ∈ (Key.sampleCount.text c).drop j, x = 0x2D ∨ isdigit x = true := by
      intro x hx
      obtain ⟨i, rfl⟩ : ∃ i, j = (keySampleCount ++ [(0x3D : UInt8)]).length + i :=
        ⟨j - 13, by rw [show (keySampleCount ++ [(0x3D : UInt8)]).length = 13 from rfl]; omega⟩
      have hsplit : Key.sampleCount.text c = (keySampleCount ++ [0x3D]) ++ printInt (Key.sampleCount.get c).toInt := by
        simp [Key.text, Key.name]
      rw [hsplit, ← List.drop_drop, List.drop_left] at hx
      exact mem_printInt (List.mem_of_mem_drop hx)
    have hhead : ∀ k : Key, ∃ x l, k.name = x :: l ∧ x ≠ 0x2D ∧ isdigit x = false := by
      intro k
      cases k <;> exact ⟨_, _, rfl, by decide, by decide⟩
    obtain ⟨x, l, hname, hx, hd⟩ := hhead k
    rw [← Bool.not_eq_true]
    intro hb
    have hmem : x ∈ (Key.sampleCount.text c).drop j := by
      refine ((hasPrefix_iff _ _).1 hb).subset ?_
      rw [hname]
      exact List.mem_cons_self
    rcases hdigits x hmem with h | h
    · exact hx h
    · rw [hd] at h
      cases h

/-- The zeros that fill a piece are skipped. -/
theorem foldl_pieces_zeros (c₀ : UsbConfig) (q r : ℕ) (s : List UInt8) :
    (pieces 127 (List.replicate (127 * q + r) 0 ++ s)).foldl (fun c buf => loadLine c (terminated buf)) c₀ =
      (pieces 127 (List.replicate r 0 ++ s)).foldl (fun c buf => loadLine c (terminated buf)) c₀ := by
  induction q with
  | zero => rw [Nat.mul_zero, Nat.zero_add]
  | succ q ih =>
    have hlen : (List.replicate 127 (0 : UInt8)).length = 127 := List.length_replicate
    rw [show 127 * (q + 1) + r = 127 + (127 * q + r) by ring, List.replicate_add, List.append_assoc,
      pieces_long (zeros_ne 127) _ (by decide) hlen.ge, List.foldl_cons, List.drop_eq_nil_of_le hlen.le, List.nil_append]
    exact ih

/-- The line of the sample count behind fewer zeros than fill a piece. -/
theorem foldl_pieces_line (c₀ c : UsbConfig) {r : ℕ} (hr : r < 127) :
    (pieces 127 (List.replicate r 0 ++ Key.sampleCount.line c)).foldl (fun c buf => loadLine c (terminated buf)) c₀ =
      if r = 0 then Key.sampleCount.set c₀ (Key.sampleCount.get c) else c₀ := by
  have hmem : 0x0A ∉ List.replicate r (0 : UInt8) ++ Key.sampleCount.text c := by
    rw [List.mem_append, not_or]
    exact ⟨zeros_ne r, text_not_mem _ c⟩
  have hlen : (List.replicate r (0 : UInt8) ++ Key.sampleCount.text c).length = r + (Key.sampleCount.text c).length := by
    rw [List.length_append, List.length_replicate]
  have htext := text_length Key.sampleCount c
  rw [Key.line, ← List.append_assoc]
  by_cases h0 : r = 0
  · subst h0
    rw [if_pos rfl, pieces_line (fun x hx => fun he => hmem (he ▸ hx)) (by omega), pieces_nil, List.foldl_cons, List.foldl_nil]
    exact loadLine_line c₀ c .sampleCount
  · obtain ⟨r, rfl⟩ := Nat.exists_eq_succ_of_ne_zero h0
    rw [if_neg h0]
    by_cases hfit : r + 1 + (Key.sampleCount.text c).length < 127
    · rw [pieces_line (fun x hx => fun he => hmem (he ▸ hx)) (by omega), pieces_nil]
      rfl
    · -- the piece of the zeros holds the beginning of the line, and the next piece the rest
      rw [pieces_long hmem _ (by decide) (by omega), List.foldl_cons]
      obtain ⟨j, hj⟩ : ∃ j, 127 = (r + 1) + (j + 1) := ⟨125 - r, by omega⟩
      have hdrop : (List.replicate (r + 1) (0 : UInt8) ++ Key.sampleCount.text c).drop 127 =
          (Key.sampleCount.text c).drop (j + 1) := by
        rw [hj, ← List.drop_drop, List.drop_left' List.length_replicate]
      have hrest : ∀ x ∈ (Key.sampleCount.text c).drop (j + 1), x ≠ 0x0A := by
        intro x hx
        exact (text_ne _ c x (List.mem_of_mem_drop hx)).1
      have hnonzero : ∀ x ∈ (Key.sampleCount.text c).drop (j + 1) ++ [0x0A], x ≠ 0 := by
        intro x hx
        rcases List.mem_append.1 hx with hx | hx
        · exact (text_ne _ c x (List.mem_of_mem_drop hx)).2
        · rw [List.mem_singleton.1 hx]
          decide
      rw [hdrop, pieces_line hrest (by rw [List.length_drop]; omega), pieces_nil, List.foldl_cons, List.foldl_nil,
        terminated_of_ne hnonzero, loadLine_of_not_begins]
      · rfl
      · intro k
        rw [Key.begins_newline]
        exact begins_drop c (Nat.succ_ne_zero j) k

/-- **Loading behind zeros.** -/
theorem loadConfig_padded (c₀ c : UsbConfig) {f : File} {p : ℕ} (h : f.contents = List.replicate p 0 ++ configLines c) :
    (loadConfig c₀ f).2.1 = if 127 ∣ p then c₀.restored c else c₀.restoredBut c := by
  have hw := (f.rewind.whileFgets_eq 128 (fun c buf => loadLine c (terminated buf)) c₀).1
  have hr : f.rewind.contents.drop f.rewind.pos = List.replicate p 0 ++ configLines c := by rw [← h]; rfl
  -- the first line, with the zeros, and the others
  obtain ⟨ks, hks⟩ : ∃ ks, Key.all = .sampleCount :: ks := ⟨_, rfl⟩
  have hlines : List.replicate p 0 ++ configLines c =
      (List.replicate p 0 ++ Key.sampleCount.text c) ++ 0x0A :: (ks.map fun k => k.line c).flatten := by
    rw [configLines, hks]
    simp [Key.line]
  have hfirst : (List.replicate p 0 ++ Key.sampleCount.text c) ++ [0x0A] =
      List.replicate (127 * (p / 127) + p % 127) 0 ++ Key.sampleCount.line c := by
    rw [Nat.div_add_mod, Key.line, List.append_assoc]
  have hset : ∀ c', ks.foldl (fun c' k => k.set c' (k.get c)) (Key.sampleCount.set c' (Key.sampleCount.get c)) =
      c'.restored c := by
    intro c'
    have := foldl_set c' c
    rwa [hks, List.foldl_cons] at this
  have hsame : ∀ c', ks.foldl (fun c' k => k.set c' (k.get c)) c' = c'.restoredBut c := by
    intro c'
    obtain rfl : ks = Key.all.tail := by rw [hks, List.tail_cons]
    simp [Key.all, Key.set, Key.get, UsbConfig.restored, UsbConfig.restoredBut]
  refine hw.trans ?_
  rw [hr, hlines, pieces_append, List.foldl_append, hfirst, foldl_pieces_zeros,
    foldl_pieces_line c₀ c (Nat.mod_lt p (by decide)), pieces_lines, List.foldl_map]
  simp only [loadLine_line, Nat.dvd_iff_mod_eq_zero]
  by_cases hp : p % 127 = 0
  · rw [if_pos hp, if_pos hp, hset]
  · rw [if_neg hp, if_neg hp, hsame]

end Padded

/-! ### Sequences of saves and loads -/

namespace FileCall

/-- The stream after a call. -/
def run (f : File) : FileCall → File
  | .write c => f.save c
  | .load c₀ => (loadConfig c₀ f).2.2

/-- The bytes that a call writes. -/
def written : FileCall → ℕ
  | .write c => (configLines c).length
  | .load _ => 0

/-- A call leaves the stream at the end of the file, behind what it wrote. -/
theorem pos_run {f : File} (h : f.pos = f.contents.length) (call : FileCall) :
    (call.run f).pos = f.pos + call.written ∧ (call.run f).pos = (call.run f).contents.length := by
  cases call with
  | write c =>
    have hs : (FileCall.write c).run f = _ := save_eq f c
    rw [hs]
    refine ⟨rfl, ?_⟩
    rw [List.length_append, List.length_replicate]
  | load c₀ =>
    have hc : ((FileCall.load c₀).run f).contents = f.contents := loadConfig_contents c₀ f
    have hp : ((FileCall.load c₀).run f).pos = f.contents.length :=
      File.whileFgets_pos (by decide) _ c₀ (f := f.rewind) (Nat.zero_le _)
    rw [hc, hp, h]
    exact ⟨rfl, rfl⟩

theorem pos_foldl {f : File} (h : f.pos = f.contents.length) (l : List FileCall) :
    (l.foldl run f).pos = f.pos + (l.map written).sum := by
  induction l generalizing f with
  | nil => rfl
  | cons call l ih =>
    obtain ⟨hp, hlen⟩ := pos_run h call
    rw [List.foldl_cons, ih hlen, hp, List.map_cons, List.sum_cons, Nat.add_assoc]

end FileCall

/-- **What a stream gives back.**  On a stream that stands at the end of its file, any sequence of saves and loads, then a
save of `c` and any loads: the next load gives the fields of `c`, all but the sample count in any case, and that too if
127 divides the length of all that was in the file at first and was saved before `c`; if not, the sample count is left as
it is in `c₀`. -/
theorem load_history {f : File} (h : f.pos = f.contents.length) (l : List FileCall) (c c₀ : UsbConfig) (loads : List UsbConfig) :
    (loadConfig c₀ ((l ++ FileCall.write c :: loads.map FileCall.load).foldl FileCall.run f)).2.1 =
      if 127 ∣ f.pos + (l.map FileCall.written).sum then c₀.restored c else c₀.restoredBut c := by
  have hloads : ∀ (loads : List UsbConfig) (g : File), ((loads.map FileCall.load).foldl FileCall.run g).contents = g.contents := by
    intro loads
    induction loads with
    | nil => intro g; rfl
    | cons c' loads ih =>
      intro g
      rw [List.map_cons, List.foldl_cons, ih]
      exact loadConfig_contents c' g
  refine loadConfig_padded c₀ c ?_
  rw [List.foldl_append, List.foldl_cons, hloads]
  show (((l.foldl FileCall.run f).save c).contents) = _
  rw [save_eq, FileCall.pos_foldl h]

/-- After a second save of the default configuration, a load leaves the sample count as it was. -/
theorem load_history_default :
    (loadConfig { defaultConfig with sampleCount := 1 } (((⟨[], 0⟩ : File).save defaultConfig).save defaultConfig)).2.1 =
      { defaultConfig with sampleCount := 1 } := by
  have h := load_history (f := ⟨[], 0⟩) rfl [.write defaultConfig] defaultConfig { defaultConfig with sampleCount := 1 } []
  have hsum : ([FileCall.write defaultConfig].map FileCall.written).sum = 124 := by decide +kernel
  rw [hsum] at h
  exact h

end EdUsb
