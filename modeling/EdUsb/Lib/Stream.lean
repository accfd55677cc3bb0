import Mathlib.Data.List.Basic

/-!
# Streams on a file

A `File` is the bytes of a file and the position of a stream in it.  Truncating changes the bytes and not the position; a
write behind the end leaves zeros in the gap.  Reading line by line with `fgets` in a loop is a fold over the pieces that
a buffer of that size cuts the rest of the file into (`whileFgets_eq`).
-/

namespace EdUsb.Lib

structure File where
  contents : List UInt8
  pos : ℕ
  deriving DecidableEq

/-- What `fgets` takes from the front of `l`: at most `k` bytes, and none after a newline. -/
def fgetsPiece : ℕ → List UInt8 → List UInt8
  | 0, _ => []
  | _ + 1, [] => []
  | k + 1, c :: l => if c = 0x0A then [c] else c :: fgetsPiece k l

theorem fgetsPiece_isPrefixOf (k : ℕ) (l : List UInt8) : fgetsPiece k l <+: l := by
  induction l generalizing k with
  | nil => cases k <;> exact List.nil_prefix
  | cons c l ih =>
    cases k with
    | zero => exact List.nil_prefix
    | succ k =>
      unfold fgetsPiece
      split
      · exact List.cons_prefix_cons.2 ⟨rfl, List.nil_prefix⟩
      · exact List.cons_prefix_cons.2 ⟨rfl, ih k⟩

namespace File

def rewind (f : File) : File := { f with pos := 0 }

def ftruncate (f : File) (n : ℕ) : File :=
  { f with contents := f.contents.take n ++ List.replicate (n - f.contents.length) 0 }

def fwrite (f : File) (s : List UInt8) : File where
  contents := f.contents.take f.pos ++ List.replicate (f.pos - f.contents.length) 0 ++ s ++
    f.contents.drop (f.pos + s.length)
  pos := f.pos + s.length

/-- Writing at a position within the file. -/
theorem fwrite_at (a b t : List UInt8) {n : ℕ} (h : a.length = n) :
    (⟨a ++ b, n⟩ : File).fwrite t = ⟨a ++ t ++ b.drop t.length, n + t.length⟩ := by
  have hpad : n - (a ++ b).length = 0 := by
    rw [List.length_append]
    omega
  simp only [fwrite, hpad, List.take_left' h, List.replicate_zero, List.append_nil]
  rw [← List.drop_drop, List.drop_left' h]

theorem fwrite_fwrite (f : File) (s t : List UInt8) : (f.fwrite s).fwrite t = f.fwrite (s ++ t) := by
  have hlen : (f.contents.take f.pos ++ List.replicate (f.pos - f.contents.length) 0 ++ s).length =
      f.pos + s.length := by
    simp only [List.length_append, List.length_take, List.length_replicate]
    omega
  have h := fwrite_at _ (f.contents.drop (f.pos + s.length)) t hlen
  calc (f.fwrite s).fwrite t = _ := h
    _ = f.fwrite (s ++ t) := by simp [fwrite, List.drop_drop, Nat.add_assoc]

/-- Writing piece by piece is writing the whole. -/
theorem foldl_fwrite (f : File) {l : List (List UInt8)} (hl : l ≠ []) : l.foldl fwrite f = f.fwrite l.flatten := by
  induction l generalizing f with
  | nil => exact absurd rfl hl
  | cons s l ih =>
    rw [List.foldl_cons, List.flatten_cons]
    cases l with
    | nil => simp
    | cons t l => rw [ih _ (List.cons_ne_nil t l), fwrite_fwrite]

/-- `fgets` into a buffer of at least 2 bytes -/
def fgets (f : File) (size : ℕ) : Option (List UInt8) × File :=
  match fgetsPiece (size - 1) (f.contents.drop f.pos) with
  | [] => (none, f)
  | c :: l => (some (c :: l), { f with pos := f.pos + (l.length + 1) })

theorem fgets_none {f f' : File} {size : ℕ} (h : f.fgets size = (none, f')) :
    fgetsPiece (size - 1) (f.contents.drop f.pos) = [] ∧ f' = f := by
  unfold fgets at h
  split at h
  · next hp => exact ⟨hp, (Prod.mk.inj h).2.symm⟩
  · cases h

theorem fgets_some {f f' : File} {size : ℕ} {buf : List UInt8} (h : f.fgets size = (some buf, f')) :
    fgetsPiece (size - 1) (f.contents.drop f.pos) = buf ∧ buf ≠ [] ∧ f' = { f with pos := f.pos + buf.length } := by
  unfold fgets at h
  split at h
  · cases h
  · next c l hp =>
    obtain ⟨hb, hf⟩ := Prod.mk.inj h
    obtain rfl := Option.some_inj.1 hb
    exact ⟨hp, List.cons_ne_nil c l, hf.symm⟩

/-- `while (fgets(buf, size, f) != NULL) { b = step(b, buf); }` -/
def whileFgets {β : Type} (size : ℕ) (step : β → List UInt8 → β) (b : β) (f : File) : β × File :=
  match _h : f.fgets size with
  | (none, f') => (b, f')
  | (some buf, f') => whileFgets size step (step b buf) f'
termination_by f.contents.length - f.pos
decreasing_by
  obtain ⟨hp, hb, rfl⟩ := fgets_some _h
  have := (fgetsPiece_isPrefixOf (size - 1) (f.contents.drop f.pos)).length_le
  have := List.length_pos_iff.2 hb
  rw [hp, List.length_drop] at *
  simp only
  omega

end File

/-! ### Short writes -/

section Short

variable {α β : Type} (f : α → List β) (n : α → ℕ)

theorem length_flatten_map_take_le (ks : List α) :
    (ks.map fun k => (f k).take (n k)).flatten.length ≤ (ks.map f).flatten.length := by
  induction ks with
  | nil => exact Nat.le_refl _
  | cons k ks ih =>
    rw [List.map_cons, List.map_cons, List.flatten_cons, List.flatten_cons, List.length_append, List.length_append]
    exact Nat.add_le_add (List.length_take_le' _ _) ih

/-- Writes that may each be cut short store everything exactly if none is. -/
theorem flatten_map_take_eq_iff (ks : List α) :
    (ks.map fun k => (f k).take (n k)).flatten = (ks.map f).flatten ↔ ∀ k ∈ ks, (f k).length ≤ n k := by
  constructor
  · intro h
    induction ks with
    | nil => simp
    | cons k ks ih =>
      rw [List.map_cons, List.map_cons, List.flatten_cons, List.flatten_cons] at h
      have hlen := congrArg List.length h
      rw [List.length_append, List.length_append, List.length_take] at hlen
      have hrest := length_flatten_map_take_le f n ks
      have hk : (f k).length ≤ n k := by omega
      rw [List.take_of_length_le hk] at h
      have hks := ih (List.append_cancel_left h)
      intro k' hk'
      rcases List.mem_cons.1 hk' with rfl | hk'
      · exact hk
      · exact hks k' hk'
  · intro h
    rw [List.map_congr_left fun k hk => List.take_of_length_le (h k hk)]

end Short

/-! ### Pieces -/

/-- A line that fits is taken whole. -/
theorem fgetsPiece_line {l rest : List UInt8} {k : ℕ} (hl : ∀ c ∈ l, c ≠ 0x0A) (hk : l.length < k) :
    fgetsPiece k (l ++ 0x0A :: rest) = l ++ [0x0A] := by
  induction l generalizing k with
  | nil =>
    obtain ⟨k, rfl⟩ := Nat.exists_eq_succ_of_ne_zero (Nat.ne_of_gt hk)
    rfl
  | cons c l ih =>
    obtain ⟨k, rfl⟩ := Nat.exists_eq_succ_of_ne_zero (Nat.ne_of_gt (Nat.zero_lt_of_lt hk))
    have hc : c ≠ 0x0A := hl c List.mem_cons_self
    rw [List.cons_append, fgetsPiece, if_neg hc,
      ih (fun x hx => hl x (List.mem_cons_of_mem _ hx)) (by simpa using hk), List.cons_append]

/-- The pieces that a buffer cuts `l` into. -/
def pieces (k : ℕ) (l : List UInt8) : List (List UInt8) :=
  match _h : fgetsPiece k l with
  | [] => []
  | c :: p => (c :: p) :: pieces k (l.drop (p.length + 1))
termination_by l.length
decreasing_by
  have := (fgetsPiece_isPrefixOf k l).length_le
  rw [_h, List.length_cons] at this
  rw [List.length_drop]
  omega

theorem pieces_of_nil {k : ℕ} {l : List UInt8} (h : fgetsPiece k l = []) : pieces k l = [] := by
  rw [pieces]
  split
  · rfl
  · next h' =>
    rw [h] at h'
    cases h'

theorem pieces_of_cons {k : ℕ} {l p : List UInt8} (h : fgetsPiece k l = p) (hp : p ≠ []) :
    pieces k l = p :: pieces k (l.drop p.length) := by
  rw [pieces]
  split
  · next h' => exact absurd (h.symm.trans h') hp
  · next c q h' =>
    obtain rfl := h.symm.trans h'
    rfl

theorem pieces_nil (k : ℕ) : pieces k [] = [] := pieces_of_nil (by cases k <;> rfl)

theorem pieces_line {l rest : List UInt8} {k : ℕ} (hl : ∀ c ∈ l, c ≠ 0x0A) (hk : l.length < k) :
    pieces k (l ++ 0x0A :: rest) = (l ++ [0x0A]) :: pieces k rest := by
  rw [pieces_of_cons (fgetsPiece_line hl hk) (by simp), show l ++ 0x0A :: rest = (l ++ [0x0A]) ++ rest by simp,
    List.drop_left]

section WhileFgets

variable {β : Type} {size : ℕ} {step : β → List UInt8 → β} {b : β} {f f' : File}

theorem File.whileFgets_none (h : f.fgets size = (none, f')) : f.whileFgets size step b = (b, f') := by
  rw [File.whileFgets]
  split
  · next h' => rw [h] at h'; cases h'; rfl
  · next h' => rw [h] at h'; cases h'

theorem File.whileFgets_some {buf : List UInt8} (h : f.fgets size = (some buf, f')) :
    f.whileFgets size step b = f'.whileFgets size step (step b buf) := by
  rw [File.whileFgets]
  split
  · next h' => rw [h] at h'; cases h'
  · next h' => rw [h] at h'; cases h'; rfl

end WhileFgets

/-- **The loop of `fgets`** folds over the pieces of what is left of the file, and does not change the file. -/
theorem File.whileFgets_eq {β : Type} (size : ℕ) (step : β → List UInt8 → β) (b : β) (f : File) :
    (f.whileFgets size step b).1 = (pieces (size - 1) (f.contents.drop f.pos)).foldl step b ∧
      (f.whileFgets size step b).2.contents = f.contents := by
  induction b, f using File.whileFgets.induct size step with
  | case1 b f f' h =>
    obtain ⟨hp, rfl⟩ := File.fgets_none h
    rw [File.whileFgets_none h, pieces_of_nil hp]
    exact ⟨rfl, rfl⟩
  | case2 b f buf f' h ih =>
    rw [File.whileFgets_some h]
    obtain ⟨hp, hb, rfl⟩ := File.fgets_some h
    rw [pieces_of_cons hp hb, List.foldl_cons, List.drop_drop]
    exact ih

/-- The loop ends at the end of the file. -/
theorem File.whileFgets_pos {β : Type} {size : ℕ} (hsize : 2 ≤ size) (step : β → List UInt8 → β) (b : β) {f : File}
    (h : f.pos ≤ f.contents.length) : (f.whileFgets size step b).2.pos = f.contents.length := by
  induction b, f using File.whileFgets.induct size step with
  | case1 b f f' hf =>
    rw [File.whileFgets_none hf]
    obtain ⟨hp, rfl⟩ := File.fgets_none hf
    -- nothing is left to be read
    obtain ⟨k, hk⟩ : ∃ k, size - 1 = k + 1 := ⟨size - 2, by omega⟩
    cases hrest : f'.contents.drop f'.pos with
    | nil =>
      have := List.drop_eq_nil_iff.1 hrest
      exact Nat.le_antisymm h this
    | cons c l =>
      rw [hrest, hk, fgetsPiece] at hp
      split at hp <;> cases hp
  | case2 b f buf f' hf ih =>
    rw [File.whileFgets_some hf]
    obtain ⟨hp, -, rfl⟩ := File.fgets_some hf
    have hle := (fgetsPiece_isPrefixOf (size - 1) (f.contents.drop f.pos)).length_le
    rw [hp, List.length_drop] at hle
    refine ih ?_
    show f.pos + buf.length ≤ f.contents.length
    omega

end EdUsb.Lib
