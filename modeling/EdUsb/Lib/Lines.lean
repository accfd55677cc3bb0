import EdUsb.Lib.LastWins
import EdUsb.Lib.Stream

/-!
# Lines and pieces

The lines of a text (`lines`) against the pieces that `fgets` cuts it into.  A piece never goes on behind a newline, so
the pieces of a text are those of its lines one after the other (`pieces_append`, `lastOf_pieces`), and a line that fits
the buffer is its only piece (`lastOf_pieces_short`).
-/

namespace EdUsb.Lib

/-- The lines of a text, without their newlines.  What follows the last newline is a line as well, if only an empty one. -/
def lines (t : List UInt8) : List (List UInt8) := t.splitOn 0x0A

theorem lines_of_not_mem {l : List UInt8} (h : 0x0A ∉ l) : lines l = [l] := List.splitOn_eq_singleton h

theorem lines_append (l t : List UInt8) : lines (l ++ 0x0A :: t) = lines l ++ lines t := List.splitOn_append_cons_self l t

theorem lines_cons {l : List UInt8} (h : 0x0A ∉ l) (t : List UInt8) : lines (l ++ 0x0A :: t) = l :: lines t := by
  rw [lines_append, lines_of_not_mem h, List.singleton_append]

/-- A text is a line without a newline, or such a line with its newline and a text behind it. -/
theorem lines_induction {P : List UInt8 → Prop} (last : ∀ l, 0x0A ∉ l → P l)
    (line : ∀ l t, 0x0A ∉ l → P t → P (l ++ 0x0A :: t)) (t : List UInt8) : P t := by
  by_cases h : 0x0A ∈ t
  · obtain ⟨l, rest, heq, hl⟩ := List.eq_append_cons_of_mem h
    rw [heq]
    exact line l rest hl (lines_induction last line rest)
  · exact last t h
termination_by t.length
decreasing_by
  rw [heq, List.length_append, List.length_cons]
  omega

theorem not_mem_of_mem_lines {t l : List UInt8} (h : l ∈ lines t) : 0x0A ∉ l := by
  induction t using lines_induction with
  | last t ht =>
    rw [lines_of_not_mem ht, List.mem_singleton] at h
    rwa [h]
  | line l' t hl' ih =>
    rw [lines_cons hl'] at h
    rcases List.mem_cons.1 h with rfl | h
    · exact hl'
    · exact ih h

theorem mem_of_mem_lines {t l : List UInt8} (h : l ∈ lines t) {c : UInt8} (hc : c ∈ l) : c ∈ t := by
  induction t using lines_induction with
  | last t ht =>
    rw [lines_of_not_mem ht, List.mem_singleton] at h
    rwa [← h]
  | line l' t hl' ih =>
    rw [lines_cons hl'] at h
    rcases List.mem_cons.1 h with rfl | h
    · exact List.mem_append_left _ hc
    · exact List.mem_append_right _ (List.mem_cons_of_mem _ (ih h))

/-- The text of lines, each terminated by a newline. -/
def unlines (ls : List (List UInt8)) : List UInt8 := (ls.map fun l => l ++ [0x0A]).flatten

theorem unlines_cons (l : List UInt8) (ls : List (List UInt8)) : unlines (l :: ls) = l ++ 0x0A :: unlines ls := by
  simp [unlines]

theorem lines_unlines {ls : List (List UInt8)} (h : ∀ l ∈ ls, 0x0A ∉ l) : lines (unlines ls) = ls ++ [[]] := by
  induction ls with
  | nil => rfl
  | cons l ls ih =>
    rw [unlines_cons, lines_cons (h l List.mem_cons_self), ih fun l' hl' => h l' (List.mem_cons_of_mem l hl'),
      List.cons_append]

/-- Without the last newline. -/
theorem lines_dropLast_unlines {ls : List (List UInt8)} (hne : ls ≠ []) (h : ∀ l ∈ ls, 0x0A ∉ l) :
    lines (unlines ls).dropLast = ls := by
  induction ls with
  | nil => exact absurd rfl hne
  | cons l ls ih =>
    have hl : 0x0A ∉ l := h l List.mem_cons_self
    by_cases hnil : ls = []
    · rw [hnil, unlines_cons, unlines, List.map_nil, List.flatten_nil, List.dropLast_concat, lines_of_not_mem hl]
    · have hrest : unlines ls ≠ [] := by
        obtain ⟨l', ls', rfl⟩ := List.exists_cons_of_ne_nil hnil
        rw [unlines_cons]
        simp
      rw [unlines_cons, List.dropLast_append_of_ne_nil (by simp), List.dropLast_cons_of_ne_nil hrest, lines_cons hl,
        ih hnil fun l' hl' => h l' (List.mem_cons_of_mem l hl')]

theorem mem_unlines {ls : List (List UInt8)} {c : UInt8} (h : c ∈ unlines ls) : c = 0x0A ∨ ∃ l ∈ ls, c ∈ l := by
  induction ls with
  | nil => cases h
  | cons l ls ih =>
    rw [unlines_cons] at h
    rcases List.mem_append.1 h with h | h
    · exact .inr ⟨l, List.mem_cons_self, h⟩
    · rcases List.mem_cons.1 h with h | h
      · exact .inl h
      · exact (ih h).imp_right fun ⟨l', hl', hc⟩ => ⟨l', List.mem_cons_of_mem l hl', hc⟩

/-! ### The pieces of a line -/

theorem fgetsPiece_of_not_mem {l : List UInt8} (h : 0x0A ∉ l) (k : ℕ) : fgetsPiece k l = l.take k := by
  induction l generalizing k with
  | nil => cases k <;> rfl
  | cons c l ih =>
    cases k with
    | zero => rfl
    | succ k =>
      have hc : c ≠ 0x0A := fun hc => h (hc ▸ List.mem_cons_self)
      rw [fgetsPiece, if_neg hc, ih (fun hl => h (List.mem_cons_of_mem c hl)), List.take_succ_cons]

/-- A line that does not fit is cut. -/
theorem fgetsPiece_long {l : List UInt8} (h : 0x0A ∉ l) (t : List UInt8) {k : ℕ} (hk : k ≤ l.length) :
    fgetsPiece k (l ++ t) = l.take k := by
  induction l generalizing k with
  | nil =>
    obtain rfl := Nat.le_zero.1 hk
    cases t <;> rfl
  | cons c l ih =>
    cases k with
    | zero => rfl
    | succ k =>
      have hc : c ≠ 0x0A := fun hc => h (hc ▸ List.mem_cons_self)
      rw [List.cons_append, fgetsPiece, if_neg hc, ih (fun hl => h (List.mem_cons_of_mem c hl)) (by simpa using hk),
        List.take_succ_cons]

/-- A text that ends with a newline is cut alike, whatever follows it. -/
theorem fgetsPiece_append {s : List UInt8} (h : 0x0A ∈ s) (t : List UInt8) (k : ℕ) :
    fgetsPiece k (s ++ t) = fgetsPiece k s := by
  induction s generalizing k with
  | nil => cases h
  | cons c s ih =>
    cases k with
    | zero => rfl
    | succ k =>
      rw [List.cons_append, fgetsPiece, fgetsPiece]
      by_cases hc : c = 0x0A
      · rw [if_pos hc, if_pos hc]
      · rw [if_neg hc, if_neg hc, ih ((List.mem_cons.1 h).resolve_left (Ne.symm hc))]

theorem fgetsPiece_eq_nil {k : ℕ} {l : List UInt8} (h : fgetsPiece k l = []) : k = 0 ∨ l = [] := by
  cases k with
  | zero => exact .inl rfl
  | succ k =>
    cases l with
    | nil => exact .inr rfl
    | cons c l =>
      unfold fgetsPiece at h
      split at h <;> cases h

/-- **The pieces of a text that ends with a newline and of what follows it.** -/
theorem pieces_append (k : ℕ) (s t : List UInt8) :
    pieces k (s ++ 0x0A :: t) = pieces k (s ++ [0x0A]) ++ pieces k t := by
  have hsplit : s ++ 0x0A :: t = (s ++ [0x0A]) ++ t := by simp
  have hp : fgetsPiece k (s ++ 0x0A :: t) = fgetsPiece k (s ++ [0x0A]) := by
    rw [hsplit]
    exact fgetsPiece_append (by simp) t k
  by_cases hnil : fgetsPiece k (s ++ [0x0A]) = []
  · obtain rfl := (fgetsPiece_eq_nil hnil).resolve_right (by simp)
    rw [pieces_of_nil (hp.trans hnil), pieces_of_nil hnil, pieces_of_nil (by cases t <;> rfl), List.append_nil]
  · rw [pieces_of_cons hp hnil, pieces_of_cons rfl hnil, List.cons_append]
    congr 1
    have hle := (fgetsPiece_isPrefixOf k (s ++ [0x0A])).length_le
    have hpos := List.length_pos_iff.2 hnil
    rw [List.length_append, List.length_singleton] at hle
    by_cases hs : (fgetsPiece k (s ++ [0x0A])).length ≤ s.length
    · rw [List.drop_append_of_le_length hs, List.drop_append_of_le_length hs]
      exact pieces_append k (s.drop _) t
    · rw [hsplit, List.drop_append_of_le_length (by simp; omega), List.drop_eq_nil_of_le (by simp; omega), pieces_nil,
        List.nil_append, List.nil_append]
termination_by s.length
decreasing_by
  rw [List.length_drop]
  omega

theorem mem_of_mem_pieces {k : ℕ} {t p : List UInt8} (h : p ∈ pieces k t) {c : UInt8} (hc : c ∈ p) : c ∈ t := by
  by_cases hnil : fgetsPiece k t = []
  · rw [pieces_of_nil hnil] at h
    cases h
  · rw [pieces_of_cons rfl hnil] at h
    have hpos := List.length_pos_iff.2 hnil
    have hle := (fgetsPiece_isPrefixOf k t).length_le
    rcases List.mem_cons.1 h with rfl | h
    · exact (fgetsPiece_isPrefixOf k t).subset hc
    · exact List.mem_of_mem_drop (mem_of_mem_pieces h hc)
termination_by t.length
decreasing_by
  rw [List.length_drop]
  omega

theorem pieces_of_not_mem {l : List UInt8} (h : 0x0A ∉ l) {n : ℕ} (hn : n ≠ 0) (hl : l ≠ []) :
    pieces n l = l.take n :: pieces n (l.drop n) := by
  have htake : l.take n ≠ [] := by
    rw [Ne, List.take_eq_nil_iff, not_or]
    exact ⟨hn, hl⟩
  rw [pieces_of_cons (fgetsPiece_of_not_mem h n) htake, List.length_take]
  congr 2
  by_cases hlen : n ≤ l.length
  · rw [Nat.min_eq_left hlen]
  · rw [Nat.min_eq_right (by omega), List.drop_length, List.drop_eq_nil_of_le (by omega)]

theorem pieces_long {l : List UInt8} (h : 0x0A ∉ l) (t : List UInt8) {n : ℕ} (hn : n ≠ 0) (hl : n ≤ l.length) :
    pieces n (l ++ t) = l.take n :: pieces n (l.drop n ++ t) := by
  have hlen : (l.take n).length = n := List.length_take_of_le hl
  have htake : l.take n ≠ [] := by
    rw [← List.length_pos_iff, hlen]
    omega
  rw [pieces_of_cons (fgetsPiece_long h t hl) htake, hlen, List.drop_append_of_le_length hl]

/-! ### What the pieces give -/

section LastOf

variable {K V : Type} {value : List UInt8 → K → Option V} {n : ℕ} {k : K} (hnil : value [] k = none)
include hnil

/-- A line that fits the buffer is its only piece. -/
theorem lastOf_pieces_short {l : List UInt8} (hl : 0x0A ∉ l) (hn : l.length ≤ n) :
    lastOf value (pieces n l) k = value l k := by
  by_cases hne : l = []
  · rw [hne, pieces_nil, lastOf_nil, hnil]
  · have hpos := List.length_pos_iff.2 hne
    rw [pieces_of_not_mem hl (by omega) hne, List.drop_eq_nil_of_le hn, pieces_nil, lastOf_singleton,
      List.take_of_length_le hn]

/-- A line gives what its later pieces give, or else its first. -/
theorem lastOf_pieces_line {l : List UInt8} (hl : 0x0A ∉ l) (hn : n ≠ 0) :
    lastOf value (pieces n l) k = (lastOf value (pieces n (l.drop n)) k).or (value (l.take n) k) := by
  by_cases hne : l = []
  · rw [hne, List.drop_nil, List.take_nil, hnil, Option.or_none]
  · rw [pieces_of_not_mem hl hn hne, lastOf_cons]

variable (hline : ∀ l, value (l ++ [0x0A]) k = value l k)
include hline

theorem lastOf_pieces_newline (n : ℕ) {l : List UInt8} (hl : 0x0A ∉ l) :
    lastOf value (pieces n (l ++ [0x0A])) k = lastOf value (pieces n l) k := by
  by_cases hlen : l.length < n
  · have hne : ∀ c ∈ l, c ≠ 0x0A := fun c hc h => hl (h ▸ hc)
    rw [pieces_line hne hlen, pieces_nil, lastOf_singleton, hline, lastOf_pieces_short hnil hl (Nat.le_of_lt hlen)]
  · by_cases hn : n = 0
    · have hzero : ∀ t, pieces 0 t = [] := fun t => pieces_of_nil (by cases t <;> rfl)
      rw [hn, hzero, hzero]
    · have hle : n ≤ l.length := by omega
      have hdrop : 0x0A ∉ l.drop n := fun h => hl (List.mem_of_mem_drop h)
      have hne : l ≠ [] := by
        rw [← List.length_pos_iff]
        omega
      rw [pieces_long hl _ hn hle, pieces_of_not_mem hl hn hne, lastOf_cons, lastOf_cons, lastOf_pieces_newline n hdrop]
termination_by l.length
decreasing_by
  rw [List.length_drop]
  omega

/-- **The pieces of a text give what the pieces of its lines give**, if a newline at the end of a piece does not matter. -/
theorem lastOf_pieces (n : ℕ) (t : List UInt8) :
    lastOf value (pieces n t) k = lastOf (fun l => lastOf value (pieces n l)) (lines t) k := by
  induction t using lines_induction with
  | last l hl => rw [lines_of_not_mem hl, lastOf_singleton]
  | line l t hl ih =>
    rw [pieces_append, lastOf_append, lastOf_pieces_newline hnil hline n hl, lines_cons hl, lastOf_cons, ih]

end LastOf

end EdUsb.Lib
