import Mathlib.Algebra.Group.Nat.Defs
import Mathlib.Data.List.TakeWhile

/-!
# C strings and decimal numbers

A C string is the list of its bytes before the terminator.  `printInt` is what `printf` makes of `%d`, `parseInt` the
number that `strtol` finds at the front of a string; reading back what was printed gives the number again, whatever
follows it (`parseInt_printInt`).
-/

namespace EdUsb.Lib

/-- The bytes of a string literal. -/
def cString (s : String) : List UInt8 := s.toList.map fun c => UInt8.ofNat c.toNat

/-- The C string in a buffer. -/
def terminated (buf : List UInt8) : List UInt8 := buf.takeWhile fun c => c != 0

/-- `strchr`: the string from the first `c` on -/
def strchr (s : List UInt8) (c : UInt8) : Option (List UInt8) :=
  match s.dropWhile fun x => x != c with
  | [] => none
  | t => some t

/-- `isprint`, in the C locale -/
def isprint (c : UInt8) : Bool := 0x20 ≤ c && c ≤ 0x7E

/-- `isdigit` -/
def isdigit (c : UInt8) : Bool := 0x30 ≤ c && c ≤ 0x39

/-- `isalnum`, in the C locale -/
def isalnum (c : UInt8) : Bool := isdigit c || 0x41 ≤ c && c ≤ 0x5A || 0x61 ≤ c && c ≤ 0x7A

/-- `isspace`, in the C locale -/
def isspace (c : UInt8) : Bool := c == 0x20 || 0x09 ≤ c && c ≤ 0x0D

theorem terminated_of_ne {buf : List UInt8} (h : ∀ c ∈ buf, c ≠ 0) : terminated buf = buf :=
  List.takeWhile_eq_self_iff.2 fun c hc => by simpa using h c hc

theorem strchr_append {s t : List UInt8} {c : UInt8} (h : ∀ x ∈ s, x ≠ c) : strchr (s ++ c :: t) c = some (c :: t) := by
  have hs : s.dropWhile (fun x => x != c) = [] :=
    List.dropWhile_eq_nil_iff.2 fun x hx => by simpa using h x hx
  simp [strchr, List.dropWhile_append, hs]

theorem strchr_of_not_mem {s : List UInt8} {c : UInt8} (h : c ∉ s) : strchr s c = none := by
  have hs : s.dropWhile (fun x => x != c) = [] := by
    rw [List.dropWhile_eq_nil_iff]
    intro x hx
    rw [bne_iff_ne]
    rintro rfl
    exact h hx
  simp [strchr, hs]

/-! ### Decimal numbers -/

/-- The decimal digits of a number. -/
def decimal (n : ℕ) : List UInt8 :=
  if n < 10 then [UInt8.ofNat (0x30 + n)] else decimal (n / 10) ++ [UInt8.ofNat (0x30 + n % 10)]

/-- `%d` -/
def printInt (z : ℤ) : List UInt8 := if z < 0 then 0x2D :: decimal z.natAbs else decimal z.natAbs

/-- The number that the digits at the front of a string are. -/
def digitsVal (s : List UInt8) : ℕ := (s.takeWhile isdigit).foldl (fun v c => 10 * v + (c.toNat - 0x30)) 0

/-- The number at the front of a string: white space, a sign, digits, each of them optional. -/
def parseInt (s : List UInt8) : ℤ :=
  let t := s.dropWhile isspace
  if t.head? = some 0x2D then -(digitsVal t.tail : ℤ)
  else if t.head? = some 0x2B then digitsVal t.tail
  else digitsVal t

theorem toNat_digit {n : ℕ} (h : n < 10) : (UInt8.ofNat (0x30 + n)).toNat = 0x30 + n := by
  rw [UInt8.toNat_ofNat', Nat.mod_eq_of_lt (by omega)]

theorem isdigit_iff (c : UInt8) : isdigit c = true ↔ 0x30 ≤ c.toNat ∧ c.toNat ≤ 0x39 := by
  simp [isdigit, UInt8.le_iff_toNat_le]

theorem isdigit_digit {n : ℕ} (h : n < 10) : isdigit (UInt8.ofNat (0x30 + n)) = true := by
  rw [isdigit_iff, toNat_digit h]
  omega

theorem isdigit_of_mem_decimal {n : ℕ} {c : UInt8} (h : c ∈ decimal n) : isdigit c = true := by
  induction n using decimal.induct with
  | case1 n hn =>
    rw [decimal, if_pos hn, List.mem_singleton] at h
    rw [h]
    exact isdigit_digit hn
  | case2 n hn ih =>
    rw [decimal, if_neg hn] at h
    rcases List.mem_append.1 h with h | h
    · exact ih h
    · rw [List.mem_singleton.1 h]
      exact isdigit_digit (Nat.mod_lt n (by omega))

theorem decimal_ne_nil (n : ℕ) : decimal n ≠ [] := by
  unfold decimal
  split <;> simp

/-- The digits of a number, read as a number. -/
theorem foldl_decimal (n : ℕ) : (decimal n).foldl (fun v c => 10 * v + (c.toNat - 0x30)) 0 = n := by
  induction n using decimal.induct with
  | case1 n hn =>
    rw [decimal, if_pos hn, List.foldl_cons, List.foldl_nil, toNat_digit hn]
    omega
  | case2 n hn ih =>
    have hm : n % 10 < 10 := Nat.mod_lt n (by omega)
    rw [decimal, if_neg hn, List.foldl_append, ih, List.foldl_cons, List.foldl_nil, toNat_digit hm]
    omega

theorem decimal_length {n k : ℕ} (h : n < 10 ^ (k + 1)) : (decimal n).length ≤ k + 1 := by
  induction k generalizing n with
  | zero =>
    rw [decimal, if_pos (by omega)]
    rfl
  | succ k ih =>
    unfold decimal
    split
    · simp
    · have hdiv : n / 10 < 10 ^ (k + 1) := by
        rw [Nat.div_lt_iff_lt_mul (by omega), ← Nat.pow_succ]
        exact h
      have := ih hdiv
      rw [List.length_append, List.length_singleton]
      omega

theorem digitsVal_decimal (n : ℕ) {rest : List UInt8} (h : ∀ c ∈ rest.head?, isdigit c = false) :
    digitsVal (decimal n ++ rest) = n := by
  have hd : (decimal n).takeWhile isdigit = decimal n :=
    List.takeWhile_eq_self_iff.2 fun c hc => isdigit_of_mem_decimal hc
  have hr : rest.takeWhile isdigit = [] := by
    cases rest with
    | nil => rfl
    | cons c t => rw [List.takeWhile_cons_of_neg (by simp [h c rfl])]
  unfold digitsVal
  rw [List.takeWhile_append, hd, if_pos rfl, hr, List.append_nil, foldl_decimal]

/-- A digit is neither white space nor a sign. -/
theorem not_space_of_isdigit {c : UInt8} (h : isdigit c = true) : isspace c = false ∧ c ≠ 0x2D ∧ c ≠ 0x2B := by
  have hc := (isdigit_iff c).1 h
  refine ⟨?_, ?_, ?_⟩
  · unfold isspace
    rw [Bool.or_eq_false_iff, Bool.and_eq_false_iff]
    refine ⟨?_, .inr ?_⟩
    · rw [beq_eq_false_iff_ne]
      rintro rfl
      exact absurd hc.1 (by decide)
    · rw [decide_eq_false_iff_not, UInt8.le_iff_toNat_le, show UInt8.toNat 0x0D = 13 from rfl]
      omega
  · rintro rfl
    exact absurd hc.1 (by decide)
  · rintro rfl
    exact absurd hc.1 (by decide)

theorem parseInt_minus (s : List UInt8) : parseInt (0x2D :: s) = -(digitsVal s : ℤ) := by
  rw [parseInt, List.dropWhile_cons_of_neg (by decide)]
  rfl

theorem parseInt_plus (s : List UInt8) : parseInt (0x2B :: s) = digitsVal s := by
  rw [parseInt, List.dropWhile_cons_of_neg (by decide)]
  rfl

theorem parseInt_digit {c : UInt8} (h : isdigit c = true) (s : List UInt8) : parseInt (c :: s) = digitsVal (c :: s) := by
  obtain ⟨hsp, hm, hp⟩ := not_space_of_isdigit h
  rw [parseInt, List.dropWhile_cons_of_neg (by simp [hsp])]
  simp only [List.head?_cons, Option.some_inj, hm, hp, if_false]

/-- **What was printed is read back**, whatever follows it that is no digit. -/
theorem parseInt_printInt (z : ℤ) {rest : List UInt8} (h : ∀ c ∈ rest.head?, isdigit c = false) :
    parseInt (printInt z ++ rest) = z := by
  by_cases hz : z < 0
  · rw [printInt, if_pos hz, List.cons_append, parseInt_minus, digitsVal_decimal _ h]
    omega
  · obtain ⟨c, t, ht⟩ := List.exists_cons_of_ne_nil (decimal_ne_nil z.natAbs)
    have hc : isdigit c = true := isdigit_of_mem_decimal (by rw [ht]; exact List.mem_cons_self)
    rw [printInt, if_neg hz, ht, List.cons_append, parseInt_digit hc, ← List.cons_append, ← ht, digitsVal_decimal _ h]
    omega

theorem digitsVal_append (s : List UInt8) {c : UInt8} (h : isdigit c = false) : digitsVal (s ++ [c]) = digitsVal s := by
  have ht : (s ++ [c]).takeWhile isdigit = s.takeWhile isdigit := by
    induction s with
    | nil => rw [List.nil_append, List.takeWhile_cons_of_neg (by simp [h]), List.takeWhile_nil]
    | cons x s ih =>
      rw [List.cons_append]
      cases hx : isdigit x with
      | false => rw [List.takeWhile_cons_of_neg (by simp [hx]), List.takeWhile_cons_of_neg (by simp [hx])]
      | true => rw [List.takeWhile_cons_of_pos hx, List.takeWhile_cons_of_pos hx, ih]
  rw [digitsVal, ht, digitsVal]

/-- White space at the end of a string is no part of the number at its front. -/
theorem parseInt_append (s : List UInt8) {c : UInt8} (h : isspace c = true) (hd : isdigit c = false) :
    parseInt (s ++ [c]) = parseInt s := by
  cases ht : s.dropWhile isspace with
  | nil =>
    have htc : (s ++ [c]).dropWhile isspace = [] := by
      rw [List.dropWhile_append, ht, List.isEmpty_nil, if_pos rfl, List.dropWhile_cons_of_pos h, List.dropWhile_nil]
    rw [parseInt, parseInt, ht, htc]
  | cons x t =>
    have htc : (s ++ [c]).dropWhile isspace = x :: (t ++ [c]) := by
      rw [List.dropWhile_append, ht, List.isEmpty_cons, if_neg Bool.false_ne_true, List.cons_append]
    have htail : digitsVal (x :: (t ++ [c])) = digitsVal (x :: t) := digitsVal_append (x :: t) hd
    rw [parseInt, parseInt, ht, htc]
    simp only [List.head?_cons, List.tail_cons, digitsVal_append t hd, htail]
    rfl

theorem mem_printInt {z : ℤ} {c : UInt8} (h : c ∈ printInt z) : c = 0x2D ∨ isdigit c = true := by
  unfold printInt at h
  split at h
  · rcases List.mem_cons.1 h with h | h
    · exact .inl h
    · exact .inr (isdigit_of_mem_decimal h)
  · exact .inr (isdigit_of_mem_decimal h)

theorem printInt_length {z : ℤ} {k : ℕ} (h : z.natAbs < 10 ^ (k + 1)) : (printInt z).length ≤ k + 2 := by
  have := decimal_length h
  unfold printInt
  split
  · rw [List.length_cons]
    omega
  · omega

end EdUsb.Lib
