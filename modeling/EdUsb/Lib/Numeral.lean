import EdUsb.Lib.CString
import Mathlib.Tactic.Ring

/-!
# Written integers

A `Numeral` is an integer as it may be written in a text: a sign or none, and digits, any number of them, leading zeros
included.  `parseInt` finds the integer that was written (`parseInt_text`).
-/

namespace EdUsb.Lib

inductive Sign where
  | none
  | plus
  | minus

def Sign.text : Sign → List UInt8
  | .none => []
  | .plus => [0x2B]
  | .minus => [0x2D]

/-- An integer as it is written. -/
structure Numeral where
  sign : Sign
  digits : List (Fin 10)
  nonempty : digits ≠ []

/-- The characters of digits. -/
def digitText (l : List (Fin 10)) : List UInt8 := l.map fun d => UInt8.ofNat (0x30 + d.val)

/-- The number that digits are, the most significant first. -/
def digitsNat (l : List (Fin 10)) : ℕ := l.foldl (fun v d => 10 * v + d.val) 0

namespace Numeral

def text (n : Numeral) : List UInt8 := n.sign.text ++ digitText n.digits

/-- The integer that is written. -/
def value (n : Numeral) : ℤ :=
  match n.sign with
  | .minus => -(digitsNat n.digits : ℤ)
  | _ => digitsNat n.digits

end Numeral

theorem isdigit_of_mem_digitText {l : List (Fin 10)} {c : UInt8} (h : c ∈ digitText l) : isdigit c = true := by
  obtain ⟨d, -, rfl⟩ := List.mem_map.1 h
  exact isdigit_digit d.isLt

theorem Sign.text_length (s : Sign) : s.text.length ≤ 1 := by
  cases s <;> decide

theorem Numeral.mem_text {n : Numeral} {c : UInt8} (h : c ∈ n.text) : c = 0x2B ∨ c = 0x2D ∨ isdigit c = true := by
  rcases List.mem_append.1 h with h | h
  · cases hs : n.sign with
    | none =>
      rw [hs] at h
      cases h
    | plus =>
      rw [hs] at h
      exact .inl (List.mem_singleton.1 h)
    | minus =>
      rw [hs] at h
      exact .inr (.inl (List.mem_singleton.1 h))
  · exact .inr (.inr (isdigit_of_mem_digitText h))

theorem digitsVal_digitText (l : List (Fin 10)) {rest : List UInt8} (h : ∀ c ∈ rest.head?, isdigit c = false) :
    digitsVal (digitText l ++ rest) = digitsNat l := by
  have hd : (digitText l).takeWhile isdigit = digitText l :=
    List.takeWhile_eq_self_iff.2 fun c hc => isdigit_of_mem_digitText hc
  have hr : rest.takeWhile isdigit = [] := by
    cases rest with
    | nil => rfl
    | cons c t => rw [List.takeWhile_cons_of_neg (by simp [h c rfl])]
  have hval : ∀ (d : Fin 10), (UInt8.ofNat (0x30 + d.val)).toNat - 0x30 = d.val := by
    intro d
    rw [toNat_digit d.isLt, Nat.add_sub_cancel_left]
  unfold digitsVal
  rw [List.takeWhile_append, hd, if_pos rfl, hr, List.append_nil, digitText, List.foldl_map]
  simp only [hval]
  rfl

/-- **The integer that was written is read**, whatever follows it that is no digit. -/
theorem parseInt_text (n : Numeral) {rest : List UInt8} (h : ∀ c ∈ rest.head?, isdigit c = false) :
    parseInt (n.text ++ rest) = n.value := by
  obtain ⟨sign, digits, hne⟩ := n
  cases sign with
  | minus =>
    have htext : (⟨.minus, digits, hne⟩ : Numeral).text ++ rest = 0x2D :: (digitText digits ++ rest) := rfl
    rw [htext, parseInt_minus, digitsVal_digitText digits h]
    rfl
  | plus =>
    have htext : (⟨.plus, digits, hne⟩ : Numeral).text ++ rest = 0x2B :: (digitText digits ++ rest) := rfl
    rw [htext, parseInt_plus, digitsVal_digitText digits h]
    rfl
  | none =>
    have htext : (⟨.none, digits, hne⟩ : Numeral).text ++ rest = digitText digits ++ rest := rfl
    obtain ⟨d, l, rfl⟩ := List.exists_cons_of_ne_nil hne
    have hdigit : isdigit (UInt8.ofNat (0x30 + d.val)) = true := isdigit_digit d.isLt
    have hval := digitsVal_digitText (d :: l) h
    rw [htext, digitText, List.map_cons, List.cons_append, parseInt_digit hdigit]
    exact congrArg Nat.cast hval

/-- The text begins with an integer, behind white space. -/
def BeginsNumber (s : List UInt8) : Prop :=
  ∃ (space : List UInt8) (n : Numeral) (rest : List UInt8), (∀ c ∈ space, isspace c = true) ∧ s = space ++ n.text ++ rest

/-- No digit follows the sign of what is no integer. -/
theorem digitsVal_of_not (sign : Sign) {u : List UInt8}
    (h : ∀ (n : Numeral) (rest : List UInt8), sign.text ++ u ≠ n.text ++ rest) : digitsVal u = 0 := by
  cases u with
  | nil => rfl
  | cons c u =>
    have hc : isdigit c = false := by
      by_contra hc
      obtain ⟨hlo, hhi⟩ := (isdigit_iff c).1 (Bool.not_eq_false _ ▸ hc)
      have htext : digitText [⟨c.toNat - 0x30, by omega⟩] = [c] := by
        rw [digitText, List.map_singleton, Nat.add_sub_cancel' hlo, UInt8.ofNat_toNat]
      refine h ⟨sign, [⟨c.toNat - 0x30, by omega⟩], by simp⟩ u ?_
      rw [Numeral.text, htext, List.append_assoc, List.singleton_append]
    rw [digitsVal, List.takeWhile_cons_of_neg (by simp [hc])]
    rfl

/-- Where there is no integer, `0` is read. -/
theorem parseInt_of_not {s : List UInt8} (h : ¬ BeginsNumber s) : parseInt s = 0 := by
  have hnone : ∀ (n : Numeral) (rest : List UInt8), s.dropWhile isspace ≠ n.text ++ rest := by
    intro n rest he
    refine h ⟨s.takeWhile isspace, n, rest, fun c hc => List.mem_takeWhile_imp hc, ?_⟩
    rw [List.append_assoc, ← he, List.takeWhile_append_dropWhile]
  unfold parseInt
  generalize s.dropWhile isspace = t at hnone
  have hsigned : ∀ (sign : Sign) {c : UInt8}, sign.text = [c] → t.head? = some c → digitsVal t.tail = 0 := by
    intro sign c hs hc
    obtain ⟨u, rfl⟩ := List.head?_eq_some_iff.1 hc
    refine digitsVal_of_not sign ?_
    rwa [hs]
  dsimp only
  split_ifs with hminus hplus
  · rw [hsigned .minus rfl hminus]
    rfl
  · rw [hsigned .plus rfl hplus]
    rfl
  · rw [digitsVal_of_not .none hnone]
    rfl

/-! ### Numerals that are cut -/

theorem foldl_digits (l : List (Fin 10)) (a : ℕ) :
    l.foldl (fun v d => 10 * v + d.val) a = a * 10 ^ l.length + digitsNat l := by
  induction l generalizing a with
  | nil => simp [digitsNat]
  | cons d l ih =>
    have hcons : digitsNat (d :: l) = (10 * 0 + d.val) * 10 ^ l.length + digitsNat l := ih (10 * 0 + d.val)
    rw [List.foldl_cons, ih, hcons, List.length_cons, Nat.pow_succ]
    ring

theorem digitsNat_append (l l' : List (Fin 10)) : digitsNat (l ++ l') = digitsNat l * 10 ^ l'.length + digitsNat l' := by
  rw [digitsNat, List.foldl_append, foldl_digits]
  rfl

/-- Digits that are cut off make a number at least ten times larger. -/
theorem digitsNat_cut (l : List (Fin 10)) {l' : List (Fin 10)} (h : l' ≠ []) : 10 * digitsNat l ≤ digitsNat (l ++ l') := by
  obtain ⟨d, l', rfl⟩ := List.exists_cons_of_ne_nil h
  rw [digitsNat_append, List.length_cons, Nat.pow_succ]
  have hpow : 1 ≤ 10 ^ l'.length := Nat.one_le_pow _ _ (by omega)
  calc 10 * digitsNat l = digitsNat l * (1 * 10) := by ring
    _ ≤ digitsNat l * (10 ^ l'.length * 10) := Nat.mul_le_mul_left _ (Nat.mul_le_mul_right 10 hpow)
    _ ≤ _ := Nat.le_add_right ..

/-- The numeral that is left when the digits behind the first `n` are cut off. -/
def Numeral.cut (x : Numeral) (n : ℕ) (hn : n ≠ 0) : Numeral where
  sign := x.sign
  digits := x.digits.take n
  nonempty := by
    rw [Ne, List.take_eq_nil_iff, not_or]
    exact ⟨hn, x.nonempty⟩

theorem Numeral.cut_text (x : Numeral) {n : ℕ} (hn : n ≠ 0) :
    (x.cut n hn).text = x.text.take (x.sign.text.length + n) := by
  rw [text, text, List.take_append, List.take_of_length_le (by omega), Nat.add_sub_cancel_left, digitText, digitText,
    ← List.map_take]
  rfl

theorem Numeral.cut_of_le (x : Numeral) {n : ℕ} (hn : n ≠ 0) (h : x.digits.length ≤ n) : x.cut n hn = x := by
  obtain ⟨sign, digits, hne⟩ := x
  simp only [cut, List.take_of_length_le h]

/-- Cutting makes an integer at least ten times smaller, with the same sign. -/
theorem Numeral.cut_value (x : Numeral) {n : ℕ} (hn : n ≠ 0) (h : n < x.digits.length) :
    (0 ≤ (x.cut n hn).value ∧ 10 * (x.cut n hn).value ≤ x.value) ∨
      ((x.cut n hn).value ≤ 0 ∧ x.value ≤ 10 * (x.cut n hn).value) := by
  have hcut : 10 * digitsNat (x.digits.take n) ≤ digitsNat x.digits := by
    have hdrop : x.digits.drop n ≠ [] := by
      rw [Ne, List.drop_eq_nil_iff]
      omega
    have := digitsNat_cut (x.digits.take n) hdrop
    rwa [List.take_append_drop] at this
  unfold value cut
  cases x.sign with
  | none =>
    left
    simp only
    omega
  | plus =>
    left
    simp only
    omega
  | minus =>
    right
    simp only
    omega

end EdUsb.Lib
