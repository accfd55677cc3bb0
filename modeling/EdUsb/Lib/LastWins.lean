import Mathlib.Data.List.Basic

/-!
# The last value of each key

Items are read one after the other, and each gives a value to some of the keys.  What is left in the end is the last value
that each key was given (`lastOf`), so items that give a key no value may be left out (`lastOf_filter`).  `foldl_act` says
this of a loop over a state on which values act.
-/

namespace EdUsb.Lib

section LastOf

variable {α K V : Type} (value : α → K → Option V)

/-- The last value that an item of `l` gives to `k`. -/
def lastOf (l : List α) (k : K) : Option V := (l.filterMap fun a => value a k).getLast?

@[simp] theorem lastOf_nil (k : K) : lastOf value [] k = none := rfl

theorem lastOf_append (l l' : List α) (k : K) : lastOf value (l ++ l') k = (lastOf value l' k).or (lastOf value l k) := by
  simp [lastOf, List.filterMap_append, List.getLast?_append]

theorem lastOf_singleton (a : α) (k : K) : lastOf value [a] k = value a k := by
  cases h : value a k <;> simp [lastOf, h]

theorem lastOf_cons (a : α) (l : List α) (k : K) : lastOf value (a :: l) k = (lastOf value l k).or (value a k) := by
  rw [← List.singleton_append, lastOf_append, lastOf_singleton]

theorem lastOf_map {β : Type} (f : β → α) (l : List β) (k : K) :
    lastOf value (l.map f) k = lastOf (fun b => value (f b)) l k := by
  rw [lastOf, List.filterMap_map, lastOf]
  rfl

/-- The last value is that of the last item that gives one. -/
theorem lastOf_eq_bind {p : α → Bool} {l : List α} {k : K} (h : ∀ a ∈ l, p a = (value a k).isSome) :
    lastOf value l k = (l.filter p).getLast?.bind fun a => value a k := by
  induction l with
  | nil => rfl
  | cons a l ih =>
    rw [lastOf_cons, ih fun b hb => h b (List.mem_cons_of_mem a hb), List.filter_cons, h a List.mem_cons_self]
    cases ha : value a k with
    | none => rw [Option.isSome_none, if_neg Bool.false_ne_true, Option.or_none]
    | some v =>
      rw [Option.isSome_some, if_pos rfl, List.getLast?_cons]
      cases hl : (l.filter p).getLast? with
      | none => exact ha.symm
      | some b =>
        obtain ⟨hb, hp⟩ := List.mem_filter.1 (List.mem_of_getLast? hl)
        obtain ⟨w, hw⟩ := Option.isSome_iff_exists.1 ((h b (List.mem_cons_of_mem a hb)).symm.trans hp)
        simp [hw]

theorem lastOf_ite (p : K → α → Bool) (f : α → V) (l : List α) (k : K) :
    lastOf (fun a k => if p k a then some (f a) else none) l k = (l.filter (p k)).getLast?.map f := by
  have hp : ∀ a ∈ l, p k a = (if p k a then some (f a) else none).isSome := by
    intro a _
    cases p k a <;> rfl
  refine (lastOf_eq_bind _ (k := k) hp).trans ?_
  cases hl : (l.filter (p k)).getLast? with
  | none => rfl
  | some a =>
    have ha : p k a = true := (List.mem_filter.1 (List.mem_of_getLast? hl)).2
    exact if_pos ha

variable {value}

theorem lastOf_ext {value' : α → K → Option V} {l : List α} {k : K} (h : ∀ a ∈ l, value a k = value' a k) :
    lastOf value l k = lastOf value' l k := by
  rw [lastOf, List.filterMap_congr h, lastOf]

theorem lastOf_eq_none {l : List α} {k : K} (h : ∀ a ∈ l, value a k = none) : lastOf value l k = none := by
  rw [lastOf, List.filterMap_eq_nil_iff.2 h, List.getLast?_nil]

/-- Items that give no value may be left out. -/
theorem lastOf_filter {p : α → Bool} {k : K} (h : ∀ a, p a = false → value a k = none) (l : List α) :
    lastOf value (l.filter p) k = lastOf value l k := by
  induction l with
  | nil => rfl
  | cons a l ih =>
    cases hp : p a with
    | false => rw [List.filter_cons_of_neg (by simp [hp]), ih, lastOf_cons, h a hp, Option.or_none]
    | true => rw [List.filter_cons_of_pos hp, lastOf_cons, lastOf_cons, ih]

end LastOf

section Act

variable {α K V S : Type} {value : α → K → Option V} {act : S → (K → Option V) → S}

/-- A loop in which every item acts by the values it gives leaves each key at its last value. -/
theorem foldl_act (hnone : ∀ s, act s (fun _ => none) = s)
    (hact : ∀ s u u', act (act s u) u' = act s fun k => (u' k).or (u k)) (s : S) (l : List α) :
    l.foldl (fun s a => act s (value a)) s = act s (lastOf value l) := by
  induction l generalizing s with
  | nil => exact (hnone s).symm
  | cons a l ih =>
    rw [List.foldl_cons, ih, hact]
    congr 1
    funext k
    rw [lastOf_cons]

end Act

end EdUsb.Lib
