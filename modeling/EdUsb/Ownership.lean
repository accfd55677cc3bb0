import EdUsb.Discipline

/-!
# Whose handle it is

A caller has any number of `usb_addr_t`s and calls the library on them in any order.  As long as each call is ready, no two
of them record the same handle, and no call closes a handle that another one records (`Owned`); so what a call may do next
depends on its own `usb_addr_t` alone (`permitted_iff`).
-/

namespace EdUsb

open EdUsb.Lib

/-- A call on the `usb_addr_t` number `c.1` of the caller. -/
def Use.on (c : ℕ × Use) (addrs : ℕ → UsbAddr) : Ed (Int32 × (ℕ → UsbAddr)) := do
  let r ← c.2.prog (addrs c.1)
  return (r.1, Function.update addrs c.1 r.2)

/-- The handles that are recorded are live, and recorded once. -/
structure Owned (x : (ℕ → UsbAddr) × Handles × Params) : Prop where
  usable : ∀ i, Usable (x.1 i) x.2.1
  apart : ∀ i j, i ≠ j → (x.1 i).handle ≠ 0 → (x.1 i).handle ≠ (x.1 j).handle

/-- Each live handle is recorded, or a function that opened it for itself returned without closing it. -/
def Accounted (l : List (Done (ℕ × Use) Int32 ((ℕ → UsbAddr) × Handles × Params)))
    (x : (ℕ → UsbAddr) × Handles × Params) : Prop :=
  ∀ h ∈ x.2.1.live, (∃ i, (x.1 i).handle = h) ∨
    ∃ d ∈ l, d.cmd.2.Leaks ∧ h ∉ d.before.2.1.live ∧ h ∈ d.after.2.1.live

section Step

variable {addrs : ℕ → UsbAddr} {w w' : Handles × Params} {i : ℕ} {addr' : UsbAddr} {leaks : Prop}

/-- A call on one address does not touch what the others record. -/
theorem Owned.update (h : Owned (addrs, w)) (hk : Kept leaks (addrs i) w.1 addr' w'.1) :
    Owned (Function.update addrs i addr', w') := by
  have hother : ∀ j, j ≠ i → (addrs j).handle ≠ 0 → (addrs j).handle ∈ w'.1.live := by
    intro j hj h0
    exact hk.others _ ((h.usable j).live h0) (h.apart j i hj h0)
  -- a handle that another address records was live before, so it is not a new one
  have hnew : ∀ j, j ≠ i → (addrs j).handle ≠ 0 → (addrs j).handle ≠ addr'.handle := by
    intro j hj h0 he
    rcases hk.new with rfl | hnew
    · exact h.apart j i hj h0 he
    · rw [← he] at hnew
      exact hnew ((h.usable j).live h0)
  constructor
  · intro j
    by_cases hj : j = i
    · subst hj
      simpa using hk.toUsable
    · refine ⟨hk.null, ?_⟩
      simp only [Function.update_of_ne hj]
      exact hother j hj
  · intro j k hjk
    by_cases hj : j = i
    · subst hj
      simp only [Function.update_self, Function.update_of_ne hjk.symm]
      intro h0 he
      rw [he] at h0
      exact hnew k hjk.symm h0 he.symm
    · simp only [Function.update_of_ne hj]
      intro h0
      by_cases hki : k = i
      · subst hki
        simp only [Function.update_self]
        exact hnew j hj h0
      · simp only [Function.update_of_ne hki]
        exact h.apart j k hjk h0

/-- Where a live handle is recorded after a call. -/
theorem recorded_update (hk : Kept leaks (addrs i) w.1 addr' w'.1) {x : FtHandle} (hx : x ∈ w'.1.live)
    (hrec : ∃ j, (addrs j).handle = x) : ∃ j, (Function.update addrs i addr' j).handle = x := by
  obtain ⟨j, rfl⟩ := hrec
  by_cases hj : j = i
  · subst hj
    rcases hk.closed with rfl | hclosed
    · exact ⟨j, by rw [Function.update_self]⟩
    · exact absurd hx hclosed
  · exact ⟨j, by rw [Function.update_of_ne hj]⟩

end Step

section Run

variable {c : ℕ × Use} {x y : (ℕ → UsbAddr) × Handles × Params}
  {l : List (Done (ℕ × Use) Int32 ((ℕ → UsbAddr) × Handles × Params))}

/-- **Step.**  A ready call on one of the addresses keeps to the rule. -/
theorem on_of_ready (h : Owned x) (hc : c.2.Ready (x.1 c.1)) :
    (Use.on c x.1).Wp strictDriver
      (fun r v => ∃ addr', r.2 = Function.update x.1 c.1 addr' ∧ Kept c.2.Leaks (x.1 c.1) x.2.1 addr' v.1) x.2 := by
  refine Prog.wp_bind ((kept_of_ready (h.usable c.1) hc).mono ?_)
  intro r v hk
  exact wp_ret.2 ⟨r.2, rfl, hk⟩

theorem ready_of_on {Q : Int32 × (ℕ → UsbAddr) → Handles × Params → Prop} (h : Owned x)
    (hw : (Use.on c x.1).Wp strictDriver Q x.2) : c.2.Ready (x.1 c.1) :=
  ready_of_wp (h.usable c.1) (Prog.wp_of_bind hw)

theorem moves_driver {w v : Handles × Params} (h : driver.Moves w v) : v = w := moves_strictDriver h

theorem Accounted.update {d : Done (ℕ × Use) Int32 ((ℕ → UsbAddr) × Handles × Params)} (h : Accounted l d.before)
    {addr' : UsbAddr} (ha : d.after.1 = Function.update d.before.1 d.cmd.1 addr')
    (hk : Kept d.cmd.2.Leaks (d.before.1 d.cmd.1) d.before.2.1 addr' d.after.2.1) : Accounted (l ++ [d]) d.after := by
  intro x hx
  rw [ha]
  by_cases hlive : x ∈ d.before.2.1.live
  · rcases h x hlive with hrec | ⟨e, he, hleak⟩
    · exact .inl (recorded_update hk hx hrec)
    · exact .inr ⟨e, List.mem_append_left _ he, hleak⟩
  · rcases hk.opened x hx hlive with rfl | hleaks
    · exact .inl ⟨d.cmd.1, by rw [Function.update_self]⟩
    · exact .inr ⟨d, by simp, hleaks, hlive, hx⟩

/-- **Run.**  Ready calls on any addresses in any order, after the calls `l₀`. -/
theorem permitted_chain {l₀ : List (Done (ℕ × Use) Int32 ((ℕ → UsbAddr) × Handles × Params))}
    (h : Chain driver Use.on x l y) (hx : Owned x) (h₀ : Accounted l₀ x)
    (hready : ∀ d ∈ l, d.cmd.2.Ready (d.before.1 d.cmd.1)) :
    (∀ d ∈ l, (Use.on d.cmd d.before.1).Runs strictDriver d.before.2 (d.val, d.after.1) d.after.2) ∧
      Owned y ∧ Accounted (l₀ ++ l) y := by
  induction h generalizing l₀ with
  | nil hm =>
    rw [moves_driver hm, List.append_nil]
    exact ⟨by simp, hx, h₀⟩
  | @cons addrs addrs' w v v' c a l y hm hr _ ih =>
    rw [List.forall_mem_cons] at hready
    obtain rfl := moves_driver hm
    obtain ⟨hrun, addr', hafter, hk⟩ := (on_of_ready hx hready.1).guarded hr
    have hafter : addrs' = Function.update addrs c.1 addr' := hafter
    have howned : Owned (addrs', v') := by
      rw [hafter]
      exact hx.update hk
    have haccounted := Accounted.update (d := ⟨c, (addrs, v), a, (addrs', v')⟩) h₀ hafter hk
    obtain ⟨hall, hend, hacc⟩ := ih howned haccounted hready.2
    refine ⟨List.forall_mem_cons.2 ⟨hrun, hall⟩, hend, ?_⟩
    rwa [List.append_assoc] at hacc

end Run

/-- **Any number of addresses.**  In every sequence of calls of the library on any `usb_addr_t`s, zeroed at first, from a
driver without handles, in which every call was ready: no call of the driver broke its rule, whatever the driver answered;
no two addresses record the same handle, and what they record is live; each live handle is recorded or was left open by the
function that opened it for itself; and of the calls that may come next exactly the ready ones go on so. -/
theorem permitted_iff {l : List (Done (ℕ × Use) Int32 ((ℕ → UsbAddr) × Handles × Params))}
    {y : (ℕ → UsbAddr) × Handles × Params} (h : Chain driver Use.on (fun _ => ⟨0⟩, noHandles, fun _ => none) l y)
    (hready : ∀ d ∈ l, d.cmd.2.Ready (d.before.1 d.cmd.1)) :
    (∀ d ∈ l, (Use.on d.cmd d.before.1).Runs strictDriver d.before.2 (d.val, d.after.1) d.after.2) ∧
      Owned y ∧ Accounted l y ∧
      ∀ c : ℕ × Use, (Use.on c y.1).Wp strictDriver (fun _ _ => True) y.2 ↔ c.2.Ready (y.1 c.1) := by
  have hinit : Owned (fun _ => ⟨0⟩, noHandles, fun _ => none) :=
    ⟨fun _ => ⟨Finset.notMem_empty 0, fun hne => absurd rfl hne⟩, fun _ _ _ hne => absurd rfl hne⟩
  have hnone : Accounted [] (fun _ => ⟨0⟩, noHandles, fun _ => none) := fun x hx => absurd hx (Finset.notMem_empty x)
  obtain ⟨hall, hend, hacc⟩ := permitted_chain h hinit hnone hready
  exact ⟨hall, hend, hacc, fun c => ⟨ready_of_on hend, fun hc => (on_of_ready hend hc).mono fun _ _ _ => trivial⟩⟩

/-- The driver opens the handle 1. -/
theorem usbCreateHandle_runs : (usbCreateHandle ⟨0⟩).Runs Handles.env noHandles (0, ⟨1⟩) (noHandles.opened 1) :=
  -- the local, the four calls of `FT_SetTransferParams`, then `FT_Create`
  ⟨_, default, _, .refl _, rfl, _, ftOk, _, .refl _, rfl, _, ftOk, _, .refl _, rfl, _, ftOk, _, .refl _, rfl,
    _, ftOk, _, .refl _, rfl, _, ⟨ftOk, some 1⟩, _, .refl _, .inr ⟨1, rfl, rfl, by decide, by decide, rfl⟩, rfl, .refl _⟩

/-- After a create on one address a stop is ready there, but not on another. -/
theorem permitted_iff_created :
    ∃ (P : Params) (addrs : ℕ → UsbAddr),
      (Use.on (0, .lib (.command .stop)) addrs).Wp strictDriver (fun _ _ => True) (noHandles.opened 1, P) ∧
        ¬ (Use.on (1, .lib (.command .stop)) addrs).Wp strictDriver (fun _ _ => True) (noHandles.opened 1, P) := by
  obtain ⟨P, hrun⟩ := usbCreateHandle_runs.prod (F := Params.env) (fun P o _ => ⟨P.after o, rfl⟩) fun _ => none
  have hon : (Use.on (0, .lib (.handle .create)) fun _ => ⟨0⟩).Runs driver (noHandles, fun _ => none)
      (0, Function.update (fun _ => ⟨0⟩) 0 ⟨1⟩) (noHandles.opened 1, P) :=
    Prog.runs_bind.2 ⟨_, _, hrun, rfl, .refl _⟩
  have hchain : Chain driver Use.on (fun _ => ⟨0⟩, noHandles, fun _ => none)
      [⟨(0, .lib (.handle .create)), (fun _ => ⟨0⟩, noHandles, fun _ => none), 0,
        (Function.update (fun _ => ⟨0⟩) 0 ⟨1⟩, noHandles.opened 1, P)⟩]
      (Function.update (fun _ => ⟨0⟩) 0 ⟨1⟩, noHandles.opened 1, P) := .cons (.refl _) hon (.nil (.refl _))
  obtain ⟨-, -, -, hiff⟩ := permitted_iff hchain (by simp [Use.Ready])
  refine ⟨P, Function.update (fun _ => ⟨0⟩) 0 ⟨1⟩, (hiff _).2 ?_, fun hw => ?_⟩
  · simp [Use.Ready]
  · have hready := (hiff _).1 hw
    simp [Use.Ready] at hready

end EdUsb
