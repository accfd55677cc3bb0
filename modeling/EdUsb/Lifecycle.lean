import EdUsb.Handles

/-!
# The handle of a caller

`usb_create_handle` and `usb_create_handle_with_serial_num` open a handle into a `usb_addr_t` that records none, and
`usb_close_handle` closes the one that is recorded.  However they are called, the driver has live exactly the handle that
is recorded (`lifecycle`).
-/

namespace EdUsb

open EdUsb.Lib Ed

/-- The calls on a `usb_addr_t`. -/
inductive HandleCall where
  | create
  | createWithSerialNum
  | close
  deriving DecidableEq

namespace HandleCall

def prog : HandleCall → UsbAddr → Ed (Int32 × UsbAddr)
  | .create => usbCreateHandle
  | .createWithSerialNum => usbCreateHandleWithSerialNum
  | .close => usbCloseHandle

end HandleCall

/-- The live handles are exactly the one that is recorded, or none. -/
def Recorded (x : UsbAddr × Handles) : Prop := x.2.live = if x.1.handle = 0 then ∅ else {x.1.handle}

/-- A new handle was opened and recorded. -/
def Opened (x y : UsbAddr × Handles) : Prop :=
  ∃ h, h ≠ 0 ∧ h ∉ x.2.live ∧ y.1.handle = h ∧ y.2.live = insert h x.2.live

/-- Every `FT_Close` of the log was given a handle, and one that had been opened once more than it had been closed. -/
def Paired (log : List HandleEvent) : Prop :=
  ∀ l h, l ++ [.closed h] <+: log → h ≠ 0 ∧ l.count (.closed h) + 1 = l.count (.created ftOk (some h))

/-! ### What a call does -/

/-- What a call did to the address and the driver, and what it returned. -/
inductive HandleCall.Ran : HandleCall → UsbAddr × Handles → Int32 → UsbAddr × Handles → Prop
  | busy {c : HandleCall} {addr : UsbAddr} {w : Handles} : c ≠ .close → addr.handle ≠ 0 → Ran c (addr, w) 1 (addr, w)
  | failed {c : HandleCall} {addr : UsbAddr} {w : Handles} {s : FtStatus} : c ≠ .close → addr.handle = 0 → s ≠ ftOk →
      Ran c (addr, w) s.toInt32 (addr, w.note (.created s none))
  | opened {c : HandleCall} {addr : UsbAddr} {w : Handles} {h : FtHandle} : c ≠ .close → addr.handle = 0 → h ≠ 0 →
      h ∉ w.live → Ran c (addr, w) 0 (⟨h⟩, w.opened h)
  | closed {addr : UsbAddr} {w : Handles} : addr.handle ≠ 0 → Ran .close (addr, w) 0 (⟨0⟩, w.released addr.handle)
  | idle {addr : UsbAddr} {w : Handles} : addr.handle = 0 → Ran .close (addr, w) 0 (⟨0⟩, w)

/-- `usb_create_handle` and `usb_create_handle_with_serial_num`, with the arguments that they give to `FT_Create`. -/
def openInto (pvArg : PvArg) (dwFlags : UInt32) (addr : UsbAddr) : Ed (Int32 × UsbAddr) := do
  if addr.handle ≠ 0 then return (1, addr)
  let r ← ftCreateWrapper pvArg dwFlags
  let addr := { addr with handle := r.handle.getD addr.handle }
  if r.status ≠ ftOk then return (r.status.toInt32, addr)
  return (0, addr)

theorem usbCreateHandle_eq : usbCreateHandle = openInto .null ftOpenByIndex := rfl

theorem usbCreateHandleWithSerialNum_eq :
    usbCreateHandleWithSerialNum = openInto (.serial "000000000001") ftOpenBySerialNumber := rfl

section Calls

variable {c : HandleCall} {addr addr' : UsbAddr} {w w' : Handles} {a : Int32}

theorem eq_of_ret {b : Int32} {x : UsbAddr} (h : (Prog.ret (b, x) : Ed (Int32 × UsbAddr)).Runs Handles.env w (a, addr') w') :
    a = b ∧ addr' = x ∧ w' = w := by
  obtain ⟨he, hm⟩ := h
  obtain ⟨rfl, rfl⟩ := Prod.mk.inj he
  exact ⟨rfl, rfl, moves_handles hm⟩

theorem ran_of_openInto {pvArg : PvArg} {dwFlags : UInt32} (hc : c ≠ .close)
    (h : (openInto pvArg dwFlags addr).Runs Handles.env w (a, addr') w') : c.Ran (addr, w) a (addr', w') := by
  unfold openInto at h
  by_cases h0 : addr.handle = 0
  · simp only [ne_eq, h0, not_true_eq_false, if_false] at h
    rcases ftCreate_handles h with ⟨s, hs, h⟩ | ⟨x, hx0, hx, h⟩
    · simp only [hs, not_false_eq_true, if_true, Option.getD_none] at h
      obtain ⟨rfl, rfl, rfl⟩ := eq_of_ret h
      have hkeep : ({ addr with handle := 0 } : UsbAddr) = addr := by
        cases addr
        simp only [UsbAddr.mk.injEq]
        exact h0.symm
      rw [hkeep]
      exact .failed hc h0 hs
    · simp only [not_true_eq_false, if_false, Option.getD_some] at h
      obtain ⟨rfl, rfl, rfl⟩ := eq_of_ret h
      exact .opened hc h0 hx0 hx
  · simp only [ne_eq, h0, not_false_eq_true, if_true] at h
    obtain ⟨rfl, rfl, rfl⟩ := eq_of_ret h
    exact .busy hc h0

theorem ran_of_close (h : (usbCloseHandle addr).Runs Handles.env w (a, addr') w') :
    HandleCall.close.Ran (addr, w) a (addr', w') := by
  unfold usbCloseHandle at h
  by_cases h0 : addr.handle = 0
  · simp only [ne_eq, h0, not_true_eq_false, if_false] at h
    obtain ⟨rfl, rfl, rfl⟩ := eq_of_ret h
    exact .idle h0
  · simp only [ne_eq, h0, not_false_eq_true, if_true] at h
    obtain ⟨s, h⟩ := ftClose_handles h
    obtain ⟨rfl, rfl, rfl⟩ := eq_of_ret h
    exact .closed h0

/-- **What a call on an address does.** -/
theorem HandleCall.ran_of_runs (h : (c.prog addr).Runs Handles.env w (a, addr') w') : c.Ran (addr, w) a (addr', w') := by
  cases c with
  | create =>
    rw [prog, usbCreateHandle_eq] at h
    exact ran_of_openInto (by decide) h
  | createWithSerialNum =>
    rw [prog, usbCreateHandleWithSerialNum_eq] at h
    exact ran_of_openInto (by decide) h
  | close => exact ran_of_close h

end Calls

/-! ### What every call keeps -/

/-- Another event keeps the log paired if it closes nothing, or a handle that is open. -/
theorem Paired.append {log : List HandleEvent} {e : HandleEvent} (hl : Paired log)
    (he : ∀ h, e = .closed h → h ≠ 0 ∧ log.count (.closed h) + 1 = log.count (.created ftOk (some h))) :
    Paired (log ++ [e]) := by
  intro l h hp
  rcases List.prefix_concat_iff.1 hp with heq | hp
  · obtain ⟨rfl, hlast⟩ := List.append_inj' heq rfl
    exact he h (List.singleton_inj.1 hlast).symm
  · exact hl l h hp

/-- What holds of an address and the driver after every call. -/
structure Held (x : UsbAddr × Handles) : Prop where
  recorded : Recorded x
  balance : ∀ h, x.2.log.count (.created ftOk (some h)) = x.2.log.count (.closed h) + if h ∈ x.2.live then 1 else 0
  paired : Paired x.2.log

theorem Held.init : Held (⟨0⟩, noHandles) := by
  refine ⟨rfl, ?_, ?_⟩
  · intro h
    simp [noHandles]
  · intro l h hp
    have hlen := hp.length_le
    simp [noHandles] at hlen

theorem recorded_iff_of_zero {addr : UsbAddr} {w : Handles} (h0 : addr.handle = 0) :
    Recorded (addr, w) ↔ w.live = ∅ := by
  unfold Recorded
  rw [if_pos h0]

theorem recorded_iff_of_ne {addr : UsbAddr} {w : Handles} (h0 : addr.handle ≠ 0) :
    Recorded (addr, w) ↔ w.live = {addr.handle} := by
  unfold Recorded
  rw [if_neg h0]

namespace Held

variable {addr : UsbAddr} {w : Handles}

theorem failed {s : FtStatus} (hx : Held (addr, w)) : Held (addr, w.note (.created s none)) := by
  refine ⟨hx.recorded, ?_, ?_⟩
  · intro h
    have hne : HandleEvent.created s none ≠ .created ftOk (some h) := nofun
    have hne' : HandleEvent.created s none ≠ .closed h := nofun
    have hbal := hx.balance h
    rw [Handles.log_note, Handles.live_note, List.count_append, List.count_append, List.count_singleton,
      List.count_singleton]
    simpa [hne, hne'] using hbal
  · apply hx.paired.append
    intro h he
    cases he

theorem opened {h : FtHandle} (hx : Held (addr, w)) (h0 : addr.handle = 0) (hh : h ≠ 0) (hlive : h ∉ w.live) :
    Held (⟨h⟩, w.opened h) := by
  have hrec := (recorded_iff_of_zero h0).1 hx.recorded
  refine ⟨?_, ?_, ?_⟩
  · rw [recorded_iff_of_ne hh, Handles.live_opened, hrec]
    rfl
  · intro h'
    have hbal := hx.balance h'
    by_cases he : h' = h
    · subst he
      rw [if_neg hlive] at hbal
      simp [List.count_append, hbal]
    · simpa [List.count_append, List.count_cons, he, Ne.symm he] using hbal
  · apply hx.paired.append
    intro h' he
    cases he

theorem released (hx : Held (addr, w)) (h0 : addr.handle ≠ 0) : Held (⟨0⟩, w.released addr.handle) := by
  have hrec := (recorded_iff_of_ne h0).1 hx.recorded
  have hmem : addr.handle ∈ w.live := by
    rw [hrec]
    exact Finset.mem_singleton_self _
  refine ⟨?_, ?_, ?_⟩
  · rw [recorded_iff_of_zero rfl, Handles.live_released, hrec]
    simp
  · intro h'
    have hbal := hx.balance h'
    by_cases he : h' = addr.handle
    · subst he
      rw [if_pos hmem] at hbal
      simp [List.count_append, hbal]
    · simpa [List.count_append, List.count_cons, he, Ne.symm he] using hbal
  · apply hx.paired.append
    intro h' he
    cases he
    have hbal := hx.balance addr.handle
    rw [if_pos hmem] at hbal
    exact ⟨h0, hbal.symm⟩

/-- **Step.**  Every call keeps the address and the driver in agreement. -/
theorem ran {c : HandleCall} {x y : UsbAddr × Handles} {a : Int32} (hx : Held x) (h : c.Ran x a y) : Held y := by
  cases h with
  | busy => exact hx
  | failed => exact hx.failed
  | opened _ h0 hh hlive => exact hx.opened h0 hh hlive
  | closed h0 => exact hx.released h0
  | idle h0 =>
    refine ⟨?_, hx.balance, hx.paired⟩
    rw [recorded_iff_of_zero rfl]
    exact (recorded_iff_of_zero h0).1 hx.recorded

end Held

/-! ### What one call shows -/

section Shows

variable {c : HandleCall} {x y : UsbAddr × Handles} {a : Int32}

/-- `FT_Create` is called only where no handle is recorded. -/
theorem HandleCall.Ran.created (h : c.Ran x a y) {s : FtStatus} {o : Option FtHandle}
    (he : .created s o ∈ x.2.since y.2) : x.1.handle = 0 := by
  cases h with
  | busy => simp [Handles.since] at he
  | failed _ h0 => exact h0
  | opened _ h0 => exact h0
  | closed => simp [Handles.since] at he
  | idle h0 => exact h0

/-- What a create that does not return 0 leaves as it was. -/
theorem HandleCall.Ran.kept (h : c.Ran x a y) (hc : c ≠ .close) (ha : a ≠ 0) :
    y.1 = x.1 ∧ y.2.live = x.2.live := by
  cases h with
  | busy => exact ⟨rfl, rfl⟩
  | failed => exact ⟨rfl, rfl⟩
  | opened => exact absurd rfl ha
  | closed => exact absurd rfl hc
  | idle => exact absurd rfl hc

/-- The code that a failed create returns. -/
theorem toInt32_ne_zero {s : FtStatus} (hs : s ≠ ftOk) : s.toInt32 ≠ 0 := by
  intro he
  have := congrArg Int32.toUInt32 he
  rw [UInt32.toUInt32_toInt32] at this
  exact hs this

theorem HandleCall.Ran.opened_iff (h : c.Ran x a y) (hc : c ≠ .close) : a = 0 ↔ Opened x y := by
  constructor
  · rintro rfl
    generalize ha : (0 : Int32) = a at h
    cases h with
    | busy => exact absurd ha (by decide)
    | failed _ _ hs => exact absurd ha.symm (toInt32_ne_zero hs)
    | @opened _ _ _ h _ _ hh hlive => exact ⟨h, hh, hlive, rfl, rfl⟩
    | closed => exact absurd rfl hc
    | idle => exact absurd rfl hc
  · rintro ⟨h', -, hnot, -, hlive⟩
    by_contra ha
    rw [(h.kept hc ha).2] at hlive
    rw [hlive] at hnot
    exact hnot (Finset.mem_insert_self h' _)

end Shows

/-- **The life of a handle.**  In every sequence of calls on an address that records none, whatever the driver answers:
after each call exactly the recorded handle is live; `FT_Create` is called only where none is recorded; a create returns
0 if and only if it opened a new handle, and otherwise leaves the address and the live handles as they were; and
`FT_Close` is only ever given a handle that is open. -/
theorem lifecycle {l : List (Done HandleCall Int32 (UsbAddr × Handles))} {y : UsbAddr × Handles}
    (h : Chain Handles.env HandleCall.prog (⟨0⟩, noHandles) l y) :
    (∀ d ∈ l, Recorded d.after ∧
      (∀ s o, .created s o ∈ d.before.2.since d.after.2 → d.before.1.handle = 0) ∧
      (d.cmd ≠ .close → (d.val = 0 ↔ Opened d.before d.after)) ∧
      (d.cmd ≠ .close → d.val ≠ 0 → d.after.1 = d.before.1 ∧ d.after.2.live = d.before.2.live)) ∧
    Paired y.2.log := by
  have hmove : ∀ (s : UsbAddr) (w v : Handles), Held (s, w) → Handles.env.move w v → Held (s, v) := by
    intro s w v _ hm
    exact hm.elim
  have hprog : ∀ (c : HandleCall) s w a s' v, Held (s, w) → (c.prog s).Runs Handles.env w (a, s') v → Held (s', v) := by
    intro c s w a s' v hs hr
    exact hs.ran (HandleCall.ran_of_runs hr)
  obtain ⟨hall, hend⟩ := h.inv hmove hprog .init
  refine ⟨?_, hend.paired⟩
  intro d hd
  obtain ⟨-, hr, hafter⟩ := hall d hd
  have hran : d.cmd.Ran d.before d.val d.after := HandleCall.ran_of_runs hr
  refine ⟨hafter.recorded, ?_, hran.opened_iff, hran.kept⟩
  intro s o he
  exact hran.created he

theorem lifecycle_create_close :
    Recorded (⟨0⟩, (noHandles.opened 1).released 1) ∧ Paired ((noHandles.opened 1).released 1).log := by
  have hcreate : (HandleCall.create.prog ⟨0⟩).Runs Handles.env noHandles (0, ⟨1⟩) (noHandles.opened 1) := by
    refine ⟨_, default, _, .refl _, rfl, ?_⟩
    refine ⟨_, ftOk, _, .refl _, rfl, ?_⟩
    refine ⟨_, ftOk, _, .refl _, rfl, ?_⟩
    refine ⟨_, ftOk, _, .refl _, rfl, ?_⟩
    refine ⟨_, ftOk, _, .refl _, rfl, ?_⟩
    refine ⟨_, ⟨ftOk, some 1⟩, _, .refl _, .inr ⟨1, rfl, rfl, by decide, by decide, rfl⟩, ?_⟩
    exact ⟨rfl, .refl _⟩
  have hclose : (HandleCall.close.prog ⟨1⟩).Runs Handles.env (noHandles.opened 1) (0, ⟨0⟩)
      ((noHandles.opened 1).released 1) :=
    ⟨_, ftOk, _, .refl _, rfl, rfl, .refl _⟩
  obtain ⟨hall, hpaired⟩ := lifecycle (.cons (.refl _) hcreate (.cons (.refl _) hclose (.nil (.refl _))))
  have hlast := hall _ (.tail _ (.head _))
  exact ⟨hlast.1, hpaired⟩

end EdUsb
