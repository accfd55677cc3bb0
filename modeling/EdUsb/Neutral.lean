import EdUsb.Handles

/-!
# Handles that are not closed

Each function of `Maintenance` opens a handle and is to close it again, but four of them may return early with it open,
and `sdk_info` may close one that it did not open; `neutral_iff` says with which answers of the driver.
-/

namespace EdUsb

open EdUsb.Lib Ed

/-- Between `w` and `w'` the live handles did not change, and only handles opened in between were closed. -/
def Neutral (w w' : Handles) : Prop :=
  w'.live = w.live ∧ ∀ h, .closed h ∈ w.since w' → .created ftOk (some h) ∈ w.since w'

inductive Maintenance where
  | sdkInfo
  | resetDevice601
  | resetDevice245
  | resetDevicenull
  | resetDefault
  | getChipConfiguration
  deriving DecidableEq

namespace Maintenance

def prog : Maintenance → Ed Unit
  | .sdkInfo => EdUsb.sdkInfo
  | .resetDevice601 => EdUsb.resetDevice601
  | .resetDevice245 => EdUsb.resetDevice245
  | .resetDevicenull => EdUsb.resetDevicenull
  | .resetDefault => EdUsb.resetDefault
  | .getChipConfiguration => EdUsb.getChipConfiguration

/-- The answers of the driver with which the function cleans up after itself. -/
def Clean : Maintenance → List HandleEvent → Prop
  | .sdkInfo, l => ∃ h, .created ftOk (some h) ∈ l
  | .resetDevice601, l | .resetDevice245, l => ∀ s, .setConf s ∈ l → s = ftOk
  | .resetDevicenull, _ => True
  | .resetDefault, l | .getChipConfiguration, l => ∀ s, .gotConf s ∈ l → s = ftOk

end Maintenance

/-! ### What the functions leave -/

section Functions

variable {w w' : Handles} {a : Unit}

/-- Nothing was opened and nothing was closed. -/
theorem neutral_of_failed (s : FtStatus) : Neutral w (w.note (.created s none)) := by
  refine ⟨rfl, ?_⟩
  intro h hh
  simp [Handles.since] at hh

/-- A handle that was opened is still live. -/
theorem not_neutral_of_live {x : FtHandle} (hx : x ∉ w.live) (h : w'.live = insert x w.live) : ¬ Neutral w w' := by
  intro hn
  apply hx
  rw [← hn.1, h]
  exact Finset.mem_insert_self x w.live

/-- What was opened was closed again, and nothing else was. -/
theorem neutral_of_released {x : FtHandle} (hx : x ∉ w.live) (hlive : w'.live = (insert x w.live).erase x)
    (hopened : .created ftOk (some x) ∈ w.since w') (hclosed : ∀ h, .closed h ∈ w.since w' → h = x) : Neutral w w' := by
  refine ⟨by rw [hlive, Finset.erase_insert hx], ?_⟩
  intro h hh
  rwa [hclosed h hh]

/-- `reset_device601` and `reset_device245`, with the configuration they set. -/
def setChip (conf : Ft60xConfiguration) : Ed Unit := do
  let ftHandle ← undef .handle
  let r ← ftCreateWrapper .null ftOpenByIndex
  let ftHandle := r.handle.getD ftHandle
  if r.status ≠ ftOk then return
  let ftStatus ← ft (.setChipConfiguration ftHandle conf)
  if ftStatus ≠ ftOk then return
  let _ ← ftCloseWrapper ftHandle
  return

theorem resetDevice601_eq : resetDevice601 = setChip reset601 := rfl

theorem resetDevice245_eq : resetDevice245 = setChip reset245 := rfl

theorem setChip_neutral {conf : Ft60xConfiguration} (h : (setChip conf).Runs Handles.env w a w') :
    Neutral w w' ↔ ∀ s, .setConf s ∈ w.since w' → s = ftOk := by
  obtain ⟨g, h⟩ := undef_handles h
  rcases ftCreate_handles h with ⟨s, hs, h⟩ | ⟨x, -, hx, h⟩
  · simp only [ne_eq, hs, not_false_eq_true, if_true] at h
    obtain rfl := ret_handles h
    exact iff_of_true (neutral_of_failed s) (by simp [Handles.since])
  · simp only [ne_eq, not_true_eq_false, if_false, Option.getD_some] at h
    obtain ⟨s, h⟩ := setConf_handles h
    by_cases hs : s = ftOk
    · simp only [hs, not_true_eq_false, if_false] at h
      obtain ⟨t, h⟩ := ftClose_handles h
      obtain rfl := ret_handles h
      have hsince : w.since (((w.opened x).note (.setConf ftOk)).released x) =
          [.created ftOk (some x), .setConf ftOk, .closed x] := by simp [Handles.since]
      rw [hsince]
      exact iff_of_true (neutral_of_released hx rfl (by simp [hsince]) (by simp [hsince])) (by simp)
    · simp only [hs, not_false_eq_true, if_true] at h
      obtain rfl := ret_handles h
      exact iff_of_false (not_neutral_of_live hx rfl) (by simpa [Handles.since] using hs)

theorem resetDevicenull_neutral (h : resetDevicenull.Runs Handles.env w a w') : Neutral w w' := by
  obtain ⟨g, h⟩ := undef_handles h
  rcases ftCreate_handles h with ⟨s, hs, h⟩ | ⟨x, -, hx, h⟩
  · simp only [ftFailed, bne_iff_ne, ne_eq, hs, not_false_eq_true, if_true] at h
    obtain rfl := ret_handles h
    exact neutral_of_failed s
  · simp only [ftFailed, bne_self_eq_false, Bool.false_eq_true, if_false, Option.getD_some] at h
    obtain ⟨t, h⟩ := ftClose_handles h
    obtain rfl := ret_handles h
    exact neutral_of_released hx rfl (by simp [Handles.since]) (by simp [Handles.since])

theorem resetDefault_neutral (h : resetDefault.Runs Handles.env w a w') :
    Neutral w w' ↔ ∀ s, .gotConf s ∈ w.since w' → s = ftOk := by
  obtain ⟨g, h⟩ := undef_handles h
  rcases ftCreate_handles h with ⟨s, hs, h⟩ | ⟨x, -, hx, h⟩
  · simp only [ftFailed, bne_iff_ne, ne_eq, hs, not_false_eq_true, if_true] at h
    obtain rfl := ret_handles h
    exact iff_of_true (neutral_of_failed s) (by simp [Handles.since])
  · simp only [ftFailed, bne_self_eq_false, Bool.false_eq_true, if_false, Option.getD_some] at h
    obtain ⟨_, v, rfl, h⟩ := call_runs h
    obtain ⟨⟨s, conf⟩, h⟩ := gotConf_handles h
    by_cases hs : s = ftOk
    · simp only [hs, ne_eq, not_true_eq_false, if_false] at h
      obtain ⟨t, h⟩ := setConf_handles h
      -- the two branches after `FT_SetChipConfiguration` both close the handle
      have hend : w' = (((w.opened x).note (.gotConf ftOk)).note (.setConf t)).released x := by
        by_cases ht : (t != ftOk) = true
        · simp only [ht, if_true] at h
          obtain ⟨_, h⟩ := ftClose_handles h
          exact ret_handles h
        · simp only [ht] at h
          obtain ⟨_, h⟩ := ftClose_handles h
          exact ret_handles h
      have hsince : w.since w' = [.created ftOk (some x), .gotConf ftOk, .setConf t, .closed x] := by
        simp [Handles.since, hend]
      rw [hsince]
      exact iff_of_true (neutral_of_released hx (by rw [hend]; rfl) (by simp [hsince]) (by simp [hsince])) (by simp)
    · simp only [hs, ne_eq, not_false_eq_true, if_true] at h
      obtain rfl := ret_handles h
      exact iff_of_false (not_neutral_of_live hx rfl) (by simpa [Handles.since] using hs)

theorem getChipConfiguration_neutral (h : getChipConfiguration.Runs Handles.env w a w') :
    Neutral w w' ↔ ∀ s, .gotConf s ∈ w.since w' → s = ftOk := by
  obtain ⟨g, h⟩ := undef_handles h
  rcases ftCreate_handles h with ⟨s, hs, h⟩ | ⟨x, -, hx, h⟩
  · simp only [ne_eq, hs, not_false_eq_true, if_true] at h
    obtain rfl := ret_handles h
    exact iff_of_true (neutral_of_failed s) (by simp [Handles.since])
  · simp only [ne_eq, not_true_eq_false, if_false, Option.getD_some] at h
    obtain ⟨⟨s, conf⟩, h⟩ := gotConf_handles h
    by_cases hs : s = ftOk
    · simp only [hs, not_true_eq_false, if_false] at h
      obtain ⟨t, h⟩ := ftClose_handles h
      obtain rfl := ret_handles h
      have hsince : w.since (((w.opened x).note (.gotConf ftOk)).released x) =
          [.created ftOk (some x), .gotConf ftOk, .closed x] := by simp [Handles.since]
      rw [hsince]
      exact iff_of_true (neutral_of_released hx rfl (by simp [hsince]) (by simp [hsince])) (by simp)
    · simp only [hs, not_false_eq_true, if_true] at h
      obtain rfl := ret_handles h
      exact iff_of_false (not_neutral_of_live hx rfl) (by simpa [Handles.since] using hs)

theorem sdkInfo_neutral (h : sdkInfo.Runs Handles.env w a w') :
    Neutral w w' ↔ ∃ x, .created ftOk (some x) ∈ w.since w' := by
  obtain ⟨_, v, rfl, h₁⟩ := call_runs h
  obtain ⟨g, h⟩ := undef_handles (setTransConf_handles h₁)
  rcases create_handles h with ⟨s, hs, h⟩ | ⟨x, -, hx, h⟩
  · obtain ⟨_, v, rfl, h⟩ := call_runs h
    obtain ⟨_, v, rfl, h⟩ := call_runs h
    obtain rfl := ret_handles h
    rw [Option.getD_none]
    have hsince : v.since ((v.note (.created s none)).released g) = [.created s none, .closed g] := by
      simp [Handles.since]
    rw [hsince]
    refine iff_of_false ?_ (by simp)
    -- what was in the uninitialised local is closed
    intro hn
    have := hn.2 g (by simp [hsince])
    simp [hsince] at this
  · obtain ⟨_, v, rfl, h⟩ := call_runs h
    obtain ⟨_, v, rfl, h⟩ := call_runs h
    obtain rfl := ret_handles h
    rw [Option.getD_some]
    have hsince : v.since ((v.opened x).released x) = [.created ftOk (some x), .closed x] := by simp [Handles.since]
    rw [hsince]
    exact iff_of_true (neutral_of_released hx rfl (by simp [hsince]) (by simp [hsince])) ⟨x, by simp⟩

/-- Each function is neutral exactly with the answers of the driver with which it cleans up. -/
theorem neutral_iff_clean {m : Maintenance} (h : m.prog.Runs Handles.env w a w') :
    Neutral w w' ↔ m.Clean (w.since w') := by
  cases m with
  | sdkInfo => exact sdkInfo_neutral h
  | resetDevice601 =>
    rw [Maintenance.prog, resetDevice601_eq] at h
    exact setChip_neutral h
  | resetDevice245 =>
    rw [Maintenance.prog, resetDevice245_eq] at h
    exact setChip_neutral h
  | resetDevicenull => exact iff_of_true (resetDevicenull_neutral h) trivial
  | resetDefault => exact resetDefault_neutral h
  | getChipConfiguration => exact getChipConfiguration_neutral h

end Functions

/-! ### Sequences of calls -/

section Run

variable {w v w' : Handles}

theorem log_trace {l : List (Done Maintenance Unit Handles)} (h : Trace Handles.env Maintenance.prog w l w') :
    w.log <+: w'.log := by
  induction h with
  | nil hm =>
    obtain rfl := moves_handles hm
    exact List.prefix_rfl
  | cons hm hr _ ih =>
    obtain rfl := moves_handles hm
    exact (log_runs hr).trans ih

theorem Neutral.refl (w : Handles) : Neutral w w := ⟨rfl, by simp [Handles.since]⟩

theorem Neutral.trans (h₁ : Neutral w v) (h₂ : Neutral v w') (hv : w.log <+: v.log) (hw : v.log <+: w'.log) :
    Neutral w w' := by
  obtain ⟨l₁, hl₁⟩ := hv
  obtain ⟨l₂, hl₂⟩ := hw
  have hsince : w.since w' = w.since v ++ v.since w' := by
    simp [Handles.since, ← hl₂, ← hl₁]
  refine ⟨h₂.1.trans h₁.1, ?_⟩
  intro x hx
  rw [hsince] at hx ⊢
  rcases List.mem_append.1 hx with hx | hx
  · exact List.mem_append_left _ (h₁.2 x hx)
  · exact List.mem_append_right _ (h₂.2 x hx)

/-- **When the maintenance calls are neutral.**  In every sequence of calls, whatever the driver answers: each call leaves
the live handles as they were and closes only a handle that it opened if and only if the driver answered so that it
cleans up; and if every call cleans up, the whole sequence is neutral. -/
theorem neutral_iff {l : List (Done Maintenance Unit Handles)} (h : Trace Handles.env Maintenance.prog w l w') :
    (∀ d ∈ l, Neutral d.before d.after ↔ d.cmd.Clean (d.before.since d.after)) ∧
      ((∀ d ∈ l, d.cmd.Clean (d.before.since d.after)) → Neutral w w') := by
  induction h with
  | nil hm =>
    obtain rfl := moves_handles hm
    refine ⟨by simp, ?_⟩
    intro _
    exact .refl _
  | cons hm hr ht ih =>
    obtain rfl := moves_handles hm
    have hd := neutral_iff_clean hr
    constructor
    · intro d hmem
      rcases List.mem_cons.1 hmem with rfl | hmem
      · exact hd
      · exact ih.1 d hmem
    · intro hall
      have hfirst := hd.2 (hall _ List.mem_cons_self)
      have hrest := ih.2 fun d hmem => hall d (List.mem_cons_of_mem _ hmem)
      exact hfirst.trans hrest (log_runs hr) (log_trace ht)

end Run

/-- After `reset_device601` opened the handle 1 and failed to set the configuration. -/
def leaked : Handles := (noHandles.opened 1).note (.setConf 1)

theorem leaked_runs : Maintenance.resetDevice601.prog.Runs Handles.env noHandles () leaked :=
  -- the locals, the four calls of `FT_SetTransferParams`, then `FT_Create` and `FT_SetChipConfiguration`
  ⟨noHandles, (0 : FtHandle), noHandles, .refl _, rfl, noHandles, (default : FtTransferConf), noHandles, .refl _, rfl,
    noHandles, ftOk, noHandles, .refl _, rfl, noHandles, ftOk, noHandles, .refl _, rfl,
    noHandles, ftOk, noHandles, .refl _, rfl, noHandles, ftOk, noHandles, .refl _, rfl,
    noHandles, (⟨ftOk, some 1⟩ : Created), noHandles.opened 1, .refl _,
    .inr ⟨1, rfl, rfl, by decide, by decide, rfl⟩,
    noHandles.opened 1, (1 : FtStatus), leaked, .refl _, rfl, rfl, .refl _⟩

/-- That call is not neutral, as the driver did not set the configuration. -/
theorem neutral_iff_leaked : ¬ Neutral noHandles leaked := by
  have h := (neutral_iff (.cons (c := .resetDevice601) (.refl _) leaked_runs (.nil (.refl _)))).1 _ List.mem_cons_self
  rw [h]
  intro hc
  exact absurd (hc 1 (by decide)) (by decide)

/-- A function may return with its handle open. -/
theorem not_neutral_of_failed :
    ¬ ∀ (m : Maintenance) (w w' : Handles), m.prog.Runs Handles.env w () w' → Neutral w w' := by
  intro h
  have := (h .resetDevice601 noHandles leaked leaked_runs).1
  exact absurd this (by decide)

end EdUsb
