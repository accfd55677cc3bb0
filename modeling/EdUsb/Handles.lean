import EdUsb.Maintenance
import Mathlib.Data.Finset.Insert

/-!
# The handles of the driver

The driver keeps a set of live handles.  `Handles` is that set with a log of what happened to it, and each part of a
function of `Maintenance` has one lemma here that says what a run of it does to both.
-/

namespace EdUsb

open EdUsb.Lib Ed

/-- What the driver answered or was told, as far as handles are concerned. -/
inductive HandleEvent where
  | created (status : FtStatus) (handle : Option FtHandle)
  | gotConf (status : FtStatus)
  | setConf (status : FtStatus)
  | closed (handle : FtHandle)
  deriving DecidableEq

/-- The driver: its live handles, and what happened so far. -/
structure Handles where
  live : Finset FtHandle
  log : List HandleEvent

namespace Handles

def note (w : Handles) (e : HandleEvent) : Handles := { w with log := w.log ++ [e] }

/-- After a successful `FT_Create` that yielded `h`. -/
def opened (w : Handles) (h : FtHandle) : Handles := { w with live := insert h w.live }.note (.created ftOk (some h))

/-- After `FT_Close` was given `h`. -/
def released (w : Handles) (h : FtHandle) : Handles := { w with live := w.live.erase h }.note (.closed h)

section Fields

variable (w : Handles) (e : HandleEvent) (h : FtHandle)

@[simp] theorem log_note : (w.note e).log = w.log ++ [e] := rfl
@[simp] theorem live_note : (w.note e).live = w.live := rfl
@[simp] theorem log_opened : (w.opened h).log = w.log ++ [.created ftOk (some h)] := rfl
@[simp] theorem live_opened : (w.opened h).live = insert h w.live := rfl
@[simp] theorem log_released : (w.released h).log = w.log ++ [.closed h] := rfl
@[simp] theorem live_released : (w.released h).live = w.live.erase h := rfl

end Fields

/-- A successful `FT_Create` yields a handle that is not live, a failed one stores nothing; `FT_Close` releases the handle
it is given; every status is possible, and so are all contents of the locals. -/
def ans (w : Handles) : (o : Op) → o.Ans → Handles → Prop
  | .ft (.create ..), r, w' =>
    Created.status r ≠ ftOk ∧ Created.handle r = none ∧ w' = w.note (.created (Created.status r) none) ∨
      ∃ h, Created.status r = ftOk ∧ Created.handle r = some h ∧ h ≠ 0 ∧ h ∉ w.live ∧ w' = w.opened h
  | .ft (.close h), _, w' => w' = w.released h
  | .ft (.getChipConfiguration _), r, w' => w' = w.note (.gotConf (ChipConf.status r))
  | .ft (.setChipConfiguration ..), s, w' => w' = w.note (.setConf s)
  | _, _, w' => w' = w

def env : Env Op Op.Ans Handles where
  ans := ans
  move _ _ := False

/-- What happened between `w` and the later state `w'`. -/
def since (w w' : Handles) : List HandleEvent := w'.log.drop w.log.length

end Handles

/-- A driver with no live handle. -/
def noHandles : Handles := ⟨∅, []⟩

/-! ### What the parts of a function do -/

section Parts

variable {α : Type} {w w' : Handles} {a : α}

theorem moves_handles {v : Handles} (h : Handles.env.Moves w v) : v = w := h.eq fun _ _ hm => hm

theorem call_runs {o : Op} {k : o.Ans → Ed α} (h : (Prog.call o k).Runs Handles.env w a w') :
    ∃ r v, w.ans o r v ∧ (k r).Runs Handles.env v a w' := by
  obtain ⟨v, r, u, hm, ha, hr⟩ := h
  obtain rfl := moves_handles hm
  exact ⟨r, u, ha, hr⟩

theorem undef_handles {l : Local} {f : l.Val → Ed α} (h : (undef l >>= f).Runs Handles.env w a w') :
    ∃ g, (f g).Runs Handles.env w a w' := by
  obtain ⟨g, v, ha, hr⟩ := call_runs h
  obtain rfl : v = w := ha
  exact ⟨g, hr⟩

theorem setTransConf_handles {f : Unit → Ed α} (h : (setTransConf >>= f).Runs Handles.env w a w') :
    (f ()).Runs Handles.env w a w' := by
  obtain ⟨conf, v, hv, hr⟩ := call_runs h
  obtain ⟨r₀, v₀, h₀, hr⟩ := call_runs hr
  obtain ⟨r₁, v₁, h₁, hr⟩ := call_runs hr
  obtain ⟨r₂, v₂, h₂, hr⟩ := call_runs hr
  obtain ⟨r₃, v₃, h₃, hf⟩ := call_runs hr
  obtain rfl : v = w := hv
  obtain rfl : v₀ = v := h₀
  obtain rfl : v₁ = v₀ := h₁
  obtain rfl : v₂ = v₁ := h₂
  obtain rfl : v₃ = v₂ := h₃
  exact hf

/-- Opening a handle: it fails, and the local keeps what it held, or it yields a handle that was not live. -/
theorem create_handles {pvArg : PvArg} {dwFlags : UInt32} {f : Created → Ed α}
    (h : (ft (.create pvArg dwFlags) >>= f).Runs Handles.env w a w') :
    (∃ s, s ≠ ftOk ∧ (f ⟨s, none⟩).Runs Handles.env (w.note (.created s none)) a w') ∨
      ∃ x, x ≠ 0 ∧ x ∉ w.live ∧ (f ⟨ftOk, some x⟩).Runs Handles.env (w.opened x) a w' := by
  obtain ⟨r, v, hv, hr⟩ := call_runs h
  obtain ⟨s, x⟩ := r
  rcases hv with ⟨hs, rfl, rfl⟩ | ⟨x, rfl, rfl, h0, hx, rfl⟩
  · exact .inl ⟨s, hs, hr⟩
  · exact .inr ⟨x, h0, hx, hr⟩

theorem ftCreate_handles {pvArg : PvArg} {dwFlags : UInt32} {f : Created → Ed α}
    (h : (ftCreateWrapper pvArg dwFlags >>= f).Runs Handles.env w a w') :
    (∃ s, s ≠ ftOk ∧ (f ⟨s, none⟩).Runs Handles.env (w.note (.created s none)) a w') ∨
      ∃ x, x ≠ 0 ∧ x ∉ w.live ∧ (f ⟨ftOk, some x⟩).Runs Handles.env (w.opened x) a w' := by
  unfold ftCreateWrapper at h
  rw [Prog.bind_assoc] at h
  exact create_handles (setTransConf_handles h)

theorem ret_handles {b : α} (h : (Prog.ret b : Ed α).Runs Handles.env w a w') : w' = w := moves_handles h.2

theorem setConf_handles {h : FtHandle} {conf : Ft60xConfiguration} {f : FtStatus → Ed α}
    (hr : (ft (.setChipConfiguration h conf) >>= f).Runs Handles.env w a w') :
    ∃ s, (f s).Runs Handles.env (w.note (.setConf s)) a w' := by
  obtain ⟨s, v, rfl, hf⟩ := call_runs hr
  exact ⟨s, hf⟩

theorem gotConf_handles {h : FtHandle} {f : ChipConf → Ed α}
    (hr : (ft (.getChipConfiguration h) >>= f).Runs Handles.env w a w') :
    ∃ g, (f g).Runs Handles.env (w.note (.gotConf (ChipConf.status g))) a w' := by
  obtain ⟨g, v, rfl, hf⟩ := call_runs hr
  exact ⟨g, hf⟩

theorem ftClose_handles {h : FtHandle} {f : FtStatus → Ed α}
    (hr : (ftCloseWrapper h >>= f).Runs Handles.env w a w') :
    ∃ s, (f s).Runs Handles.env (w.released h) a w' := by
  obtain ⟨s, v, rfl, hf⟩ := call_runs hr
  exact ⟨s, hf⟩

end Parts

/-! ### The log -/

section Log

variable {w v w' : Handles}

/-- The log only grows. -/
theorem log_ans {o : Op} {r : o.Ans} (h : w.ans o r v) : w.log <+: v.log := by
  have hnote : ∀ (u : Handles) (e : HandleEvent), u.log <+: (u.note e).log := by
    intro u e
    exact List.prefix_append ..
  cases o with
  | ft c =>
    cases c with
    | create =>
      rcases h with ⟨-, -, rfl⟩ | ⟨x, -, -, -, -, rfl⟩
      · exact hnote ..
      · exact List.prefix_append ..
    | close => obtain rfl := h; exact List.prefix_append ..
    | getChipConfiguration => obtain rfl := h; exact hnote ..
    | setChipConfiguration => obtain rfl := h; exact hnote ..
    | _ =>
      obtain rfl : v = w := h
      exact List.prefix_rfl
  | errno =>
    obtain rfl : v = w := h
    exact List.prefix_rfl
  | undef =>
    obtain rfl : v = w := h
    exact List.prefix_rfl

theorem log_runs {p : Ed Unit} {a : Unit} (h : p.Runs Handles.env w a w') : w.log <+: w'.log := by
  have hans : ∀ (u : Handles) (o : Op) (r : o.Ans) (x : Handles), w.log <+: u.log → u.ans o r x → w.log <+: x.log :=
    fun _ _ _ _ hu ha => hu.trans (log_ans ha)
  exact h.inv (I := fun u => w.log <+: u.log) hans (fun _ _ _ hm => False.elim hm) List.prefix_rfl

end Log

end EdUsb
