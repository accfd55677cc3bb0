import EdUsb.Discipline
import EdUsb.Session

/-!
# test/happy-path.c

The sample program, with each of its jumps to `END`.  On every path it opens one handle and closes it with its last call,
and it never makes a call that the driver forbids (`happyPath_wp`).
-/

namespace EdUsb

open EdUsb.Lib Ed

/-! ## The program -/

/-- The configuration that `main` uses; `c` is what `malloc` returned. -/
def happyPathConfig (c : UsbConfig) : UsbConfig :=
  { usbLoadDefaultConfig c with
    sampleCount := 1000000
    delayCount := 320000
    repeatCount := 3
    adChannel := 1
    trigger := usbTriggerOuter }

/-- The exit code, and what each `usb_start_recv_repeat_n` returned and left in its buffer. -/
structure HappyPath where
  exitCode : Int32
  received : List (Int32 × Mem)

/-- The last `m` rounds of `for (int i = 0; i < cfg->repeat_count; i++)`: what was received, and whether no round jumped to
`END`. -/
def recvRepeats (cfg : UsbConfig) (addr : UsbAddr) (cnt : Int32) (timeout : UInt32) :
    ℕ → ℕ → Ed (List (Int32 × Mem) × Bool)
  | _, 0 => return ([], true)
  | i, m + 1 => do
    let buf ← undef .buf
    let r ← usbStartRecvRepeatN cfg addr (Int32.ofNat i) buf cnt.toInt64.toUInt64 timeout
    if r.1 ≠ cnt then return ([r], false)
    let (rs, done) ← recvRepeats cfg addr cnt timeout (i + 1) m
    return (r :: rs, done)

/-- `int cnt`: the product is taken in `uint32_t` -/
def repeatCnt (cfg : UsbConfig) : Int32 := (cfg.sampleCount * cfg.adChannel.toInt32.toUInt32 * 2).toInt32

/-- `main` between `abort_pipe` and `END`. -/
def happyPathCommands (cfg : UsbConfig) (addr : UsbAddr) : Ed (List (Int32 × Mem)) := do
  if (← usbStopCollect addr) ≠ usbStopCollectSuccess then return []
  if (← usbDevConnect addr) ≠ usbConnectSuccess then return []
  if (← usbSendConfigToDevice cfg addr) ≠ usbSendConfigSuccess then return []
  if (← usbStartCollect addr) ≠ usbStartCollectSuccess then return []
  let timeout : UInt32 := 1000
  let timeout := if cfg.trigger = usbTriggerOuter then 5 * timeout else timeout
  let (received, done) ← recvRepeats cfg addr (repeatCnt cfg) timeout 0 cfg.repeatCount.toNat
  if !done then return received
  let _ ← usbStopCollect addr
  return received

/-- `main` from `usb_create_handle` on, for any configuration. -/
def happyPath (cfg : UsbConfig) : Ed HappyPath := do
  let (establishRes, addr) ← usbCreateHandle ⟨0⟩
  if establishRes ≠ 0 then return ⟨1, []⟩
  abortPipe addr
  let received ← happyPathCommands cfg addr
  let _ ← usbCloseHandle addr
  return ⟨0, received⟩

/-- `main` -/
def happyPathMain (c : UsbConfig) : Ed HappyPath := happyPath (happyPathConfig c)

/-! ## Its calls of the driver -/

section Calls

variable {cfg : UsbConfig} {addr : UsbAddr}

/-- The index of a receive is always below `repeat_count`. -/
theorem recvRepeats_calls (cnt : Int32) (timeout : UInt32) {i m : ℕ} (h : i + m ≤ cfg.repeatCount.toNat) :
    (recvRepeats cfg addr cnt timeout i m).Calls (Op.Transfers addr.handle) := by
  induction m generalizing i with
  | zero => trivial
  | succ m ih =>
    have hi : i < cfg.repeatCount.toNat := by omega
    refine undef_calls fun buf => (recv_calls addr (repeatIndex_lt hi) ..).bind fun r => ?_
    by_cases hr : r.1 ≠ cnt
    · rw [if_pos hr]
      trivial
    · rw [if_neg hr]
      exact (ih (by omega)).bind fun rs => trivial

/-- The commands and receives of `main` make transfers on its handle and no other calls of the driver. -/
theorem happyPathCommands_calls : (happyPathCommands cfg addr).Calls (Op.Transfers addr.handle) := by
  refine (Command.calls addr .stop).bind fun stop => ?_
  split
  · trivial
  refine (Command.calls addr .connect).bind fun connect => ?_
  split
  · trivial
  refine (Command.calls addr (.config cfg)).bind fun config => ?_
  split
  · trivial
  refine (Command.calls addr .start).bind fun start => ?_
  split
  · trivial
  refine (recvRepeats_calls _ _ (by omega)).bind ?_
  rintro ⟨received, done⟩
  cases done with
  | false => trivial
  | true => exact (Command.calls addr .stop).bind fun _ => trivial

end Calls

/-- The calls that `main` makes on its open handle `h`. -/
def Op.Uses (h : FtHandle) : Op → Prop
  | .ft (.abortPipe h' _) => h' = h
  | o => o.Transfers h

theorem uses_of_transfers {h : FtHandle} {o : Op} (ho : o.Transfers h) : o.Uses h := by
  cases o with
  | ft c => cases c <;> first | exact ho.elim | exact ho
  | errno => trivial
  | undef l => trivial

/-! ## A run of `main` -/

/-- The handles after a run of `main`, and all calls that it made, in order: `FT_Create` failed and was the last call, or the
one handle that it yielded was used and its `FT_Close` was the last call. -/
inductive HappyPath.Handled (w : Handles) : HappyPath → Handles → List Op → Prop
  | failed (s : FtStatus) (prep : List Op) : s ≠ ftOk → (∀ o ∈ prep, o.Prepares) →
      Handled w ⟨1, []⟩ (w.note (.created s none)) (prep ++ [.ft (.create .null ftOpenByIndex)])
  | closed (h : FtHandle) (received : List (Int32 × Mem)) (prep used : List Op) : h ≠ 0 → h ∉ w.live →
      (∀ o ∈ prep, o.Prepares) → (∀ o ∈ used, o.Uses h) →
      Handled w ⟨0, received⟩ ((w.opened h).released h)
        (prep ++ [.ft (.create .null ftOpenByIndex)] ++ used ++ [.ft (.close h)])

section Main

variable {α : Type} {w : Handles × Params}

/-- `set_trans_conf` prepares all FIFOs. -/
theorem setTransConf_wp : setTransConf.Wp strictDriver (fun _ v => v.1 = w.1 ∧ Prepared v.2) w := by
  have h : (setTransConf >>= fun _ => (.ret () : Ed Unit)).Wp strictDriver (fun _ v => v.1 = w.1 ∧ Prepared v.2) w :=
    wp_setTransConf.2 fun conf => wp_ret.2 ⟨rfl, prepared_all _ _⟩
  exact (Prog.wp_of_bind h).mono fun _ _ hv => wp_ret.1 hv

theorem create_wp (pvArg : PvArg) (dwFlags : UInt32) (hP : Prepared w.2) :
    (ft (.create pvArg dwFlags)).Wp strictDriver
      (fun r v => r.status ≠ ftOk ∧ r.handle = none ∧ v.1 = w.1.note (.created r.status none) ∨
        ∃ h, r.status = ftOk ∧ r.handle = some h ∧ h ≠ 0 ∧ h ∉ w.1.live ∧ v.1 = w.1.opened h) w :=
  (wp_create (f := .ret)).2 ⟨hP, fun _ hs => wp_ret.2 (.inl ⟨hs, rfl, rfl⟩),
    fun h h0 hlive => wp_ret.2 (.inr ⟨h, rfl, rfl, h0, hlive, rfl⟩)⟩

theorem close_wp {h : FtHandle} (hlive : h ∈ w.1.live) :
    (ft (.close h)).Wp strictDriver (fun _ v => v.1 = w.1.released h) w :=
  (wp_ftClose (f := .ret)).2 ⟨hlive, fun _ => wp_ret.2 rfl⟩

theorem wp_ret_logged {Q : α → (Handles × Params) × List Op → Prop} {a : α} {x : (Handles × Params) × List Op}
    (h : Q a x) : (Prog.ret a : Ed α).Wp strictDriver.logged Q x := by
  intro y hy
  obtain ⟨hm, he⟩ := Env.moves_logged hy
  rwa [Prod.ext (moves_strictDriver hm) he]

/-- **The sample program and the driver.**  For every configuration, whatever the driver answers: no assertion fails, no
call of the driver breaks its rule, and the handle that was opened, if any, is closed exactly once, by the last call of all,
so that the same handles are live as before. -/
theorem happyPath_wp (cfg : UsbConfig) (w : Handles × Params) :
    (happyPath cfg).Wp strictDriver.logged
      (fun t x => HappyPath.Handled w.1 t x.1.1 x.2 ∧ x.1.1.live = w.1.live) (w, []) := by
  have hcreate : ∀ {f : Int32 × UsbAddr → Ed HappyPath}, (usbCreateHandle ⟨0⟩ >>= f) =
      setTransConf >>= fun _ => ft (.create .null ftOpenByIndex) >>= fun r =>
        if r.status ≠ ftOk then f (r.status.toInt32, ⟨r.handle.getD 0⟩) else f (0, ⟨r.handle.getD 0⟩) := by
    intro f
    unfold usbCreateHandle ftCreateWrapper
    simp only [ne_eq, not_true_eq_false, if_false, Prog.bind_assoc]
    congr 1
    funext _
    congr 1
    funext r
    split <;> rfl
  unfold happyPath
  rw [hcreate]
  refine Prog.wp_bind ((setTransConf_wp.logged setTransConf_calls []).mono ?_)
  rintro _ ⟨v, prep⟩ ⟨⟨hv, hP⟩, _, hprep, rfl⟩
  refine Prog.wp_bind ((Prog.wp_logged_call (create_wp .null ftOpenByIndex hP) _).mono ?_)
  rintro ⟨s, x⟩ ⟨u, l⟩ ⟨hu, rfl⟩
  rw [hv] at hu
  rcases hu with ⟨hs, -, hu⟩ | ⟨h, rfl, rfl, h0, hlive, hu⟩
  · simp only [ne_eq, hs, not_false_eq_true, if_true, toInt32_ne_zero hs]
    refine wp_ret_logged ?_
    rw [hu]
    exact ⟨.failed s prep hs hprep, rfl⟩
  · simp only [ne_eq, not_true_eq_false, if_false, Option.getD_some]
    -- between opening the handle and closing it `main` only makes calls on it
    have hlive' : h ∈ u.1.live := by
      rw [hu]
      exact Finset.mem_insert_self h _
    refine Prog.wp_bind (((abortPipe_wp hlive').logged (abortPipe_calls ⟨h⟩) _).mono ?_)
    rintro _ ⟨_, l⟩ ⟨rfl, abort, habort, rfl⟩
    refine Prog.wp_bind (((wp_transfers happyPathCommands_calls hlive').logged happyPathCommands_calls _).mono ?_)
    rintro received ⟨_, l⟩ ⟨rfl, transfers, htransfers, rfl⟩
    unfold usbCloseHandle
    simp only [ne_eq, h0, not_false_eq_true, if_true, Prog.bind_assoc]
    refine Prog.wp_bind ((Prog.wp_logged_call (close_wp hlive') _).mono ?_)
    rintro _ ⟨v', l⟩ ⟨hv', rfl⟩
    refine wp_ret_logged ?_
    rw [hv', hu]
    have huse : ∀ o ∈ abort ++ transfers, o.Uses h := by
      intro o ho
      rcases List.mem_append.1 ho with ho | ho
      · obtain ⟨i, rfl⟩ := habort o ho
        rfl
      · exact uses_of_transfers (htransfers o ho)
    refine ⟨?_, Finset.erase_insert hlive⟩
    show HappyPath.Handled _ _ _ (prep ++ _ ++ abort ++ transfers ++ _)
    rw [List.append_assoc _ abort]
    exact .closed h received prep (abort ++ transfers) h0 hlive hprep huse

end Main

end EdUsb
