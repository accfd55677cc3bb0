import EdUsb.Lib.Product
import EdUsb.Locals

/-!
# What the driver asks of its callers

`ftd3xx.h` wants the transfer parameters of every FIFO to be set before `FT_Create` and again after `FT_Close`, and a call
that takes a handle wants one that is open.  `Allowed` is that rule for each call of the driver.  A call of the library keeps
to it, whatever the driver answers, exactly if it is `Ready` (`kept_of_ready`, `ready_of_wp`), and then it closes no live
handle but its own (`Kept`).
-/

namespace EdUsb

open EdUsb.Lib Ed

/-! ### The rule -/

/-- The parameters that each FIFO was given since the last `FT_Close`. -/
abbrev Params := UInt32 → Option FtTransferConf

def Params.after (P : Params) : Op → Params
  | .ft (.setTransferParams conf i) => Function.update P i (some conf)
  | .ft (.close _) => fun _ => none
  | _ => P

/-- Takes note of the parameters. -/
def Params.env : Env Op Op.Ans Params where
  ans P o _ P' := P' = P.after o
  move _ _ := False

/-- The driver with its live handles and with the parameters of its FIFOs. -/
def driver : Env Op Op.Ans (Handles × Params) := Handles.env.prod Params.env

/-- Each FIFO was given the parameters that `set_trans_conf` is about. -/
def Prepared (P : Params) : Prop :=
  ∀ i < 4, ∃ conf, P i = some conf ∧ ∀ pipe ∈ conf.pipe.toList, pipe.bURBCount = 7 ∧ pipe.dwURBBufferSize = 1024

/-- The handle that a call takes. -/
def FtCall.handle : FtCall → Option FtHandle
  | .getDriverVersion h | .close h | .abortPipe h _ | .setPipeTimeout h _ _ | .writePipe h _ _ _ _ | .readPipe h _ _ _
  | .getChipConfiguration h | .setChipConfiguration h _ => some h
  | .getLibraryVersion | .setTransferParams .. | .create .. | .getDeviceInfoDetail _ => none

/-- **The rule**: `FT_Create` after the parameters were set, and a call with a handle while it is live. -/
def Allowed (w : Handles × Params) : Op → Prop
  | .ft (.create ..) => Prepared w.2
  | .ft c => ∀ h ∈ c.handle, h ∈ w.1.live
  | _ => True

/-- The driver, which answers only what is allowed. -/
def strictDriver : Env Op Op.Ans (Handles × Params) := driver.guard Allowed

/-! ### The calls of the library -/

/-- `abort_pipe`, and the calls with a result. -/
inductive Use where
  | lib (c : LibCall)
  | abortPipe

namespace Use

def prog : Use → UsbAddr → Ed (Int32 × UsbAddr)
  | .lib c, addr => c.prog addr
  | .abortPipe, addr => do
    EdUsb.abortPipe addr
    return (0, addr)

/-- What a caller has to see to: a transfer needs a handle, a receive a repeat that there is; `sdk_info` goes on with a
handle that it may not have. -/
def Ready (addr : UsbAddr) : Use → Prop
  | .lib (.handle _) => True
  | .lib (.command _) | .abortPipe => addr.handle ≠ 0
  | .lib (.recv c repeatIndex _ _ _) => addr.handle ≠ 0 ∧ repeatIndex < c.repeatCount.toUInt32.toInt32
  | .lib (.maintenance m) => m ≠ .sdkInfo

/-- A function that may return with its own handle open. -/
def Leaks : Use → Prop
  | .lib (.maintenance _) => True
  | _ => False

end Use

/-- The null pointer is no handle, and the handle that is recorded, if any, is live. -/
structure Usable (addr : UsbAddr) (w : Handles) : Prop where
  null : 0 ∉ w.live
  live : addr.handle ≠ 0 → addr.handle ∈ w.live

/-- What a call on `addr` leaves: the handle that it records is new, no live handle is closed but the one that was recorded,
and, unless it `leaks`, a new live handle is recorded. -/
structure Kept (leaks : Prop) (addr : UsbAddr) (w : Handles) (addr' : UsbAddr) (w' : Handles) : Prop
    extends Usable addr' w' where
  new : addr' = addr ∨ addr'.handle ∉ w.live
  closed : addr' = addr ∨ addr.handle ∉ w'.live
  others : ∀ h ∈ w.live, h ≠ addr.handle → h ∈ w'.live
  opened : ∀ h ∈ w'.live, h ∉ w.live → h = addr'.handle ∨ leaks

/-- A call that records nothing and closes nothing. -/
theorem Usable.kept {leaks : Prop} {addr : UsbAddr} {w w' : Handles} (h : Usable addr w) (h0 : 0 ∉ w'.live)
    (hsub : w.live ⊆ w'.live) (hleaks : w'.live ⊆ w.live ∨ leaks) : Kept leaks addr w addr w' where
  null := h0
  live := fun hne => hsub (h.live hne)
  new := .inl rfl
  closed := .inl rfl
  others := fun _ hy _ => hsub hy
  opened := fun _ hy hne => hleaks.elim (fun hsub' => absurd (hsub' hy) hne) .inr

/-- A call that does nothing. -/
theorem Usable.same {leaks : Prop} {addr : UsbAddr} {w w' : Handles} (h : Usable addr w) (hw : w'.live = w.live) :
    Kept leaks addr w addr w' :=
  h.kept (by rw [hw]; exact h.null) hw.ge (.inl hw.le)

/-! ### Going through -/

section Steps

variable {α : Type} {Q : α → Handles × Params → Prop} {w : Handles × Params}

theorem moves_strictDriver {v : Handles × Params} (h : strictDriver.Moves w v) : v = w := by
  refine h.eq fun x y hm => ?_
  rcases hm with ⟨hm, -⟩ | ⟨hm, -⟩ <;> exact hm

theorem wp_ret {a : α} : (Prog.ret a : Ed α).Wp strictDriver Q w ↔ Q a w := by
  constructor
  · intro h
    exact h w (.refl w)
  · intro h v hv
    rwa [moves_strictDriver hv]

theorem wp_call {o : Op} {k : o.Ans → Ed α} :
    (Prog.call o k).Wp strictDriver Q w ↔
      Allowed w o ∧ (∃ r u, w.1.ans o r u) ∧ ∀ r u, w.1.ans o r u → (k r).Wp strictDriver Q (u, w.2.after o) := by
  constructor
  · intro h
    obtain ⟨⟨r, u, hok, ha, -⟩, hall⟩ := h w (.refl w)
    exact ⟨hok, ⟨r, u.1, ha⟩, fun r u ha => hall r (u, w.2.after o) ⟨hok, ha, rfl⟩⟩
  · rintro ⟨hok, ⟨r, u, ha⟩, hall⟩ v hv
    obtain rfl := moves_strictDriver hv
    refine ⟨⟨r, (u, v.2.after o), hok, ha, rfl⟩, ?_⟩
    rintro r ⟨u, P⟩ ⟨-, ha, rfl⟩
    exact hall r u ha

/-- A call that has no say in what is live. -/
theorem wp_other {o : Op} {k : o.Ans → Ed α} {r : o.Ans} {u : o.Ans → Handles}
    (h : ∀ r v, w.1.ans o r v ↔ v = u r) :
    (Prog.call o k).Wp strictDriver Q w ↔ Allowed w o ∧ ∀ r, (k r).Wp strictDriver Q (u r, w.2.after o) := by
  rw [wp_call]
  refine and_congr_right fun _ => ?_
  constructor
  · rintro ⟨-, hall⟩ r
    exact hall r _ ((h r _).2 rfl)
  · intro hall
    refine ⟨⟨r, u r, (h r _).2 rfl⟩, ?_⟩
    intro r v hv
    rw [(h r v).1 hv]
    exact hall r

theorem wp_undef {l : Local} {f : l.Val → Ed α} :
    (undef l >>= f).Wp strictDriver Q w ↔ ∀ g, (f g).Wp strictDriver Q w := by
  have hg : Nonempty l.Val := by cases l <;> exact ⟨default⟩
  obtain ⟨g⟩ := hg
  have h := wp_other (α := α) (Q := Q) (w := w) (o := .undef l) (k := f) (r := g) (u := fun _ => w.1) fun _ _ => Iff.rfl
  exact h.trans (and_iff_right trivial)

/-- The parameters that `set_trans_conf` sets, where its local held `conf`. -/
def tuned (conf : FtTransferConf) : FtTransferConf :=
  let conf := { conf with pipe := conf.pipe.set 0 { getElem conf.pipe 0 Nat.zero_lt_two with bURBCount := 7 } Nat.zero_lt_two }
  let conf := { conf with pipe := conf.pipe.set 1 { getElem conf.pipe 1 Nat.one_lt_two with bURBCount := 7 } Nat.one_lt_two }
  let conf := { conf with pipe := conf.pipe.set 0 { getElem conf.pipe 0 Nat.zero_lt_two with dwURBBufferSize := 1024 } Nat.zero_lt_two }
  { conf with pipe := conf.pipe.set 1 { getElem conf.pipe 1 Nat.one_lt_two with dwURBBufferSize := 1024 } Nat.one_lt_two }

/-- The parameters after every FIFO was given `conf`. -/
def Params.all (P : Params) (conf : FtTransferConf) : Params :=
  [0, 1, 2, 3].foldl (fun P i => Function.update P i (some conf)) P

theorem prepared_all (P : Params) (conf : FtTransferConf) : Prepared (P.all (tuned conf)) := by
  have hpipe : ∀ pipe ∈ (tuned conf).pipe.toList, pipe.bURBCount = 7 ∧ pipe.dwURBBufferSize = 1024 := by
    intro pipe hp
    obtain ⟨i, hi, rfl⟩ := List.getElem_of_mem hp
    have hi2 : i < 2 := by simpa using hi
    obtain rfl | rfl : i = 0 ∨ i = 1 := by omega
    · simp [tuned]
    · simp [tuned]
  intro i hi
  refine ⟨tuned conf, ?_, hpipe⟩
  have h4 : i = 0 ∨ i = 1 ∨ i = 2 ∨ i = 3 := by
    have := UInt32.lt_iff_toNat_lt.1 hi
    simp only [← UInt32.toNat_inj]
    have h : (4 : UInt32).toNat = 4 := rfl
    have h0 : (0 : UInt32).toNat = 0 := rfl
    have h1 : (1 : UInt32).toNat = 1 := rfl
    have h2 : (2 : UInt32).toNat = 2 := rfl
    have h3 : (3 : UInt32).toNat = 3 := rfl
    omega
  rcases h4 with rfl | rfl | rfl | rfl <;> rfl

theorem wp_setTransConf {f : Unit → Ed α} :
    (setTransConf >>= f).Wp strictDriver Q w ↔
      ∀ conf, (f ()).Wp strictDriver Q (w.1, w.2.all (tuned conf)) := by
  have hset : ∀ {w : Handles × Params} {conf : FtTransferConf} {i : UInt32} {k : FtStatus → Ed α},
      (Prog.call (.ft (.setTransferParams conf i)) k).Wp strictDriver Q w ↔
        ∀ s, (k s).Wp strictDriver Q (w.1, Function.update w.2 i (some conf)) := by
    intro w conf i k
    have h := wp_other (α := α) (Q := Q) (w := w) (o := .ft (.setTransferParams conf i)) (k := k) (r := ftOk)
      (u := fun _ => w.1) fun _ _ => Iff.rfl
    exact h.trans (and_iff_right fun h hh => by cases hh)
  -- the local, and then the loop over the FIFOs
  have heq : (setTransConf >>= f) = undef .conf >>= fun conf =>
      .call (.ft (.setTransferParams (tuned conf) 0)) fun _ => .call (.ft (.setTransferParams (tuned conf) 1)) fun _ =>
        .call (.ft (.setTransferParams (tuned conf) 2)) fun _ => .call (.ft (.setTransferParams (tuned conf) 3)) fun _ =>
          f () := rfl
  rw [heq, wp_undef]
  simp only [hset, forall_const]
  rfl

/-- Opening a handle needs the parameters; it fails, or yields a handle that was not live. -/
theorem wp_create {pvArg : PvArg} {dwFlags : UInt32} {f : Created → Ed α} :
    (ft (.create pvArg dwFlags) >>= f).Wp strictDriver Q w ↔
      Prepared w.2 ∧ (∀ s ≠ ftOk, (f ⟨s, none⟩).Wp strictDriver Q (w.1.note (.created s none), w.2)) ∧
        ∀ h ≠ 0, h ∉ w.1.live → (f ⟨ftOk, some h⟩).Wp strictDriver Q (w.1.opened h, w.2) := by
  refine wp_call.trans (and_congr_right fun _ => ?_)
  constructor
  · rintro ⟨-, hall⟩
    exact ⟨fun s hs => hall ⟨s, none⟩ _ (.inl ⟨hs, rfl, rfl⟩),
      fun h h0 hlive => hall ⟨ftOk, some h⟩ _ (.inr ⟨h, rfl, rfl, h0, hlive, rfl⟩)⟩
  · rintro ⟨hfail, hopen⟩
    refine ⟨⟨⟨1, none⟩, _, .inl ⟨(by decide : (1 : FtStatus) ≠ ftOk), rfl, rfl⟩⟩, ?_⟩
    rintro ⟨s, x⟩ u hu
    rcases hu with ⟨hs, rfl, rfl⟩ | ⟨h, rfl, rfl, h0, hlive, rfl⟩
    · exact hfail s hs
    · exact hopen h h0 hlive

/-- `ft_create_wrapper` sets them first. -/
theorem wp_ftCreate {pvArg : PvArg} {dwFlags : UInt32} {f : Created → Ed α} :
    (ftCreateWrapper pvArg dwFlags >>= f).Wp strictDriver Q w ↔
      ∀ conf, (∀ s ≠ ftOk, (f ⟨s, none⟩).Wp strictDriver Q (w.1.note (.created s none), w.2.all (tuned conf))) ∧
        ∀ h ≠ 0, h ∉ w.1.live → (f ⟨ftOk, some h⟩).Wp strictDriver Q (w.1.opened h, w.2.all (tuned conf)) := by
  unfold ftCreateWrapper
  rw [Prog.bind_assoc, wp_setTransConf]
  exact forall_congr' fun conf => wp_create.trans (and_iff_right (prepared_all _ _))

theorem wp_ftClose {h : FtHandle} {f : FtStatus → Ed α} :
    (ftCloseWrapper h >>= f).Wp strictDriver Q w ↔
      h ∈ w.1.live ∧ ∀ s, (f s).Wp strictDriver Q (w.1.released h, fun _ => none) := by
  have hw := wp_other (α := α) (Q := Q) (w := w) (o := .ft (.close h)) (k := f) (r := ftOk)
    (u := fun _ => w.1.released h) fun _ _ => Iff.rfl
  refine hw.trans (and_congr_left fun _ => ?_)
  simp [Allowed, FtCall.handle]

theorem wp_setConf {h : FtHandle} {conf : Ft60xConfiguration} {f : FtStatus → Ed α} :
    (ft (.setChipConfiguration h conf) >>= f).Wp strictDriver Q w ↔
      h ∈ w.1.live ∧ ∀ s, (f s).Wp strictDriver Q (w.1.note (.setConf s), w.2) := by
  have hw := wp_other (α := α) (Q := Q) (w := w) (o := .ft (.setChipConfiguration h conf)) (k := f) (r := ftOk)
    (u := fun s => w.1.note (.setConf s)) fun _ _ => Iff.rfl
  refine hw.trans (and_congr_left fun _ => ?_)
  simp [Allowed, FtCall.handle]

theorem wp_gotConf {h : FtHandle} {f : ChipConf → Ed α} :
    (ft (.getChipConfiguration h) >>= f).Wp strictDriver Q w ↔
      h ∈ w.1.live ∧ ∀ g, (f g).Wp strictDriver Q (w.1.note (.gotConf (ChipConf.status g)), w.2) := by
  have hw := wp_other (α := α) (Q := Q) (w := w) (o := .ft (.getChipConfiguration h)) (k := f) (r := ⟨ftOk, none⟩)
    (u := fun g => w.1.note (.gotConf (ChipConf.status g))) fun _ _ => Iff.rfl
  refine hw.trans (and_congr_left fun _ => ?_)
  simp [Allowed, FtCall.handle]

end Steps

/-! ### Transfers -/

/-- A transfer on the handle `h`, or no call of the driver. -/
def Op.Transfers (h : FtHandle) : Op → Prop
  | .ft (.setPipeTimeout h' _ _) | .ft (.writePipe h' _ _ _ _) | .ft (.readPipe h' _ _ _) => h' = h
  | .ft _ => False
  | _ => True

section Transfers

variable (addr : UsbAddr) {α : Type}

theorem write_calls (buf : Mem) (size : UInt64) (timeout : UInt32) :
    (write addr buf size timeout).Calls (Op.Transfers addr.handle) := by
  simp [write, ft, undef, Prog.Calls, Op.Transfers]

theorem read_calls (buf : Mem) (size : UInt64) (timeout : UInt32) :
    (read addr buf size timeout).Calls (Op.Transfers addr.handle) := by
  simp [read, ft, undef, Prog.Calls, Op.Transfers]

theorem undef_calls {h : FtHandle} {l : Local} {f : l.Val → Ed α} (hf : ∀ g, (f g).Calls (Op.Transfers h)) :
    (undef l >>= f).Calls (Op.Transfers h) := ⟨trivial, hf⟩

theorem exchange_calls (buf : Mem) (code : List UInt8) (success fail verifyErr : Int32) {short : Ed Unit}
    (hs : short = .ret () ∨ short = Ed.errno >>= fun _ => .ret ()) :
    (exchange addr buf code success fail verifyErr short).Calls (Op.Transfers addr.handle) := by
  refine (write_calls addr ..).bind fun n => ?_
  by_cases hn : n ≠ 32
  · rw [if_pos hn]
    trivial
  · rw [if_neg hn]
    refine undef_calls fun g => (read_calls addr ..).bind ?_
    rintro ⟨k, resp⟩
    by_cases hr : k ≠ 32
    · simp only [if_pos hr]
      rcases hs with rfl | rfl
      · trivial
      · exact ⟨trivial, fun _ => trivial⟩
    · simp only [if_neg hr]
      refine undef_calls fun e => ?_
      split <;> trivial

/-- A command makes transfers on its handle and no other calls of the driver. -/
theorem Command.calls (c : Command) : (c.prog addr).Calls (Op.Transfers addr.handle) := by
  cases hc : c.request.answer with
  | some code =>
    obtain ⟨buf, short, -, -, hs, hp⟩ := prog_eq hc addr
    rw [hp]
    exact undef_calls fun g => exchange_calls addr _ _ _ _ _ hs
  | none =>
    obtain rfl := eq_start hc
    refine undef_calls fun g => (write_calls addr ..).bind fun n => ?_
    split <;> trivial

theorem recv_calls {c : UsbConfig} {repeatIndex : Int32} (hi : repeatIndex < c.repeatCount.toUInt32.toInt32) (data : Mem)
    (len : UInt64) (timeout : UInt32) :
    (usbStartRecvRepeatN c addr repeatIndex data len timeout).Calls (Op.Transfers addr.handle) := by
  simp only [usbStartRecvRepeatN, hi, decide_true, Prog.assert_true, Prog.ret_bind]
  exact (read_calls addr ..).bind fun r => trivial

/-- Transfers on a live handle go through and change nothing. -/
theorem wp_transfers {h : FtHandle} {p : Ed α} (hp : p.Calls (Op.Transfers h)) {w : Handles × Params}
    (hlive : h ∈ w.1.live) : p.Wp strictDriver (fun _ v => v = w) w := by
  refine hp.wp (I := fun v => v = w) ?_ (fun x y hx hm => ?_) rfl
  · rintro v o rfl ho
    have hother : ∀ r u, v.1.ans o r u → u = v.1 := by
      intro r u hu
      cases o with
      | ft c => cases c <;> first | exact ho.elim | exact hu
      | errno => exact hu
      | undef l => exact hu
    have hafter : v.2.after o = v.2 := by
      cases o with
      | ft c => cases c <;> first | exact ho.elim | rfl
      | errno => rfl
      | undef l => rfl
    constructor
    · cases o with
      | ft c =>
        cases c with
        | setPipeTimeout h' =>
          obtain rfl : h' = h := ho
          exact ⟨ftOk, v, fun x hx => by cases hx; exact hlive, rfl, hafter.symm⟩
        | writePipe h' =>
          obtain rfl : h' = h := ho
          exact ⟨(⟨ftOk, none⟩ : Written), v, fun x hx => by cases hx; exact hlive, rfl, hafter.symm⟩
        | readPipe h' =>
          obtain rfl : h' = h := ho
          exact ⟨(⟨ftOk, none, []⟩ : Got), v, fun x hx => by cases hx; exact hlive, rfl, hafter.symm⟩
        | _ => exact ho.elim
      | errno => exact ⟨(0 : Int32), v, trivial, rfl, rfl⟩
      | undef l =>
        have hg : Nonempty l.Val := by cases l <;> exact ⟨default⟩
        obtain ⟨g⟩ := hg
        exact ⟨g, v, trivial, rfl, rfl⟩
    · rintro r ⟨u, P⟩ ⟨-, ha, hP⟩
      obtain rfl := hother r u ha
      obtain rfl : P = v.2.after o := hP
      rw [hafter]
  · exact absurd hm fun hm => by rcases hm with ⟨hm, -⟩ | ⟨hm, -⟩ <;> exact hm

/-- What writes first needs a live handle. -/
theorem live_of_write {Q : α → Handles × Params → Prop} {w : Handles × Params} {buf : Mem} {size : UInt64}
    {timeout : UInt32} {f : UInt64 → Ed α} (h : (write addr buf size timeout >>= f).Wp strictDriver Q w) :
    addr.handle ∈ w.1.live := (wp_call.1 h).1 _ rfl

theorem live_of_read {Q : α → Handles × Params → Prop} {w : Handles × Params} {buf : Mem} {size : UInt64}
    {timeout : UInt32} {f : UInt64 × Mem → Ed α} (h : (read addr buf size timeout >>= f).Wp strictDriver Q w) :
    addr.handle ∈ w.1.live := (wp_call.1 h).1 _ rfl

theorem live_of_command {Q : Int32 → Handles × Params → Prop} {w : Handles × Params} {c : Command}
    (h : (c.prog addr).Wp strictDriver Q w) : addr.handle ∈ w.1.live := by
  cases hc : c.request.answer with
  | some code =>
    obtain ⟨buf, short, -, -, hs, hp⟩ := Command.prog_eq hc addr
    rw [hp] at h
    exact live_of_write addr (wp_undef.1 h fun _ => 0)
  | none =>
    obtain rfl := Command.eq_start hc
    exact live_of_write addr (wp_undef.1 h fun _ => 0)

end Transfers

/-! ### Opening and closing -/

/-- A call that sets the parameters, or no call of the driver. -/
def Op.Prepares : Op → Prop
  | .ft (.setTransferParams ..) => True
  | .ft _ => False
  | _ => True

/-- The calls that open and close a handle. -/
def Op.Opens : Op → Prop
  | .ft (.create ..) | .ft (.close _) => True
  | o => o.Prepares

theorem setTransConf_calls : setTransConf.Calls Op.Prepares := by
  simp [setTransConf, ft, undef, Prog.Calls, Op.Prepares]

theorem Op.Prepares.opens {o : Op} (ho : o.Prepares) : o.Opens := by
  cases o with
  | ft c => cases c <;> first | exact ho.elim | trivial
  | errno => trivial
  | undef l => trivial

theorem ftCreateWrapper_calls (pvArg : PvArg) (dwFlags : UInt32) : (ftCreateWrapper pvArg dwFlags).Calls Op.Opens :=
  (setTransConf_calls.mono fun _ ho => ho.opens).bind fun _ => ⟨trivial, fun _ => trivial⟩

/-- A call on a `usb_addr_t` opens or closes its handle and makes no other calls of the driver. -/
theorem HandleCall.calls (c : HandleCall) (addr : UsbAddr) : (c.prog addr).Calls Op.Opens := by
  have hopen : ∀ pvArg dwFlags, (openInto pvArg dwFlags addr).Calls Op.Opens := by
    intro pvArg dwFlags
    unfold openInto
    split
    · trivial
    · refine (ftCreateWrapper_calls ..).bind fun r => ?_
      split <;> trivial
  cases c with
  | create => exact hopen ..
  | createWithSerialNum => exact hopen ..
  | close =>
    simp only [HandleCall.prog, usbCloseHandle]
    split
    · exact ⟨trivial, fun _ => trivial⟩
    · trivial

theorem abortPipe_calls (addr : UsbAddr) :
    (EdUsb.abortPipe addr).Calls fun o => ∃ i, o = .ft (.abortPipe addr.handle i) :=
  ⟨⟨_, rfl⟩, fun _ => ⟨⟨_, rfl⟩, fun _ => ⟨⟨_, rfl⟩, fun _ => trivial⟩⟩⟩

/-! ### The functions that open a handle -/

section Functions

variable {addr : UsbAddr} {w : Handles × Params}

theorem openInto_kept (pvArg : PvArg) (dwFlags : UInt32) (h : Usable addr w.1) :
    (openInto pvArg dwFlags addr).Wp strictDriver (fun r v => Kept False addr w.1 r.2 v.1) w := by
  unfold openInto
  by_cases h0 : addr.handle = 0
  · have hnull : addr.handle ∉ w.1.live := by
      rw [h0]
      exact h.null
    simp only [ne_eq, h0, not_true_eq_false, if_false]
    refine wp_ftCreate.2 fun conf => ⟨?_, ?_⟩
    · intro s hs
      simp only [hs, not_false_eq_true, if_true, Option.getD_none]
      exact wp_ret.2 ⟨⟨h.null, fun hne => absurd rfl hne⟩, .inr h.null, .inr hnull, fun _ hy _ => hy,
        fun _ hy hne => absurd hy hne⟩
    · intro x hx0 hx
      simp only [not_true_eq_false, if_false, Option.getD_some]
      refine wp_ret.2 ⟨⟨?_, fun _ => Finset.mem_insert_self x _⟩, .inr hx, .inr ?_,
        fun _ hy _ => Finset.mem_insert_of_mem hy, ?_⟩
      · rw [Handles.live_opened, Finset.mem_insert, not_or]
        exact ⟨hx0.symm, h.null⟩
      · rw [Handles.live_opened, Finset.mem_insert, not_or, h0]
        exact ⟨hx0.symm, h.null⟩
      · intro y hy hne
        exact .inl ((Finset.mem_insert.1 hy).resolve_right hne)
  · simp only [ne_eq, h0, not_false_eq_true, if_true]
    exact wp_ret.2 (h.same rfl)

theorem close_kept (h : Usable addr w.1) :
    (usbCloseHandle addr).Wp strictDriver (fun r v => Kept False addr w.1 r.2 v.1) w := by
  unfold usbCloseHandle
  by_cases h0 : addr.handle = 0
  · have hnull : addr.handle ∉ w.1.live := by
      rw [h0]
      exact h.null
    simp only [ne_eq, h0, not_true_eq_false, if_false]
    exact wp_ret.2 ⟨⟨h.null, fun hne => absurd rfl hne⟩, .inr h.null, .inr hnull, fun _ hy _ => hy,
      fun _ hy hne => absurd hy hne⟩
  · simp only [ne_eq, h0, not_false_eq_true, if_true]
    refine wp_ftClose.2 ⟨h.live h0, fun s => wp_ret.2 ⟨⟨?_, fun hne => absurd rfl hne⟩, .inr h.null,
      .inr (Finset.notMem_erase _ _), ?_, ?_⟩⟩
    · intro hmem
      exact h.null (Finset.mem_of_mem_erase hmem)
    · intro y hy hne
      exact Finset.mem_erase_of_ne_of_mem hne hy
    · intro y hy hne
      exact absurd (Finset.mem_of_mem_erase hy) hne

/-- What is left of a handle that was opened and not closed. -/
theorem Usable.left {v : Handles} {x : FtHandle} (h : Usable addr w.1) (hx0 : x ≠ 0) (hv : v.live = insert x w.1.live) :
    Kept True addr w.1 addr v := by
  refine h.kept ?_ ?_ (.inr trivial)
  · rw [hv, Finset.mem_insert, not_or]
    exact ⟨hx0.symm, h.null⟩
  · rw [hv]
    exact Finset.subset_insert x w.1.live

/-- What is left of one that was closed again. -/
theorem Usable.closed {v : Handles} {x : FtHandle} (h : Usable addr w.1) (hx : x ∉ w.1.live)
    (hv : v.live = (insert x w.1.live).erase x) : Kept True addr w.1 addr v := by
  rw [Finset.erase_insert hx] at hv
  exact h.same hv

theorem setChip_kept (conf : Ft60xConfiguration) (h : Usable addr w.1) :
    (setChip conf).Wp strictDriver (fun _ v => Kept True addr w.1 addr v.1) w := by
  refine wp_undef.2 fun g => wp_ftCreate.2 fun c => ⟨fun s hs => ?_, fun x hx0 hx => ?_⟩
  · simp only [ne_eq, hs, not_false_eq_true, if_true]
    exact wp_ret.2 (h.same rfl)
  · simp only [ne_eq, not_true_eq_false, if_false, Option.getD_some]
    refine wp_setConf.2 ⟨Finset.mem_insert_self x _, fun s => ?_⟩
    by_cases hs : s = ftOk
    · simp only [hs, not_true_eq_false, if_false]
      exact wp_ftClose.2 ⟨Finset.mem_insert_self x _, fun t => wp_ret.2 (h.closed hx rfl)⟩
    · simp only [hs, not_false_eq_true, if_true]
      exact wp_ret.2 (h.left hx0 rfl)

theorem resetDevicenull_kept (h : Usable addr w.1) :
    EdUsb.resetDevicenull.Wp strictDriver (fun _ v => Kept True addr w.1 addr v.1) w := by
  refine wp_undef.2 fun g => wp_ftCreate.2 fun c => ⟨fun s hs => ?_, fun x hx0 hx => ?_⟩
  · simp only [ftFailed, bne_iff_ne, ne_eq, hs, not_false_eq_true, if_true]
    exact wp_ret.2 (h.same rfl)
  · simp only [ftFailed, bne_self_eq_false, Bool.false_eq_true, if_false, Option.getD_some]
    exact wp_ftClose.2 ⟨Finset.mem_insert_self x _, fun t => wp_ret.2 (h.closed hx rfl)⟩

theorem resetDefault_kept (h : Usable addr w.1) :
    EdUsb.resetDefault.Wp strictDriver (fun _ v => Kept True addr w.1 addr v.1) w := by
  refine wp_undef.2 fun g => wp_ftCreate.2 fun c => ⟨fun s hs => ?_, fun x hx0 hx => ?_⟩
  · simp only [ftFailed, bne_iff_ne, ne_eq, hs, not_false_eq_true, if_true]
    exact wp_ret.2 (h.same rfl)
  · simp only [ftFailed, bne_self_eq_false, Bool.false_eq_true, if_false, Option.getD_some]
    refine (wp_other (r := ftOk) (u := fun _ => w.1.opened x) fun _ _ => Iff.rfl).2 ⟨fun y hy => (by cases hy), ?_⟩
    intro t
    refine wp_gotConf.2 ⟨Finset.mem_insert_self x _, fun g => ?_⟩
    by_cases hs : ChipConf.status g = ftOk
    · simp only [hs, ne_eq, not_true_eq_false, if_false]
      refine wp_setConf.2 ⟨Finset.mem_insert_self x _, fun s => ?_⟩
      -- both branches close the handle
      by_cases ht : (s != ftOk) = true
      · simp only [ht, if_true]
        exact wp_ftClose.2 ⟨Finset.mem_insert_self x _, fun t => wp_ret.2 (h.closed hx rfl)⟩
      · simp only [ht]
        exact wp_ftClose.2 ⟨Finset.mem_insert_self x _, fun t => wp_ret.2 (h.closed hx rfl)⟩
    · simp only [hs, ne_eq, not_false_eq_true, if_true]
      exact wp_ret.2 (h.left hx0 rfl)

theorem getChipConfiguration_kept (h : Usable addr w.1) :
    EdUsb.getChipConfiguration.Wp strictDriver (fun _ v => Kept True addr w.1 addr v.1) w := by
  refine wp_undef.2 fun g => wp_ftCreate.2 fun c => ⟨fun s hs => ?_, fun x hx0 hx => ?_⟩
  · simp only [ne_eq, hs, not_false_eq_true, if_true]
    exact wp_ret.2 (h.same rfl)
  · simp only [ne_eq, not_true_eq_false, if_false, Option.getD_some]
    refine wp_gotConf.2 ⟨Finset.mem_insert_self x _, fun g => ?_⟩
    by_cases hs : ChipConf.status g = ftOk
    · simp only [hs, not_true_eq_false, if_false]
      exact wp_ftClose.2 ⟨Finset.mem_insert_self x _, fun t => wp_ret.2 (h.closed hx rfl)⟩
    · simp only [hs, not_false_eq_true, if_true]
      exact wp_ret.2 (h.left hx0 rfl)

/-- A function that opens a handle for itself goes through, and closes no handle that was live before. -/
theorem maintenance_kept {m : Maintenance} (hm : m ≠ .sdkInfo) (h : Usable addr w.1) :
    m.prog.Wp strictDriver (fun _ v => Kept True addr w.1 addr v.1) w := by
  cases m with
  | sdkInfo => exact absurd rfl hm
  | resetDevice601 =>
    rw [Maintenance.prog, resetDevice601_eq]
    exact setChip_kept _ h
  | resetDevice245 =>
    rw [Maintenance.prog, resetDevice245_eq]
    exact setChip_kept _ h
  | resetDevicenull => exact resetDevicenull_kept h
  | resetDefault => exact resetDefault_kept h
  | getChipConfiguration => exact getChipConfiguration_kept h

/-- `sdk_info` asks for the version of a handle that it may not have. -/
theorem not_wp_sdkInfo {Q : Unit → Handles × Params → Prop} (h0 : 0 ∉ w.1.live) :
    ¬ EdUsb.sdkInfo.Wp strictDriver Q w := by
  intro h
  obtain ⟨-, -, h⟩ := wp_call.1 h
  have h := wp_undef.1 (wp_setTransConf.1 (h ftOk w.1 rfl) default) 0
  -- `FT_Create` may fail, and the local then still holds what it held
  obtain ⟨-, -, h⟩ := wp_call.1 h
  exact h0 ((wp_call.1 (h ⟨1, none⟩ _ (.inl ⟨(by decide : (1 : FtStatus) ≠ ftOk), rfl, rfl⟩))).1 0 rfl)

end Functions

/-! ### Which calls keep to the rule -/

section Ready

variable {addr : UsbAddr} {w : Handles × Params}

/-- A call that keeps to the rule whatever the driver answers is ready. -/
theorem ready_of_wp {c : Use} {Q : Int32 × UsbAddr → Handles × Params → Prop} (h : Usable addr w.1)
    (hw : (c.prog addr).Wp strictDriver Q w) : c.Ready addr := by
  have hne : addr.handle ∈ w.1.live → addr.handle ≠ 0 := by
    intro hmem he
    rw [he] at hmem
    exact h.null hmem
  cases c with
  | lib c =>
    cases c with
    | handle c => trivial
    | command c => exact hne (live_of_command addr (Prog.wp_of_bind hw))
    | recv c repeatIndex data len timeout =>
      have hw := Prog.wp_of_bind hw
      by_cases hi : repeatIndex < c.repeatCount.toUInt32.toInt32
      · simp only [usbStartRecvRepeatN, hi, decide_true, Prog.assert_true, Prog.ret_bind] at hw
        exact ⟨hne (live_of_read addr hw), hi⟩
      · simp only [usbStartRecvRepeatN, hi, decide_false, Prog.assert_false, Prog.fail_bind] at hw
        exact hw.elim
    | maintenance m =>
      rintro rfl
      exact not_wp_sdkInfo h.null (Prog.wp_of_bind hw)
  | abortPipe => exact hne ((wp_call.1 (Prog.wp_of_bind hw)).1 _ rfl)

theorem abortPipe_wp (hlive : addr.handle ∈ w.1.live) :
    (EdUsb.abortPipe addr).Wp strictDriver (fun _ v => v = w) w := by
  have hcall : ∀ {i : UInt8} {k : FtStatus → Ed Unit}, (∀ s, (k s).Wp strictDriver (fun _ v => v = w) w) →
      (Prog.call (.ft (.abortPipe addr.handle i)) k).Wp strictDriver (fun _ v => v = w) w := by
    intro i k hk
    refine (wp_other (r := ftOk) (u := fun _ => w.1) fun _ _ => Iff.rfl).2 ⟨fun x hx => ?_, hk⟩
    cases hx
    exact hlive
  exact hcall fun _ => hcall fun _ => hcall fun _ => wp_ret.2 rfl

/-- **Step.**  A ready call keeps to the rule whatever the driver answers, and closes no handle but its own. -/
theorem kept_of_ready {c : Use} (h : Usable addr w.1) (hc : c.Ready addr) :
    (c.prog addr).Wp strictDriver (fun r v => Kept c.Leaks addr w.1 r.2 v.1) w := by
  have hkeep : ∀ {α : Type} {p : Ed α} {f : α → Ed (Int32 × UsbAddr)}, p.Wp strictDriver (fun _ v => v = w) w →
      (∀ a, ∃ b, f a = .ret (b, addr)) → (p >>= f).Wp strictDriver (fun r v => Kept c.Leaks addr w.1 r.2 v.1) w := by
    intro α p f hp hf
    refine Prog.wp_bind (hp.mono fun a v hv => ?_)
    obtain ⟨b, hb⟩ := hf a
    rw [hv, hb]
    exact wp_ret.2 (h.same rfl)
  cases c with
  | lib c =>
    cases c with
    | handle c =>
      cases c with
      | create => exact openInto_kept _ _ h
      | createWithSerialNum => exact openInto_kept _ _ h
      | close => exact close_kept h
    | command c => exact hkeep (wp_transfers (Command.calls addr c) (h.live hc)) fun a => ⟨a, rfl⟩
    | recv c repeatIndex data len timeout =>
      exact hkeep (wp_transfers (recv_calls addr hc.2 data len timeout) (h.live hc.1)) fun a => ⟨a.1, rfl⟩
    | maintenance m => exact Prog.wp_bind ((maintenance_kept hc h).mono fun a v hv => wp_ret.2 hv)
  | abortPipe => exact hkeep (abortPipe_wp (h.live hc)) fun _ => ⟨0, rfl⟩

end Ready

end EdUsb
