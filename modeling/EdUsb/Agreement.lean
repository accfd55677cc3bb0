import EdUsb.Leftovers

/-!
# Which configuration the device is started with

A `Wire` takes note of the requests that reached the device in full: of the configuration that it holds, and of the one
that it held at each start.  Wherever every transfer stores its count, and a frame reaches the device exactly if that
count is 32, a command that does not fail reached the device (`wire_run`), so the device holds what was sent last
(`held_of_config`), and a run of the sample program starts it with the configuration of that run only (`started_with`).
-/

namespace EdUsb

open EdUsb.Lib Ed

/-! ### The wire -/

/-- What reached the device: the last configuration request, and for each start the one that was held. -/
structure Wire where
  held : Option (List UInt8)
  starts : List (Option (List UInt8))

namespace Wire

/-- A frame reached the device. -/
def got (w : Wire) (frame : List UInt8) : Wire :=
  match requestOf frame with
  | some .config => { w with held := some frame }
  | some .start => { w with starts := w.starts ++ [w.held] }
  | _ => w

def after (w : Wire) : (o : Op) → o.Ans → Wire
  | .ft (.writePipe _ _ b _ _), r => if Written.count r = some 32 then w.got b else w
  | _, _ => w

/-- Takes note of the frames. -/
def env : Env Op Op.Ans Wire where
  ans w o r w' := w' = w.after o r
  move _ _ := False

theorem got_frame (w : Wire) (c : Command) :
    w.got c.frame =
      match c with
      | .config cfg => { w with held := some (configFrame cfg) }
      | .start => { w with starts := w.starts ++ [w.held] }
      | _ => w := by
  unfold got
  rw [Command.requestOf_frame]
  cases c <;> rfl

end Wire

section Commands

variable {W : Type} {E : Env Op Op.Ans W} (hE : Quiet E) {x y : W × Wire}

theorem moves_wire (h : (E.prod Wire.env).Moves x y) : y.2 = x.2 := by
  induction h with
  | refl => rfl
  | tail _ hm ih =>
    rcases hm with ⟨-, he⟩ | ⟨hm, -⟩
    · exact he.trans ih
    · exact hm.elim

include hE

theorem quiet_wire : Quiet (E.prod Wire.env) where
  setPipeTimeout h := Prod.ext (hE.setPipeTimeout h.1) h.2
  errno h := Prod.ext (hE.errno h.1) h.2
  undef h := Prod.ext (hE.undef h.1) h.2
  written h := hE.written h.1
  got h := hE.got h.1

/-- A command has its frame written, in full unless it fails. -/
theorem wire_run {addr : UsbAddr} {c : Command} {a : Int32} (h : (c.prog addr).Runs (E.prod Wire.env) x a y) :
    y.2 = x.2 ∧ a = c.fail ∨ y.2 = x.2.got c.frame := by
  have hwrite : ∀ {v u : W × Wire} {r : Written} {k : UInt32} {frame : List UInt8},
      (E.prod Wire.env).ans v (.ft (writeCall addr frame)) r u → r.count = some k →
      u.2 = if k = 32 then v.2.got frame else v.2 := by
    intro v u r k frame ha hk
    have hu : u.2 = if r.count = some 32 then v.2.got frame else v.2 := ha.2
    rw [hu, hk]
    simp
  have hread : ∀ {v u : W × Wire} {g : Got}, (E.prod Wire.env).ans v (.ft (readCall addr 32)) g u → u.2 = v.2 :=
    fun ha => ha.2
  cases hc : c.request.answer with
  | some code =>
    obtain ⟨buf, short, hb, h8, hs, hp⟩ := Command.prog_eq hc addr
    rw [hp] at h
    obtain ⟨m, h⟩ := (quiet_wire hE).undef_bind h
    have hex := (quiet_wire hE).exchanged h8 hs h
    rw [hb] at hex
    cases hex with
    | unwritten hm ha hk hk32 hm₂ =>
      have hu := hwrite ha hk
      rw [if_neg hk32] at hu
      exact .inl ⟨by rw [moves_wire hm₂, hu, moves_wire hm], rfl⟩
    | short hm ha hk hm₂ ha₂ _ hm₃ =>
      have hu := hwrite ha hk
      rw [if_pos rfl] at hu
      exact .inr (by rw [moves_wire hm₃, hread ha₂, moves_wire hm₂, hu, moves_wire hm])
    | full hm ha hk hm₂ ha₂ _ hm₃ =>
      have hu := hwrite ha hk
      rw [if_pos rfl] at hu
      exact .inr (by rw [moves_wire hm₃, hread ha₂, moves_wire hm₂, hu, moves_wire hm])
  | none =>
    obtain rfl := Command.eq_start hc
    obtain ⟨m, h⟩ := (quiet_wire hE).undef_bind h
    obtain ⟨v, r, u, k, hm, ha, hk, h⟩ := (quiet_wire hE).write_bind h
    have hu := hwrite ha hk
    rw [show UInt64.toNat 32 = 32 from rfl, bytes_codeFrame _ rfl] at hu
    by_cases hk32 : k = 32
    · subst hk32
      obtain ⟨rfl, hm₂⟩ := h
      rw [if_pos rfl] at hu
      exact .inr (by rw [moves_wire hm₂, hu, moves_wire hm]; rfl)
    · simp only [ne_eq, toUInt64_eq_32, hk32, not_false_eq_true, if_true] at h
      obtain ⟨rfl, hm₂⟩ := h
      rw [if_neg hk32] at hu
      exact .inl ⟨by rw [moves_wire hm₂, hu, moves_wire hm], rfl⟩

end Commands

/-! ### Sequences of commands -/

section Held

variable {W : Type} {E : Env Op Op.Ans W} {addr : UsbAddr} {x y : W × Wire} {cfg : UsbConfig}

/-- The device holds the configuration, and every start since then found it held. -/
def HeldSince (cfg : UsbConfig) (w v : Wire) : Prop :=
  v.held = some (configFrame cfg) ∧ ∃ new, v.starts = w.starts ++ new ∧ ∀ held ∈ new, held = some (configFrame cfg)

/-- A command other than a different configuration keeps it. -/
theorem HeldSince.got {w v : Wire} (h : HeldSince cfg w v) {c : Command} (hc : ∀ cfg', c = .config cfg' → SameFrame cfg cfg') :
    HeldSince cfg w (v.got c.frame) := by
  obtain ⟨hheld, new, hnew, hall⟩ := h
  rw [Wire.got_frame]
  cases c with
  | config cfg' =>
    have hsame : configFrame cfg = configFrame cfg' := (configFrame_eq_iff cfg cfg').2 (hc cfg' rfl)
    exact ⟨by rw [hsame], new, hnew, hall⟩
  | start =>
    refine ⟨hheld, new ++ [v.held], by rw [hnew, List.append_assoc], ?_⟩
    intro held hmem
    rcases List.mem_append.1 hmem with hmem | hmem
    · exact hall held hmem
    · rw [List.mem_singleton.1 hmem, hheld]
  | connect => exact ⟨hheld, new, hnew, hall⟩
  | stop => exact ⟨hheld, new, hnew, hall⟩

theorem held_trace (hE : Quiet E) {l : List (Done Command Int32 (W × Wire))} {w : Wire}
    (h : Trace (E.prod Wire.env) (Command.prog addr) x l y) (hx : HeldSince cfg w x.2)
    (hsame : ∀ e ∈ l, ∀ cfg', e.cmd = .config cfg' → SameFrame cfg cfg') : HeldSince cfg w y.2 := by
  induction h with
  | nil hm =>
    rw [moves_wire hm]
    exact hx
  | @cons x v v' y c a l hm hr _ ih =>
    rw [List.forall_mem_cons] at hsame
    refine ih ?_ hsame.2
    have hv : HeldSince cfg w v.2 := by rwa [moves_wire hm]
    rcases wire_run hE hr with ⟨he, -⟩ | he
    · rwa [he]
    · rw [he]
      exact hv.got hsame.1

/-- A configuration that is sent first, and does not fail. -/
theorem held_sent (hE : Quiet E) {l : List (Done Command Int32 (W × Wire))} {d : Done Command Int32 (W × Wire)}
    (h : Trace (E.prod Wire.env) (Command.prog addr) x (d :: l) y) (hc : d.cmd = .config cfg) (hv : d.val ≠ usbSendConfigFail)
    (hsame : ∀ e ∈ l, ∀ cfg', e.cmd = .config cfg' → SameFrame cfg cfg') : HeldSince cfg d.after.2 y.2 := by
  cases h with
  | cons hm hr ht =>
    refine held_trace hE ht ?_ hsame
    obtain rfl := hc
    rcases wire_run hE hr with ⟨-, he⟩ | he
    · exact absurd he hv
    · refine ⟨?_, [], (List.append_nil _).symm, by simp⟩
      rw [he, Wire.got_frame]

/-- **What the device holds.**  With any device and driver by which every transfer stores its count and a frame reaches the
device exactly if its count is 32, in every sequence of commands: once a configuration was sent and did not fail, the device
holds it at the end and at every start in between, as long as no configuration with other fields is sent. -/
theorem held_of_config (hE : Quiet E) {l₁ l₂ : List (Done Command Int32 (W × Wire))} {d : Done Command Int32 (W × Wire)}
    (h : Trace (E.prod Wire.env) (Command.prog addr) x (l₁ ++ d :: l₂) y) (hc : d.cmd = .config cfg)
    (hv : d.val ≠ usbSendConfigFail) (hsame : ∀ e ∈ l₂, ∀ cfg', e.cmd = .config cfg' → SameFrame cfg cfg') :
    HeldSince cfg d.after.2 y.2 := by
  obtain ⟨v, -, h₂⟩ := h.cut
  exact held_sent hE h₂ hc hv hsame

/-- A configuration sent to a device that was just switched on. -/
theorem held_of_config_init :
    ∃ v : Wire, v.held = some (configFrame oneSample) ∧
      (usbSendConfigToDevice oneSample ⟨1⟩).Runs ((flakyDevice (asked oneSample)).env.prod Wire.env) (.init, ⟨none, []⟩)
        usbSendConfigSuccess (heard (.config oneSample) codeSendConfigResponse 32 .init, v) := by
  have hrun := heard_runs ⟨1⟩ (c := .config oneSample) rfl (k := 32) le_rfl asked_oneSample .init
  rw [show heardVal (.config oneSample) codeSendConfigResponse 32 .init = usbSendConfigSuccess by decide] at hrun
  obtain ⟨v, hrun⟩ := hrun.prod (F := Wire.env) (fun w o r => ⟨w.after o r, rfl⟩) ⟨none, []⟩
  have htrace : Trace ((flakyDevice (asked oneSample)).env.prod Wire.env) (Command.prog ⟨1⟩) (.init, ⟨none, []⟩)
      ([] ++ ⟨.config oneSample, _, _, _⟩ :: []) _ := .cons (.refl _) hrun (.nil (.refl _))
  have hne : usbSendConfigSuccess ≠ usbSendConfigFail := by decide
  exact ⟨v, (held_of_config (Device.quiet _) htrace rfl hne (by simp)).1, hrun⟩

end Held

/-! ### Runs of the sample program -/

section Main

variable {W : Type} {E : Env Op Op.Ans W} {addr : UsbAddr} {x y : W × Wire} {cfg : UsbConfig}

/-- What writes nothing leaves the wire alone. -/
theorem wire_silent {α : Type} {p : Ed α} {a : α} {ok : Op → Prop} (hp : p.Calls ok)
    (hok : ∀ h i b n t, ¬ ok (.ft (.writePipe h i b n t))) (h : p.Runs (E.prod Wire.env) x a y) : y.2 = x.2 := by
  refine hp.inv (I := fun z => z.2 = x.2) ?_ ?_ h rfl
  · intro v o r u hv ho ha
    have hu : u.2 = v.2.after o r := ha.2
    rw [hu, ← hv]
    cases o with
    | ft c => cases c <;> first | rfl | exact (hok _ _ _ _ _ ho).elim
    | errno => rfl
    | undef l => rfl
  · intro v u hv hm
    exact (moves_wire (.single hm)).trans hv

theorem wire_recvRepeats (hE : Quiet E) {cnt : Int32} {timeout : UInt32} {i m : ℕ} {r : List (Int32 × Mem) × Bool}
    (h : (recvRepeats cfg addr cnt timeout i m).Runs (E.prod Wire.env) x r y) : y.2 = x.2 := by
  induction m generalizing i x y r with
  | zero => exact moves_wire h.2
  | succ m ih =>
    obtain ⟨buf, h⟩ := (quiet_wire hE).undef_bind h
    obtain ⟨a, v, hr, h⟩ := Prog.runs_bind.1 h
    have hv : v.2 = x.2 := by
      by_cases hi : Int32.ofNat i < cfg.repeatCount.toUInt32.toInt32
      · simp only [usbStartRecvRepeatN, hi, decide_true, Prog.assert_true, Prog.ret_bind] at hr
        obtain ⟨u, g, u', hm, ha, -, hm'⟩ := (quiet_wire hE).read_bind hr
        have hu : u'.2 = u.2 := ha.2
        rw [moves_wire hm', hu, moves_wire hm]
      · simp [usbStartRecvRepeatN, hi] at hr
    rw [← hv]
    split at h
    · exact moves_wire h.2
    · obtain ⟨rs, u, hrs, -, hm⟩ := Prog.runs_bind.1 h
      rw [moves_wire hm, ih hrs]

/-- A command whose failure ends the session. -/
theorem wire_step {c : Command} {f : Ed (List (Int32 × Mem))} {rs : List (Int32 × Mem)}
    (h : (c.prog addr >>= fun a => if a ≠ c.success then .ret [] else f).Runs (E.prod Wire.env) x rs y) :
    (rs = [] ∧ ∃ a v, (c.prog addr).Runs (E.prod Wire.env) x a v ∧ y.2 = v.2) ∨
      ∃ v, (c.prog addr).Runs (E.prod Wire.env) x c.success v ∧ f.Runs (E.prod Wire.env) v rs y := by
  obtain ⟨a, v, hr, h⟩ := Prog.runs_bind.1 h
  by_cases ha : a = c.success
  · rw [if_neg (not_not.2 ha)] at h
    exact .inr ⟨v, ha ▸ hr, h⟩
  · rw [if_pos ha] at h
    exact .inl ⟨h.1.symm, a, v, hr, moves_wire h.2⟩

/-- The starts that reached the device between `w` and `v`: none, and then nothing was received, or one with `cfg`. -/
def StartedWith (cfg : UsbConfig) (received : List (Int32 × Mem)) (w v : Wire) : Prop :=
  v.starts = w.starts ∧ received = [] ∨ v.starts = w.starts ++ [some (configFrame cfg)]

theorem wire_commands (hE : Quiet E) {rs : List (Int32 × Mem)}
    (h : (happyPathCommands cfg addr).Runs (E.prod Wire.env) x rs y) : StartedWith cfg rs x.2 y.2 := by
  -- the commands before the start leave the starts alone
  have hkeep : ∀ {c : Command} {a : Int32} {u v : W × Wire}, c.request ≠ .start →
      (c.prog addr).Runs (E.prod Wire.env) u a v → v.2.starts = u.2.starts := by
    intro c a u v hc hr
    rcases wire_run hE hr with ⟨he, -⟩ | he
    · rw [he]
    · rw [he, Wire.got_frame]
      cases c <;> first | rfl | exact absurd rfl hc
  rcases wire_step (c := .stop) h with ⟨rfl, a, v, hr, hy⟩ | ⟨x₁, h₁, h⟩
  · exact .inl ⟨by rw [hy, hkeep (by decide) hr], rfl⟩
  have e₁ := hkeep (by decide) h₁
  rcases wire_step (c := .connect) h with ⟨rfl, a, v, hr, hy⟩ | ⟨x₂, h₂, h⟩
  · exact .inl ⟨by rw [hy, hkeep (by decide) hr, e₁], rfl⟩
  have e₂ := hkeep (by decide) h₂
  rcases wire_step (c := .config cfg) h with ⟨rfl, a, v, hr, hy⟩ | ⟨x₃, h₃, h⟩
  · exact .inl ⟨by rw [hy, hkeep (fun he => by cases he) hr, e₂, e₁], rfl⟩
  have e₃ := hkeep (fun he => by cases he) h₃
  have hheld : x₃.2.held = some (configFrame cfg) := by
    rcases wire_run hE h₃ with ⟨-, he⟩ | he
    · exact absurd he (Command.config cfg).success_ne_fail
    · rw [he, Wire.got_frame]
  have hstart : ∀ {a : Int32} {v : W × Wire}, (usbStartCollect addr).Runs (E.prod Wire.env) x₃ a v →
      (v.2.starts = x.2.starts ∧ a = usbStartCollectFail) ∨ v.2.starts = x.2.starts ++ [some (configFrame cfg)] := by
    intro a v hr
    rcases wire_run hE (c := .start) hr with ⟨he, ha⟩ | he
    · exact .inl ⟨by rw [he, e₃, e₂, e₁], ha⟩
    · right
      rw [he, Wire.got_frame]
      show x₃.2.starts ++ [x₃.2.held] = _
      rw [hheld, e₃, e₂, e₁]
  rcases wire_step (c := .start) h with ⟨rfl, a, v, hr, hy⟩ | ⟨x₄, h₄, h⟩
  · rcases hstart hr with ⟨he, -⟩ | he
    · exact .inl ⟨by rw [hy, he], rfl⟩
    · exact .inr (by rw [hy, he])
  rcases hstart h₄ with ⟨-, ha⟩ | e₄
  · exact absurd ha (by decide)
  obtain ⟨⟨received, done⟩, x₅, h₅, h⟩ := Prog.runs_bind.1 h
  have e₅ := wire_recvRepeats hE h₅
  refine .inr ?_
  rw [← e₄, ← e₅]
  cases done with
  | false => rw [moves_wire h.2]
  | true =>
    obtain ⟨a, x₆, h₆, -, hm⟩ := Prog.runs_bind.1 h
    rw [moves_wire hm, hkeep (c := .stop) (by decide) h₆]

theorem wire_happyPath (hE : Quiet E) {t : HappyPath} (h : (happyPath cfg).Runs (E.prod Wire.env) x t y) :
    StartedWith cfg t.received x.2 y.2 := by
  have hopens : ∀ h i b n t, ¬ Op.Opens (.ft (.writePipe h i b n t)) := fun _ _ _ _ _ ho => ho
  obtain ⟨⟨establishRes, addr⟩, x₁, h₁, hrest⟩ := Prog.runs_bind.1 h
  have e₁ := wire_silent (HandleCall.calls .create _) hopens h₁
  by_cases hres : establishRes = 0
  · simp only [ne_eq, hres, not_true_eq_false, if_false] at hrest
    obtain ⟨_, x₂, h₂, h⟩ := Prog.runs_bind.1 hrest
    obtain ⟨received, x₃, h₃, h⟩ := Prog.runs_bind.1 h
    obtain ⟨_, x₄, h₄, rfl, hm⟩ := Prog.runs_bind.1 h
    have e₂ := wire_silent (abortPipe_calls addr) (by rintro h i b n t ⟨j, hj⟩; cases hj) h₂
    have e₄ := wire_silent (HandleCall.calls .close _) hopens h₄
    have hrun := wire_commands hE h₃
    rwa [e₂, e₁, ← e₄, ← moves_wire hm] at hrun
  · simp only [ne_eq, hres, not_false_eq_true, if_true] at hrest
    obtain ⟨rfl, hm⟩ := hrest
    exact .inl ⟨by rw [moves_wire hm, e₁], rfl⟩

/-- **Which configuration the device is started with.**  With any device and driver by which every transfer stores its
count and a frame reaches the device exactly if its count is 32, in every sequence of runs of the sample program, each
with a configuration of its own: a run starts the device at most once, and then with its own configuration, and it
receives nothing without having started it. -/
theorem started_with (hE : Quiet E) {l : List (Done UsbConfig HappyPath (W × Wire))}
    (h : Trace (E.prod Wire.env) happyPath x l y) :
    (∀ d ∈ l, StartedWith d.cmd d.val.received d.before.2 d.after.2) ∧
      ∃ new, y.2.starts = x.2.starts ++ new ∧ ∀ held ∈ new, ∃ d ∈ l, held = some (configFrame d.cmd) := by
  induction h with
  | nil hm => exact ⟨by simp, [], by rw [moves_wire hm, List.append_nil], by simp⟩
  | @cons x v v' y cfg t l hm hr _ ih =>
    obtain ⟨hall, new, hnew, hmem⟩ := ih
    have hrun := wire_happyPath hE hr
    refine ⟨List.forall_mem_cons.2 ⟨hrun, hall⟩, ?_⟩
    rw [← moves_wire hm]
    have hlater : ∀ held ∈ new, ∃ d ∈ (⟨cfg, v, t, v'⟩ : Done UsbConfig HappyPath (W × Wire)) :: l,
        held = some (configFrame d.cmd) := by
      intro held hh
      obtain ⟨d, hd, he⟩ := hmem held hh
      exact ⟨d, List.mem_cons_of_mem _ hd, he⟩
    rcases hrun with ⟨he, -⟩ | he
    · exact ⟨new, by rw [hnew, he], hlater⟩
    · refine ⟨some (configFrame cfg) :: new, by rw [hnew, he, List.append_assoc]; rfl, ?_⟩
      exact List.forall_mem_cons.2 ⟨⟨_, List.mem_cons_self, rfl⟩, hlater⟩

theorem quiet_whole (D : Device) (flush : UInt8 → Link → ℕ → Prop) : Quiet (D.whole flush) where
  setPipeTimeout h := h
  errno h := h
  undef h := h
  written h := D.quiet.written h
  got h := D.quiet.got h

/-- The run that receives the first sample. -/
theorem started_with_init :
    ∃ v : Wire, v.starts = [some (configFrame oneSample)] ∧
      (happyPath oneSample).Runs (((flakyDevice (asked oneSample)).whole noFlush).prod Wire.env) (.init, ⟨none, []⟩)
        ⟨0, [(1, Mem.write (fun _ => 0) 0 [1])]⟩ ((started [1, 2, 3, 4, 5, 6] .init).take 1, v) := by
  have hrun := started_runs .init ⟨1, .sample 0⟩ (by decide) (by decide) (by decide) (by decide)
  obtain ⟨v, hrun⟩ := hrun.prod (F := Wire.env) (fun w o r => ⟨w.after o r, rfl⟩) ⟨none, []⟩
  rcases (started_with (quiet_whole _ _) (.cons (.refl _) hrun (.nil (.refl _)))).1 _ List.mem_cons_self with ⟨-, hnil⟩ | he
  · cases hnil
  · exact ⟨v, he, hrun⟩

end Main

end EdUsb
