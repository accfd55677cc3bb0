import EdUsb.Command

/-!
# What stopping leaves behind

Each `usb_stop_collect` has 32 bytes queued and takes at most 32 bytes out, so it leaves as much in the IN pipe as it
found there, and any number of them do (`Backlog`).  A stop that succeeds therefore leaves the pipe empty only if it was
empty before the first of them (`barrier_iff`).
-/

namespace EdUsb

open EdUsb.Lib Ed

/-- The device answers each request at once, and streams any samples at any moment while it collects.  A write may fail
in any way. -/
def promptDevice : Device where
  move w w' := w.collecting = true ∧ ∃ xs, w' = w.stream xs
  accept := Link.Acted []
  wrote _ _ := True
  reads w n _ k := k = min n w.inPipe.queue.length

/-- The IN pipe is empty, the device does not collect, and a connect that it receives now succeeds. -/
structure Barrier (addr : UsbAddr) (w : Link) : Prop where
  empty : w.inPipe.queue = []
  idle : w.collecting = false
  connect : ∀ a u, (usbDevConnect addr).Runs promptDevice.env w a u → w.sent < u.sent → a = usbConnectSuccess

/-- From `w` to `v` the queue grew by what was streamed. -/
structure Backlog (w v : Link) : Prop where
  streamed : w.streamed ≤ v.streamed
  length : v.inPipe.queue.length + w.streamed = w.inPipe.queue.length + v.streamed

namespace Backlog

theorem refl (w : Link) : Backlog w w := ⟨le_rfl, rfl⟩

theorem trans {w v u : Link} (h₁ : Backlog w v) (h₂ : Backlog v u) : Backlog w u := by
  have hs := h₁.streamed.trans h₂.streamed
  have hl₁ := h₁.length
  have hl₂ := h₂.length
  exact ⟨hs, by omega⟩

theorem of_move {w v : Link} (h : promptDevice.env.move w v) : Backlog w v := by
  obtain ⟨-, xs, rfl⟩ := h
  refine ⟨by simp [Link.stream], ?_⟩
  simp only [Link.stream, Fifo.queue_put, List.length_append, sampleBytes_length]
  omega

theorem of_moves {w v : Link} (h : promptDevice.env.Moves w v) : Backlog w v := by
  induction h with
  | refl => exact refl w
  | tail _ hm ih => exact ih.trans (of_move hm)

end Backlog

/-- While the device does not collect, nothing happens on its own. -/
theorem moves_idle {w v : Link} (hw : w.collecting = false) (h : promptDevice.env.Moves w v) : v = w := by
  induction h with
  | refl => rfl
  | tail _ hm ih =>
    subst ih
    rw [hm.1] at hw
    cases hw

section Commands

variable {addr : UsbAddr} {w w' : Link} {a : Int32}

/-- A stop leaves as much queued as it found, and a stop that succeeds leaves the device idle. -/
theorem stop_run (h : (usbStopCollect addr).Runs promptDevice.env w a w') :
    Backlog w w' ∧ (a = usbStopCollectSuccess → w'.collecting = false) := by
  have hr := Command.ran_of_runs (c := .stop) h
  cases hr with
  | lost _ _ hm =>
    refine ⟨.of_moves hm, ?_⟩
    intro ha
    exact absurd ha (by decide)
  | sent hn => cases hn
  | @heard v u x _ s t k code _ hm _ hu hm₂ hk hq hrd hm₃ =>
    obtain ⟨bs, hbs, -, hput, hcol, hstr⟩ := ((Link.acted_frame [] v u .stop).1 hu).put rfl
    have hidle : u.collecting = false := hcol
    obtain rfl := moves_idle hidle hm₂
    have hlen : x.inPipe.queue.length = v.inPipe.queue.length + 32 := by
      rw [hput, Fifo.queue_put, List.length_append, hbs]
    -- there are at least the 32 bytes just queued, so the read is full
    have hk32 : k = 32 := by
      have hrd : k = min 32 x.inPipe.queue.length := hrd
      omega
    subst hk32
    have hidle' : (x.take 32).collecting = false := hidle
    obtain rfl := moves_idle hidle' hm₃
    have hlen' : (x.take 32).inPipe.queue.length = v.inPipe.queue.length := by
      rw [show (x.take 32).inPipe.queue = x.inPipe.queue.drop 32 from rfl, List.length_drop, hlen, Nat.add_sub_cancel]
    have hstr' : (x.take 32).streamed = v.streamed := hstr
    exact ⟨(Backlog.of_moves hm).trans ⟨hstr'.ge, by rw [hlen', hstr']⟩, fun _ => hidle'⟩

/-- A connect that the device receives with the pipe empty and the device idle succeeds. -/
theorem connect_of_empty (hw : w.inPipe.queue = []) (hidle : w.collecting = false)
    (h : (usbDevConnect addr).Runs promptDevice.env w a w') (hs : w.sent < w'.sent) : a = usbConnectSuccess := by
  have hr := Command.ran_of_runs (c := .connect) h
  cases hr with
  | lost _ _ hm =>
    rw [moves_idle hidle hm] at hs
    omega
  | sent hn => cases hn
  | @heard v u x _ s t k code hcode hm _ hu hm₂ hk hq hrd hm₃ =>
    obtain rfl := moves_idle hidle hm
    obtain ⟨bs, hbs, hcode', hput, hcol, -⟩ := ((Link.acted_frame [] v u .connect).1 hu).put hcode
    have hidle' : u.collecting = false := hcol.trans hidle
    obtain rfl := moves_idle hidle' hm₂
    have hqueue : x.inPipe.queue = bs := by rw [hput, Fifo.queue_put, hw, List.nil_append]
    have hk32 : k = 32 := by
      have hrd : k = min 32 x.inPipe.queue.length := hrd
      rw [hqueue, hbs] at hrd
      exact hrd
    rw [if_pos hk32, hqueue, hcode', if_pos rfl]
    rfl

/-- **When stopping is a barrier.**  However often it is called, a stop that succeeds leaves the pipe empty and the device
idle, so that the next connect succeeds, if and only if the pipe was empty before the first call and nothing was
streamed since then. -/
theorem barrier_iff {l : List (Done Unit Int32 Link)}
    (h : Trace promptDevice.env (fun _ => usbStopCollect addr) w l w') :
    ∀ d ∈ l, d.val = usbStopCollectSuccess →
      (Barrier addr d.after ↔ w.inPipe.queue = [] ∧ d.after.streamed = w.streamed) := by
  intro d hd hv
  have hmove : ∀ v u, Backlog w v → promptDevice.env.move v u → Backlog w u := fun _ _ h hm => h.trans (.of_move hm)
  have hprog : ∀ (_ : Unit) v a u, Backlog w v → (usbStopCollect addr).Runs promptDevice.env v a u → Backlog w u :=
    fun _ _ _ _ h hr => h.trans (stop_run hr).1
  obtain ⟨-, hrun, hb⟩ := (h.inv hmove hprog (.refl w)).1 d hd
  have hidle := (stop_run hrun).2 hv
  have hlen := hb.length
  have hmono := hb.streamed
  constructor
  · rintro ⟨hq, -, -⟩
    rw [hq, List.length_nil] at hlen
    exact ⟨List.length_eq_zero_iff.1 (by omega), by omega⟩
  · rintro ⟨hq, hs⟩
    rw [hq, hs, List.length_nil] at hlen
    have hq' : d.after.inPipe.queue = [] := List.length_eq_zero_iff.1 (by omega)
    refine ⟨hq', hidle, ?_⟩
    intro a u hr hsent
    exact connect_of_empty hq' hidle hr hsent

end Commands

/-! ### Stops on a link with samples unread -/

/-- After a stop that the device received and answered. -/
def stopped (w : Link) : Link :=
  ((w.receive .stop).reply w.sent (codeFrame codeStopCollectResponse)).take 32

theorem stopped_runs (addr : UsbAddr) (w : Link) :
    (usbStopCollect addr).Runs promptDevice.env w
      (if ((w.inPipe.queue ++ replyBytes w.sent (codeFrame codeStopCollectResponse)).take 8).map InByte.val =
        codeStopCollectResponse then usbStopCollectSuccess else usbStopCollectVerifyFail) (stopped w) := by
  have hlen : 32 ≤ ((w.receive .stop).reply w.sent (codeFrame codeStopCollectResponse)).inPipe.queue.length := by
    simp [Link.reply, Link.receive, codeFrame, codeStopCollectResponse]
  have hans : w.Answered [] .stop ((w.receive .stop).reply w.sent (codeFrame codeStopCollectResponse)) :=
    .inr ⟨codeStopCollectResponse, List.replicate 24 0, rfl, rfl, rfl⟩
  have h := Device.Ran.heard (D := promptDevice) (c := .stop) (s := 0) (t := 0) rfl (.refl w) trivial
    ((Link.acted_frame [] w _ .stop).2 hans) (.refl _) le_rfl hlen (min_eq_left hlen).symm (.refl _)
  rw [if_pos rfl] at h
  exact Command.runs_of_ran (c := .stop) h

/-- One stop of a device that was just switched on is a barrier. -/
theorem barrier_iff_init : Barrier ⟨1⟩ (stopped .init) := by
  have hrun := stopped_runs ⟨1⟩ .init
  rw [if_pos (by decide)] at hrun
  exact (barrier_iff (.cons (c := ()) (.refl _) hrun (.nil (.refl _))) _ List.mem_cons_self rfl).2 ⟨rfl, rfl⟩

/-- A collection of which 32 samples were not read. -/
def unread : Link := (Link.init.receive .start).stream (List.replicate 32 0)

theorem unread_trace :
    Trace promptDevice.env (Command.prog ⟨1⟩) .init
      [⟨.start, .init, usbStartCollectSuccess, Link.init.receive .start⟩] unread := by
  have hu : promptDevice.accept .init Command.start.frame (Link.init.receive .start) :=
    (Link.acted_frame [] .init _ .start).2 (.inl ⟨rfl, rfl⟩)
  have h := Device.Ran.sent (D := promptDevice) (c := .start) (s := 0) rfl (.refl .init) trivial hu (.refl _)
  exact .cons (.refl _) (Command.runs_of_ran h) (.nil (.single ⟨rfl, List.replicate 32 0, rfl⟩))

/-- The second stop succeeds on the response to the first and leaves its own in the pipe. -/
theorem not_barrier_of_success :
    ¬ ∀ (addr : UsbAddr) (l₀ : List (Done Command Int32 Link)) (w : Link),
      Trace promptDevice.env (Command.prog addr) .init l₀ w →
      ∀ (l : List (Done Unit Int32 Link)) (w' : Link),
        Trace promptDevice.env (fun _ => usbStopCollect addr) w l w' →
        ∀ d ∈ l, d.val = usbStopCollectSuccess → Barrier addr d.after := by
  intro h
  have h₁ := stopped_runs ⟨1⟩ unread
  have h₂ := stopped_runs ⟨1⟩ (stopped unread)
  rw [if_neg (by decide)] at h₁
  rw [if_pos (by decide)] at h₂
  have hb := h _ _ _ unread_trace _ _ (.cons (c := ()) (.refl _) h₁ (.cons (c := ()) (.refl _) h₂ (.nil (.refl _)))) _
    (List.mem_cons_of_mem _ List.mem_cons_self) rfl
  exact absurd hb.empty (by decide)

end EdUsb
