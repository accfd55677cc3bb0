import EdUsb.Matching
import EdUsb.Lib.Product

/-!
# Commands that give up

A command that has its request received and then reads less than 32 bytes leaves a rest of its response in the IN pipe, or
still to come.  No command takes more out of the pipe than its own response puts in, so that rest is never read up
(`Link.due`): against a device that answers in order, the first command that gives up is the last one after which a
response was read by the command that it was meant for (`matched_iff_settled`).
-/

namespace EdUsb

open EdUsb.Lib Ed

/-- The device answers the requests in the order in which it received them, each at any later moment with any 32 bytes, and
streams any samples while it collects.  A write may fail in any way. -/
def orderlyDevice : Device where
  move w w' :=
    (∃ n rest resp, w.waiting = n :: rest ∧ resp.length = 32 ∧ w' = w.reply n resp) ∨
      w.collecting = true ∧ ∃ xs, w' = w.stream xs
  accept w frame w' := w' = w.accept frame
  wrote _ _ := True
  reads w n _ k := k = min n w.inPipe.queue.length

/-- The bytes that are queued, or that the device owes. -/
def Link.due (w : Link) : ℕ := w.inPipe.queue.length + 32 * w.waiting.length

/-- The request of the command was received, and the command failed all the same. -/
def GaveUp (d : Done Command Int32 Link) : Prop :=
  d.cmd.request ≠ .start ∧ d.val = d.cmd.fail ∧ d.before.sent < d.after.sent

/-- What the device does in order, a device that answers in any order may do. -/
theorem late_simulates : lateDevice.env.Simulates orderlyDevice.env (fun _ => True) id where
  ans _ _ _ _ _ h := h
  move w v h := by
    rcases h with ⟨n, rest, resp, hw, hr, rfl⟩ | hs
    · have hn : n ∈ w.waiting := by
        rw [hw]
        exact List.mem_cons_self
      exact .single (.inl ⟨n, hn, resp, hr, rfl⟩)
    · exact .single (.inr hs)

/-! ### What is due -/

/-- From `w` to `v` nothing but samples was added to what is due, and no request was received. -/
structure SameDue (w v : Link) : Prop where
  streamed : w.streamed ≤ v.streamed
  due : v.due + w.streamed = w.due + v.streamed
  sent : v.sent = w.sent

namespace SameDue

variable {w v u : Link}

theorem refl (w : Link) : SameDue w w := ⟨le_rfl, rfl, rfl⟩

theorem trans (h₁ : SameDue w v) (h₂ : SameDue v u) : SameDue w u := by
  have hd₁ := h₁.due
  have hd₂ := h₂.due
  exact ⟨h₁.streamed.trans h₂.streamed, by omega, h₂.sent.trans h₁.sent⟩

theorem of_move (h : orderlyDevice.env.move w v) : SameDue w v := by
  rcases h with ⟨n, rest, resp, hw, hr, rfl⟩ | ⟨-, xs, rfl⟩
  · refine ⟨le_rfl, ?_, rfl⟩
    simp only [Link.due, Link.reply, hw, Fifo.queue_put, List.length_append, replyBytes_length, hr, List.erase_cons_head,
      List.length_cons]
    omega
  · refine ⟨by simp [Link.stream], ?_, rfl⟩
    simp only [Link.due, Link.stream, Fifo.queue_put, List.length_append, sampleBytes_length]
    omega

theorem of_moves (h : orderlyDevice.env.Moves w v) : SameDue w v := by
  induction h with
  | refl => exact refl w
  | tail _ hm ih => exact ih.trans (of_move hm)

end SameDue

theorem due_take {w : Link} {k : ℕ} (hk : k ≤ w.inPipe.queue.length) : (w.take k).due + k = w.due := by
  simp only [Link.due, Link.take, Fifo.queue_take, List.length_drop]
  omega

theorem due_receive (w : Link) (q : Request) : (w.receive q).due = w.due + if q = .start then 0 else 32 := by
  by_cases hq : q = .start
  · simp [Link.due, Link.receive, hq]
  · simp only [Link.due, Link.receive, hq, if_false, List.length_append, List.length_singleton]
    omega

/-- **Step.**  A command never lessens what is due, and it adds to it exactly if it gives up. -/
theorem due_command {addr : UsbAddr} {d : Done Command Int32 Link}
    (h : (d.cmd.prog addr).Runs orderlyDevice.env d.before d.val d.after) :
    d.before.streamed ≤ d.after.streamed ∧ d.before.due + d.after.streamed ≤ d.after.due + d.before.streamed ∧
      (d.before.due + d.after.streamed = d.after.due + d.before.streamed ↔ ¬ GaveUp d) := by
  obtain ⟨c, w, a, w'⟩ := d
  have hran : orderlyDevice.Ran c w a w' := Command.ran_of_runs h
  unfold GaveUp
  simp only
  cases hran with
  | lost _ _ hm =>
    obtain ⟨hs, hd, hn⟩ := SameDue.of_moves hm
    refine ⟨hs, by omega, iff_of_true (by omega) ?_⟩
    rintro ⟨-, -, hlt⟩
    omega
  | @sent v u _ _ hc hm _ hu hm₂ =>
    obtain rfl : u = v.accept c.frame := hu
    obtain rfl := Command.eq_start hc
    obtain ⟨hs, hd, -⟩ := SameDue.of_moves hm
    obtain ⟨hs₂, hd₂, -⟩ := SameDue.of_moves hm₂
    have hr : (v.accept Command.start.frame).due = v.due := by rw [accept_frame, due_receive]; rfl
    have hstr : (v.accept Command.start.frame).streamed = v.streamed := by rw [accept_frame]; rfl
    refine ⟨by omega, by omega, iff_of_true (by omega) ?_⟩
    rintro ⟨hne, -⟩
    exact hne rfl
  | @heard v u x _ s t k code hcode hm _ hu hm₂ hk hq _ hm₃ =>
    obtain rfl : u = v.accept c.frame := hu
    have hne : c.request ≠ .start := by
      intro he
      rw [he] at hcode
      cases hcode
    obtain ⟨hs, hd, hn⟩ := SameDue.of_moves hm
    obtain ⟨hs₂, hd₂, hn₂⟩ := SameDue.of_moves hm₂
    obtain ⟨hs₃, hd₃, hn₃⟩ := SameDue.of_moves hm₃
    have hr : (v.accept c.frame).due = v.due + 32 := by rw [accept_frame, due_receive, if_neg hne]
    have hstr : (v.accept c.frame).streamed = v.streamed := by rw [accept_frame]; rfl
    have hsent : (v.accept c.frame).sent = v.sent + 1 := by rw [accept_frame]; rfl
    have htake := due_take hq
    have htstr : (x.take k).streamed = x.streamed := rfl
    have htsent : (x.take k).sent = x.sent := rfl
    refine ⟨by omega, by omega, ?_⟩
    by_cases hk32 : k = 32
    · refine iff_of_true (by omega) ?_
      rintro ⟨-, hfail, -⟩
      rw [if_pos hk32] at hfail
      split at hfail
      · exact c.success_ne_fail hfail
      · exact Command.fail_ne_verifyErr hcode hfail.symm
    · refine iff_of_false (by omega) ?_
      rw [not_not]
      exact ⟨hne, if_neg hk32, by show w.sent < w'.sent; omega⟩

/-- **Run.**  From a device that was just switched on, more than the samples is due exactly if some command gave up. -/
theorem due_trace {addr : UsbAddr} {w w' : Link} {l : List (Done Command Int32 Link)}
    (h : Trace orderlyDevice.env (Command.prog addr) w l w') :
    w.due + w'.streamed ≤ w'.due + w.streamed ∧
      (w.due + w'.streamed = w'.due + w.streamed ↔ ∀ e ∈ l, ¬ GaveUp e) := by
  induction h with
  | nil hm =>
    have hd := (SameDue.of_moves hm).due
    exact ⟨by omega, iff_of_true (by omega) (by simp)⟩
  | @cons w v v' w' c a l hm hr _ ih =>
    have hd := (SameDue.of_moves hm).due
    obtain ⟨-, hle, hiff⟩ := due_command (d := ⟨c, v, a, v'⟩) hr
    obtain ⟨ihle, ihiff⟩ := ih
    simp only at hle hiff
    refine ⟨by omega, ?_⟩
    rw [List.forall_mem_cons, ← hiff, ← ihiff]
    omega

/-! ### What comes first -/

section First

variable {addr : UsbAddr} {c : Command} {w w' v : Link} {n m A : ℕ}

/-- What arrives at the place `A` is not of the request number `m`, as the request number `n` is to be answered first. -/
def NotOwn (n m A : ℕ) (w : Link) : Prop :=
  (w.inPipe.arrived.length = A ∧ ∃ rest, w.waiting = n :: rest) ∨
    ∃ b, w.inPipe.arrived[A]? = some b ∧ b.origin ≠ .reply m 0

theorem NotOwn.move (hnm : n ≠ m) (hw : NotOwn n m A w) (h : orderlyDevice.env.move w v) : NotOwn n m A v := by
  have hlater : ∀ bs b, w.inPipe.arrived[A]? = some b → (w.inPipe.put bs).arrived[A]? = some b := by
    intro bs b hb
    rw [Fifo.arrived_put, List.getElem?_append_left (List.getElem?_eq_some_iff.1 hb).1, hb]
  have hfirst : ∀ bs, w.inPipe.arrived.length = A → (w.inPipe.put bs).arrived[A]? = bs[0]? := by
    intro bs hA
    rw [Fifo.arrived_put, List.getElem?_append_right hA.le, hA, Nat.sub_self]
  rcases h with ⟨p, rest, resp, hwait, hr, rfl⟩ | ⟨-, xs, rfl⟩
  · right
    rcases hw with ⟨hA, rest', hn⟩ | ⟨b, hb, ho⟩
    · obtain ⟨rfl, -⟩ := List.cons.inj (hwait.symm.trans hn)
      refine ⟨⟨resp[0], .reply p 0⟩, ?_, ?_⟩
      · rw [show (w.reply p resp).inPipe = w.inPipe.put (replyBytes p resp) from rfl, hfirst _ hA, replyBytes,
          List.getElem?_mapIdx, List.getElem?_eq_getElem (by omega)]
        rfl
      · simpa using hnm
    · exact ⟨b, hlater _ b hb, ho⟩
  · rcases hw with ⟨hA, rest, hn⟩ | ⟨b, hb, ho⟩
    · cases xs with
      | nil =>
        refine .inl ⟨?_, rest, hn⟩
        rw [show (w.stream []).inPipe = w.inPipe.put [] from rfl, Fifo.put_nil, hA]
      | cons x xs =>
        refine .inr ⟨⟨x, .sample w.streamed⟩, ?_, fun he => by cases he⟩
        rw [show (w.stream (x :: xs)).inPipe = w.inPipe.put (sampleBytes w.streamed (x :: xs)) from rfl, hfirst _ hA]
        simp [sampleBytes]
    · exact .inr ⟨b, hlater _ b hb, ho⟩

theorem NotOwn.moves (hnm : n ≠ m) (hw : NotOwn n m A w) (h : orderlyDevice.env.Moves w v) : NotOwn n m A v :=
  h.inv (fun _ _ hw hm => NotOwn.move hnm hw hm) hw

theorem NotOwn.accept (hw : NotOwn n m A w) (c : Command) : NotOwn n m A (w.accept c.frame) := by
  rw [accept_frame]
  rcases hw with ⟨hA, rest, hn⟩ | hb
  · left
    by_cases hq : c.request = .start
    · exact ⟨hA, rest, by simp [Link.receive, hq, hn]⟩
    · exact ⟨hA, rest ++ [w.sent], by simp [Link.receive, hq, hn]⟩
  · exact .inr hb

theorem NotOwn.take (hw : NotOwn n m A w) (k : ℕ) : NotOwn n m A (w.take k) := by
  have harr : (w.take k).inPipe.arrived = w.inPipe.arrived := Fifo.arrived_take _ _
  unfold NotOwn
  rw [harr]
  exact hw

/-- While an earlier request is to be answered, no command reads the response to its own. -/
theorem not_ownFirst_of_waiting (hw : Numbered w) (hwait : w.waiting ≠ [])
    (h : (c.prog addr).Runs orderlyDevice.env w c.success w') : ¬ OwnFirst w w' := by
  obtain ⟨n, rest, hn⟩ := List.exists_cons_of_ne_nil hwait
  have hlt : n < w.sent := hw.waiting n (by rw [hn]; exact List.mem_cons_self)
  have hstart : NotOwn n w.sent w.inPipe.arrived.length w := .inl ⟨rfl, rest, hn⟩
  have hend : NotOwn n w.sent w.inPipe.arrived.length w' := by
    have hran : orderlyDevice.Ran c w c.success w' := Command.ran_of_runs h
    generalize c.success = a at hran
    cases hran with
    | lost _ _ hm => exact hstart.moves hlt.ne hm
    | @sent v u _ _ _ hm _ hu hm₂ =>
      obtain rfl : u = v.accept c.frame := hu
      exact ((hstart.moves hlt.ne hm).accept c).moves hlt.ne hm₂
    | @heard v u x _ s t k code _ hm _ hu hm₂ _ _ _ hm₃ =>
      obtain rfl : u = v.accept c.frame := hu
      exact ((((hstart.moves hlt.ne hm).accept c).moves hlt.ne hm₂).take k).moves hlt.ne hm₃
  rintro ⟨-, hown⟩
  rcases hend with ⟨hA, -⟩ | ⟨b, hb, ho⟩
  · rw [List.getElem?_eq_none (by omega)] at hown
    cases hown
  · rw [hb, Option.map_some, Option.some_inj] at hown
    exact ho hown

end First

/-- **A command that gives up is never made up for.**  In every run of commands from a device that was just switched on and
answers in order: a command that succeeds while the device does not collect has read the response to its own request if
and only if no sample was streamed before it and no command before it gave up. -/
theorem matched_iff_settled {addr : UsbAddr} {l₁ l₂ : List (Done Command Int32 Link)} {d : Done Command Int32 Link}
    {w : Link} (h : Trace orderlyDevice.env (Command.prog addr) .init (l₁ ++ d :: l₂) w) (hc : d.cmd.request ≠ .start)
    (hv : d.val = d.cmd.success) (hidle : d.before.collecting = false) :
    Matched d.before d.after ↔ d.before.streamed = 0 ∧ ∀ e ∈ l₁, ¬ GaveUp e := by
  have hnum : Numbered d.before := by
    have hlate := late_simulates.trace h
    have hmove : ∀ w v, Numbered w → lateDevice.env.move w v → Numbered v := fun _ _ hw h => hw.move h
    have hprog : ∀ c w a v, Numbered w → (Command.prog addr c).Runs lateDevice.env w a v → Numbered v :=
      fun _ _ _ _ hw h => h.inv (fun _ _ _ _ hw h => hw.ans h) hmove hw
    exact ((hlate.inv hmove hprog .init).1 d (by simp)).1
  obtain ⟨v, h₁, h₂⟩ := h.cut
  obtain ⟨c, w₀, a, w₁⟩ := d
  cases h₂ with
  | cons hm hr _ =>
    obtain rfl : a = c.success := hv
    have hlate : (c.prog addr).Runs lateDevice.env w₀ c.success w₁ := late_simulates.runs_all hr
    obtain ⟨hle, hiff⟩ := due_trace h₁
    have hd := SameDue.of_moves hm
    have hdue := hd.due
    have hinit : Link.init.due = 0 ∧ Link.init.streamed = 0 := ⟨rfl, rfl⟩
    rw [← hiff]
    constructor
    · intro hmatched
      have hown : OwnFirst w₀ w₁ := by
        by_contra hn
        exact not_matched_of_runs hnum hc hlate hn hmatched
      have hwait : w₀.waiting = [] := by
        by_contra hne
        exact not_ownFirst_of_waiting hnum hne hr hown
      have h0 : w₀.due = 0 := by rw [Link.due, hown.1, hwait]; rfl
      have hs := hd.streamed
      exact ⟨by show w₀.streamed = 0; omega, by omega⟩
    · rintro ⟨hs, hsettled⟩
      have h0 : w₀.due = 0 := by
        have hs : w₀.streamed = 0 := hs
        have := hd.streamed
        omega
      rw [Link.due, Nat.add_eq_zero_iff, Nat.mul_eq_zero] at h0
      refine matched_of_safe hnum hc (.inl ⟨List.length_eq_zero_iff.1 h0.1, ?_, hidle⟩) hlate
      exact List.length_eq_zero_iff.1 (h0.2.resolve_left (by decide))

/-- The connect that timed out and the one after it, on a device that answers in order. -/
theorem retry_inOrder :
    Trace orderlyDevice.env (Command.prog ⟨1⟩) .init retry ((lateReply.accept (codeFrame codeConnectRequrst)).take 32) := by
  have h₁ := Device.Ran.heard (D := orderlyDevice) (c := .connect) (w := .init) (s := 0) (t := 19) (k := 0) rfl
    (.refl _) trivial rfl (.refl _) (Nat.zero_le _) (Nat.zero_le _) (by rfl) (.refl _)
  have h₂ := Device.Ran.heard (D := orderlyDevice) (c := .connect) (w := lateReply) (s := 0) (t := 0) (k := 32) rfl
    (.refl _) trivial rfl (.refl _) le_rfl (by decide) (by rfl) (.refl _)
  refine .cons (.refl _) (Command.runs_of_ran h₁) (.cons (.single ?_) (Command.runs_of_ran h₂) (.nil (.refl _)))
  exact .inl ⟨0, [], codeFrame codeConnectResponse, by decide, rfl, rfl⟩

/-- The second connect is not matched, as the first gave up. -/
theorem matched_iff_settled_retry :
    ¬ Matched lateReply ((lateReply.accept (codeFrame codeConnectRequrst)).take 32) := by
  have hgave : GaveUp ⟨.connect, .init, usbConnectFail, (Link.init.accept (codeFrame codeConnectRequrst)).take 0⟩ :=
    ⟨by decide, rfl, by decide⟩
  have htrace : Trace orderlyDevice.env (Command.prog ⟨1⟩) .init
      ([⟨.connect, .init, usbConnectFail, _⟩] ++ ⟨.connect, lateReply, usbConnectSuccess, _⟩ :: []) _ := retry_inOrder
  rw [matched_iff_settled htrace (by decide) rfl rfl]
  rintro ⟨-, hsettled⟩
  exact hsettled _ List.mem_cons_self hgave

end EdUsb
