import EdUsb.Barrier
import EdUsb.Matching
import EdUsb.Repeats

/-!
# Back into step

On a link that holds bytes from before, each command reads 32 bytes of what was queued and leaves its own response behind
them: the commands alone never catch up.  Only a receive takes more out of the pipe than it puts in.  So after any history,
and once the device does not collect, a command reads its own response exactly if the receives before it asked for as many
bytes as were queued (`resync_iff`), however the commands and receives are mixed.
-/

namespace EdUsb

open EdUsb.Lib Ed

/-- A command, or a receive of `len` bytes. -/
inductive PipeCall where
  | command (c : Command)
  | recv (cfg : UsbConfig) (r : Recv) (len : UInt64)

namespace PipeCall

/-- Of what a receive yields, only the return value. -/
def prog (addr : UsbAddr) : PipeCall → Ed Int32
  | .command c => c.prog addr
  | .recv cfg r len => usbStartRecvRepeatN cfg addr r.repeatIndex r.data len r.timeout >>= fun a => .ret a.1

/-- The bytes that are asked for beyond the response to a request. -/
def asked : PipeCall → ℕ
  | .command _ => 0
  | .recv _ _ len => len.toUInt32.toNat

end PipeCall

/-! ### Numbers of requests -/

theorem Numbered.answered {w u : Link} {q : Request} (hw : Numbered w) (h : w.Answered [] q u) : Numbered u := by
  rcases h with ⟨hq, rfl⟩ | ⟨code, rest, hq, hrest, rfl⟩
  · obtain rfl : q = .start := by
      cases q with
      | start => rfl
      | connect => cases hq
      | config => cases hq
      | stop => cases hq
    exact (hw.receive .start).move (.inr ⟨rfl, [], rfl⟩)
  · have hne : q ≠ .start := by
      rintro rfl
      cases hq
    have hown : w.sent ∈ (w.receive q).waiting := by simp [Link.receive, hne]
    refine (hw.receive q).move (.inl ⟨w.sent, hown, code ++ rest, ?_, rfl⟩)
    rw [List.length_append, Request.answer_length hq, hrest]

/-- Every call keeps the numbers right, also where the device answers at once. -/
theorem Numbered.prompt_run {addr : UsbAddr} {c : PipeCall} {w v : Link} {a : Int32} (hw : Numbered w)
    (h : (c.prog addr).Runs promptDevice.env w a v) : Numbered v := by
  have haccept : ∀ w frame u, Numbered w → promptDevice.accept w frame u → Numbered u :=
    fun _ _ _ hw hu => Link.Acted.inv hu hw fun _ => hw.answered
  exact h.inv (fun _ _ _ _ hw ha => Device.ans_inv haccept (fun _ k hw => hw.take k) hw ha)
    (fun _ _ hw hm => hw.move (.inr hm)) hw

/-! ### One call on a device that does not collect -/

section Call

variable {addr : UsbAddr} {c : Command} {w w' : Link} {a : Int32}

/-- What a command does there: its request is lost, or its response is queued and as much is taken out in front. -/
theorem idle_command (hidle : w.collecting = false) (hc : c ≠ .start)
    (h : (c.prog addr).Runs promptDevice.env w a w') :
    w' = w ∨ ∃ code rest, c.request.answer = some code ∧ rest.length = 24 ∧
      w' = ((w.receive c.request).reply w.sent (code ++ rest)).take 32 ∧
      a = if ((w.inPipe.queue ++ replyBytes w.sent (code ++ rest)).take 8).map InByte.val = code then c.success
        else c.verifyErr := by
  have hr := Command.ran_of_runs h
  cases hr with
  | lost _ _ hm => exact .inl (moves_idle hidle hm)
  | sent hn => exact absurd (Command.eq_start hn) hc
  | @heard v u x _ s t k code hcode hm _ hu hm₂ hk hq hrd hm₃ =>
    obtain rfl := moves_idle hidle hm
    rcases (Link.acted_frame [] v u c).1 hu with ⟨hn, -⟩ | ⟨code', rest, hcode', hrest, rfl⟩
    · exact absurd (Command.eq_start hn) hc
    · obtain rfl := Option.some_inj.1 (hcode.symm.trans hcode')
      have hidle' : ((v.receive c.request).reply v.sent (code ++ rest)).collecting = false := by
        cases c <;> first | exact hidle | rfl | exact absurd rfl hc
      obtain rfl := moves_idle hidle' hm₂
      -- there are at least the 32 bytes of the response, so the read is full
      have hk32 : k = 32 := by
        have hlen : ((v.receive c.request).reply v.sent (code ++ rest)).inPipe.queue.length =
            v.inPipe.queue.length + 32 := by
          simp [Link.reply, Link.receive, Request.answer_length hcode, hrest]
        have hrd : k = min 32 ((v.receive c.request).reply v.sent (code ++ rest)).inPipe.queue.length := hrd
        omega
      subst hk32
      rw [if_pos rfl]
      have hidle₂ : (((v.receive c.request).reply v.sent (code ++ rest)).take 32).collecting = false := hidle'
      exact .inr ⟨code, rest, hcode, hrest, moves_idle hidle₂ hm₃, rfl⟩

/-- **Step.**  A command leaves as much queued as it found, and a receive as much less as it asks for. -/
theorem idle_call {p : PipeCall} (hidle : w.collecting = false) (hp : p ≠ .command .start)
    (h : (p.prog addr).Runs promptDevice.env w a w') :
    w'.collecting = false ∧ w'.inPipe.queue.length = w.inPipe.queue.length - p.asked := by
  cases p with
  | command c =>
    have hc : c ≠ .start := by
      rintro rfl
      exact hp rfl
    rcases idle_command hidle hc h with rfl | ⟨code, rest, hcode, hrest, rfl, -⟩
    · exact ⟨hidle, rfl⟩
    · refine ⟨?_, ?_⟩
      · cases c <;> first | exact hidle | rfl | exact absurd rfl hc
      · simp [Link.take, Link.reply, Link.receive, PipeCall.asked, Request.answer_length hcode, hrest]
  | recv cfg r len =>
    obtain ⟨b, v, hr, -, hm⟩ := Prog.runs_bind.1 h
    obtain ⟨-, x, s, k, hm₁, -, -, hrd, -, hm₂⟩ := recv_run hr
    obtain rfl := moves_idle hidle hm₁
    have hidle' : (x.take k).collecting = false := hidle
    obtain rfl := moves_idle hidle' hm₂
    obtain rfl := moves_idle hidle' hm
    refine ⟨hidle', ?_⟩
    have hk : k = min len.toUInt32.toNat x.inPipe.queue.length := hrd
    rw [show (x.take k).inPipe.queue = x.inPipe.queue.drop k from rfl, List.length_drop, PipeCall.asked]
    omega

/-- The 32 bytes that are taken out in front are the response exactly if nothing was queued before it. -/
theorem matched_heard (hw : Numbered w) {q : Request} {resp : List UInt8} (hresp : resp.length = 32) :
    Matched w (((w.receive q).reply w.sent resp).take 32) ↔ w.inPipe.queue = [] := by
  have hbet : w.inPipe.between (((w.receive q).reply w.sent resp).take 32).inPipe =
      (w.inPipe.queue ++ replyBytes w.sent resp).take 32 := by
    have hp : (((w.receive q).reply w.sent resp).take 32).inPipe =
        ((w.inPipe.put (replyBytes w.sent resp)).take 32).put [] := by
      rw [Fifo.put_nil]
      rfl
    rw [hp, Fifo.between_put_take]
  constructor
  · rintro ⟨resp', -, -, hb⟩
    rw [hbet] at hb
    rcases hq : w.inPipe.queue with _ | ⟨b, bs⟩
    · rfl
    · -- a byte that was queued before is of an earlier request
      rw [hq, List.cons_append, List.take_succ_cons] at hb
      have hmem : b ∈ replyBytes w.sent resp' := by
        rw [← hb]
        exact List.mem_cons_self
      obtain ⟨i, hi⟩ := mem_replyBytes hmem
      have := hw.queue b (by rw [hq]; exact List.mem_cons_self) _ _ hi
      omega
  · intro hq
    refine ⟨resp, hresp, ?_, ?_⟩
    · exact List.mem_append_right _ List.mem_cons_self
    · rw [hbet, hq, List.nil_append, List.take_of_length_le (by rw [replyBytes_length, hresp])]

theorem not_matched_self (w : Link) : ¬ Matched w w := by
  rintro ⟨resp, hresp, -, hb⟩
  have hlen := congrArg List.length hb
  rw [replyBytes_length, hresp, Fifo.between, List.drop_length] at hlen
  cases hlen

/-- A command reads the response to its own request exactly if the device received it with the pipe empty, and then it
succeeds. -/
theorem idle_matched (hw : Numbered w) (hidle : w.collecting = false) (hc : c ≠ .start)
    (h : (c.prog addr).Runs promptDevice.env w a w') :
    (Matched w w' ↔ w.sent < w'.sent ∧ w.inPipe.queue = []) ∧ (Matched w w' → a = c.success) := by
  rcases idle_command hidle hc h with rfl | ⟨code, rest, hcode, hrest, rfl, rfl⟩
  · have hnot := not_matched_self w'
    refine ⟨iff_of_false hnot ?_, fun hm => absurd hm hnot⟩
    rintro ⟨hlt, -⟩
    exact absurd hlt (lt_irrefl _)
  · have h8 := Request.answer_length hcode
    have hlen : (code ++ rest).length = 32 := by rw [List.length_append, h8, hrest]
    have hiff := matched_heard (q := c.request) hw hlen
    refine ⟨?_, ?_⟩
    · rw [hiff]
      exact (and_iff_right (Nat.lt_succ_self w.sent)).symm
    · intro hm
      rw [hiff.1 hm, List.nil_append, List.map_take, map_val_replyBytes, List.take_left' h8, if_pos rfl]

end Call

/-! ### A run -/

/-- **Run.**  What is queued before each call is what was queued at first, less what the receives before it asked for. -/
theorem queue_before {addr : UsbAddr} {l : List (Done PipeCall Int32 Link)} {w w' : Link} (hidle : w.collecting = false)
    (hl : ∀ d ∈ l, d.cmd ≠ .command .start) (h : Trace promptDevice.env (PipeCall.prog addr) w l w') :
    ∀ (i : ℕ) (d : Done PipeCall Int32 Link), l[i]? = some d →
      d.before.collecting = false ∧
      d.before.inPipe.queue.length = w.inPipe.queue.length - ((l.take i).map fun e => e.cmd.asked).sum := by
  induction h with
  | nil =>
    intro i d hd
    simp at hd
  | @cons w v v' w' p a l hm hr _ ih =>
    obtain rfl := moves_idle hidle hm
    rw [List.forall_mem_cons] at hl
    obtain ⟨hidle', hlen⟩ := idle_call hidle hl.1 hr
    intro i d hd
    cases i with
    | zero =>
      obtain rfl := Option.some_inj.1 hd
      exact ⟨hidle, by simp⟩
    | succ i =>
      obtain ⟨hidle₂, hlen₂⟩ := ih hidle' hl.2 i d hd
      refine ⟨hidle₂, ?_⟩
      rw [hlen₂, hlen, List.take_succ_cons, List.map_cons, List.sum_cons, Nat.sub_sub]

/-- **When the commands are in step again.**  A device that was just switched on and answers at once, and any calls until
it does not collect; then commands and receives in any order, but no start: a command reads the response to its own
request, and succeeds, if and only if the device received it and the receives before it asked for as many bytes as were
queued at first. -/
theorem resync_iff {addr : UsbAddr} {l₀ l : List (Done PipeCall Int32 Link)} {w w' : Link}
    (h₀ : Trace promptDevice.env (PipeCall.prog addr) .init l₀ w) (hidle : w.collecting = false)
    (h : Trace promptDevice.env (PipeCall.prog addr) w l w') (hl : ∀ d ∈ l, d.cmd ≠ .command .start) {i : ℕ}
    {d : Done PipeCall Int32 Link} (hd : l[i]? = some d) {c : Command} (hc : d.cmd = .command c) :
    (Matched d.before d.after ↔
        d.before.sent < d.after.sent ∧ w.inPipe.queue.length ≤ ((l.take i).map fun e => e.cmd.asked).sum) ∧
      (Matched d.before d.after → d.val = c.success) := by
  have hmove : ∀ w v, Numbered w → promptDevice.env.move w v → Numbered v := fun _ _ hw hm => hw.move (.inr hm)
  have hprog : ∀ p w a v, Numbered w → (PipeCall.prog addr p).Runs promptDevice.env w a v → Numbered v :=
    fun _ _ _ _ hw hr => hw.prompt_run hr
  have hmem : d ∈ l := List.mem_of_getElem? hd
  obtain ⟨hb, hr, -⟩ := (h.inv hmove hprog (h₀.inv hmove hprog .init).2).1 d hmem
  obtain ⟨hidle', hlen⟩ := queue_before hidle hl h i d hd
  have hstart : c ≠ .start := by
    rintro rfl
    exact hl d hmem hc
  rw [hc] at hr
  obtain ⟨hiff, hval⟩ := idle_matched hb hidle' hstart hr
  refine ⟨?_, hval⟩
  rw [hiff, ← List.length_eq_zero_iff, hlen, Nat.sub_eq_zero_iff_le]

/-! ### A collection that was not read to its end -/

/-- After the stop that ends it, with 32 bytes queued. -/
def ended : Link := stopped unread

theorem ended_trace :
    Trace promptDevice.env (PipeCall.prog ⟨1⟩) .init
      [⟨.command .start, .init, usbStartCollectSuccess, Link.init.receive .start⟩,
        ⟨.command .stop, unread, usbStopCollectVerifyFail, ended⟩] ended := by
  have hu : promptDevice.accept .init Command.start.frame (Link.init.receive .start) :=
    (Link.acted_frame [] .init _ .start).2 (.inl ⟨rfl, rfl⟩)
  have h₁ := Device.Ran.sent (D := promptDevice) (c := .start) (s := 0) rfl (.refl .init) trivial hu (.refl _)
  have h₂ := stopped_runs ⟨1⟩ unread
  rw [if_neg (by decide)] at h₂
  exact .cons (.refl _) (Command.runs_of_ran h₁) (.cons (.single ⟨rfl, List.replicate 32 0, rfl⟩) h₂ (.nil (.refl _)))

/-- One more stop, and a receive of 32 bytes before it. -/
def caughtUp : Link := stopped (ended.take 32)

theorem recv_ended :
    ((PipeCall.recv oneSample ⟨0, fun _ => 0, 1000⟩ 32).prog ⟨1⟩).Runs promptDevice.env ended
      (UInt32.ofNat 32).toInt32 (ended.take 32) := by
  have hq : 32 ≤ ended.inPipe.queue.length := by decide +kernel
  have hrecv : (usbStartRecvRepeatN oneSample ⟨1⟩ 0 (fun _ => 0) 32 1000).Runs promptDevice.env ended _ (ended.take 32) :=
    runs_of_recv (s := 0) (k := 32) (by decide) (.refl ended) (by decide) hq (min_eq_left hq).symm (.refl _)
  exact Prog.runs_bind.2 ⟨_, _, hrecv, rfl, .refl _⟩

/-- After the receive the stop reads its own response; without it, it would not. -/
theorem resync_iff_ended : Matched (ended.take 32) caughtUp ∧ ¬ Matched ended (stopped ended) := by
  have h₁ : Trace promptDevice.env (PipeCall.prog ⟨1⟩) ended
      [⟨.recv oneSample ⟨0, fun _ => 0, 1000⟩ 32, ended, _, ended.take 32⟩,
        ⟨.command .stop, ended.take 32, _, caughtUp⟩] caughtUp :=
    .cons (.refl _) recv_ended (.cons (.refl _) (stopped_runs ⟨1⟩ _) (.nil (.refl _)))
  have h₂ : Trace promptDevice.env (PipeCall.prog ⟨1⟩) ended [⟨.command .stop, ended, _, stopped ended⟩] (stopped ended) :=
    .cons (.refl _) (stopped_runs ⟨1⟩ _) (.nil (.refl _))
  constructor
  · refine (resync_iff ended_trace rfl h₁ ?_ (i := 1) rfl rfl).1.2 ⟨by decide, by decide +kernel⟩
    rw [List.forall_mem_cons, List.forall_mem_singleton]
    exact ⟨by simp, by simp⟩
  · rw [(resync_iff ended_trace rfl h₂ ?_ (i := 0) rfl rfl).1]
    · rintro ⟨-, hle⟩
      exact absurd hle (by decide +kernel)
    · rw [List.forall_mem_singleton]
      simp

end EdUsb
