import EdUsb.Frame
import EdUsb.Link

/-!
# The commands on a link

What the commands and the receives do on a link with any device (`Command.ran_of_runs`, `Command.runs_of_ran`,
`recv_run`), and that they always go through where every transfer is answered (`Command.goes`, `recv_goes`).
-/

namespace EdUsb

open EdUsb.Lib Ed

inductive Command where
  | connect
  | config (c : UsbConfig)
  | start
  | stop

namespace Command

def prog (addr : UsbAddr) : Command → Ed Int32
  | .connect => usbDevConnect addr
  | .config c => usbSendConfigToDevice c addr
  | .start => usbStartCollect addr
  | .stop => usbStopCollect addr

def frame : Command → List UInt8
  | .connect => codeFrame codeConnectRequrst
  | .config c => configFrame c
  | .start => codeFrame codeStartCollect
  | .stop => codeFrame codeStopCollectRequest

def request : Command → Request
  | .connect => .connect
  | .config _ => .config
  | .start => .start
  | .stop => .stop

def success : Command → Int32
  | .connect => usbConnectSuccess
  | .config _ => usbSendConfigSuccess
  | .start => usbStartCollectSuccess
  | .stop => usbStopCollectSuccess

def fail : Command → Int32
  | .connect => usbConnectFail
  | .config _ => usbSendConfigFail
  | .start => usbStartCollectFail
  | .stop => usbStopCollectFail

/-- `start` reads no response and so has none. -/
def verifyErr : Command → Int32
  | .connect => usbConnectVerifyErr
  | .config _ => usbSendConfigVerifyErr
  | .start => usbStartCollectFail
  | .stop => usbStopCollectVerifyFail

theorem requestOf_frame (c : Command) : requestOf c.frame = some c.request := by
  cases c with
  | connect => rfl
  | config c =>
    have h := (configFrame_fields c).code
    simp only [requestOf, frame, request, h]
    rfl
  | start => rfl
  | stop => rfl

theorem success_ne_fail (c : Command) : c.success ≠ c.fail := by
  cases c <;> simp only [success, fail] <;> decide

theorem success_ne_verifyErr (c : Command) : c.success ≠ c.verifyErr := by
  cases c <;> simp only [success, verifyErr] <;> decide

end Command

/-- The code that the response to a request starts with. -/
def Request.answer : Request → Option (List UInt8)
  | .connect => some codeConnectResponse
  | .config => some codeSendConfigResponse
  | .start => none
  | .stop => some codeStopCollectResponse

/-- A command that is answered is an exchange of its frame, whatever its buffer held. -/
theorem Command.prog_eq {c : Command} {code : List UInt8} (hc : c.request.answer = some code) (addr : UsbAddr) :
    ∃ (buf : Mem → Mem) (short : Ed Unit), (∀ m, (buf m).bytes 0 32 = c.frame) ∧ code.length = 8 ∧
      (short = .ret () ∨ short = Ed.errno >>= fun _ => .ret ()) ∧
      c.prog addr = undef .buf >>= fun m => exchange addr (buf m) code c.success c.fail c.verifyErr short := by
  cases c with
  | connect =>
    cases hc
    exact ⟨_, _, fun m => bytes_codeFrame m rfl, rfl, .inl rfl, usbDevConnect_eq addr⟩
  | config c =>
    cases hc
    exact ⟨_, _, fun m => packConfig_memset c m, rfl, .inl rfl, usbSendConfigToDevice_eq c addr⟩
  | start => cases hc
  | stop =>
    cases hc
    exact ⟨_, _, fun m => bytes_codeFrame m rfl, rfl, .inr rfl, usbStopCollect_eq addr⟩

/-- Only `start` is not answered. -/
theorem Command.eq_start {c : Command} (hc : c.request.answer = none) : c = .start := by
  cases c with
  | start => rfl
  | connect => cases hc
  | config => cases hc
  | stop => cases hc

theorem Command.fail_ne_verifyErr {c : Command} {code : List UInt8} (hc : c.request.answer = some code) :
    c.fail ≠ c.verifyErr := by
  cases c with
  | start => cases hc
  | connect => exact (by decide : usbConnectFail ≠ usbConnectVerifyErr)
  | config => exact (by decide : usbSendConfigFail ≠ usbSendConfigVerifyErr)
  | stop => exact (by decide : usbStopCollectFail ≠ usbStopCollectVerifyFail)

/-- The device receives a request and answers it at once: with the right code and anything behind it, or, on a start,
with `samples`. -/
def Link.Answered (samples : List UInt8) (w : Link) (q : Request) (w' : Link) : Prop :=
  q.answer = none ∧ w' = (w.receive q).stream samples ∨
    ∃ code rest, q.answer = some code ∧ rest.length = 24 ∧ w' = (w.receive q).reply w.sent (code ++ rest)

/-- The device receives a frame and answers at once if it is a request. -/
def Link.Acted (samples : List UInt8) (w : Link) (frame : List UInt8) (w' : Link) : Prop :=
  match requestOf frame with
  | some q => w.Answered samples q w'
  | none => w' = w

theorem Link.acted_frame (samples : List UInt8) (w w' : Link) (c : Command) :
    w.Acted samples c.frame w' ↔ w.Answered samples c.request w' := by
  unfold Link.Acted
  rw [Command.requestOf_frame]

/-- What answering a request keeps, receiving any frame keeps. -/
theorem Link.Acted.inv {I : Link → Prop} {samples frame : List UInt8} {w u : Link} (h : w.Acted samples frame u) (hw : I w)
    (hI : ∀ q, w.Answered samples q u → I u) : I u := by
  unfold Link.Acted at h
  cases hreq : requestOf frame with
  | none =>
    rw [hreq] at h
    obtain rfl : u = w := h
    exact hw
  | some q =>
    rw [hreq] at h
    exact hI q h

theorem Link.exists_acted (samples : List UInt8) (w : Link) (frame : List UInt8) : ∃ w', w.Acted samples frame w' := by
  unfold Link.Acted
  cases requestOf frame with
  | none => exact ⟨w, rfl⟩
  | some q =>
    cases hq : q.answer with
    | none => exact ⟨_, .inl ⟨hq, rfl⟩⟩
    | some code => exact ⟨_, .inr ⟨code, List.replicate 24 0, hq, rfl, rfl⟩⟩

theorem Request.answer_length {q : Request} {code : List UInt8} (h : q.answer = some code) : code.length = 8 := by
  cases q <;> cases h <;> rfl

/-- An answer puts 32 bytes into the IN pipe, which start with the code. -/
theorem Link.Answered.put {samples : List UInt8} {w u : Link} {q : Request} {code : List UInt8}
    (h : w.Answered samples q u) (hc : q.answer = some code) :
    ∃ bs, bs.length = 32 ∧ (bs.take 8).map InByte.val = code ∧ u.inPipe = w.inPipe.put bs ∧
      u.collecting = (w.receive q).collecting ∧ u.streamed = w.streamed := by
  rcases h with ⟨hn, -⟩ | ⟨code', rest, hc', hrest, rfl⟩
  · rw [hc] at hn
    cases hn
  · obtain rfl := Option.some_inj.1 (hc.symm.trans hc')
    have h8 := Request.answer_length hc
    refine ⟨replyBytes w.sent (code ++ rest), ?_, ?_, rfl, rfl, rfl⟩
    · simp [h8, hrest]
    · rw [List.map_take, map_val_replyBytes, List.take_left' h8]

/-- What a command did on a link in a run from `w` to `w'` that returned a value. -/
inductive Device.Ran (D : Device) (c : Command) : Link → Int32 → Link → Prop
  | lost {w w' : Link} {s : FtStatus} {k : UInt32} : D.wrote s k → k ≠ 32 → D.env.Moves w w' → Ran D c w c.fail w'
  | sent {w v u w' : Link} {s : FtStatus} : c.request.answer = none → D.env.Moves w v → D.wrote s 32 →
      D.accept v c.frame u → D.env.Moves u w' → Ran D c w c.success w'
  | heard {w v u x w' : Link} {s t : FtStatus} {k : ℕ} {code : List UInt8} : c.request.answer = some code →
      D.env.Moves w v → D.wrote s 32 → D.accept v c.frame u → D.env.Moves u x → k ≤ 32 →
      k ≤ x.inPipe.queue.length → D.reads x 32 t k → D.env.Moves (x.take k) w' →
      Ran D c w
        (if k = 32 then if (x.inPipe.queue.take 8).map InByte.val = code then c.success else c.verifyErr else c.fail) w'

namespace Command

variable {D : Device} {c : Command} {w w' : Link} {a : Int32} {addr : UsbAddr}

theorem ran_of_exchanged {code : List UInt8} (hc : c.request.answer = some code)
    (h : Exchanged D.env addr c.frame code c.success c.fail c.verifyErr w a w') : D.Ran c w a w' := by
  cases h with
  | unwritten hm ha hk hk32 hm' =>
    obtain ⟨k, hk', hw, hu⟩ := ha
    obtain rfl := Option.some_inj.1 (hk.symm.trans hk')
    rw [if_neg hk32] at hu
    subst hu
    exact .lost hw hk32 (hm.trans hm')
  | short hm ha hk hm₂ ha₂ hg hm₃ =>
    obtain ⟨k, hk', hw, hu⟩ := ha
    obtain rfl := Option.some_inj.1 (hk.symm.trans hk')
    obtain ⟨n, hn, hq, hr, -, hd, rfl⟩ := ha₂
    rw [hd, List.length_map, List.length_take_of_le hq] at hg
    have := Device.Ran.heard hc hm hw hu hm₂ hn hq hr hm₃
    rwa [if_neg hg] at this
  | full hm ha hk hm₂ ha₂ hg hm₃ =>
    obtain ⟨k, hk', hw, hu⟩ := ha
    obtain rfl := Option.some_inj.1 (hk.symm.trans hk')
    obtain ⟨n, hn, hq, hr, -, hd, rfl⟩ := ha₂
    have hn32 := hg
    rw [hd, List.length_map, List.length_take_of_le hq] at hn32
    have := Device.Ran.heard hc hm hw hu hm₂ hn hq hr hm₃
    rw [if_pos hn32] at this
    rwa [hd, ← List.map_take, List.take_take, min_eq_left (by omega)]

/-- **What a command does on a link**: its request got lost, or it was received and, but for `start`, up to 32 bytes were
taken out of the IN pipe, which decide what is returned. -/
theorem ran_of_runs (h : (c.prog addr).Runs D.env w a w') : D.Ran c w a w' := by
  cases hc : c.request.answer with
  | some code =>
    obtain ⟨buf, short, hb, h8, hs, hp⟩ := prog_eq hc addr
    rw [hp] at h
    obtain ⟨m, h⟩ := D.quiet.undef_bind h
    have hex := D.quiet.exchanged h8 hs h
    rw [hb] at hex
    exact ran_of_exchanged hc hex
  | none =>
    obtain rfl := eq_start hc
    obtain ⟨m, h⟩ := D.quiet.undef_bind h
    obtain ⟨v, r, u, k, hm, ha, hk, h⟩ := D.quiet.write_bind h
    obtain ⟨k', hk', hw, hu⟩ := ha
    obtain rfl := Option.some_inj.1 (hk.symm.trans hk')
    by_cases hk32 : k = 32
    · subst hk32
      obtain ⟨rfl, hm'⟩ := h
      rw [if_pos rfl, show UInt64.toNat 32 = 32 from rfl, bytes_codeFrame _ rfl] at hu
      exact .sent rfl hm hw hu hm'
    · simp only [ne_eq, toUInt64_eq_32, hk32, not_false_eq_true, if_true] at h
      obtain ⟨rfl, hm'⟩ := h
      rw [if_neg hk32] at hu
      subst hu
      exact .lost hw hk32 (hm.trans hm')

theorem verify_runs {resp : Mem} {code : List UInt8} {success verifyErr : Int32} (hc : code.length = 8)
    (hm : D.env.Moves w w') :
    (verify resp code success verifyErr).Runs D.env w (if resp.bytes 0 8 = code then success else verifyErr) w' := by
  refine undef_runs (fun _ => 0) ?_
  have hb : (packUint8Arr (fun _ => 0) 0 code 8).bytes 0 8 = code := by
    have := packUint8Arr_bytes (fun _ => 0) 0 code
    rwa [hc] at this
  by_cases h : resp.bytes 0 8 = code <;> simpa [memcmpNe, hb, h] using hm

/-- What a command may do on a link, it does in some run. -/
theorem exchange_runs {buf : Mem} {code : List UInt8} {short : Ed Unit} (hb : buf.bytes 0 32 = c.frame)
    (hc : c.request.answer = some code) (hc8 : code.length = 8)
    (hs : short = .ret () ∨ short = Ed.errno >>= fun _ => .ret ()) (h : D.Ran c w a w') :
    (exchange addr buf code c.success c.fail c.verifyErr short).Runs D.env w a w' := by
  cases h with
  | lost hw hk hm =>
    refine write_runs (.refl w) hw (by rw [if_neg hk]) ?_
    simp only [ne_eq, toUInt64_eq_32, hk, not_false_eq_true, if_true]
    exact ⟨rfl, hm⟩
  | sent hn => rw [hc] at hn; cases hn
  | @heard v u x _ s t k code' hc' hm hw hu hm₂ hk hq hr hm₃ =>
    obtain rfl := Option.some_inj.1 (hc.symm.trans hc')
    refine write_runs hm hw (by rw [if_pos rfl, show UInt64.toNat 32 = 32 from rfl, hb]; exact hu) ?_
    refine undef_runs (fun _ => 0) (read_runs hm₂ hk hq hr ?_)
    by_cases hk32 : k = 32
    · subst hk32
      have hl : 8 ≤ ((x.inPipe.queue.take 32).map InByte.val).length := by
        rw [List.length_map, List.length_take_of_le hq]
        omega
      have hb8 : (Mem.write (fun _ => 0) 0 ((x.inPipe.queue.take 32).map InByte.val)).bytes 0 8 =
          (x.inPipe.queue.take 8).map InByte.val := by
        rw [Mem.bytes_write_take _ _ hl, ← List.map_take, List.take_take, min_eq_left (by omega)]
      rw [if_pos rfl, ← hb8]
      exact verify_runs hc8 hm₃
    · have h32 : ¬ UInt32.ofNat k = 32 := by
        intro h
        have := congrArg UInt32.toNat h
        rw [UInt32.toNat_ofNat', Nat.mod_eq_of_lt (by omega)] at this
        exact hk32 this
      simp only [ne_eq, toUInt64_eq_32, h32, not_false_eq_true, if_true, if_neg hk32]
      rcases hs with rfl | rfl
      · exact ⟨rfl, hm₃⟩
      · exact ⟨_, (0 : Int32), _, .refl _, rfl, rfl, hm₃⟩

theorem runs_of_ran (h : D.Ran c w a w') : (c.prog addr).Runs D.env w a w' := by
  cases hc : c.request.answer with
  | some code =>
    obtain ⟨buf, short, hb, h8, hs, hp⟩ := prog_eq hc addr
    rw [hp]
    exact undef_runs (fun _ => 0) (exchange_runs (hb _) hc h8 hs h)
  | none =>
    obtain rfl := eq_start hc
    refine undef_runs (fun _ => 0) ?_
    cases h with
    | lost hw hk hm =>
      refine write_runs (.refl w) hw (by rw [if_neg hk]) ?_
      simp only [ne_eq, toUInt64_eq_32, hk, not_false_eq_true, if_true]
      exact ⟨rfl, hm⟩
    | sent _ hm hw hu hm' =>
      refine write_runs hm hw ?_ (show (Prog.ret usbStartCollectSuccess : Ed Int32).Runs _ _ _ _ from ⟨rfl, hm'⟩)
      rw [if_pos rfl, show UInt64.toNat 32 = 32 from rfl, bytes_codeFrame _ rfl]
      exact hu
    | heard hc => cases hc

end Command

/-! ### Receiving on a link -/

section Recv

variable {D : Device} {c : UsbConfig} {addr : UsbAddr} {repeatIndex : Int32} {data : Mem} {len : UInt64}
  {timeout : UInt32} {w w' : Link} {a : Int32 × Mem}

/-- What a receive does on a link: its assertion holds, and it takes up to `len` bytes, reduced to 32 bits, out of the IN
pipe into its buffer. -/
theorem recv_run (h : (usbStartRecvRepeatN c addr repeatIndex data len timeout).Runs D.env w a w') :
    repeatIndex < c.repeatCount.toUInt32.toInt32 ∧ ∃ v s k, D.env.Moves w v ∧ k ≤ len.toUInt32.toNat ∧
      k ≤ v.inPipe.queue.length ∧ D.reads v len.toUInt32.toNat s k ∧
      a = ((UInt32.ofNat k).toInt32, data.write 0 ((v.inPipe.queue.take k).map InByte.val)) ∧
      D.env.Moves (v.take k) w' := by
  by_cases hi : repeatIndex < c.repeatCount.toUInt32.toInt32
  · simp only [usbStartRecvRepeatN, hi, decide_true, Prog.assert_true, Prog.ret_bind] at h
    obtain ⟨v, g, u, hm, ha, hr, hm'⟩ := D.quiet.read_bind h
    obtain ⟨k, hk, hq, hrd, -, hd, rfl⟩ := ha
    have hlen : g.data.length = k := by rw [hd, List.length_map, List.length_take_of_le hq]
    refine ⟨hi, v, g.status, k, hm, hk, hq, hrd, ?_, hm'⟩
    rw [← hr, hlen, hd, sizeToInt_toUInt64]
  · simp [usbStartRecvRepeatN, hi] at h

theorem runs_of_recv {v : Link} {s : FtStatus} {k : ℕ} (hi : repeatIndex < c.repeatCount.toUInt32.toInt32)
    (hm : D.env.Moves w v) (hk : k ≤ len.toUInt32.toNat) (hq : k ≤ v.inPipe.queue.length)
    (hr : D.reads v len.toUInt32.toNat s k) (hm' : D.env.Moves (v.take k) w') :
    (usbStartRecvRepeatN c addr repeatIndex data len timeout).Runs D.env w
      ((UInt32.ofNat k).toInt32, data.write 0 ((v.inPipe.queue.take k).map InByte.val)) w' := by
  simp only [usbStartRecvRepeatN, hi, decide_true, Prog.assert_true, Prog.ret_bind]
  refine read_runs hm hk hq hr ⟨?_, hm'⟩
  rw [sizeToInt_toUInt64]

end Recv

/-! ### Going through -/

/-- Every transfer can be answered, whatever the state. -/
structure Device.Responsive (D : Device) : Prop where
  write : ∀ w frame, ∃ s k w', D.wrote s k ∧ if k = 32 then D.accept w frame w' else w' = w
  read : ∀ w n, ∃ s k, k ≤ n ∧ k ≤ w.inPipe.queue.length ∧ D.reads w n s k

/-- The program is never left unanswered and no assertion of it fails. -/
def Device.Goes (D : Device) {α : Type} (p : Ed α) : Prop := ∀ w, p.Wp D.env (fun _ _ => True) w

section Goes

variable {D : Device} {α β : Type}

theorem goes_ret (a : α) : D.Goes (.ret a) := fun _ _ _ => trivial

theorem goes_bind {p : Ed α} {f : α → Ed β} (hp : D.Goes p) (hf : ∀ a, D.Goes (f a)) : D.Goes (p >>= f) :=
  fun w => Prog.wp_bind ((hp w).mono fun a v _ => hf a v)

theorem goes_undef {l : Local} {f : l.Val → Ed α} (hf : ∀ g, D.Goes (f g)) : D.Goes (undef l >>= f) := by
  have hg : Nonempty l.Val := by cases l <;> exact ⟨default⟩
  obtain ⟨g⟩ := hg
  intro w v _
  exact ⟨⟨g, v, rfl⟩, fun r u _ => hf r u⟩

theorem goes_errno {f : Int32 → Ed α} (hf : ∀ e, D.Goes (f e)) : D.Goes (Ed.errno >>= f) :=
  fun _ v _ => ⟨⟨(0 : Int32), v, rfl⟩, fun r u _ => hf r u⟩

variable (hD : D.Responsive)
include hD

theorem goes_write {addr : UsbAddr} {buf : Mem} {size : UInt64} {timeout : UInt32} {f : UInt64 → Ed α}
    (hf : ∀ n, D.Goes (f n)) : D.Goes (write addr buf size timeout >>= f) := by
  intro w v _
  refine ⟨⟨ftOk, v, rfl⟩, ?_⟩
  intro _ v₁ _ v₂ _
  refine ⟨⟨(0 : UInt32), v₂, rfl⟩, ?_⟩
  intro n v₃ _ v₄ _
  refine ⟨?_, fun r u _ => hf _ u⟩
  obtain ⟨s, k, u, hw, hu⟩ := hD.write v₄ (buf.bytes 0 size.toNat)
  exact ⟨(⟨s, some k⟩ : Written), u, k, rfl, hw, hu⟩

theorem goes_read {addr : UsbAddr} {buf : Mem} {size : UInt64} {timeout : UInt32} {f : UInt64 × Mem → Ed α}
    (hf : ∀ r, D.Goes (f r)) : D.Goes (read addr buf size timeout >>= f) := by
  intro w v _
  refine ⟨⟨ftOk, v, rfl⟩, ?_⟩
  intro _ v₁ _ v₂ _
  refine ⟨⟨(0 : UInt32), v₂, rfl⟩, ?_⟩
  intro n v₃ _ v₄ _
  refine ⟨?_, fun r u _ => hf _ u⟩
  obtain ⟨s, k, hk, hq, hr⟩ := hD.read v₄ size.toUInt32.toNat
  exact ⟨(⟨s, some (UInt32.ofNat k), (v₄.inPipe.queue.take k).map InByte.val⟩ : Got), v₄.take k, k, hk, hq, hr, rfl, rfl,
    rfl⟩

theorem goes_exchange {addr : UsbAddr} {buf : Mem} {code : List UInt8} {success fail verifyErr : Int32} {short : Ed Unit}
    (hs : short = .ret () ∨ short = Ed.errno >>= fun _ => .ret ()) :
    D.Goes (exchange addr buf code success fail verifyErr short) := by
  apply goes_write hD
  intro n
  by_cases hn : n ≠ 32
  · rw [if_pos hn]
    exact goes_ret fail
  · rw [if_neg hn]
    apply goes_undef
    intro g
    apply goes_read hD
    rintro ⟨k, resp⟩
    by_cases hr : k ≠ 32
    · simp only [if_pos hr]
      rcases hs with rfl | rfl
      · exact goes_ret fail
      · exact goes_errno fun _ => goes_ret fail
    · simp only [if_neg hr]
      apply goes_undef
      intro e
      split
      · exact goes_ret verifyErr
      · exact goes_ret success

/-- Every command goes through on a device that can answer every transfer. -/
theorem Command.goes (addr : UsbAddr) (c : Command) : D.Goes (c.prog addr) := by
  cases hc : c.request.answer with
  | some code =>
    obtain ⟨buf, short, -, -, hs, hp⟩ := prog_eq hc addr
    rw [hp]
    exact goes_undef fun _ => goes_exchange hD hs
  | none =>
    obtain rfl := eq_start hc
    apply goes_undef
    intro _
    apply goes_write hD
    intro n
    split
    · exact goes_ret usbStartCollectFail
    · exact goes_ret usbStartCollectSuccess

theorem recv_goes {c : UsbConfig} {addr : UsbAddr} {repeatIndex : Int32} {data : Mem} {len : UInt64} {timeout : UInt32}
    (hi : repeatIndex < c.repeatCount.toUInt32.toInt32) :
    D.Goes (usbStartRecvRepeatN c addr repeatIndex data len timeout) := by
  simp only [usbStartRecvRepeatN, hi, decide_true, Prog.assert_true, Prog.ret_bind]
  exact goes_read hD fun r => goes_ret _

end Goes

end EdUsb
