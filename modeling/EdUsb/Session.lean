import EdUsb.Repeats

/-!
# A whole session

The sequence of the sample program, stop, connect, send the configuration, start, receive every repeat, stop, against a
device that answers at once: it goes through, every command succeeds, and the buffers hold the samples, repeat by repeat
(`session_complete`).
-/

namespace EdUsb

open EdUsb.Lib Ed

/-- The device answers each request at once, a start with all of `samples`.  Every write is accepted in full, and a read
is full when as much is queued. -/
def sessionDevice (samples : List UInt8) : Device where
  move _ _ := False
  accept := Link.Acted samples
  wrote s k := s = ftOk ∧ k = 32
  reads w n s k := n ≤ w.inPipe.queue.length → s = ftOk ∧ k = n

/-- `for (i = …; …; i++)`: the receives of `m` repeats from the repeat `i` on -/
def recvFrom (c : UsbConfig) (addr : UsbAddr) (data : ℕ → Mem) (timeout : UInt32) (i : ℕ) :
    ℕ → Ed (List (Int32 × Mem))
  | 0 => return []
  | m + 1 => do
    let r ← Recv.prog c addr ⟨Int32.ofNat i, data i, timeout⟩
    let rs ← recvFrom c addr data timeout (i + 1) m
    return r :: rs

/-- What the calls of a session return. -/
structure Session where
  stopFirst : Int32
  connect : Int32
  config : Int32
  start : Int32
  received : List (Int32 × Mem)
  stopLast : Int32

/-- The session of the sample program; `data i` is the buffer that the repeat `i` is received into. -/
def session (c : UsbConfig) (addr : UsbAddr) (data : ℕ → Mem) (timeout : UInt32) : Ed Session := do
  let stopFirst ← usbStopCollect addr
  let connect ← usbDevConnect addr
  let config ← usbSendConfigToDevice c addr
  let start ← usbStartCollect addr
  let received ← recvFrom c addr data timeout 0 c.repeatCount.toNat
  let stopLast ← usbStopCollect addr
  return ⟨stopFirst, connect, config, start, received, stopLast⟩

/-- The result `r` of the receive into `data` is the whole of the repeat `i`. -/
structure Whole (n : ℕ) (samples : List UInt8) (i : ℕ) (data : Mem) (r : Int32 × Mem) : Prop where
  count : r.1.toInt = n
  bytes : r.2.bytes 0 n = (samples.drop (i * n)).take n
  rest : ∀ j, n ≤ j → r.2 j = data j

/-- Every command succeeded, and the buffers hold the samples. -/
structure Session.Complete (c : UsbConfig) (data : ℕ → Mem) (samples : List UInt8) (t : Session) : Prop where
  stopFirst : t.stopFirst = usbStopCollectSuccess
  connect : t.connect = usbConnectSuccess
  config : t.config = usbSendConfigSuccess
  start : t.start = usbStartCollectSuccess
  length : t.received.length = c.repeatCount.toNat
  received : ∀ (i : ℕ) (r : Int32 × Mem), t.received[i]? = some r → Whole (repeatLen c) samples i (data i) r
  all : (t.received.map fun r => r.2.bytes 0 (repeatLen c)).flatten = samples
  stopLast : t.stopLast = usbStopCollectSuccess

section

variable {samples : List UInt8}

theorem sessionDevice_responsive : (sessionDevice samples).Responsive where
  write w frame := by
    obtain ⟨w', hw'⟩ := Link.exists_acted samples w frame
    exact ⟨ftOk, 32, w', ⟨rfl, rfl⟩, hw'⟩
  read w n := by
    by_cases h : n ≤ w.inPipe.queue.length
    · refine ⟨ftOk, n, le_rfl, h, ?_⟩
      intro _
      exact ⟨rfl, rfl⟩
    · refine ⟨ftOk, 0, Nat.zero_le _, Nat.zero_le _, ?_⟩
      intro h'
      exact absurd h' h

theorem session_moves {w v : Link} (h : (sessionDevice samples).env.Moves w v) : v = w := h.eq fun _ _ hm => hm

/-! ### The commands in a session -/

variable {addr : UsbAddr} {c : Command} {w w' : Link} {a : Int32}

/-- A command with a response, run with the IN pipe empty, succeeds and leaves it empty. -/
theorem answered_run {code : List UInt8} (hc : c.request.answer = some code) (hw : w.inPipe.queue = [])
    (h : (c.prog addr).Runs (sessionDevice samples).env w a w') : a = c.success ∧ w'.inPipe.queue = [] := by
  have hr := Command.ran_of_runs h
  cases hr with
  | lost hwr hk => exact absurd hwr.2 hk
  | sent hn =>
    rw [hc] at hn
    cases hn
  | @heard v u x _ s t k code' hc' hm _ hu hm₂ hk hq hrd hm₃ =>
    obtain rfl := Option.some_inj.1 (hc.symm.trans hc')
    obtain rfl := session_moves hm
    obtain rfl := session_moves hm₂
    obtain rfl := session_moves hm₃
    obtain ⟨bs, hbs, hcode, hput, -, -⟩ := ((Link.acted_frame samples v x c).1 hu).put hc
    have hqueue : x.inPipe.queue = bs := by rw [hput, Fifo.queue_put, hw, List.nil_append]
    have hk32 : k = 32 := (hrd (by rw [hqueue, hbs])).2
    rw [if_pos hk32, hqueue, if_pos hcode]
    refine ⟨rfl, ?_⟩
    rw [show (x.take k).inPipe.queue = x.inPipe.queue.drop k from rfl, hqueue, hk32,
      List.drop_eq_nil_of_le hbs.le]

/-- A start, run with the IN pipe empty, succeeds and leaves the samples in it. -/
theorem start_run (hw : w.inPipe.queue = []) (h : (usbStartCollect addr).Runs (sessionDevice samples).env w a w') :
    a = usbStartCollectSuccess ∧ w'.inPipe.queue.map InByte.val = samples := by
  have hr := Command.ran_of_runs (c := .start) h
  cases hr with
  | lost hwr hk => exact absurd hwr.2 hk
  | heard hc => cases hc
  | @sent v u _ s _ hm _ hu hm₂ =>
    obtain rfl := session_moves hm
    obtain rfl := session_moves hm₂
    rcases (Link.acted_frame samples v w' .start).1 hu with ⟨-, rfl⟩ | ⟨code, rest, hc, -⟩
    · refine ⟨rfl, ?_⟩
      simp [Link.stream, Link.receive, hw]
    · cases hc

end

/-! ### The receives in a session -/

section Recv

variable {samples : List UInt8} {c : UsbConfig} {addr : UsbAddr} {data : ℕ → Mem} {timeout : UInt32} {w w' : Link}

theorem repeatIndex_lt {i : ℕ} (hi : i < c.repeatCount.toNat) : Int32.ofNat i < c.repeatCount.toUInt32.toInt32 := by
  have hc : c.repeatCount.toUInt32.toNat = c.repeatCount.toNat := rfl
  have h16 := c.repeatCount.toNat_lt
  rw [Int32.lt_iff_toInt_lt, Int32.toInt_ofNat_of_lt (by omega), toInt_toInt32 (by omega), hc]
  omega

/-- A receive with a repeat queued stores it and leaves the rest. -/
theorem recv_whole (hn : repeatLen c < 2 ^ 31) {i : ℕ} {a : Int32 × Mem}
    (hw : repeatLen c ≤ w.inPipe.queue.length)
    (h : (Recv.prog c addr ⟨Int32.ofNat i, data i, timeout⟩).Runs (sessionDevice samples).env w a w') :
    Whole (repeatLen c) (w.inPipe.queue.map InByte.val) 0 (data i) a ∧
      w'.inPipe.queue = w.inPipe.queue.drop (repeatLen c) := by
  obtain ⟨-, v, s, k, hm, -, hq, hrd, rfl, hm'⟩ := recv_run h
  obtain rfl := session_moves hm
  obtain rfl := session_moves hm'
  have hlen : (UInt64.ofNat (repeatLen c)).toUInt32.toNat = repeatLen c := by
    rw [toNat_repeatLen, Nat.mod_eq_of_lt (by omega)]
  have hk : k = repeatLen c := by
    rw [hlen] at hrd
    exact (hrd hw).2
  subst hk
  have hl : ((v.inPipe.queue.take (repeatLen c)).map InByte.val).length = repeatLen c := by
    rw [List.length_map, List.length_take_of_le hw]
  refine ⟨⟨?_, ?_, ?_⟩, rfl⟩
  · have h32 : (UInt32.ofNat (repeatLen c)).toNat = repeatLen c := by
      rw [UInt32.toNat_ofNat', Nat.mod_eq_of_lt (by omega)]
    rw [toInt_toInt32 (by omega), h32]
  · rw [Mem.bytes_write_take _ _ hl.ge, List.take_of_length_le hl.le, Nat.zero_mul, List.drop_zero, List.map_take]
  · intro j hj
    exact Mem.fill_of_le _ _ (by rw [hl]; omega)

/-- **The loop of receives.**  With `m` repeats queued, `m` receives store them one by one and leave the pipe empty. -/
theorem recvFrom_run (hn : repeatLen c < 2 ^ 31) {m i : ℕ} {rs : List (Int32 × Mem)}
    (hw : w.inPipe.queue.length = m * repeatLen c)
    (h : (recvFrom c addr data timeout i m).Runs (sessionDevice samples).env w rs w') :
    rs.length = m ∧
      (∀ (j : ℕ) (r : Int32 × Mem), rs[j]? = some r →
        Whole (repeatLen c) (w.inPipe.queue.map InByte.val) j (data (i + j)) r) ∧
      (rs.map fun r => r.2.bytes 0 (repeatLen c)).flatten = w.inPipe.queue.map InByte.val ∧
      w'.inPipe.queue = [] := by
  induction m generalizing i w rs with
  | zero =>
    obtain ⟨rfl, hm⟩ := h
    obtain rfl := session_moves hm
    have hq : w'.inPipe.queue = [] := List.length_eq_zero_iff.1 (by omega)
    refine ⟨rfl, ?_, by simp [hq], hq⟩
    intro j r hr
    simp at hr
  | succ m ih =>
    rw [Nat.succ_mul] at hw
    obtain ⟨r, v, hr, h⟩ := Prog.runs_bind.1 h
    obtain ⟨rs', u, hrs, rfl, hm⟩ := Prog.runs_bind.1 h
    obtain rfl := session_moves hm
    obtain ⟨hfirst, hv⟩ := recv_whole hn (by omega) hr
    have hvlen : v.inPipe.queue.length = m * repeatLen c := by
      rw [hv, List.length_drop]
      omega
    obtain ⟨hlen, hall, hflat, hend⟩ := ih hvlen hrs
    refine ⟨by rw [List.length_cons, hlen], ?_, ?_, hend⟩
    · intro j r' hj
      cases j with
      | zero =>
        obtain rfl := Option.some_inj.1 hj
        exact hfirst
      | succ j =>
        -- the repeat `j` of the rest is the repeat `j + 1` of the whole
        obtain ⟨h1, h2, h3⟩ := hall j r' hj
        refine ⟨h1, ?_, ?_⟩
        · rw [h2, hv, List.map_drop, List.drop_drop, Nat.succ_mul, Nat.add_comm]
        · intro k hk
          rw [h3 k hk, Nat.add_right_comm, Nat.add_assoc]
    · rw [List.map_cons, List.flatten_cons, hflat, hv, hfirst.bytes, Nat.zero_mul, List.drop_zero, List.map_drop,
        List.take_append_drop]

theorem recvFrom_goes {i m : ℕ} (h : i + m ≤ c.repeatCount.toNat) :
    (sessionDevice samples).Goes (recvFrom c addr data timeout i m) := by
  induction m generalizing i with
  | zero => exact goes_ret _
  | succ m ih =>
    have hi : i < c.repeatCount.toNat := by omega
    exact goes_bind (recv_goes sessionDevice_responsive (repeatIndex_lt hi)) fun _ =>
      goes_bind (ih (by omega)) fun _ => goes_ret _

end Recv

/-! ### The session -/

section Whole

variable {samples : List UInt8} {c : UsbConfig} {addr : UsbAddr} {data : ℕ → Mem} {timeout : UInt32} {w w' : Link}

theorem session_goes : (sessionDevice samples).Goes (session c addr data timeout) := by
  have hD : (sessionDevice samples).Responsive := sessionDevice_responsive
  refine goes_bind (Command.goes hD addr .stop) fun _ => ?_
  refine goes_bind (Command.goes hD addr .connect) fun _ => ?_
  refine goes_bind (Command.goes hD addr (.config c)) fun _ => ?_
  refine goes_bind (Command.goes hD addr .start) fun _ => ?_
  refine goes_bind (recvFrom_goes (by omega)) fun _ => ?_
  exact goes_bind (Command.goes hD addr .stop) fun _ => goes_ret _

theorem session_run (hn : repeatLen c < 2 ^ 31) (hs : samples.length = c.repeatCount.toNat * repeatLen c)
    (hw : w.inPipe.queue = []) {t : Session}
    (h : (session c addr data timeout).Runs (sessionDevice samples).env w t w') :
    t.Complete c data samples ∧ w'.inPipe.queue = [] := by
  obtain ⟨stopFirst, w₁, h₁, h⟩ := Prog.runs_bind.1 h
  obtain ⟨connect, w₂, h₂, h⟩ := Prog.runs_bind.1 h
  obtain ⟨config, w₃, h₃, h⟩ := Prog.runs_bind.1 h
  obtain ⟨start, w₄, h₄, h⟩ := Prog.runs_bind.1 h
  obtain ⟨received, w₅, h₅, h⟩ := Prog.runs_bind.1 h
  obtain ⟨stopLast, w₆, h₆, rfl, hm⟩ := Prog.runs_bind.1 h
  obtain rfl := session_moves hm
  obtain ⟨e₁, q₁⟩ := answered_run (c := .stop) rfl hw h₁
  obtain ⟨e₂, q₂⟩ := answered_run (c := .connect) rfl q₁ h₂
  obtain ⟨e₃, q₃⟩ := answered_run (c := .config c) rfl q₂ h₃
  obtain ⟨e₄, q₄⟩ := start_run q₃ h₄
  have hlen : w₄.inPipe.queue.length = c.repeatCount.toNat * repeatLen c := by
    rw [← hs, ← q₄, List.length_map]
  obtain ⟨hl, hall, hflat, q₅⟩ := recvFrom_run hn hlen h₅
  obtain ⟨e₆, q₆⟩ := answered_run (c := .stop) rfl q₅ h₆
  rw [q₄] at hall hflat
  refine ⟨⟨e₁, e₂, e₃, e₄, hl, ?_, hflat, e₆⟩, q₆⟩
  intro i r hr
  have := hall i r hr
  rwa [Nat.zero_add] at this

/-- **A whole session.**  Against a device that answers at once, every interleaving of a session that starts with the IN
pipe empty goes through, no assertion fails, every command succeeds, every receive returns the length of a repeat and
leaves that repeat in its buffer, and the pipe is empty at the end. -/
theorem session_complete (c : UsbConfig) (addr : UsbAddr) (data : ℕ → Mem) (timeout : UInt32) (samples : List UInt8)
    (w : Link) (hn : repeatLen c < 2 ^ 31) (hs : samples.length = c.repeatCount.toNat * repeatLen c)
    (hw : w.inPipe.queue = []) :
    (session c addr data timeout).Wp (sessionDevice samples).env
      (fun t w' => t.Complete c data samples ∧ w'.inPipe.queue = []) w :=
  (session_goes w).of_runs fun _ _ h => session_run hn hs hw h

/-- Three repeats of one sample each. -/
theorem session_complete_oneSample :
    (session oneSample ⟨1⟩ (fun _ _ => 0) 1000).Wp (sessionDevice [1, 2, 3, 4, 5, 6]).env
      (fun t w' => t.Complete oneSample (fun _ _ => 0) [1, 2, 3, 4, 5, 6] ∧ w'.inPipe.queue = []) .init :=
  session_complete oneSample ⟨1⟩ _ 1000 [1, 2, 3, 4, 5, 6] .init (by decide) (by decide) rfl

end Whole

end EdUsb
