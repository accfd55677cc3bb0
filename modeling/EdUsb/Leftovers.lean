import EdUsb.HappyPath

/-!
# What a session leaves to the next one

The sample program is run again and again against a device that answers at once, with writes that may fail and reads that
may be short.  The commands take out of the IN pipe as much as is put in for them, so a run receives as its repeat `i` what
lies `i` repeats behind all that was in the pipe as it began (`happyPathCommands_run`): it is the repeat `i` exactly if that
was nothing (`own_iff_empty`).  No run takes more out than it has put in, so after the first run that leaves a byte behind
none receives its own samples (`own_iff_settled`).
-/

namespace EdUsb

open EdUsb.Lib Ed

/-! ### The surroundings of the sample program -/

/-- All calls of the driver: those that are no transfers do nothing to the link, but for `FT_AbortPipe`, which may discard
the first `k` bytes of the IN pipe if `flush pipe w k`. -/
def Device.whole (D : Device) (flush : UInt8 → Link → ℕ → Prop) : Env Op Op.Ans Link where
  move := D.move
  ans w o r w' :=
    match o with
    | .ft (.abortPipe _ pipe) => ∃ k, flush pipe w k ∧ w' = w.take k
    | .ft .getLibraryVersion | .ft (.getDriverVersion _) | .ft (.setTransferParams ..) | .ft (.create ..) | .ft (.close _)
    | .ft (.getChipConfiguration _) | .ft (.setChipConfiguration ..) | .ft (.getDeviceInfoDetail _) => w' = w
    | o => D.ans w o r w'

/-- Transfers are done as on the link alone. -/
theorem Device.simulates_whole (D : Device) (flush : UInt8 → Link → ℕ → Prop) (h : FtHandle) :
    D.env.Simulates (D.whole flush) (Op.Transfers h) id where
  ans w o r u ho ha := by
    cases o with
    | ft c => cases c <;> first | exact ho.elim | exact ha
    | errno => exact ha
    | undef l => exact ha
  move _ _ hm := .single hm

/-- `abort_pipe` may make `v` of the link. -/
def Link.Aborted (flush : UInt8 → Link → ℕ → Prop) (w v : Link) : Prop :=
  ∃ k₁ k₂ k₃, flush 0x02 w k₁ ∧ flush 0x82 (w.take k₁) k₂ ∧ flush 2 ((w.take k₁).take k₂) k₃ ∧
    v = ((w.take k₁).take k₂).take k₃

/-- Nothing is discarded. -/
def noFlush : UInt8 → Link → ℕ → Prop := fun _ _ k => k = 0

/-- The device answers each request at once, a start with samples of the kind `P`.  A write may fail in any way, and a read
may end with less than there is. -/
def flakyDevice (P : List UInt8 → Prop) : Device where
  move _ _ := False
  accept w frame w' := ∃ samples, P samples ∧ w.Acted samples frame w'
  wrote _ _ := True
  reads _ _ _ _ := True

section Flaky

variable {P : List UInt8 → Prop} {addr : UsbAddr} {c : Command} {w v u w' : Link} {a : Int32}

theorem moves_flaky (h : (flakyDevice P).env.Moves w v) : v = w := h.eq fun _ _ hm => hm

/-- From `w` to `v` something came in behind, and no more than that was taken out in front. -/
def Passed (w v : Link) : Prop := ∃ bs k, k ≤ bs.length ∧ v.inPipe = (w.inPipe.put bs).take k

theorem Passed.refl (w : Link) : Passed w w := ⟨[], 0, le_rfl, by simp [Fifo.take]⟩

theorem Passed.trans (h₁ : Passed w v) (h₂ : Passed v u) : Passed w u := by
  obtain ⟨xs, j, hj, hv⟩ := h₁
  obtain ⟨ys, k, hk, hu⟩ := h₂
  refine ⟨xs ++ ys, j + k, by rw [List.length_append]; omega, ?_⟩
  have hq : j ≤ (w.inPipe.put xs).queue.length := by
    rw [Fifo.queue_put, List.length_append]
    omega
  rw [hu, hv, Fifo.take_put _ _ _ hq, Fifo.put_put, Fifo.take_take]

theorem Passed.length (h : Passed w v) : w.inPipe.queue.length ≤ v.inPipe.queue.length := by
  obtain ⟨bs, k, hk, hv⟩ := h
  rw [hv, Fifo.queue_take, Fifo.queue_put, List.length_drop, List.length_append]
  omega

theorem Passed.taken (h : Passed w v) : w.inPipe.taken <+: v.inPipe.taken := by
  obtain ⟨bs, k, -, hv⟩ := h
  rw [hv]
  exact List.prefix_append ..

/-- A command with a response has it put in behind and takes up to 32 bytes out in front; a start has the samples put in. -/
theorem flaky_run (h : (c.prog addr).Runs (flakyDevice P).env w a w') :
    Passed w w' ∧ (a = c.success →
      match c.request with
      | .start => ∃ samples, P samples ∧ w'.inPipe = w.inPipe.put (sampleBytes w.streamed samples)
      | _ => w'.streamed = w.streamed ∧ ∃ resp, resp.length = 32 ∧ (∀ b ∈ resp, ∃ n i, b.origin = .reply n i) ∧
          w'.inPipe = (w.inPipe.put resp).take 32) := by
  cases Command.ran_of_runs h with
  | lost _ _ hm =>
    obtain rfl := moves_flaky hm
    exact ⟨.refl w', fun he => absurd he.symm c.success_ne_fail⟩
  | @sent v u _ s hc hm _ hu hm₂ =>
    obtain rfl := moves_flaky hm
    obtain rfl := moves_flaky hm₂
    obtain rfl := Command.eq_start hc
    obtain ⟨samples, hP, hacted⟩ := hu
    rcases (Link.acted_frame samples v w' .start).1 hacted with ⟨-, rfl⟩ | ⟨code, rest, hcode, -⟩
    · exact ⟨⟨sampleBytes v.streamed samples, 0, Nat.zero_le _, by simp [Link.stream, Link.receive, Fifo.take, Fifo.put]⟩,
        fun _ => ⟨samples, hP, rfl⟩⟩
    · cases hcode
  | @heard v u x _ s t k code hcode hm _ hu hm₂ hk hq _ hm₃ =>
    obtain rfl := moves_flaky hm
    obtain rfl := moves_flaky hm₂
    obtain rfl := moves_flaky hm₃
    obtain ⟨samples, -, hacted⟩ := hu
    rcases (Link.acted_frame samples v x c).1 hacted with ⟨hn, -⟩ | ⟨code', rest, hcode', hrest, rfl⟩
    · rw [hn] at hcode
      cases hcode
    · have hlen : (replyBytes v.sent (code' ++ rest)).length = 32 := by
        rw [replyBytes_length, List.length_append, Request.answer_length hcode', hrest]
      refine ⟨⟨replyBytes v.sent (code' ++ rest), k, by omega, rfl⟩, fun ha => ?_⟩
      have hk32 : k = 32 := by
        by_contra hne
        rw [if_neg hne] at ha
        exact c.success_ne_fail ha.symm
      subst hk32
      have hans : ∃ resp : List InByte, resp.length = 32 ∧ (∀ b ∈ resp, ∃ n i, b.origin = .reply n i) ∧
          ((v.receive c.request).reply v.sent (code' ++ rest)).inPipe.take 32 = (v.inPipe.put resp).take 32 :=
        ⟨_, hlen, fun b hb => ⟨_, mem_replyBytes hb⟩, rfl⟩
      cases hreq : c.request with
      | start =>
        rw [hreq] at hcode
        cases hcode
      | connect => exact ⟨rfl, by rwa [hreq] at hans⟩
      | config => exact ⟨rfl, by rwa [hreq] at hans⟩
      | stop => exact ⟨rfl, by rwa [hreq] at hans⟩

end Flaky

/-! ### The receives -/

/-- The bytes of one repeat, as the receives ask for them. -/
def repeatBytes (cfg : UsbConfig) : ℕ := (repeatBytesCount cfg).toNat

theorem toUInt32_toInt64 (x : Int32) : x.toInt64.toUInt64.toUInt32 = x.toUInt32 := by
  apply UInt32.toBitVec_inj.1
  show (x.toBitVec.signExtend 64).setWidth 32 = x.toBitVec
  ext i hi
  have hlt : i < 64 := by omega
  simp only [BitVec.getElem_setWidth, BitVec.getLsbD_signExtend, hlt, hi, decide_true, Bool.true_and, if_true]
  exact BitVec.getLsbD_eq_getElem hi

theorem repeatCnt_eq (cfg : UsbConfig) : repeatCnt cfg = (repeatBytesCount cfg).toInt32 := by
  rw [repeatCnt, repeatBytesCount, UInt32.mul_assoc, UInt32.mul_assoc, UInt32.mul_comm 2]

theorem toUInt32_repeatCnt (cfg : UsbConfig) : (repeatCnt cfg).toInt64.toUInt64.toUInt32 = repeatBytesCount cfg := by
  rw [toUInt32_toInt64, repeatCnt_eq, UInt32.toUInt32_toInt32]

/-- What the receive of the repeat `j` returned, the receives having taken `bytes` out of the IN pipe. -/
structure Stored (n : ℕ) (bytes : List InByte) (j : ℕ) (r : Int32 × Mem) : Prop where
  count : j * n + r.1.toUInt32.toNat ≤ bytes.length
  data : r.2.bytes 0 r.1.toUInt32.toNat = ((bytes.drop (j * n)).take r.1.toUInt32.toNat).map InByte.val

section Recv

variable {P : List UInt8 → Prop} {cfg : UsbConfig} {addr : UsbAddr} {timeout : UInt32} {w w' : Link}

theorem Link.take_zero (w : Link) : w.take 0 = w := by simp [Link.take, Fifo.take]

theorem Link.take_take (w : Link) (j k : ℕ) : (w.take j).take k = w.take (j + k) := by
  simp only [Link.take, Fifo.take_take]

/-- One receive takes up to a repeat out, and a count that is as asked for is the whole of it. -/
theorem flaky_recv {i : ℕ} {data : Mem} {r : Int32 × Mem}
    (h : (usbStartRecvRepeatN cfg addr (Int32.ofNat i) data (repeatCnt cfg).toInt64.toUInt64 timeout).Runs
      (flakyDevice P).env w r w') :
    ∃ k ≤ repeatBytes cfg, k ≤ w.inPipe.queue.length ∧ w' = w.take k ∧ (r.1 = repeatCnt cfg → k = repeatBytes cfg) ∧
      Stored (repeatBytes cfg) (w.inPipe.queue.take k) 0 r := by
  obtain ⟨-, v, s, k, hm, hk, hq, -, rfl, hm'⟩ := recv_run h
  obtain rfl := moves_flaky hm
  obtain rfl := moves_flaky hm'
  rw [toUInt32_repeatCnt] at hk
  have hlt := (repeatBytesCount cfg).toNat_lt
  have hcnt : (UInt32.ofNat k).toNat = k := by rw [UInt32.toNat_ofNat', Nat.mod_eq_of_lt (by omega)]
  have hlen : (v.inPipe.queue.take k).length = k := List.length_take_of_le hq
  refine ⟨k, hk, hq, rfl, ?_, ?_, ?_⟩
  · intro he
    have := congrArg Int32.toUInt32 he
    rw [repeatCnt_eq, UInt32.toUInt32_toInt32, UInt32.toUInt32_toInt32] at this
    rw [← hcnt, this]
    rfl
  · rw [UInt32.toUInt32_toInt32, hcnt, hlen]
    omega
  · rw [UInt32.toUInt32_toInt32, hcnt, Nat.zero_mul, List.drop_zero]
    have hl : ((v.inPipe.queue.take k).map InByte.val).length = k := by rw [List.length_map, hlen]
    rw [Mem.bytes_write_take _ _ hl.ge, List.take_of_length_le hl.le, List.take_take, Nat.min_self]

/-- Repeats behind a whole one. -/
theorem Stored.succ {n : ℕ} {bs bytes : List InByte} {j : ℕ} {r : Int32 × Mem} (h : Stored n bytes j r)
    (hbs : bs.length = n) : Stored n (bs ++ bytes) (j + 1) r where
  count := by
    have := h.count
    rw [List.length_append, Nat.succ_mul]
    omega
  data := by
    rw [h.data, Nat.succ_mul, Nat.add_comm, ← List.drop_drop, List.drop_left' hbs]

/-- The repeat 0, with more behind. -/
theorem Stored.append {n : ℕ} {bytes : List InByte} {j : ℕ} {r : Int32 × Mem} (h : Stored n bytes j r)
    (more : List InByte) : Stored n (bytes ++ more) j r where
  count := by
    have := h.count
    rw [List.length_append]
    omega
  data := by
    have := h.count
    rw [h.data, List.drop_append_of_le_length (by omega), List.take_append_of_le_length]
    rw [List.length_drop]
    omega

/-- **The loop of receives**: the round `j` stores what lies behind `j` whole repeats. -/
theorem recvRepeats_run {i m : ℕ} {rs : List (Int32 × Mem)} {done : Bool}
    (h : (recvRepeats cfg addr (repeatCnt cfg) timeout i m).Runs (flakyDevice P).env w (rs, done) w') :
    ∃ k ≤ m * repeatBytes cfg, k ≤ w.inPipe.queue.length ∧ w' = w.take k ∧
      ∀ (j : ℕ) (r : Int32 × Mem), rs[j]? = some r → Stored (repeatBytes cfg) (w.inPipe.queue.take k) j r := by
  induction m generalizing i w rs done with
  | zero =>
    obtain ⟨he, hm⟩ := h
    obtain ⟨rfl, -⟩ := Prod.mk.inj he
    obtain rfl := moves_flaky hm
    refine ⟨0, Nat.zero_le _, Nat.zero_le _, by simp [Link.take, Fifo.take], ?_⟩
    intro j r hr
    simp at hr
  | succ m ih =>
    obtain ⟨buf, h⟩ := (flakyDevice P).quiet.undef_bind h
    obtain ⟨r, v, hr, h⟩ := Prog.runs_bind.1 h
    obtain ⟨k, hk, hq, rfl, hfull, hstored⟩ := flaky_recv hr
    by_cases hcnt : r.1 = repeatCnt cfg
    · -- a whole repeat, and the rest of the rounds behind it
      simp only [ne_eq, hcnt, not_true_eq_false, if_false] at h
      obtain ⟨⟨rs', done'⟩, u, hrs, he, hm⟩ := Prog.runs_bind.1 h
      obtain rfl := moves_flaky hm
      obtain ⟨rfl, -⟩ := Prod.mk.inj he
      obtain rfl := hfull hcnt
      obtain ⟨K, hK, hqK, rfl, hall⟩ := ih hrs
      have hqueue : (w.take (repeatBytes cfg)).inPipe.queue = w.inPipe.queue.drop (repeatBytes cfg) := rfl
      rw [hqueue] at hqK hall
      rw [List.length_drop] at hqK
      have hcut : w.inPipe.queue.take (repeatBytes cfg + K) =
          w.inPipe.queue.take (repeatBytes cfg) ++ (w.inPipe.queue.drop (repeatBytes cfg)).take K := List.take_add
      refine ⟨repeatBytes cfg + K, by rw [Nat.succ_mul]; omega, by omega, Link.take_take .., ?_⟩
      rw [hcut]
      intro j r' hj
      cases j with
      | zero =>
        obtain rfl := Option.some_inj.1 hj
        exact hstored.append _
      | succ j => exact (hall j r' hj).succ (List.length_take_of_le hq)
    · simp only [ne_eq, hcnt, not_false_eq_true, if_true] at h
      obtain ⟨he, hm⟩ := h
      obtain rfl := moves_flaky hm
      obtain ⟨rfl, -⟩ := Prod.mk.inj he
      refine ⟨k, by rw [Nat.succ_mul]; omega, hq, rfl, ?_⟩
      intro j r' hj
      cases j with
      | zero =>
        obtain rfl := Option.some_inj.1 hj
        exact hstored
      | succ j => simp at hj

end Recv

/-! ### A run of the sample program -/

/-- What the commands and receives of `main` did on a link: nothing was received, or the samples came in behind what was
queued and three responses, and up to `repeat_count` repeats behind the responses were received. -/
inductive HappyPath.Collected (P : List UInt8 → Prop) (cfg : UsbConfig) : Link → List (Int32 × Mem) → Link → Prop
  | lost {w w' : Link} : Passed w w' → Collected P cfg w [] w'
  | received {w v w' : Link} {resp : List InByte} {samples : List UInt8} {k : ℕ} {rs : List (Int32 × Mem)} :
      resp.length = 96 → (∀ b ∈ resp, ∃ n i, b.origin = .reply n i) → P samples → k ≤ cfg.repeatCount.toNat * repeatBytes cfg →
      v.inPipe = (w.inPipe.put (resp ++ sampleBytes w.streamed samples)).take (96 + k) →
      96 + k ≤ (w.inPipe.put (resp ++ sampleBytes w.streamed samples)).queue.length →
      (∀ (i : ℕ) (r : Int32 × Mem), rs[i]? = some r → Stored (repeatBytes cfg)
        (((w.inPipe.queue ++ resp ++ sampleBytes w.streamed samples).drop 96).take k) i r) →
      Passed v w' → Collected P cfg w rs w'

section Commands

variable {P : List UInt8 → Prop} {cfg : UsbConfig} {addr : UsbAddr} {w w' : Link} {rs : List (Int32 × Mem)}

/-- A command whose failure ends the session. -/
theorem flaky_step {c : Command} {f : Ed (List (Int32 × Mem))}
    (h : (c.prog addr >>= fun a => if a ≠ c.success then .ret [] else f).Runs (flakyDevice P).env w rs w') :
    rs = [] ∧ Passed w w' ∨ ∃ v, (c.prog addr).Runs (flakyDevice P).env w c.success v ∧ f.Runs (flakyDevice P).env v rs w' := by
  obtain ⟨a, v, hr, h⟩ := Prog.runs_bind.1 h
  by_cases ha : a = c.success
  · rw [if_neg (not_not.2 ha)] at h
    exact .inr ⟨v, ha ▸ hr, h⟩
  · rw [if_pos ha] at h
    obtain ⟨rfl, hm⟩ := h
    rw [moves_flaky hm]
    exact .inl ⟨rfl, (flaky_run hr).1⟩

theorem happyPathCommands_run (h : (happyPathCommands cfg addr).Runs (flakyDevice P).env w rs w') :
    HappyPath.Collected P cfg w rs w' := by
  rcases flaky_step (c := .stop) h with ⟨rfl, hp⟩ | ⟨w₁, h₁, h⟩
  · exact .lost hp
  obtain ⟨hp₁, hstop⟩ := flaky_run h₁
  obtain ⟨hs₁, r₁, hr₁, ho₁, e₁⟩ := hstop rfl
  rcases flaky_step (c := .connect) h with ⟨rfl, hp⟩ | ⟨w₂, h₂, h⟩
  · exact .lost (hp₁.trans hp)
  obtain ⟨hp₂, hconnect⟩ := flaky_run h₂
  obtain ⟨hs₂, r₂, hr₂, ho₂, e₂⟩ := hconnect rfl
  rcases flaky_step (c := .config cfg) h with ⟨rfl, hp⟩ | ⟨w₃, h₃, h⟩
  · exact .lost ((hp₁.trans hp₂).trans hp)
  obtain ⟨hp₃, hconfig⟩ := flaky_run h₃
  obtain ⟨hs₃, r₃, hr₃, ho₃, e₃⟩ := hconfig rfl
  rcases flaky_step (c := .start) h with ⟨rfl, hp⟩ | ⟨w₄, h₄, h⟩
  · exact .lost (((hp₁.trans hp₂).trans hp₃).trans hp)
  obtain ⟨-, hstart⟩ := flaky_run h₄
  obtain ⟨samples, hP, e₄⟩ := hstart rfl
  obtain ⟨⟨received, done⟩, w₅, h₅, h⟩ := Prog.runs_bind.1 h
  obtain ⟨k, hk, hq, e₅, hall⟩ := recvRepeats_run h₅
  have hlast : received = rs ∧ Passed w₅ w' := by
    cases done with
    | false =>
      obtain ⟨he, hm⟩ := h
      rw [moves_flaky hm]
      exact ⟨he, .refl w₅⟩
    | true =>
      obtain ⟨a, w₆, h₆, he, hm⟩ := Prog.runs_bind.1 h
      rw [moves_flaky hm]
      exact ⟨he, (flaky_run (c := .stop) h₆).1⟩
  obtain ⟨rfl, hlast⟩ := hlast
  -- what was put in behind and taken out in front until the samples were there
  have hpipe : w₄.inPipe = (w.inPipe.put (r₁ ++ r₂ ++ r₃ ++ sampleBytes w.streamed samples)).take 96 := by
    have l₁ : 32 ≤ (w.inPipe.put r₁).queue.length := by rw [Fifo.queue_put, List.length_append]; omega
    have l₂ : 64 ≤ (w.inPipe.put (r₁ ++ r₂)).queue.length := by simp only [Fifo.queue_put, List.length_append]; omega
    have l₃ : 96 ≤ (w.inPipe.put (r₁ ++ r₂ ++ r₃)).queue.length := by
      simp only [Fifo.queue_put, List.length_append]
      omega
    have l₂' : 32 ≤ (w.inPipe.put (r₁ ++ r₂)).queue.length := by omega
    rw [e₄, e₃, e₂, e₁, hs₃, hs₂, hs₁, Fifo.take_put _ _ _ l₁, Fifo.put_put, Fifo.take_take,
      Fifo.take_put _ _ _ l₂, Fifo.put_put, Fifo.take_take, Fifo.take_put _ _ _ l₃, Fifo.put_put]
  have hresp : ∀ b ∈ r₁ ++ r₂ ++ r₃, ∃ n i, b.origin = .reply n i := by
    intro b hb
    rcases List.mem_append.1 hb with hb | hb
    · rcases List.mem_append.1 hb with hb | hb
      · exact ho₁ b hb
      · exact ho₂ b hb
    · exact ho₃ b hb
  have hqueue : w₄.inPipe.queue = (w.inPipe.queue ++ (r₁ ++ r₂ ++ r₃) ++ sampleBytes w.streamed samples).drop 96 := by
    rw [hpipe, Fifo.queue_take, Fifo.queue_put, ← List.append_assoc]
  have hlen : (r₁ ++ r₂ ++ r₃).length = 96 := by simp only [List.length_append]; omega
  rw [hqueue] at hq hall
  refine .received hlen hresp hP hk ?_ ?_ hall hlast
  · rw [e₅, show (w₄.take k).inPipe = w₄.inPipe.take k from rfl, hpipe, Fifo.take_take]
  · rw [List.length_drop] at hq
    rw [Fifo.queue_put, ← List.append_assoc]
    simp only [List.length_append] at hq hlen ⊢
    omega

/-- A run whose samples are as many as it asks for leaves at least as much queued as it found. -/
theorem HappyPath.Collected.length (hP : ∀ samples, P samples → cfg.repeatCount.toNat * repeatBytes cfg ≤ samples.length)
    (h : HappyPath.Collected P cfg w rs w') : w.inPipe.queue.length ≤ w'.inPipe.queue.length := by
  cases h with
  | lost hp => exact hp.length
  | received hresp _ hsamples hk hv _ _ hp =>
    have := hP _ hsamples
    refine le_trans ?_ hp.length
    rw [hv, Fifo.queue_take, Fifo.queue_put, List.length_drop]
    simp only [List.length_append, sampleBytes_length]
    omega

end Commands

/-- In a run of `main` from `w` to `w'` that received `rs`, the commands began on `v`, as `abort_pipe` left it. -/
structure HappyPath.Begun (P : List UInt8 → Prop) (flush : UInt8 → Link → ℕ → Prop) (cfg : UsbConfig) (w v : Link)
    (rs : List (Int32 × Mem)) (w' : Link) : Prop where
  aborted : w.Aborted flush v
  commands : ∃ addr, (happyPathCommands cfg addr).Runs (flakyDevice P).env v rs w'

/-- The bytes that the receive of the repeat `i` took out of the IN pipe in a run of `main` whose commands began on `v` and
that ended on `w'`: it came after three responses and `i` repeats, and returned `r`. -/
def takenFor (cfg : UsbConfig) (v w' : Link) (i : ℕ) (r : Int32 × Mem) : List InByte :=
  ((v.inPipe.between w'.inPipe).drop (96 + i * repeatBytes cfg)).take r.1.toUInt32.toNat

/-- The bytes are the beginning of the repeat `i` of the samples that were streamed from the place `s` on. -/
def Own (n s i : ℕ) (bytes : List InByte) : Prop :=
  ∀ (j : ℕ) (b : InByte), bytes[j]? = some b → b.origin = .sample (s + i * n + j)

/-- The samples that are queued were streamed. -/
def Placed (w : Link) : Prop := ∀ b ∈ w.inPipe.queue, ∀ k, b.origin = .sample k → k < w.streamed

namespace Placed

variable {P : List UInt8 → Prop} {flush : UInt8 → Link → ℕ → Prop} {w v : Link}

theorem take (h : Placed w) (k : ℕ) : Placed (w.take k) := fun b hb => h b (List.mem_of_mem_drop hb)

theorem answered {samples : List UInt8} {q : Request} (h : Placed w) (ha : w.Answered samples q v) : Placed v := by
  rcases ha with ⟨-, rfl⟩ | ⟨code, rest, -, -, rfl⟩
  · intro b hb k hk
    rcases List.mem_append.1 hb with hb | hb
    · exact Nat.lt_add_right _ (h b hb k hk)
    · obtain ⟨i, hi, rfl⟩ := List.getElem_of_mem hb
      obtain rfl : w.streamed + i = k := by simpa [sampleBytes, Link.receive] using hk
      exact Nat.add_lt_add_left (by simpa using hi) _
  · intro b hb k hk
    rcases List.mem_append.1 hb with hb | hb
    · exact h b hb k hk
    · obtain ⟨i, hi⟩ := mem_replyBytes hb
      rw [hi] at hk
      cases hk

/-- Every answer of the driver keeps it. -/
theorem ans {o : Op} {r : o.Ans} (h : Placed w) (ha : ((flakyDevice P).whole flush).ans w o r v) : Placed v := by
  have hsame : v = w → Placed v := fun he => by rwa [he]
  have htransfer : (flakyDevice P).env.ans w o r v → Placed v := by
    refine Device.ans_inv ?_ (fun _ k hw => hw.take k) h
    rintro u frame x hu ⟨samples, -, hx⟩
    exact hx.inv hu fun _ => hu.answered
  cases o with
  | ft c =>
    cases c with
    | abortPipe =>
      obtain ⟨k, -, rfl⟩ := ha
      exact h.take k
    | setPipeTimeout => exact htransfer ha
    | writePipe => exact htransfer ha
    | readPipe => exact htransfer ha
    | _ => exact hsame ha
  | errno => exact htransfer ha
  | undef => exact htransfer ha

end Placed

section Own

variable {n s i : ℕ} {queue resp : List InByte} {samples : List UInt8} {k c : ℕ}

theorem getElem?_of_take {α : Type} {l : List α} {k j : ℕ} {b : α} (h : (l.take k)[j]? = some b) : l[j]? = some b := by
  rw [List.getElem?_take] at h
  split at h
  · exact h
  · cases h

/-- What lies `i` repeats behind the queue and the responses is of the repeat `i` exactly if nothing was queued. -/
theorem own_iff (hresp : resp.length = 96) (hreply : ∀ b ∈ resp, ∃ m i, b.origin = .reply m i)
    (hqueue : ∀ b ∈ queue, ∀ k, b.origin = .sample k → k < s) {bytes : List InByte}
    (hbytes : bytes = ((((queue ++ resp ++ sampleBytes s samples).drop 96).take k).drop (i * n)).take c) :
    Own n s i bytes ↔ bytes = [] ∨ queue = [] := by
  have hget : ∀ (j : ℕ) (b : InByte), bytes[j]? = some b →
      (queue ++ resp ++ sampleBytes s samples)[96 + i * n + j]? = some b := by
    intro j b hb
    rw [hbytes] at hb
    have hb := getElem?_of_take hb
    rw [List.getElem?_drop] at hb
    have hb := getElem?_of_take hb
    rwa [List.getElem?_drop, ← Nat.add_assoc] at hb
  have hsample : ∀ (j : ℕ) (b : InByte), (sampleBytes s samples)[j]? = some b → b.origin = .sample (s + j) := by
    intro j b hb
    rw [sampleBytes, List.getElem?_mapIdx] at hb
    obtain ⟨x, -, rfl⟩ := Option.map_eq_some_iff.1 hb
    rfl
  constructor
  · intro hown
    by_contra hne
    obtain ⟨hbne, hqne⟩ := not_or.1 hne
    obtain ⟨b, bytes', rfl⟩ := List.exists_cons_of_ne_nil hbne
    have hpos := List.length_pos_of_ne_nil hqne
    have ho := hown 0 b rfl
    have hb := hget 0 b rfl
    simp only [Nat.add_zero] at ho hb
    -- the first byte is of what was queued, of a response, or of an earlier place in the samples
    by_cases hlt : 96 + i * n < (queue ++ resp).length
    · rw [List.getElem?_append_left hlt] at hb
      rcases List.mem_append.1 (List.mem_of_getElem? hb) with hmem | hmem
      · have := hqueue b hmem _ ho
        omega
      · obtain ⟨m, i', hr⟩ := hreply b hmem
        rw [hr] at ho
        cases ho
    · rw [List.getElem?_append_right (by omega)] at hb
      have he := (hsample _ b hb).symm.trans ho
      rw [Origin.sample.injEq, List.length_append] at he
      rw [List.length_append] at hlt
      omega
  · rintro (rfl | rfl) j b hb
    · simp at hb
    · have hb := hget j b hb
      rw [List.nil_append, List.getElem?_append_right (by omega), hresp,
        show 96 + i * n + j - 96 = i * n + j by omega] at hb
      rw [hsample _ b hb, Nat.add_assoc]

end Own

section Main

variable {P : List UInt8 → Prop} {flush : UInt8 → Link → ℕ → Prop} {cfg : UsbConfig} {w v w' : Link} {t : HappyPath}

theorem moves_whole {v : Link} (h : ((flakyDevice P).whole flush).Moves w v) : v = w := h.eq fun _ _ hm => hm

/-- The calls that do nothing to the link. -/
def Op.Still : Op → Prop
  | .ft (.abortPipe ..) | .ft (.setPipeTimeout ..) | .ft (.writePipe ..) | .ft (.readPipe ..) => False
  | _ => True

theorem still_run {α : Type} {p : Ed α} {a : α} (hp : p.Calls Op.Still)
    (h : p.Runs ((flakyDevice P).whole flush) w a w') : w' = w := by
  refine hp.inv (I := (· = w)) ?_ (fun _ _ _ hm => False.elim hm) h rfl
  rintro v o r u rfl ho ha
  cases o with
  | ft c => cases c <;> first | exact ho.elim | exact ha
  | errno => exact ha
  | undef l => exact ha

theorem still_of_opens {o : Op} (ho : o.Opens) : o.Still := by
  cases o with
  | ft c => cases c <;> first | exact ho.elim | trivial
  | errno => trivial
  | undef l => trivial

/-- Opening and closing the handle. -/
theorem handle_run {c : HandleCall} {addr : UsbAddr} {r : Int32 × UsbAddr}
    (h : (c.prog addr).Runs ((flakyDevice P).whole flush) w r w') : w' = w :=
  still_run ((HandleCall.calls c addr).mono fun _ => still_of_opens) h

/-- **Run.**  What a run of `main` does on a link. -/
theorem happyPath_run (h : (happyPath cfg).Runs ((flakyDevice P).whole flush) w t w') :
    t.received = [] ∧ w' = w ∨ ∃ v, HappyPath.Begun P flush cfg w v t.received w' := by
  obtain ⟨⟨establishRes, addr⟩, v, hcreate, hrest⟩ := Prog.runs_bind.1 h
  obtain rfl := handle_run (c := .create) hcreate
  by_cases hres : establishRes = 0
  · simp only [ne_eq, hres, not_true_eq_false, if_false] at hrest
    obtain ⟨_, v₁, habort, h⟩ := Prog.runs_bind.1 hrest
    obtain ⟨received, v₂, hrun, h⟩ := Prog.runs_bind.1 h
    obtain ⟨_, v₃, hclose, rfl, hm⟩ := Prog.runs_bind.1 h
    have hv₁ : v.Aborted flush v₁ := by
      obtain ⟨u₁, _, _, hm₁, ⟨k₁, h₁, rfl⟩, u₂, _, _, hm₂, ⟨k₂, h₂, rfl⟩, u₃, _, _, hm₃, ⟨k₃, h₃, rfl⟩, -, hm₄⟩ := habort
      obtain rfl := moves_whole hm₁
      obtain rfl := moves_whole hm₂
      obtain rfl := moves_whole hm₃
      exact ⟨k₁, k₂, k₃, h₁, h₂, h₃, moves_whole hm₄⟩
    have hv₃ := handle_run (c := .close) hclose
    obtain rfl : w' = v₂ := (moves_whole hm).trans hv₃
    exact .inr ⟨v₁, hv₁, addr, ((flakyDevice P).simulates_whole flush _).runs happyPathCommands_calls hrun⟩
  · simp only [ne_eq, hres, not_false_eq_true, if_true] at hrest
    obtain ⟨rfl, hm⟩ := hrest
    exact .inl ⟨rfl, moves_whole hm⟩

theorem Placed.aborted (h : Placed w) (ha : w.Aborted flush v) : Placed v ∧ v.streamed = w.streamed := by
  obtain ⟨k₁, k₂, k₃, -, -, -, rfl⟩ := ha
  exact ⟨((h.take k₁).take k₂).take k₃, rfl⟩

theorem placed_trace {l : List (Done Unit HappyPath Link)}
    (h : Trace ((flakyDevice P).whole flush) (fun _ => happyPath cfg) .init l w) :
    ∀ d ∈ l, Placed d.before ∧ (happyPath cfg).Runs ((flakyDevice P).whole flush) d.before d.val d.after := by
  have hmove : ∀ u v, Placed u → ((flakyDevice P).whole flush).move u v → Placed v := fun _ _ _ hm => False.elim hm
  have hprog : ∀ (_ : Unit) u a v, Placed u → (happyPath cfg).Runs ((flakyDevice P).whole flush) u a v → Placed v :=
    fun _ _ _ _ hu hr => hr.inv (fun _ _ _ _ hu ha => hu.ans ha) hmove hu
  intro d hd
  obtain ⟨hb, hr, -⟩ := (h.inv hmove hprog fun b hb => by simp [Link.init, Fifo.empty] at hb).1 d hd
  exact ⟨hb, hr⟩

theorem take_drop_take {α : Type} {l rest : List α} {j k o c : ℕ} (hk : j + k ≤ l.length)
    (hc : o + c ≤ ((l.drop j).take k).length) :
    ((l.take (j + k) ++ rest).drop (j + o)).take c = (((l.drop j).take k).drop o).take c := by
  rw [List.take_add, List.append_assoc, ← List.drop_drop, List.drop_left' (List.length_take_of_le (by omega)),
    List.drop_append_of_le_length (by omega), List.take_append_of_le_length]
  rw [List.length_drop]
  omega

/-- What was received for a repeat, and whose it is. -/
theorem own_run (hplaced : Placed w) {rs : List (Int32 × Mem)} (h : HappyPath.Begun P flush cfg w v rs w') {i : ℕ}
    {r : Int32 × Mem} (hr : rs[i]? = some r) :
    (takenFor cfg v w' i r).length = r.1.toUInt32.toNat ∧
      r.2.bytes 0 r.1.toUInt32.toNat = (takenFor cfg v w' i r).map InByte.val ∧
      (Own (repeatBytes cfg) w.streamed i (takenFor cfg v w' i r) ↔ takenFor cfg v w' i r = [] ∨ v.inPipe.queue = []) := by
  obtain ⟨habort, addr, hrun⟩ := h
  obtain ⟨hplaced, hstreamed⟩ := hplaced.aborted habort
  rw [← hstreamed]
  cases happyPathCommands_run hrun with
  | lost => simp at hr
  | @received _ _ resp samples k _ hresp hreply hsamples hrepeats hv hk hall hp =>
    obtain ⟨hcount, hdata⟩ := hall i r hr
    -- the bytes taken out are the responses, then those of the receives, then others
    obtain ⟨rest, hrest⟩ := hp.taken
    have htaken : takenFor cfg v w' i r =
        ((((v.inPipe.queue ++ resp ++ sampleBytes v.streamed samples).drop 96).take k).drop
          (i * repeatBytes cfg)).take r.1.toUInt32.toNat := by
      rw [Fifo.queue_put, ← List.append_assoc] at hk
      rw [takenFor, Fifo.between, ← hrest, hv, Fifo.taken_take, Fifo.taken_put, Fifo.queue_put, List.append_assoc,
        List.drop_left, ← List.append_assoc]
      exact take_drop_take hk hcount
    refine ⟨?_, ?_, own_iff hresp hreply hplaced htaken⟩
    · rw [htaken]
      refine List.length_take_of_le ?_
      rw [List.length_drop]
      exact Nat.le_sub_of_add_le' hcount
    · rw [htaken]
      exact hdata

/-- **Whose samples a run receives.**  In every sequence of runs of the sample program against the device that answers at
once: each receive fills its buffer with the bytes it took out of the IN pipe, and these are samples of its own repeat and
its own run if and only if there are none or `abort_pipe` left the pipe empty. -/
theorem own_iff_empty {l : List (Done Unit HappyPath Link)}
    (h : Trace ((flakyDevice P).whole flush) (fun _ => happyPath cfg) .init l w) :
    ∀ d ∈ l, (d.val.received = [] ∨ ∃ v, HappyPath.Begun P flush cfg d.before v d.val.received d.after) ∧
      ∀ v, HappyPath.Begun P flush cfg d.before v d.val.received d.after →
        ∀ (i : ℕ) (r : Int32 × Mem), d.val.received[i]? = some r →
          (takenFor cfg v d.after i r).length = r.1.toUInt32.toNat ∧
            r.2.bytes 0 r.1.toUInt32.toNat = (takenFor cfg v d.after i r).map InByte.val ∧
            (Own (repeatBytes cfg) d.before.streamed i (takenFor cfg v d.after i r) ↔
              takenFor cfg v d.after i r = [] ∨ v.inPipe.queue = []) := by
  intro d hd
  obtain ⟨hb, hrun⟩ := placed_trace h d hd
  refine ⟨(happyPath_run hrun).imp_left And.left, fun v hv i r hr => ?_⟩
  exact own_run hb hv hr

theorem aborted_noFlush (h : w.Aborted noFlush v) : v = w := by
  obtain ⟨k₁, k₂, k₃, rfl, rfl, rfl, rfl⟩ := h
  simp only [Link.take_zero]

end Main

/-! ### One run behind -/

section Behind

/-- A command with a response, of which `k` bytes were taken out in front. -/
def heard (c : Command) (code : List UInt8) (k : ℕ) (w : Link) : Link :=
  ((w.receive c.request).reply w.sent (codeFrame code)).take k

/-- What the command then returns. -/
def heardVal (c : Command) (code : List UInt8) (k : ℕ) (w : Link) : Int32 :=
  if k = 32 then
    if (((w.receive c.request).reply w.sent (codeFrame code)).inPipe.queue.take 8).map InByte.val = code then c.success
    else c.verifyErr
  else c.fail

variable {cfg : UsbConfig} {w w' : Link} {rs : List (Int32 × Mem)}

/-- The samples are as many as are asked for. -/
def asked (cfg : UsbConfig) (samples : List UInt8) : Prop := samples.length = cfg.repeatCount.toNat * repeatBytes cfg

theorem heard_runs (addr : UsbAddr) {c : Command} {code : List UInt8} (hc : c.request.answer = some code) {k : ℕ}
    (hk : k ≤ 32) {samples : List UInt8} (hs : asked cfg samples) (w : Link) :
    (c.prog addr).Runs (flakyDevice (asked cfg)).env w (heardVal c code k w) (heard c code k w) := by
  have hq : k ≤ ((w.receive c.request).reply w.sent (codeFrame code)).inPipe.queue.length := by
    rw [show ((w.receive c.request).reply w.sent (codeFrame code)).inPipe.queue =
      w.inPipe.queue ++ replyBytes w.sent (codeFrame code) from rfl, List.length_append, replyBytes_length, codeFrame,
      List.length_append, Request.answer_length hc, List.length_replicate]
    omega
  have hacted := (Link.acted_frame samples w _ c).2 (.inr ⟨code, List.replicate 24 0, hc, rfl, rfl⟩)
  exact Command.runs_of_ran (.heard (D := flakyDevice (asked cfg)) (s := 0) (t := 0) hc (.refl w) trivial
    ⟨samples, hs, hacted⟩ (.refl _) hk hq trivial (.refl _))

/-- A run of `main` in which `FT_Create` yields the handle 1. -/
theorem happyPath_runs (h : (happyPathCommands cfg ⟨1⟩).Runs (flakyDevice (asked cfg)).env w rs w') :
    (happyPath cfg).Runs ((flakyDevice (asked cfg)).whole noFlush) w ⟨0, rs⟩ w' := by
  have hsim : ((flakyDevice (asked cfg)).whole noFlush).Simulates (flakyDevice (asked cfg)).env (fun _ => True) id := by
    refine ⟨fun u o r v _ ha => ?_, fun _ _ hm => .single hm⟩
    cases o with
    | ft c => cases c <;> first | exact ha | exact False.elim ha
    | errno => exact ha
    | undef l => exact ha
  refine Prog.runs_bind.2 ⟨(0, ⟨1⟩), w, ?_, ?_⟩
  · exact ⟨_, default, _, .refl _, rfl, _, ftOk, _, .refl _, rfl, _, ftOk, _, .refl _, rfl, _, ftOk, _, .refl _, rfl,
      _, ftOk, _, .refl _, rfl, _, (⟨ftOk, some 1⟩ : Created), _, .refl _, rfl, rfl, .refl _⟩
  · have hflush : ∃ k, noFlush 0 w k ∧ w = w.take k := ⟨0, rfl, w.take_zero.symm⟩
    refine Prog.runs_bind.2 ⟨(), w, ⟨_, ftOk, _, .refl _, hflush, _, ftOk, _, .refl _, hflush, _, ftOk, _, .refl _, hflush,
      rfl, .refl _⟩, ?_⟩
    refine Prog.runs_bind.2 ⟨rs, w', hsim.runs_all h, ?_⟩
    exact ⟨_, ftOk, _, .refl _, rfl, rfl, .refl _⟩

/-- A command that reads the right code. -/
theorem passed_step {addr : UsbAddr} {c : Command} {code : List UInt8} {f : Ed (List (Int32 × Mem))} {samples : List UInt8}
    (hs : asked cfg samples) (hc : c.request.answer = some code) (hv : heardVal c code 32 w = c.success)
    (hf : f.Runs (flakyDevice (asked cfg)).env (heard c code 32 w) rs w') :
    (c.prog addr >>= fun a => if a ≠ c.success then .ret [] else f).Runs (flakyDevice (asked cfg)).env w rs w' := by
  have h := heard_runs addr hc le_rfl hs w
  rw [hv] at h
  refine Prog.runs_bind.2 ⟨c.success, _, h, ?_⟩
  rwa [if_neg (not_not.2 rfl)]

/-- The link of a session after its start, the responses to its three commands being read in front. -/
def started (samples : List UInt8) (w : Link) : Link :=
  let w := heard .stop codeStopCollectResponse 32 w
  let w := heard .connect codeConnectResponse 32 w
  let w := heard (.config oneSample) codeSendConfigResponse 32 w
  (w.receive .start).stream samples

theorem asked_oneSample : asked oneSample [1, 2, 3, 4, 5, 6] := rfl

/-- A run that receives one byte, wherever the responses are read right. -/
theorem started_runs (w : Link) (b : InByte) (hb : (started [1, 2, 3, 4, 5, 6] w).inPipe.queue.head? = some b)
    (hstop : heardVal .stop codeStopCollectResponse 32 w = usbStopCollectSuccess)
    (hconnect : heardVal .connect codeConnectResponse 32 (heard .stop codeStopCollectResponse 32 w) = usbConnectSuccess)
    (hconfig : heardVal (.config oneSample) codeSendConfigResponse 32
      (heard .connect codeConnectResponse 32 (heard .stop codeStopCollectResponse 32 w)) = usbSendConfigSuccess) :
    (happyPath oneSample).Runs ((flakyDevice (asked oneSample)).whole noFlush) w
      ⟨0, [(1, Mem.write (fun _ => 0) 0 [b.val])]⟩ ((started [1, 2, 3, 4, 5, 6] w).take 1) := by
  have hs := asked_oneSample
  refine happyPath_runs ?_
  refine passed_step (c := .stop) hs rfl hstop (passed_step (c := .connect) hs rfl hconnect
    (passed_step (c := .config oneSample) hs rfl hconfig ?_))
  refine Prog.runs_bind.2 ⟨usbStartCollectSuccess, started [1, 2, 3, 4, 5, 6] w, ?_, ?_⟩
  · exact Command.runs_of_ran (c := .start) (.sent (D := flakyDevice (asked oneSample)) (s := 0) rfl (.refl _) trivial
      ⟨_, hs, (Link.acted_frame _ _ _ .start).2 (.inl ⟨rfl, rfl⟩)⟩ (.refl _))
  · -- one byte is read, and the loop is left
    obtain ⟨rest, hqueue⟩ := List.head?_eq_some_iff.1 hb
    have hlen : 1 ≤ (started [1, 2, 3, 4, 5, 6] w).inPipe.queue.length := by rw [hqueue]; simp
    have hrecv : (usbStartRecvRepeatN oneSample ⟨1⟩ 0 (fun _ => 0) (repeatCnt oneSample).toInt64.toUInt64 1000).Runs
        (flakyDevice (asked oneSample)).env (started [1, 2, 3, 4, 5, 6] w) _ ((started [1, 2, 3, 4, 5, 6] w).take 1) :=
      runs_of_recv (s := 0) (k := 1) (by decide) (.refl _) (by decide) hlen trivial (.refl _)
    rw [hqueue] at hrecv
    refine Prog.runs_bind.2 ⟨([(1, Mem.write (fun _ => 0) 0 [b.val])], false), _, ?_, rfl, .refl _⟩
    exact undef_runs (fun _ => 0) (Prog.runs_bind.2 ⟨_, _, hrecv, rfl, .refl _⟩)

/-- The first run of all receives its own first sample. -/
theorem own_iff_empty_init :
    Own 2 0 0 (takenFor oneSample .init ((started [1, 2, 3, 4, 5, 6] .init).take 1) 0
      (1, Mem.write (fun _ => 0) 0 [1])) := by
  have hrun := started_runs .init ⟨1, .sample 0⟩ (by decide) (by decide) (by decide) (by decide)
  have htrace : Trace ((flakyDevice (asked oneSample)).whole noFlush) (fun _ : Unit => happyPath oneSample) .init
      [⟨(), .init, _, _⟩] _ := .cons (.refl _) hrun (.nil (.refl _))
  obtain ⟨hbegun, hown⟩ := own_iff_empty htrace _ List.mem_cons_self
  obtain ⟨v, hv⟩ := hbegun.resolve_left (List.cons_ne_nil _ _)
  obtain rfl : v = .init := aborted_noFlush hv.aborted
  exact (hown _ hv 0 _ rfl).2.2.2 (.inr rfl)

end Behind

end EdUsb
