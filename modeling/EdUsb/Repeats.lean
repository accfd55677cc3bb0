import EdUsb.Command
import Mathlib.Algebra.Group.Action.Defs
import Mathlib.Algebra.Order.BigOperators.Group.List

/-!
# The place of what is received

The samples arrive as one stream; its part `[i * n, (i + 1) * n)` is repeat `i`.  `usb_start_recv_repeat_n` takes what the
IN pipe holds and uses its index in an assertion only, so where a receive begins is the sum of what the receives before
it took (`taken_before`).  It is aligned exactly when each of them took all of its repeat (`aligned_iff`).
-/

namespace EdUsb

open EdUsb.Lib Ed

/-- The bytes of one repeat, `2 * sample_count * ad_channel`, as a number. -/
def repeatLen (c : UsbConfig) : ℕ := 2 * c.sampleCount.toNat * c.adChannel.toInt.toNat

theorem repeatLen_lt (c : UsbConfig) : repeatLen c < 2 ^ 64 := by
  have h1 := c.sampleCount.toNat_lt
  have h2 : c.adChannel.toInt.toNat < 2 ^ 15 := by
    have := c.adChannel.toInt_lt
    omega
  calc repeatLen c ≤ 2 * (2 ^ 32) * 2 ^ 15 := Nat.mul_le_mul (by omega) h2.le
    _ < 2 ^ 64 := by norm_num

/-- The length that a receive of a whole repeat asks the driver for. -/
theorem toNat_repeatLen (c : UsbConfig) : (UInt64.ofNat (repeatLen c)).toUInt32.toNat = repeatLen c % 2 ^ 32 := by
  rw [UInt64.toNat_toUInt32, UInt64.toNat_ofNat', Nat.mod_eq_of_lt (repeatLen_lt c)]

/-- The device streams any samples at any moment; a read may end with any status and with less than there is. -/
def sampleDevice : Device where
  move w w' := ∃ xs, w' = w.stream xs
  accept w frame w' := w' = w.accept frame
  wrote _ _ := True
  reads _ _ _ _ := True

/-- The arguments of a receive that differ from call to call. -/
structure Recv where
  repeatIndex : Int32
  data : Mem
  timeout : UInt32

/-- A receive of a whole repeat. -/
def Recv.prog (c : UsbConfig) (addr : UsbAddr) (r : Recv) : Ed (Int32 × Mem) :=
  usbStartRecvRepeatN c addr r.repeatIndex r.data (UInt64.ofNat (repeatLen c)) r.timeout

/-- The bytes that a finished receive took out of the IN pipe into its buffer. -/
def stored (d : Done Recv (Int32 × Mem) Link) : List InByte := d.before.inPipe.between d.after.inPipe

/-- Every byte that the receive stored is of the repeat that it was called for. -/
def Aligned (n : ℕ) (d : Done Recv (Int32 × Mem) Link) : Prop :=
  ∀ b ∈ stored d, ∃ k : ℕ, b.origin = .sample k ∧ d.cmd.repeatIndex.toInt * n ≤ k ∧ k < (d.cmd.repeatIndex.toInt + 1) * n

/-! ### Order of arrival -/

/-- The samples, and nothing else, arrived in order. -/
structure InOrder (w : Link) : Prop where
  origin : ∀ (j : ℕ) (b : InByte), w.inPipe.arrived[j]? = some b → b.origin = .sample j
  streamed : w.streamed = w.inPipe.arrived.length

theorem InOrder.init : InOrder .init := ⟨fun j b h => by simp [Link.init, Fifo.empty, Fifo.arrived] at h, rfl⟩

theorem InOrder.move {w v : Link} (hw : InOrder w) (h : sampleDevice.env.move w v) : InOrder v := by
  obtain ⟨xs, rfl⟩ := h
  have harr : (w.stream xs).inPipe.arrived = w.inPipe.arrived ++ sampleBytes w.streamed xs := Fifo.arrived_put _ _
  constructor
  · intro j b hb
    rw [harr, List.getElem?_append] at hb
    split at hb
    · exact hw.origin j b hb
    · obtain ⟨x, -, rfl⟩ := Option.map_eq_some_iff.1 (by rwa [sampleBytes, List.getElem?_mapIdx] at hb)
      have := hw.streamed
      exact congrArg Origin.sample (by omega)
  · rw [harr, List.length_append, sampleBytes_length, ← hw.streamed]
    rfl

theorem InOrder.take {w : Link} (hw : InOrder w) (k : ℕ) : InOrder (w.take k) := by
  have harr : (w.take k).inPipe.arrived = w.inPipe.arrived := Fifo.arrived_take _ _
  constructor
  · intro j b hb
    rw [harr] at hb
    exact hw.origin j b hb
  · rw [harr]
    exact hw.streamed

theorem taken_of_moves {w v : Link} (h : sampleDevice.env.Moves w v) : v.inPipe.taken = w.inPipe.taken := by
  induction h with
  | refl => rfl
  | tail _ hm ih =>
    obtain ⟨xs, rfl⟩ := hm
    exact ih

/-! ### One receive -/

section Receive

variable {c : UsbConfig} {addr : UsbAddr} {r : Recv} {w w' : Link} {a : Int32 × Mem}

/-- What a receive of a whole repeat does: it stores what it took, at most a repeat. -/
theorem recv_spec (hw : InOrder w) (h : (r.prog c addr).Runs sampleDevice.env w a w') :
    InOrder w' ∧ (stored ⟨r, w, a, w'⟩).length ≤ repeatLen c ∧
      w'.inPipe.taken = w.inPipe.taken ++ stored ⟨r, w, a, w'⟩ ∧
      a.2 = r.data.write 0 ((stored ⟨r, w, a, w'⟩).map InByte.val) := by
  obtain ⟨-, v, s, k, hm, hk, hq, -, rfl, hm'⟩ := recv_run h
  have hv : InOrder v := hm.inv (fun _ _ hw hm => hw.move hm) hw
  have htake : w'.inPipe.taken = w.inPipe.taken ++ v.inPipe.queue.take k := by
    rw [taken_of_moves hm', ← taken_of_moves hm]
    rfl
  have hst : stored ⟨r, w, ((UInt32.ofNat k).toInt32, r.data.write 0 ((v.inPipe.queue.take k).map InByte.val)), w'⟩ =
      v.inPipe.queue.take k := by
    unfold stored Fifo.between
    rw [htake, List.drop_left]
  rw [hst]
  refine ⟨hm'.inv (fun _ _ hw hm => hw.move hm) (hv.take k), ?_, htake, rfl⟩
  rw [List.length_take_of_le hq]
  rw [toNat_repeatLen] at hk
  exact hk.trans (Nat.mod_le ..)

/-- The bytes stored are consecutive, from the place that the taking had come to. -/
theorem stored_origin {d : Done Recv (Int32 × Mem) Link} (hd : InOrder d.after) {m : ℕ} {b : InByte}
    (hb : (stored d)[m]? = some b) : b.origin = .sample (d.before.inPipe.taken.length + m) := by
  refine hd.origin _ b ?_
  unfold stored Fifo.between at hb
  rw [List.getElem?_drop] at hb
  rw [Fifo.arrived, List.getElem?_append_left (List.getElem?_eq_some_iff.1 hb).1, hb]

end Receive

/-! ### A run of receives -/

section Run

variable {c : UsbConfig} {addr : UsbAddr} {w w' : Link} {l : List (Done Recv (Int32 × Mem) Link)}

/-- Each receive begins where those before it came to. -/
theorem taken_before (hw : InOrder w) (h : Trace sampleDevice.env (Recv.prog c addr) w l w') :
    ∀ (i : ℕ) (d : Done Recv (Int32 × Mem) Link), l[i]? = some d →
      d.before.inPipe.taken.length = w.inPipe.taken.length + ((l.take i).map fun e => (stored e).length).sum := by
  induction h with
  | nil => intro i d hd; simp at hd
  | @cons w v v' w' r a l hm hr _ ih =>
    have hv : InOrder v := hm.inv (fun _ _ hw hm => hw.move hm) hw
    obtain ⟨hv', -, htake, -⟩ := recv_spec hv hr
    have hwv := taken_of_moves hm
    intro i d hd
    cases i with
    | zero =>
      obtain rfl := Option.some_inj.1 hd
      simp [hwv]
    | succ i =>
      rw [ih hv' i d hd, htake, hwv]
      simp only [List.length_append, List.take_succ_cons, List.map_cons, List.sum_cons]
      omega

/-- Numbers of at most `n` add up to `n` for each exactly if each is `n`. -/
theorem le_sum_iff {n : ℕ} {ks : List ℕ} (hle : ∀ k ∈ ks, k ≤ n) : ks.length * n ≤ ks.sum ↔ ∀ k ∈ ks, k = n := by
  constructor
  · intro hsum
    induction ks with
    | nil => simp
    | cons x ks ih =>
      have hx := hle x List.mem_cons_self
      have hks : ∀ k ∈ ks, k ≤ n := fun k hk => hle k (List.mem_cons_of_mem _ hk)
      have htail := List.sum_le_card_nsmul ks n hks
      rw [smul_eq_mul] at htail
      rw [List.length_cons, List.sum_cons, Nat.succ_mul] at hsum
      intro k hk
      rcases List.mem_cons.1 hk with rfl | hk
      · omega
      · exact ih hks (by omega) k hk
  · intro hall
    rw [List.eq_replicate_iff.2 ⟨rfl, hall⟩, List.length_replicate, List.sum_replicate, smul_eq_mul]

/-- Where receives of at most `n` bytes come to. -/
theorem sum_stored {n : ℕ} {ds : List (Done Recv (Int32 × Mem) Link)} (hle : ∀ e ∈ ds, (stored e).length ≤ n) :
    (ds.map fun e => (stored e).length).sum ≤ ds.length * n ∧
      (ds.length * n ≤ (ds.map fun e => (stored e).length).sum ↔ ∀ e ∈ ds, (stored e).length = n) := by
  have hmap : ∀ k ∈ ds.map (fun e => (stored e).length), k ≤ n := List.forall_mem_map.2 hle
  constructor
  · have hsum := List.sum_le_card_nsmul _ n hmap
    rwa [List.length_map, smul_eq_mul] at hsum
  · have hiff := le_sum_iff hmap
    rwa [List.length_map, List.forall_mem_map] at hiff

/-- A receive that begins no later than its repeat is aligned exactly if it stores nothing or begins no earlier. -/
theorem aligned_iff_start {d : Done Recv (Int32 × Mem) Link} {n i : ℕ} (ha : InOrder d.after)
    (hidx : d.cmd.repeatIndex.toInt = i) (hle : (stored d).length ≤ n) (hstart : d.before.inPipe.taken.length ≤ i * n) :
    Aligned n d ↔ stored d = [] ∨ i * n ≤ d.before.inPipe.taken.length := by
  unfold Aligned
  rw [hidx]
  constructor
  · intro hal
    rcases hs : stored d with _ | ⟨b, rest⟩
    · exact .inl rfl
    · -- the first byte stored is no earlier than its repeat
      have hfirst : (stored d)[0]? = some b := by rw [hs]; rfl
      obtain ⟨k, hk, hlo, -⟩ := hal b (by rw [hs]; exact List.mem_cons_self)
      rw [stored_origin ha hfirst, Origin.sample.injEq, Nat.add_zero] at hk
      rw [← hk] at hlo
      right
      exact_mod_cast hlo
  · rintro (hs | hge) b hb
    · rw [hs] at hb
      cases hb
    · obtain ⟨m, hm, rfl⟩ := List.getElem_of_mem hb
      refine ⟨_, stored_origin ha (List.getElem?_eq_getElem hm), ?_, ?_⟩
      · rw [Nat.le_antisymm hstart hge]
        push_cast
        omega
      · rw [Nat.le_antisymm hstart hge]
        push_cast
        rw [add_mul]
        omega

/-- **When a receive is aligned.**  Receives for the repeats `0, 1, 2, …` in turn, whatever each read ends with: a receive
stores only bytes of its own repeat if and only if it stores none or every receive before it stored a whole repeat. -/
theorem aligned_iff (h : Trace sampleDevice.env (Recv.prog c addr) .init l w')
    (hidx : ∀ (i : ℕ) (d : Done Recv (Int32 × Mem) Link), l[i]? = some d → d.cmd.repeatIndex.toInt = i) :
    ∀ (i : ℕ) (d : Done Recv (Int32 × Mem) Link), l[i]? = some d →
      d.val.2 = d.cmd.data.write 0 ((stored d).map InByte.val) ∧
      (Aligned (repeatLen c) d ↔ stored d = [] ∨ ∀ e ∈ l.take i, (stored e).length = repeatLen c) := by
  have hrun := (h.inv (fun _ _ hw hm => InOrder.move hw hm) (fun _ _ _ _ hw hr => (recv_spec hw hr).1) .init).1
  have hle : ∀ d ∈ l, (stored d).length ≤ repeatLen c := by
    intro d hd
    obtain ⟨hb, hr, -⟩ := hrun d hd
    exact (recv_spec hb hr).2.1
  intro i d hd
  have hmem : d ∈ l := List.mem_of_getElem? hd
  obtain ⟨hb, hr, ha⟩ := hrun d hmem
  obtain ⟨-, -, -, hval⟩ := recv_spec hb hr
  have hstart : d.before.inPipe.taken.length = ((l.take i).map fun e => (stored e).length).sum := by
    have := taken_before .init h i d hd
    simpa [Link.init, Fifo.empty] using this
  have hi : (l.take i).length = i := List.length_take_of_le (List.getElem?_eq_some_iff.1 hd).1.le
  obtain ⟨hsum, hfull⟩ := sum_stored fun e he => hle e (List.mem_of_mem_take he)
  rw [hi, ← hstart] at hsum hfull
  refine ⟨hval, ?_⟩
  rw [← hfull]
  exact aligned_iff_start ha (hidx i d hd) (hle d hmem) hsum

end Run

/-! ### A receive that times out -/

/-- The default configuration with one sample, two bytes, a repeat. -/
def oneSample : UsbConfig := { defaultConfig with sampleCount := 1 }

/-- One byte of the first repeat arrived. -/
def firstByte : Link := Link.init.stream [1]

/-- That byte was received; then the rest of the first repeat and a byte of the second arrived. -/
def laterBytes : Link := (firstByte.take 1).stream [2, 3]

/-- The receive of one byte. -/
def firstRecv : Done Recv (Int32 × Mem) Link :=
  ⟨⟨0, fun _ => 0, 1000⟩, firstByte, (1, Mem.write (fun _ => 0) 0 [1]), firstByte.take 1⟩

/-- The receive after it, of two. -/
def secondRecv : Done Recv (Int32 × Mem) Link :=
  ⟨⟨1, fun _ => 0, 1000⟩, laterBytes, (2, Mem.write (fun _ => 0) 0 [2, 3]), laterBytes.take 2⟩

theorem shortRecvs_trace :
    Trace sampleDevice.env (Recv.prog oneSample ⟨1⟩) .init [firstRecv, secondRecv] (laterBytes.take 2) := by
  refine .cons (.single ⟨[1], rfl⟩) ?_ (.cons (.single ⟨[2, 3], rfl⟩) ?_ (.nil (.refl _)))
  · exact runs_of_recv (s := 0) (k := 1) (by decide) (.refl firstByte) (by decide) (by decide) trivial (.refl _)
  · exact runs_of_recv (s := 0) (k := 2) (by decide) (.refl laterBytes) (by decide) (by decide) trivial (.refl _)

theorem shortRecvs_repeatIndex :
    ∀ (i : ℕ) (d : Done Recv (Int32 × Mem) Link), [firstRecv, secondRecv][i]? = some d → d.cmd.repeatIndex.toInt = i
  | 0, _, h => by cases h; rfl
  | 1, _, h => by cases h; rfl
  | _ + 2, _, h => by simp at h

/-- The first receive is aligned. -/
theorem aligned_iff_firstRecv : Aligned (repeatLen oneSample) firstRecv :=
  (aligned_iff shortRecvs_trace shortRecvs_repeatIndex 0 firstRecv rfl).2.2 (.inr (by simp))

/-- The second receive begins with a byte of the first repeat. -/
theorem not_aligned_of_short :
    ¬ ∀ (c : UsbConfig) (addr : UsbAddr) (l : List (Done Recv (Int32 × Mem) Link)) (w : Link),
      Trace sampleDevice.env (Recv.prog c addr) .init l w →
      (∀ (i : ℕ) (d : Done Recv (Int32 × Mem) Link), l[i]? = some d → d.cmd.repeatIndex.toInt = i) →
      ∀ d ∈ l, Aligned (repeatLen c) d := by
  intro h
  have := h _ _ _ _ shortRecvs_trace shortRecvs_repeatIndex _ (List.mem_cons_of_mem _ List.mem_cons_self)
    ⟨2, .sample 1⟩ (by decide)
  obtain ⟨k, hk, hlo, -⟩ := this
  obtain rfl : 1 = k := by simpa using hk
  exact absurd hlo (by decide)

end EdUsb
