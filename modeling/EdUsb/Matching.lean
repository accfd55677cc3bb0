import EdUsb.Command

/-!
# Whose response a command reads

The device answers every request, but in its own time; a read takes what is there.  Nothing ties a response to its
request but its place in the IN pipe, and a command that gives up leaves its response to be read by a later one.  So a
command that succeeds has read the response to its own request exactly when the pipe was empty as it began and the first
byte to arrive from then on was a byte of that response (`matched_iff`).  `Safe` says from which states nothing else can
happen.
-/

namespace EdUsb

open EdUsb.Lib Ed

/-- The device answers each request once, at any later moment, with any 32 bytes, and streams any samples while it
collects.  A write may fail in any way. -/
def lateDevice : Device where
  move w w' :=
    (∃ n ∈ w.waiting, ∃ resp, resp.length = 32 ∧ w' = w.reply n resp) ∨ w.collecting = true ∧ ∃ xs, w' = w.stream xs
  accept w frame w' := w' = w.accept frame
  wrote _ _ := True
  reads w n _ k := k = min n w.inPipe.queue.length

/-- Between `w` and `w'` the host took out of the IN pipe the response of the device to the request number `w.sent`. -/
def Matched (w w' : Link) : Prop :=
  ∃ resp, resp.length = 32 ∧ (w.sent, resp) ∈ w'.replied ∧ w.inPipe.between w'.inPipe = replyBytes w.sent resp

/-- The IN pipe is empty in `w`, and the first byte to arrive after that is of the response to the request number
`w.sent`. -/
def OwnFirst (w w' : Link) : Prop :=
  w.inPipe.queue = [] ∧
    w'.inPipe.arrived[w.inPipe.arrived.length]?.map InByte.origin = some (.reply w.sent 0)

/-! ### Numbers of requests -/

/-- What waits for an answer, and what is queued, belongs to requests that were received. -/
structure Numbered (w : Link) : Prop where
  waiting : ∀ n ∈ w.waiting, n < w.sent
  queue : ∀ b ∈ w.inPipe.queue, ∀ n i, b.origin = .reply n i → n < w.sent

theorem Numbered.init : Numbered .init := ⟨by simp [Link.init], by simp [Link.init, Fifo.empty]⟩

theorem Numbered.move {w v : Link} (hw : Numbered w) (h : lateDevice.env.move w v) : Numbered v := by
  rcases h with ⟨n, hn, resp, -, rfl⟩ | ⟨-, xs, rfl⟩
  · constructor
    · intro m hm
      exact hw.waiting m (List.mem_of_mem_erase hm)
    · intro b hb m i ho
      rcases List.mem_append.1 hb with hb | hb
      · exact hw.queue b hb m i ho
      · obtain ⟨j, hj⟩ := mem_replyBytes hb
        rw [hj] at ho
        cases ho
        exact hw.waiting n hn
  · refine ⟨hw.waiting, ?_⟩
    intro b hb m i ho
    rcases List.mem_append.1 hb with hb | hb
    · exact hw.queue b hb m i ho
    · obtain ⟨j, hj⟩ := mem_sampleBytes hb
      rw [hj] at ho
      cases ho

theorem Numbered.receive {w : Link} (hw : Numbered w) (q : Request) : Numbered (w.receive q) := by
  have hs : (w.receive q).sent = w.sent + 1 := rfl
  constructor
  · intro n hn
    rw [hs]
    by_cases hq : q = .start
    · have hn : n ∈ w.waiting := by simpa [Link.receive, hq] using hn
      have := hw.waiting n hn
      omega
    · have hn : n ∈ w.waiting ∨ n = w.sent := by simpa [Link.receive, hq] using hn
      rcases hn with hn | rfl
      · have := hw.waiting n hn
        omega
      · omega
  · intro b hb n i ho
    have := hw.queue b hb n i ho
    omega

theorem Numbered.accept {w : Link} (hw : Numbered w) (frame : List UInt8) : Numbered (w.accept frame) := by
  unfold Link.accept
  cases requestOf frame with
  | none => exact hw
  | some q => exact hw.receive q

theorem Numbered.take {w : Link} (hw : Numbered w) (k : ℕ) : Numbered (w.take k) :=
  ⟨hw.waiting, fun b hb => hw.queue b (List.mem_of_mem_drop hb)⟩

/-- Every answer of the driver keeps the numbers right. -/
theorem Numbered.ans {w v : Link} {o : Op} {r : o.Ans} (hw : Numbered w) (h : lateDevice.env.ans w o r v) :
    Numbered v := by
  refine Device.ans_inv ?_ (fun _ k hu => hu.take k) hw h
  rintro u frame x hu rfl
  exact hu.accept frame

/-! ### What arrives -/

/-- `ys` begins with the whole of a response or with a sample, if it begins at all. -/
def Begins (replied : List (ℕ × List UInt8)) (ys : List InByte) : Prop :=
  ys = [] ∨ (∃ n resp rest, resp.length = 32 ∧ (n, resp) ∈ replied ∧ ys = replyBytes n resp ++ rest) ∨
    ∃ b rest k, b.origin = .sample k ∧ ys = b :: rest

theorem Begins.append {l l' : List (ℕ × List UInt8)} {ys zs : List InByte} (hl : l ⊆ l') (hy : Begins l ys)
    (hz : Begins l' zs) : Begins l' (ys ++ zs) := by
  rcases hy with rfl | ⟨n, resp, rest, h1, h2, rfl⟩ | ⟨b, rest, k, h1, rfl⟩
  · exact hz
  · exact .inr (.inl ⟨n, resp, rest ++ zs, h1, hl h2, by rw [List.append_assoc]⟩)
  · exact .inr (.inr ⟨b, rest ++ zs, k, h1, rfl⟩)

/-- Between `w` and `v` the device put `ys` into the IN pipe and the host took nothing out of it. -/
structure Grown (w v : Link) (ys : List InByte) : Prop where
  inPipe : v.inPipe = w.inPipe.put ys
  replied : w.replied ⊆ v.replied
  begins : Begins v.replied ys

namespace Grown

theorem refl (w : Link) : Grown w w [] := ⟨by simp, List.Subset.refl _, .inl rfl⟩

theorem trans {w v u : Link} {ys zs : List InByte} (h₁ : Grown w v ys) (h₂ : Grown v u zs) : Grown w u (ys ++ zs) where
  inPipe := by rw [h₂.inPipe, h₁.inPipe, Fifo.put_put]
  replied := List.Subset.trans h₁.replied h₂.replied
  begins := h₁.begins.append h₂.replied h₂.begins

theorem accept (w : Link) (frame : List UInt8) : Grown w (w.accept frame) [] := by
  unfold Link.accept
  cases requestOf frame with
  | none => exact refl w
  | some q => exact ⟨by simp [Link.receive], List.Subset.refl _, .inl rfl⟩

theorem of_move {w v : Link} (h : lateDevice.env.move w v) : ∃ ys, Grown w v ys := by
  rcases h with ⟨n, -, resp, hr, rfl⟩ | ⟨-, xs, rfl⟩
  · refine ⟨replyBytes n resp, rfl, List.subset_append_left .., .inr (.inl ⟨n, resp, [], hr, ?_, ?_⟩)⟩
    · simp [Link.reply]
    · rw [List.append_nil]
  · refine ⟨sampleBytes w.streamed xs, rfl, List.Subset.refl _, ?_⟩
    cases xs with
    | nil => exact .inl rfl
    | cons x xs => exact .inr (.inr ⟨_, _, _, rfl, by simp only [sampleBytes, List.mapIdx_cons]; rfl⟩)

theorem of_moves {w v : Link} (h : lateDevice.env.Moves w v) : ∃ ys, Grown w v ys := by
  induction h with
  | refl => exact ⟨[], refl w⟩
  | tail _ hm ih =>
    obtain ⟨ys, hy⟩ := ih
    obtain ⟨zs, hz⟩ := of_move hm
    exact ⟨ys ++ zs, hy.trans hz⟩

end Grown

/-! ### Commands that succeed -/

/-- A command went from `w` to `w'` and succeeded: its request was received in `v`, and 32 bytes were read in `x`, when
`ys` had arrived since `w`; after that `zs` arrived. -/
structure Succeeded (c : Command) (w v x w' : Link) (ys zs : List InByte) : Prop where
  before : lateDevice.env.Moves w v
  during : lateDevice.env.Moves (v.accept c.frame) x
  grown : Grown w x ys
  replied : x.replied ⊆ w'.replied
  length : 32 ≤ (w.inPipe.queue ++ ys).length
  code : c.request.answer = some (((w.inPipe.queue ++ ys).take 8).map InByte.val)
  taken : w.inPipe.between w'.inPipe = (w.inPipe.queue ++ ys).take 32
  arrived : w'.inPipe.arrived = w.inPipe.arrived ++ (ys ++ zs)

section Succeed

variable {addr : UsbAddr} {c : Command} {w v x w' : Link} {ys zs : List InByte}

theorem succeeded_of_runs (hc : c.request ≠ .start) (h : (c.prog addr).Runs lateDevice.env w c.success w') :
    ∃ v x ys zs, Succeeded c w v x w' ys zs := by
  have hr := Command.ran_of_runs h
  generalize ha : c.success = a at hr
  cases hr with
  | lost => exact absurd ha c.success_ne_fail
  | sent hn => cases c <;> first | exact absurd rfl hc | cases hn
  | @heard v u x _ s t k code hcode hm _ hu hm₂ hk hq hrd hm₃ =>
    by_cases hk32 : k = 32
    · rw [if_pos hk32] at ha
      subst hk32
      by_cases h8 : (x.inPipe.queue.take 8).map InByte.val = code
      · obtain ⟨y₁, h₁⟩ := Grown.of_moves hm
        obtain ⟨y₂, h₂⟩ := Grown.of_moves hm₂
        obtain ⟨zs, h₃⟩ := Grown.of_moves hm₃
        obtain rfl : u = v.accept c.frame := hu
        have hx := (h₁.trans (Grown.accept v c.frame)).trans h₂
        rw [List.append_nil] at hx
        have hxp := hx.inPipe
        have hwp : w'.inPipe = (x.inPipe.take 32).put zs := h₃.inPipe
        refine ⟨v, x, y₁ ++ y₂, zs, hm, hm₂, hx, h₃.replied, ?_, ?_, ?_, ?_⟩
        · rwa [hxp] at hq
        · rw [hcode, ← h8, hxp]
          rfl
        · rw [hwp, hxp, Fifo.between_put_take]
        · rw [hwp, hxp]
          simp
      · rw [if_neg h8] at ha
        exact absurd ha c.success_ne_verifyErr
    · rw [if_neg hk32] at ha
      exact absurd ha c.success_ne_fail

namespace Succeeded

/-- Whether the own response came first shows in what had arrived when the 32 bytes were read. -/
theorem ownFirst_iff (h : Succeeded c w v x w' ys zs) :
    OwnFirst w w' ↔ w.inPipe.queue = [] ∧ ys[0]?.map InByte.origin = some (.reply w.sent 0) := by
  unfold OwnFirst
  refine and_congr_right ?_
  intro hq
  have hlen := h.length
  rw [hq, List.nil_append] at hlen
  rw [h.arrived, List.getElem?_append_right le_rfl, Nat.sub_self, List.getElem?_append_left (by omega)]

/-- A command that succeeds read the response to its own request exactly when the pipe was empty and that response came
first. -/
theorem matched_iff_ownFirst (h : Succeeded c w v x w' ys zs) (hw : Numbered w) : Matched w w' ↔ OwnFirst w w' := by
  have hlen := h.length
  have hbet := h.taken
  rw [h.ownFirst_iff]
  constructor
  · rintro ⟨resp, hresp, -, hown⟩
    rw [hbet] at hown
    have h0 : ((w.inPipe.queue ++ ys).take 32)[0]?.map InByte.origin = some (.reply w.sent 0) := by
      rw [hown, replyBytes, List.getElem?_mapIdx, List.getElem?_eq_getElem (by omega)]
      rfl
    rw [List.getElem?_take_of_lt (by omega)] at h0
    -- a byte that was already queued is of an earlier request
    have hq : w.inPipe.queue = [] := by
      rcases hqe : w.inPipe.queue with _ | ⟨b, rest⟩
      · rfl
      · rw [hqe, List.cons_append, List.getElem?_cons_zero, Option.map_some, Option.some_inj] at h0
        have := hw.queue b (by rw [hqe]; exact List.mem_cons_self) _ _ h0
        omega
    rw [hq, List.nil_append] at h0
    exact ⟨hq, h0⟩
  · rintro ⟨hq, hown⟩
    rw [hq, List.nil_append] at hlen hbet
    rcases h.grown.begins with rfl | ⟨n, resp, rest, hresp, hmem, rfl⟩ | ⟨b, rest, k, hb, rfl⟩
    · simp at hlen
    · -- the response that came first is the own one, and it is all that was taken out
      have hn : n = w.sent := by
        rw [List.getElem?_append_left (by simp; omega), replyBytes, List.getElem?_mapIdx,
          List.getElem?_eq_getElem (by omega)] at hown
        simpa using hown
      subst hn
      refine ⟨resp, hresp, h.replied hmem, ?_⟩
      rw [hbet, List.take_left' (by simpa using hresp)]
    · simp [hb] at hown

end Succeeded

end Succeed

/-! ### From where a command may read a wrong response -/

/-- Before the command `c`, nothing is queued and nothing can arrive but the response to its own request; or what is
queued cannot be the beginning of a response to it, so that it does not succeed. -/
def Safe (c : Command) (w : Link) : Prop :=
  (w.inPipe.queue = [] ∧ w.waiting = [] ∧ w.collecting = false) ∨
    w.inPipe.queue ≠ [] ∧ ∀ code, c.request.answer = some code → ¬ (w.inPipe.queue.take 8).map InByte.val <+: code

/-- The device owes the response to the request number `n` at most, and nothing else is queued. -/
structure Owes (n : ℕ) (w : Link) : Prop where
  waiting : ∀ m ∈ w.waiting, m = n
  idle : w.collecting = false
  queue : ∀ b ∈ w.inPipe.queue, ∃ i, b.origin = .reply n i

theorem Owes.move {n : ℕ} {w v : Link} (hw : Owes n w) (h : lateDevice.env.move w v) : Owes n v := by
  rcases h with ⟨m, hm, resp, -, rfl⟩ | ⟨hcol, -⟩
  · refine ⟨?_, hw.idle, ?_⟩
    · intro k hk
      exact hw.waiting k (List.mem_of_mem_erase hk)
    · intro b hb
      rcases List.mem_append.1 hb with hb | hb
      · exact hw.queue b hb
      · obtain rfl := hw.waiting m hm
        exact mem_replyBytes hb
  · rw [hw.idle] at hcol
    cases hcol

/-- A device that owes nothing and does not collect does nothing. -/
theorem moves_still {w v : Link} (hw : w.waiting = []) (hidle : w.collecting = false) (h : lateDevice.env.Moves w v) :
    v = w := by
  induction h with
  | refl => rfl
  | tail _ hm ih =>
    subst ih
    rcases hm with ⟨m, hm, -⟩ | ⟨hcol, -⟩
    · rw [hw] at hm
      cases hm
    · rw [hidle] at hcol
      cases hcol

/-- A list whose front agrees with `code`, filled up so that it starts with `code`. -/
theorem take_fill {α : Type} {l code : List α} (h : l.take code.length <+: code) (r : List α) :
    (l ++ (code.drop l.length ++ r)).take code.length = code := by
  obtain ⟨t, ht⟩ := h
  by_cases hl : code.length ≤ l.length
  · rw [List.take_append_of_le_length hl]
    have hlen := congrArg List.length ht
    rw [List.length_append, List.length_take_of_le hl] at hlen
    have htnil : t = [] := List.length_eq_zero_iff.1 (by omega)
    rwa [htnil, List.append_nil] at ht
  · rw [List.take_of_length_le (by omega)] at ht
    rw [← ht, List.drop_left, ← List.append_assoc, List.take_left]

section Safe

variable {addr : UsbAddr} {c : Command} {w v x w' : Link} {code : List UInt8}

theorem accept_frame (w : Link) (c : Command) : w.accept c.frame = w.receive c.request := by
  unfold Link.accept
  rw [Command.requestOf_frame]

/-- A command succeeds on 32 bytes that start with its code, wherever they come from. -/
theorem runs_success (hcode : c.request.answer = some code) (hm : lateDevice.env.Moves w v)
    (hm₂ : lateDevice.env.Moves (v.accept c.frame) x) (hq : 32 ≤ x.inPipe.queue.length)
    (h8 : (x.inPipe.queue.take 8).map InByte.val = code) :
    (c.prog addr).Runs lateDevice.env w c.success (x.take 32) := by
  have h := Device.Ran.heard (D := lateDevice) (s := 0) (t := 0) hcode hm trivial rfl hm₂ le_rfl hq
    (min_eq_left hq).symm (.refl (x.take 32))
  rw [if_pos rfl, if_pos h8] at h
  exact Command.runs_of_ran h

/-- A device that owed nothing owes the response to the request that it receives. -/
theorem owes_accept (hc : c.request ≠ .start) (hq : w.inPipe.queue = []) (hwait : w.waiting = [])
    (hidle : w.collecting = false) : Owes w.sent (w.accept c.frame) := by
  rw [accept_frame]
  refine ⟨?_, ?_, ?_⟩
  · intro m hm
    simpa [Link.receive, hc, hwait] using hm
  · cases hreq : c.request <;> first | exact absurd hreq hc | simp [Link.receive, hidle]
  · intro b hb
    rw [show (w.receive c.request).inPipe = w.inPipe from rfl, hq] at hb
    cases hb

/-- A command that succeeds from a safe state read the response to its own request. -/
theorem matched_of_safe (hw : Numbered w) (hc : c.request ≠ .start) (hsafe : Safe c w)
    (h : (c.prog addr).Runs lateDevice.env w c.success w') : Matched w w' := by
  obtain ⟨v, x, ys, zs, hs⟩ := succeeded_of_runs hc h
  rcases hsafe with ⟨hq, hwait, hidle⟩ | ⟨hq, hcode⟩
  · rw [hs.matched_iff_ownFirst hw, hs.ownFirst_iff]
    refine ⟨hq, ?_⟩
    have hlen := hs.length
    rw [hq, List.nil_append] at hlen
    obtain rfl := moves_still hwait hidle hs.before
    have hx : Owes v.sent x := hs.during.inv (fun _ _ hw hm => hw.move hm) (owes_accept hc hq hwait hidle)
    have hxq : x.inPipe.queue = ys := by rw [hs.grown.inPipe, Fifo.queue_put, hq, List.nil_append]
    rcases hs.grown.begins with rfl | ⟨n, resp, rest, hresp, -, rfl⟩ | ⟨b, rest, k, hb, rfl⟩
    · simp at hlen
    · -- what came first is of the only request that was not answered
      have h0 : (replyBytes n resp ++ rest)[0]? = some ⟨resp[0], .reply n 0⟩ := by
        rw [List.getElem?_append_left (by simp; omega), replyBytes, List.getElem?_mapIdx,
          List.getElem?_eq_getElem (by omega)]
        rfl
      obtain ⟨i, hi⟩ := hx.queue _ (by rw [hxq]; exact List.mem_of_getElem? h0)
      obtain rfl : n = v.sent := by
        simp only [Origin.reply.injEq] at hi
        exact hi.1
      rw [h0]
      rfl
    · obtain ⟨i, hi⟩ := hx.queue b (by rw [hxq]; exact List.mem_cons_self)
      rw [hb] at hi
      cases hi
  · exfalso
    refine hcode _ hs.code ?_
    rw [List.take_append]
    simp only [List.map_append]
    exact List.prefix_append _ _

/-- A run that succeeds without the own response coming first to an empty pipe reads a wrong response. -/
theorem not_matched_of_runs (hw : Numbered w) (hc : c.request ≠ .start)
    (h : (c.prog addr).Runs lateDevice.env w c.success w') (hn : ¬ OwnFirst w w') : ¬ Matched w w' := by
  obtain ⟨_, _, _, _, hs⟩ := succeeded_of_runs hc h
  rwa [hs.matched_iff_ownFirst hw]

/-- A wrong response that comes first to an empty pipe is read. -/
theorem exists_of_wrong (hw : Numbered w) (hc : c.request ≠ .start) (hcode : c.request.answer = some code)
    (hq : w.inPipe.queue = []) (hm : lateDevice.env.Moves w v) {bs : List InByte} (hv : v.inPipe = w.inPipe.put bs)
    (hbs : bs.length = 32) (h8 : (bs.take 8).map InByte.val = code)
    (h0 : bs[0]?.map InByte.origin ≠ some (.reply w.sent 0)) :
    ∃ w', (c.prog addr).Runs lateDevice.env w c.success w' ∧ ¬ Matched w w' := by
  have hp : (v.accept c.frame).inPipe = w.inPipe.put bs := by
    rw [accept_frame]
    exact hv
  have hqueue : (v.accept c.frame).inPipe.queue = bs := by rw [hp, Fifo.queue_put, hq, List.nil_append]
  have hrun : (c.prog addr).Runs lateDevice.env w c.success ((v.accept c.frame).take 32) :=
    runs_success hcode hm (.refl _) (by rw [hqueue, hbs]) (by rw [hqueue, h8])
  refine ⟨_, hrun, not_matched_of_runs hw hc hrun ?_⟩
  rintro ⟨-, hown⟩
  have harr : ((v.accept c.frame).take 32).inPipe.arrived = w.inPipe.arrived ++ bs := by
    rw [show ((v.accept c.frame).take 32).inPipe = (v.accept c.frame).inPipe.take 32 from rfl, hp, Fifo.arrived_take,
      Fifo.arrived_put]
  rw [harr, List.getElem?_append_right le_rfl, Nat.sub_self] at hown
  exact h0 hown

/-- What is queued and can be the beginning of a response is completed by the own response. -/
theorem exists_of_queued (hw : Numbered w) (hc : c.request ≠ .start) (hcode : c.request.answer = some code)
    (hq : w.inPipe.queue ≠ []) (hpre : (w.inPipe.queue.take 8).map InByte.val <+: code) :
    ∃ w', (c.prog addr).Runs lateDevice.env w c.success w' ∧ ¬ Matched w w' := by
  have h8 := Request.answer_length hcode
  rw [List.map_take, ← h8] at hpre
  have hfill := take_fill hpre (List.replicate (24 + min 8 w.inPipe.queue.length) (0 : UInt8))
  have hlen : (code.drop (w.inPipe.queue.map InByte.val).length ++
      List.replicate (24 + min 8 w.inPipe.queue.length) (0 : UInt8)).length = 32 := by
    rw [List.length_append, List.length_drop, List.length_map, List.length_replicate, h8]
    omega
  generalize code.drop (w.inPipe.queue.map InByte.val).length ++
    List.replicate (24 + min 8 w.inPipe.queue.length) (0 : UInt8) = resp at hfill hlen
  have hown : w.sent ∈ (w.accept c.frame).waiting := by
    rw [accept_frame]
    simp [Link.receive, hc]
  have hp : ((w.accept c.frame).reply w.sent resp).inPipe = w.inPipe.put (replyBytes w.sent resp) := by
    rw [accept_frame]
    rfl
  have hrun : (c.prog addr).Runs lateDevice.env w c.success (((w.accept c.frame).reply w.sent resp).take 32) := by
    refine runs_success hcode (.refl w) (.single (.inl ⟨w.sent, hown, resp, hlen, rfl⟩)) ?_ ?_
    · rw [hp, Fifo.queue_put, List.length_append, replyBytes_length]
      omega
    · rwa [hp, Fifo.queue_put, List.map_take, List.map_append, map_val_replyBytes, ← h8]
  refine ⟨_, hrun, not_matched_of_runs hw hc hrun ?_⟩
  intro ho
  exact hq ho.1

/-- From a state that is not safe a command may succeed on bytes that are not the response to its own request. -/
theorem exists_not_matched (hw : Numbered w) (hc : c.request ≠ .start) (hsafe : ¬ Safe c w) :
    ∃ w', (c.prog addr).Runs lateDevice.env w c.success w' ∧ ¬ Matched w w' := by
  unfold Safe at hsafe
  push Not at hsafe
  obtain ⟨hempty, hqueue⟩ := hsafe
  obtain ⟨code, hcode⟩ : ∃ code, c.request.answer = some code := by
    cases hreq : c.request <;> first | exact absurd hreq hc | exact ⟨_, rfl⟩
  have h8 := Request.answer_length hcode
  have hresp : (code ++ List.replicate 24 0).length = 32 := by simp [h8]
  by_cases hq : w.inPipe.queue = []
  · by_cases hwait : w.waiting = []
    · -- samples that look like a response come first
      have hcol : w.collecting = true := by simpa using hempty hq hwait
      refine exists_of_wrong hw hc hcode hq (.single (.inr ⟨hcol, code ++ List.replicate 24 0, rfl⟩)) rfl ?_ ?_ ?_
      · rw [sampleBytes_length, hresp]
      · rw [List.map_take, map_val_sampleBytes, List.take_left' h8]
      · rw [sampleBytes, List.getElem?_mapIdx, List.getElem?_eq_getElem (by omega)]
        simp
    · -- the response to an earlier request comes first
      obtain ⟨n, hn⟩ := List.exists_mem_of_ne_nil _ hwait
      have hlt := hw.waiting n hn
      refine exists_of_wrong hw hc hcode hq (.single (.inl ⟨n, hn, code ++ List.replicate 24 0, hresp, rfl⟩)) rfl ?_ ?_ ?_
      · rw [replyBytes_length, hresp]
      · rw [List.map_take, map_val_replyBytes, List.take_left' h8]
      · rw [replyBytes, List.getElem?_mapIdx, List.getElem?_eq_getElem (by omega)]
        simp [hlt.ne]
  · obtain ⟨code', hcode', hpre⟩ := hqueue hq
    obtain rfl := Option.some_inj.1 (hcode.symm.trans hcode')
    exact exists_of_queued hw hc hcode hq hpre

end Safe

/-- **Whose response was read.**  In every run of commands from a device that was just switched on, however late it
answers: a command that succeeds took out of the IN pipe the response to the request that it wrote itself if and only if
the pipe was empty as it began and the first byte to arrive from then on was of that response; and it takes no other out,
however the call is interleaved with the device, if and only if the state that it began in is safe. -/
theorem matched_iff {addr : UsbAddr} {l : List (Done Command Int32 Link)} {w : Link}
    (h : Trace lateDevice.env (Command.prog addr) .init l w) :
    ∀ d ∈ l, d.cmd.request ≠ .start →
      (d.val = d.cmd.success → (Matched d.before d.after ↔ OwnFirst d.before d.after)) ∧
      ((∀ w', (d.cmd.prog addr).Runs lateDevice.env d.before d.cmd.success w' → Matched d.before w') ↔
        Safe d.cmd d.before) := by
  intro d hd hc
  have hmove : ∀ w v, Numbered w → lateDevice.env.move w v → Numbered v := fun _ _ hw h => hw.move h
  have hprog : ∀ c w a v, Numbered w → (Command.prog addr c).Runs lateDevice.env w a v → Numbered v :=
    fun _ _ _ _ hw h => h.inv (fun _ _ _ _ hw h => hw.ans h) hmove hw
  obtain ⟨hb, hr, -⟩ := (h.inv hmove hprog .init).1 d hd
  constructor
  · intro hv
    rw [hv] at hr
    obtain ⟨_, _, _, _, hs⟩ := succeeded_of_runs hc hr
    exact hs.matched_iff_ownFirst hb
  · constructor
    · intro hall
      by_contra hn
      obtain ⟨w', hr', hm⟩ := exists_not_matched hb hc hn
      exact hm (hall w' hr')
    · intro hsafe w' hr'
      exact matched_of_safe hb hc hsafe hr'

/-! ### A connect that is tried again -/

/-- After a connect whose response came after its read had timed out. -/
def lateReply : Link :=
  ((Link.init.accept (codeFrame codeConnectRequrst)).take 0).reply 0 (codeFrame codeConnectResponse)

/-- The connect that timed out, and the one after it. -/
def retry : List (Done Command Int32 Link) :=
  [⟨.connect, .init, usbConnectFail, (Link.init.accept (codeFrame codeConnectRequrst)).take 0⟩,
    ⟨.connect, lateReply, usbConnectSuccess, (lateReply.accept (codeFrame codeConnectRequrst)).take 32⟩]

theorem retry_trace :
    Trace lateDevice.env (Command.prog ⟨1⟩) .init retry ((lateReply.accept (codeFrame codeConnectRequrst)).take 32) := by
  have h₁ := Device.Ran.heard (D := lateDevice) (c := .connect) (w := .init) (s := 0) (t := 19) (k := 0) rfl
    (.refl _) trivial rfl (.refl _) (Nat.zero_le _) (Nat.zero_le _) (by rfl) (.refl _)
  have h₂ := Device.Ran.heard (D := lateDevice) (c := .connect) (w := lateReply) (s := 0) (t := 0) (k := 32) rfl
    (.refl _) trivial rfl (.refl _) le_rfl (by decide) (by rfl) (.refl _)
  refine .cons (.refl _) (Command.runs_of_ran h₁) (.cons (.single ?_) (Command.runs_of_ran h₂) (.nil (.refl _)))
  exact .inl ⟨0, by decide, codeFrame codeConnectResponse, rfl, rfl⟩

/-- The second connect reads the response to the first. -/
theorem matched_iff_retry :
    ¬ Matched lateReply ((lateReply.accept (codeFrame codeConnectRequrst)).take 32) := by
  rw [(matched_iff retry_trace _ (List.mem_cons_of_mem _ List.mem_cons_self) (by decide)).1 rfl]
  intro h
  exact absurd h.1 (by decide)

/-- A command may succeed with the response to an earlier one. -/
theorem not_matched_of_success :
    ¬ ∀ (addr : UsbAddr) (l : List (Done Command Int32 Link)) (w : Link),
      Trace lateDevice.env (Command.prog addr) .init l w →
      ∀ d ∈ l, d.cmd.request ≠ .start → d.val = d.cmd.success → Matched d.before d.after := by
  intro h
  obtain ⟨resp, hresp, -, hb⟩ := h _ _ _ retry_trace _ (List.mem_cons_of_mem _ List.mem_cons_self) (by decide) rfl
  -- what was taken out is of the request number 0, the own one is number 1
  have h0 : (lateReply.inPipe.between ((lateReply.accept (codeFrame codeConnectRequrst)).take 32).inPipe)[0]?.map
      InByte.origin = some (.reply 0 0) := by decide
  rw [hb, replyBytes, List.getElem?_mapIdx, List.getElem?_eq_getElem (by omega)] at h0
  simp only [Option.map_some, Option.some_inj, Origin.reply.injEq] at h0
  exact absurd h0.1 (by decide)

end EdUsb
