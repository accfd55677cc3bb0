import EdUsb.Ed

/-!
# The exchange behind the commands

`usb_dev_connect`, `usb_send_config_to_device` and `usb_stop_collect` are one exchange (`exchange`): write a request of
32 bytes, read 32 bytes, compare the first 8 with a code.  They differ in the request, in the codes and return values,
and `usb_stop_collect` alone looks at `errno` when the read was short, which changes nothing
(`usbDevConnect_eq`, `usbSendConfigToDevice_eq`, `usbStopCollect_eq`).

What an exchange does in a run is said once (`Quiet.exchanged`), for every environment that answers the transfers with the
count it transferred and is not disturbed by the other calls (`Quiet`).
-/

namespace EdUsb

open EdUsb.Lib Ed

/-! ### Counts -/

theorem toUInt64_eq_32 (n : UInt32) : n.toUInt64 = 32 ↔ n = 32 := by
  constructor
  · intro h
    have := congrArg UInt64.toUInt32 h
    simpa using this
  · rintro rfl
    rfl

theorem sizeToInt_toUInt64 (n : UInt32) : sizeToInt n.toUInt64 = n.toInt32 := by simp [sizeToInt]

theorem sizeToInt_eq_32 (n : UInt32) : sizeToInt n.toUInt64 = 32 ↔ n = 32 := by
  rw [sizeToInt_toUInt64]
  constructor
  · intro h
    exact congrArg Int32.toUInt32 h
  · rintro rfl
    rfl

/-! ### Requests -/

/-- The 32 bytes of a command that is only a code. -/
def codeFrame (code : List UInt8) : List UInt8 := code ++ List.replicate 24 0

theorem packUint8Arr_bytes (m : Mem) (pos : ℕ) (src : List UInt8) :
    (packUint8Arr m pos src src.length).bytes pos src.length = src := m.bytes_write pos src

/-- A buffer set to zero and then given a code of 8 bytes. -/
theorem bytes_codeFrame (m : Mem) {code : List UInt8} (h : code.length = 8) :
    (packUint8Arr (memset m 0 32) 0 code 8).bytes 0 32 = codeFrame code := by
  have h1 := packUint8Arr_bytes (memset m 0 32) 0 code
  have h2 : (packUint8Arr (memset m 0 32) 0 code 8).bytes 8 24 = List.replicate 24 0 := by
    rw [packUint8Arr, Mem.bytes_fill_disjoint _ _ (by omega), memset,
      Mem.bytes_fill_const _ _ (by omega) (by omega)]
  rw [h] at h1
  rw [show 32 = 8 + 24 from rfl, Mem.bytes_add, h1, codeFrame, h2]

/-! ### The exchange -/

/-- Write a request, read a response, compare it with a code; `short` is what is done when the read was short. -/
def exchange (addr : UsbAddr) (buf : Mem) (code : List UInt8) (success fail verifyErr : Int32) (short : Ed Unit) :
    Ed Int32 := do
  if (← write addr buf 32 defaultTimeout) ≠ 32 then return fail
  let resp ← undef .buf
  let (n, resp) ← read addr resp 32 defaultTimeout
  if n ≠ 32 then
    short
    return fail
  verify resp code success verifyErr

theorem usbDevConnect_eq (addr : UsbAddr) :
    usbDevConnect addr = undef .buf >>= fun m =>
      exchange addr (packUint8Arr (memset m 0 32) 0 codeConnectRequrst 8) codeConnectResponse usbConnectSuccess
        usbConnectFail usbConnectVerifyErr (.ret ()) := by
  simp only [usbDevConnect, exchange, read, write, requestBuf, undef, ft, Prog.call_bind, Prog.ret_bind, Prog.pure_eq,
    ne_eq, sizeToInt_eq_32, toUInt64_eq_32]

theorem usbSendConfigToDevice_eq (c : UsbConfig) (addr : UsbAddr) :
    usbSendConfigToDevice c addr = undef .buf >>= fun m =>
      exchange addr (packConfig c (memset m 0 32)) codeSendConfigResponse usbSendConfigSuccess usbSendConfigFail
        usbSendConfigVerifyErr (.ret ()) := by
  simp only [usbSendConfigToDevice, exchange, undef, Prog.call_bind, Prog.ret_bind, Prog.pure_eq]

theorem usbStopCollect_eq (addr : UsbAddr) :
    usbStopCollect addr = undef .buf >>= fun m =>
      exchange addr (packUint8Arr (memset m 0 32) 0 codeStopCollectRequest 8) codeStopCollectResponse
        usbStopCollectSuccess usbStopCollectFail usbStopCollectVerifyFail (errno >>= fun _ => .ret ()) := by
  -- a short read fails whatever `errno` is
  have key : ∀ (n : UInt32) (v : Ed Int32),
      (if ¬ n = 32 then
        Prog.call Op.errno fun e =>
          if e = eagain then .ret usbStopCollectFail else if ¬ n = 32 then .ret usbStopCollectFail else v
      else if ¬ n = 32 then .ret usbStopCollectFail else v) =
      if ¬ n = 32 then Prog.call Op.errno fun _ => .ret usbStopCollectFail else v := by
    intro n v
    by_cases h : n = 32 <;> simp [h]
  simp only [usbStopCollect, exchange, read, write, requestBuf, undef, ft, Prog.call_bind, Prog.ret_bind, Prog.pure_eq,
    ne_eq, sizeToInt_eq_32, toUInt64_eq_32, errno, key]

/-! ### What an exchange does in a run -/

/-- The call that writes a request of 32 bytes. -/
abbrev writeCall (addr : UsbAddr) (frame : List UInt8) : FtCall := .writePipe addr.handle 2 frame 32 0

/-- The call that reads `n` bytes. -/
abbrev readCall (addr : UsbAddr) (n : UInt32) : FtCall := .readPipe addr.handle 2 n 0

section Runs

variable {W α : Type} {E : Env Op Op.Ans W}

/-- An environment whose state only the transfers change, and that stores for every transfer the count transferred. -/
structure Quiet (E : Env Op Op.Ans W) : Prop where
  setPipeTimeout : ∀ {w h p t r w'}, E.ans w (.ft (.setPipeTimeout h p t)) r w' → w' = w
  errno : ∀ {w r w'}, E.ans w .errno r w' → w' = w
  undef : ∀ {w l r w'}, E.ans w (.undef l) r w' → w' = w
  written : ∀ {w h p b n t w'} {r : Written}, E.ans w (.ft (.writePipe h p b n t)) r w' → ∃ k, r.count = some k
  got : ∀ {w h p n t w'} {r : Got}, E.ans w (.ft (.readPipe h p n t)) r w' →
    r.data.length ≤ n.toNat ∧ r.count = some (UInt32.ofNat r.data.length)

/-- What an exchange did in a run from `w` to `w'` that returned `a`. -/
inductive Exchanged (E : Env Op Op.Ans W) (addr : UsbAddr) (frame code : List UInt8) (success fail verifyErr : Int32) :
    W → Int32 → W → Prop
  | unwritten {w v u w' : W} {r : Written} {k : UInt32} : E.Moves w v → E.ans v (.ft (writeCall addr frame)) r u →
      r.count = some k → k ≠ 32 → E.Moves u w' → Exchanged E addr frame code success fail verifyErr w fail w'
  | short {w v u x y w' : W} {r : Written} {g : Got} : E.Moves w v → E.ans v (.ft (writeCall addr frame)) r u →
      r.count = some 32 → E.Moves u x → E.ans x (.ft (readCall addr 32)) g y → g.data.length ≠ 32 → E.Moves y w' →
      Exchanged E addr frame code success fail verifyErr w fail w'
  | full {w v u x y w' : W} {r : Written} {g : Got} : E.Moves w v → E.ans v (.ft (writeCall addr frame)) r u →
      r.count = some 32 → E.Moves u x → E.ans x (.ft (readCall addr 32)) g y → g.data.length = 32 → E.Moves y w' →
      Exchanged E addr frame code success fail verifyErr w
        (if g.data.take 8 = code then success else verifyErr) w'

namespace Quiet

variable (hE : Quiet E) {w w' : W} {a : α}
include hE

theorem undef_bind {l : Local} {f : l.Val → Ed α} (h : (Ed.undef l >>= f).Runs E w a w') :
    ∃ g, (f g).Runs E w a w' := by
  obtain ⟨v, g, u, hm, ha, hr⟩ := h
  obtain rfl := hE.undef ha
  exact ⟨g, hr.move_left hm⟩

theorem write_bind {addr : UsbAddr} {buf : Mem} {size : UInt64} {timeout : UInt32} {f : UInt64 → Ed α}
    (h : (write addr buf size timeout >>= f).Runs E w a w') :
    ∃ v r u k, E.Moves w v ∧
      E.ans v (.ft (.writePipe addr.handle 2 (buf.bytes 0 size.toNat) size.toUInt32 0)) r u ∧
      Written.count r = some k ∧ (f k.toUInt64).Runs E u a w' := by
  obtain ⟨v₁, r₁, u₁, hm₁, ha₁, v₂, r₂, u₂, hm₂, ha₂, v₃, r₃, u₃, hm₃, ha₃, hr⟩ := h
  obtain rfl := hE.setPipeTimeout ha₁
  obtain rfl := hE.undef ha₂
  obtain ⟨k, hk⟩ := hE.written ha₃
  have hr : (f (r₃.count.getD r₂).toUInt64).Runs E u₃ a w' := hr
  rw [hk] at hr
  exact ⟨v₃, r₃, u₃, k, (hm₁.trans hm₂).trans hm₃, ha₃, hk, hr⟩

theorem read_bind {addr : UsbAddr} {buf : Mem} {size : UInt64} {timeout : UInt32} {f : UInt64 × Mem → Ed α}
    (h : (read addr buf size timeout >>= f).Runs E w a w') :
    ∃ v g u, E.Moves w v ∧ E.ans v (.ft (readCall addr size.toUInt32)) g u ∧
      (f ((UInt32.ofNat (Got.data g).length).toUInt64, buf.write 0 g.data)).Runs E u a w' := by
  obtain ⟨v₁, r₁, u₁, hm₁, ha₁, v₂, r₂, u₂, hm₂, ha₂, v₃, g, u₃, hm₃, ha₃, hr⟩ := h
  obtain rfl := hE.setPipeTimeout ha₁
  obtain rfl := hE.undef ha₂
  obtain ⟨-, hk⟩ := hE.got ha₃
  have hr : (f ((g.count.getD r₂).toUInt64, buf.write 0 g.data)).Runs E u₃ a w' := hr
  rw [hk] at hr
  exact ⟨v₃, g, u₃, (hm₁.trans hm₂).trans hm₃, ha₃, hr⟩

theorem verify_runs {resp : Mem} {code : List UInt8} {success verifyErr b : Int32} (hc : code.length = 8)
    (h : (verify resp code success verifyErr).Runs E w b w') :
    b = (if resp.bytes 0 8 = code then success else verifyErr) ∧ E.Moves w w' := by
  obtain ⟨g, hr⟩ := hE.undef_bind h
  have hb : (packUint8Arr g 0 code 8).bytes 0 8 = code := by
    have := packUint8Arr_bytes g 0 code
    rwa [hc] at this
  by_cases he : resp.bytes 0 8 = code
  · simp only [memcmpNe, hb, he, ne_eq, not_true_eq_false, decide_false, Bool.false_eq_true, if_false,
      Prog.pure_eq, Prog.runs_ret] at hr
    rw [if_pos he]
    exact ⟨hr.1.symm, hr.2⟩
  · simp only [memcmpNe, hb, he, ne_eq, not_false_eq_true, decide_true, if_true, Prog.pure_eq, Prog.runs_ret] at hr
    rw [if_neg he]
    exact ⟨hr.1.symm, hr.2⟩

/-- **Every run of an exchange** is one of three: the request was not written in full, the response was short, or 32
bytes came back and the first 8 decided. -/
theorem exchanged {addr : UsbAddr} {buf : Mem} {code : List UInt8} {success fail verifyErr b : Int32} {short : Ed Unit}
    (hc : code.length = 8) (hs : short = .ret () ∨ short = Ed.errno >>= fun _ => .ret ())
    (h : (exchange addr buf code success fail verifyErr short).Runs E w b w') :
    Exchanged E addr (buf.bytes 0 32) code success fail verifyErr w b w' := by
  obtain ⟨v, r, u, k, hm, ha, hk, hr⟩ := hE.write_bind h
  by_cases hk32 : k = 32
  · subst hk32
    simp only [ne_eq, not_true_eq_false, if_false, toUInt64_eq_32] at hr
    obtain ⟨d, hr⟩ := hE.undef_bind hr
    obtain ⟨x, g, y, hm₂, ha₂, hr⟩ := hE.read_bind hr
    obtain ⟨hle, -⟩ := hE.got ha₂
    have hlen : UInt32.ofNat g.data.length = 32 ↔ g.data.length = 32 := by
      rw [← UInt32.toNat_inj, UInt32.toNat_ofNat', Nat.mod_eq_of_lt (lt_of_le_of_lt hle (UInt32.toNat_lt _))]
      rfl
    by_cases hg : g.data.length = 32
    · have hr' := hlen.2 hg
      simp only [hr', toUInt64_eq_32, not_true_eq_false, if_false] at hr
      obtain ⟨rfl, hm₃⟩ := hE.verify_runs hc hr
      rw [Mem.bytes_write_take _ _ (by omega)]
      exact .full hm ha hk hm₂ ha₂ hg hm₃
    · have hr' : ¬ UInt32.ofNat g.data.length = 32 := fun h => hg (hlen.1 h)
      simp only [hr', toUInt64_eq_32, not_false_eq_true, if_true] at hr
      rcases hs with rfl | rfl
      · obtain ⟨rfl, hm₃⟩ := hr
        exact .short hm ha hk hm₂ ha₂ hg hm₃
      · obtain ⟨v₄, e, u₄, hm₄, ha₄, hr⟩ := hr
        obtain rfl := hE.errno ha₄
        obtain ⟨rfl, hm₃⟩ := hr
        exact .short hm ha hk hm₂ ha₂ hg (hm₄.trans hm₃)
  · simp only [ne_eq, toUInt64_eq_32, hk32, not_false_eq_true, if_true] at hr
    obtain ⟨rfl, hm₂⟩ := hr
    exact .unwritten hm ha hk hk32 hm₂

end Quiet

end Runs

end EdUsb
