import EdUsb.Exchange

/-!
# The return codes of the commands

An `Outcome` is everything the driver and the uninitialised locals can feed to one command: the status and the count of
its write, the status, the count and the bytes of its read, and any answer to each other call.  A command returns what
the counts and the bytes say (`exec_exchange`); the two statuses do not enter.  So its codes mean what they should
exactly when no failed transfer reports a full count (`StatusAgrees`).
-/

namespace EdUsb

open EdUsb.Lib Ed

structure Outcome where
  writeStatus : FtStatus
  writeCount : UInt32
  readStatus : FtStatus
  readCount : UInt32
  /-- The bytes that a read finds. -/
  data : ℕ → UInt8
  /-- What the `n`-th call answers, if it is not a transfer. -/
  other : ℕ → (o : Op) → o.Ans

namespace Outcome

/-- The first `n` bytes that a read finds. -/
def bytes (d : Outcome) (n : ℕ) : List UInt8 := (List.range n).map d.data

/-- The driver with this outcome.  Its state is the list of the calls made. -/
def driver (d : Outcome) (calls : List Op) : (o : Op) → o.Ans × List Op
  | .ft (.writePipe h p b n t) => (⟨d.writeStatus, some d.writeCount⟩, calls ++ [.ft (.writePipe h p b n t)])
  | .ft (.readPipe h p n t) => (⟨d.readStatus, some d.readCount, d.bytes n.toNat⟩, calls ++ [.ft (.readPipe h p n t)])
  | o => (d.other calls.length o, calls ++ [o])

/-- What a command does in this outcome: the value it returns and the calls it makes. -/
def run {α : Type} (d : Outcome) (p : Ed α) : Option α × List Op := p.exec d.driver []

/-- The write of 32 bytes succeeded. -/
def Wrote (d : Outcome) : Prop := d.writeStatus = ftOk ∧ d.writeCount = 32

/-- The read of `n` bytes succeeded. -/
def Read (d : Outcome) (n : UInt32) : Prop := d.readStatus = ftOk ∧ d.readCount = n

/-- No failed transfer reports a full count. -/
structure StatusAgrees (d : Outcome) : Prop where
  write : d.writeCount = 32 → d.writeStatus = ftOk
  read : d.writeCount = 32 → d.readCount = 32 → d.readStatus = ftOk

end Outcome

/-- The call is one of `FT_ReadPipe`. -/
def Op.isRead : Op → Bool
  | .ft (.readPipe ..) => true
  | _ => false

/-- The buffer of a call of `FT_WritePipe`. -/
def Op.writeBuf : Op → Option (List UInt8)
  | .ft (.writePipe _ _ b _ _) => some b
  | _ => none

/-- The frames that a command writes. -/
def Outcome.frames {α : Type} (d : Outcome) (p : Ed α) : List (List UInt8) := (d.run p).2.filterMap Op.writeBuf

/-- **What a command with a response should do** in the outcome `d`. -/
structure CodeLaw (d : Outcome) (p : Ed Int32) (code : List UInt8) (success fail verifyErr : Int32) : Prop where
  success : (d.run p).1 = some success ↔ d.Wrote ∧ d.Read 32 ∧ d.bytes 8 = code
  verify : (d.run p).1 = some verifyErr ↔ d.Wrote ∧ d.Read 32 ∧ d.bytes 8 ≠ code
  fail : (d.run p).1 = some fail ↔ ¬ (d.Wrote ∧ d.Read 32)
  noRead : ¬ d.Wrote → (d.run p).2.any Op.isRead = false

section Exchange

variable (d : Outcome) (addr : UsbAddr) (buf : Mem) (code : List UInt8) (success fail verifyErr : Int32)

theorem Outcome.exec_verify (resp : Mem) (hc : code.length = 8) (calls : List Op) :
    ((verify resp code success verifyErr).exec d.driver calls) =
      (some (if resp.bytes 0 8 = code then success else verifyErr), calls ++ [.undef .buf]) := by
  have hb : ∀ g : Mem, (packUint8Arr g 0 code 8).bytes 0 8 = code := by
    intro g
    have := packUint8Arr_bytes g 0 code
    rwa [hc] at this
  by_cases h : resp.bytes 0 8 = code <;> simp [verify, undef, Outcome.driver, memcmpNe, hb, h]

theorem Outcome.bytes_write (g : Mem) : (g.write 0 (d.bytes 32)).bytes 0 8 = d.bytes 8 := by
  rw [Mem.bytes_write_take _ _ (by simp [Outcome.bytes])]
  simp [Outcome.bytes, ← List.map_take, List.take_range]

/-- The value and the reads of an exchange: the counts and the bytes decide. -/
theorem exec_exchange {short : Ed Unit} (hs : short = .ret () ∨ short = errno >>= fun _ => .ret ())
    (hc : code.length = 8) {calls : List Op} (hcalls : calls.any Op.isRead = false) :
    ((exchange addr buf code success fail verifyErr short).exec d.driver calls).1 =
      some (if d.writeCount = 32 ∧ d.readCount = 32 then if d.bytes 8 = code then success else verifyErr else fail) ∧
    (((exchange addr buf code success fail verifyErr short).exec d.driver calls).2.any Op.isRead = false ↔
      d.writeCount ≠ 32) := by
  by_cases hw : d.writeCount = 32
  · by_cases hr : d.readCount = 32
    · simp [exchange, read, write, ft, undef, Outcome.driver, toUInt64_eq_32, hw, hr, Outcome.exec_verify, hc,
        Outcome.bytes_write, Op.isRead, -List.any_eq_false]
    · rcases hs with rfl | rfl <;>
        simp [exchange, read, write, ft, undef, errno, Outcome.driver, toUInt64_eq_32, hw, hr, Op.isRead,
          -List.any_eq_false]
  · simp [exchange, write, ft, undef, Outcome.driver, toUInt64_eq_32, hw, Op.isRead, hcalls, -List.any_eq_false]

/-- An exchange writes its request and nothing else. -/
theorem exec_exchange_frames {short : Ed Unit} (hs : short = .ret () ∨ short = errno >>= fun _ => .ret ())
    (hc : code.length = 8) (calls : List Op) :
    ((exchange addr buf code success fail verifyErr short).exec d.driver calls).2.filterMap Op.writeBuf =
      calls.filterMap Op.writeBuf ++ [buf.bytes 0 32] := by
  by_cases hw : d.writeCount = 32
  · by_cases hr : d.readCount = 32
    · simp [exchange, read, write, ft, undef, Outcome.driver, toUInt64_eq_32, hw, hr, Outcome.exec_verify, hc,
        Op.writeBuf, List.filterMap_cons]
    · rcases hs with rfl | rfl <;>
        simp [exchange, read, write, ft, undef, errno, Outcome.driver, toUInt64_eq_32, hw, hr, Op.writeBuf,
          List.filterMap_cons]
  · simp [exchange, write, ft, undef, Outcome.driver, toUInt64_eq_32, hw, Op.writeBuf, List.filterMap_cons]

end Exchange

section Law

variable {d : Outcome} {p : Ed Int32} {code : List UInt8} {success fail verifyErr : Int32}
  (hv : (d.run p).1 =
    some (if d.writeCount = 32 ∧ d.readCount = 32 then if d.bytes 8 = code then success else verifyErr else fail))
  (hr : (d.run p).2.any Op.isRead = false ↔ d.writeCount ≠ 32) (hsf : success ≠ fail) (hvf : verifyErr ≠ fail)
include hv hr hsf hvf

theorem statusAgrees_of_codeLaw (h : CodeLaw d p code success fail verifyErr) : d.StatusAgrees := by
  constructor
  · intro hw
    by_contra hn
    have hnone : ¬ d.Wrote := fun h => hn h.1
    exact hr.1 (h.noRead hnone) hw
  · intro hw hrd
    by_contra hn
    have hnone : ¬ (d.Wrote ∧ d.Read 32) := fun h => hn h.2.1
    have hfail := h.fail.2 hnone
    rw [hv, if_pos ⟨hw, hrd⟩, Option.some_inj] at hfail
    split at hfail
    · exact hsf hfail
    · exact hvf hfail

theorem codeLaw_of_statusAgrees (hsv : success ≠ verifyErr) (h : d.StatusAgrees) :
    CodeLaw d p code success fail verifyErr := by
  obtain ⟨hw, hrd⟩ := h
  have hok : d.Wrote ∧ d.Read 32 ↔ d.writeCount = 32 ∧ d.readCount = 32 :=
    ⟨fun h => ⟨h.1.2, h.2.2⟩, fun h => ⟨⟨hw h.1, h.1⟩, hrd h.1 h.2, h.2⟩⟩
  refine ⟨?_, ?_, ?_, ?_⟩
  · rw [hv, ← and_assoc, hok]
    by_cases h1 : d.writeCount = 32 ∧ d.readCount = 32
    · by_cases h2 : d.bytes 8 = code <;> simp [h1, h2, hsv.symm]
    · simp [h1, hsf.symm]
  · rw [hv, ← and_assoc, hok]
    by_cases h1 : d.writeCount = 32 ∧ d.readCount = 32
    · by_cases h2 : d.bytes 8 = code <;> simp [h1, h2, hsv]
    · simp [h1, hvf.symm]
  · rw [hv, hok]
    by_cases h1 : d.writeCount = 32 ∧ d.readCount = 32
    · by_cases h2 : d.bytes 8 = code <;> simp [h1, h2, hsf, hvf]
    · simp [h1]
  · intro hn
    apply hr.2
    intro hc
    exact hn ⟨hw hc, hc⟩

end Law

/-- The codes of a command with a response mean what they should exactly when no failed transfer reports a full
count. -/
theorem codeLaw_iff (d : Outcome) {addr : UsbAddr} {p : Ed Int32} {request : Mem → Mem} {code : List UInt8}
    {success fail verifyErr : Int32} {short : Ed Unit}
    (hp : p = undef .buf >>= fun m => exchange addr (request m) code success fail verifyErr short)
    (hs : short = .ret () ∨ short = errno >>= fun _ => .ret ()) (hc : code.length = 8)
    (hsf : success ≠ fail) (hsv : success ≠ verifyErr) (hvf : verifyErr ≠ fail) :
    CodeLaw d p code success fail verifyErr ↔ d.StatusAgrees := by
  have he : d.run p = (exchange addr (request (d.other 0 (.undef .buf))) code success fail verifyErr short).exec d.driver
      [.undef .buf] := by
    rw [hp]
    rfl
  have hcalls : [Op.undef .buf].any Op.isRead = false := rfl
  obtain ⟨hv, hr⟩ := exec_exchange d addr (request (d.other 0 (.undef .buf))) code success fail verifyErr hs hc hcalls
  rw [← he] at hv hr
  exact ⟨statusAgrees_of_codeLaw hv hr hsf hvf, codeLaw_of_statusAgrees hv hr hsf hvf hsv⟩

/-! ### The commands -/

section Commands

variable (d : Outcome) (addr : UsbAddr)

theorem codeLaw_usbDevConnect :
    CodeLaw d (usbDevConnect addr) codeConnectResponse usbConnectSuccess usbConnectFail usbConnectVerifyErr ↔
      d.StatusAgrees :=
  codeLaw_iff d (usbDevConnect_eq addr) (.inl rfl) rfl (by decide) (by decide) (by decide)

theorem codeLaw_usbSendConfigToDevice (c : UsbConfig) :
    CodeLaw d (usbSendConfigToDevice c addr) codeSendConfigResponse usbSendConfigSuccess usbSendConfigFail
      usbSendConfigVerifyErr ↔ d.StatusAgrees :=
  codeLaw_iff d (usbSendConfigToDevice_eq c addr) (.inl rfl) rfl (by decide) (by decide) (by decide)

theorem codeLaw_usbStopCollect :
    CodeLaw d (usbStopCollect addr) codeStopCollectResponse usbStopCollectSuccess usbStopCollectFail
      usbStopCollectVerifyFail ↔ d.StatusAgrees :=
  codeLaw_iff d (usbStopCollect_eq addr) (.inr rfl) rfl (by decide) (by decide) (by decide)

/-- What `usb_start_collect` should return. -/
def StartLaw : Prop := (d.run (usbStartCollect addr)).1 = some usbStartCollectSuccess ↔ d.Wrote

theorem startLaw_iff : StartLaw d addr ↔ (d.writeCount = 32 → d.writeStatus = ftOk) := by
  have hv : (d.run (usbStartCollect addr)).1 =
      some (if d.writeCount = 32 then usbStartCollectSuccess else usbStartCollectFail) := by
    by_cases hw : d.writeCount = 32 <;>
      simp [Outcome.run, usbStartCollect, requestBuf, write, ft, undef, Outcome.driver, toUInt64_eq_32, hw]
  unfold StartLaw Outcome.Wrote
  rw [hv]
  by_cases hw : d.writeCount = 32
  · simp [hw]
  · simp [hw, usbStartCollectSuccess, usbStartCollectFail]

/-- What it should mean that `usb_start_recv_repeat_n` returns `len`, if that is not `0`. -/
def RecvLaw (c : UsbConfig) (repeatIndex : Int32) (data : Mem) (len : UInt64) (timeout : UInt32) : Prop :=
  0 < len.toNat → ∀ r ∈ (d.run (usbStartRecvRepeatN c addr repeatIndex data len timeout)).1,
    r.1.toInt = len.toNat → d.readStatus = ftOk ∧ d.readCount.toNat = len.toNat

theorem recvLaw_iff (c : UsbConfig) (repeatIndex : Int32) (data : Mem) (len : UInt64) (timeout : UInt32) :
    RecvLaw d addr c repeatIndex data len timeout ↔
      (repeatIndex < c.repeatCount.toUInt32.toInt32 → 0 < len.toNat → len.toNat < 2 ^ 31 →
        d.readCount.toNat = len.toNat → d.readStatus = ftOk) := by
  unfold RecvLaw
  by_cases hi : repeatIndex < c.repeatCount.toUInt32.toInt32
  · have hrun : (d.run (usbStartRecvRepeatN c addr repeatIndex data len timeout)).1 =
        some (d.readCount.toInt32, data.write 0 (d.bytes len.toUInt32.toNat)) := by
      simp [Outcome.run, usbStartRecvRepeatN, read, ft, undef, Outcome.driver, sizeToInt_toUInt64, hi]
    -- a count below `2 ^ 31` is the same `int`, and no `int` is larger
    have hint : d.readCount.toInt32.toInt = len.toNat ↔ len.toNat < 2 ^ 31 ∧ d.readCount.toNat = len.toNat := by
      have h1 := toNat_toUInt32 d.readCount.toInt32
      have h2 := d.readCount.toInt32.toInt_lt
      have h3 := d.readCount.toInt32.le_toInt
      rw [UInt32.toUInt32_toInt32] at h1
      omega
    rw [hrun]
    simp only [Option.mem_some_iff, forall_eq', hint]
    constructor
    · intro h _ h0 h1 h2
      exact (h h0 ⟨h1, h2⟩).1
    · rintro h h0 ⟨h1, h2⟩
      exact ⟨h hi h0 h1 h2, h2⟩
  · simp [Outcome.run, usbStartRecvRepeatN, hi]

/-- **The return codes mean what they should exactly when no failed transfer reports a full count.** -/
theorem codes_iff (c : UsbConfig) (repeatIndex : Int32) (data : Mem) (len : UInt64) (timeout : UInt32) :
    (CodeLaw d (usbDevConnect addr) codeConnectResponse usbConnectSuccess usbConnectFail usbConnectVerifyErr ↔
      d.StatusAgrees) ∧
    (CodeLaw d (usbSendConfigToDevice c addr) codeSendConfigResponse usbSendConfigSuccess usbSendConfigFail
      usbSendConfigVerifyErr ↔ d.StatusAgrees) ∧
    (CodeLaw d (usbStopCollect addr) codeStopCollectResponse usbStopCollectSuccess usbStopCollectFail
      usbStopCollectVerifyFail ↔ d.StatusAgrees) ∧
    (StartLaw d addr ↔ (d.writeCount = 32 → d.writeStatus = ftOk)) ∧
    (RecvLaw d addr c repeatIndex data len timeout ↔
      (repeatIndex < c.repeatCount.toUInt32.toInt32 → 0 < len.toNat → len.toNat < 2 ^ 31 →
        d.readCount.toNat = len.toNat → d.readStatus = ftOk)) :=
  ⟨codeLaw_usbDevConnect d addr, codeLaw_usbSendConfigToDevice d addr c, codeLaw_usbStopCollect d addr,
    startLaw_iff d addr, recvLaw_iff d addr c repeatIndex data len timeout⟩

end Commands

/-- The answer of a driver that reports success and stores nothing; locals start as zero. -/
def Op.idle : (o : Op) → o.Ans
  | .ft .getLibraryVersion | .ft (.getDriverVersion _) | .ft (.setTransferParams ..) | .ft (.close _)
  | .ft (.abortPipe ..) | .ft (.setPipeTimeout ..) | .ft (.setChipConfiguration ..) | .ft (.getDeviceInfoDetail _) => ftOk
  | .ft (.create ..) => ⟨ftOk, none⟩
  | .ft (.writePipe ..) => ⟨ftOk, none⟩
  | .ft (.readPipe ..) => ⟨ftOk, none, []⟩
  | .ft (.getChipConfiguration _) => ⟨ftOk, none⟩
  | .errno => (0 : Int32)
  | .undef .count => (0 : UInt32)
  | .undef .handle => (0 : FtHandle)
  | .undef .conf => (default : FtTransferConf)
  | .undef .buf => fun _ => 0

/-- The read fails with `FT_TIMEOUT`, but stores a count of 32 and the response to a connect request. -/
def timedOutFull : Outcome where
  writeStatus := ftOk
  writeCount := 32
  readStatus := 19
  readCount := 32
  data i := codeConnectResponse.getD i 0
  other _ o := o.idle

/-- A timed-out read with a full count counts as success. -/
theorem not_codeLaw_timedOutFull : ¬ CodeLaw timedOutFull (usbDevConnect ⟨1⟩) codeConnectResponse usbConnectSuccess
    usbConnectFail usbConnectVerifyErr := by
  rw [codeLaw_usbDevConnect]
  intro h
  exact absurd (h.read rfl rfl) (by decide)

end EdUsb
