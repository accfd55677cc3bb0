import EdUsb.Repeats

/-!
# Where counts are cut

The number of bytes of an acquisition and the number of bytes received are computed in types of 32 bits.  They are exact
exactly while they fit: below `2 ^ 32` for the sizes (`counts_iff`), below `2 ^ 31` for a receive, whose count is returned
as an `int` (`recv_faithful_iff`).
-/

namespace EdUsb

open EdUsb.Lib Ed

/-! ### Sizes -/

theorem toNat_adChannel {c : UsbConfig} (h : ChannelOk c) :
    c.adChannel.toInt32.toUInt32.toNat = c.adChannel.toInt.toNat := by
  rcases h with h | h <;> rw [h] <;> rfl

theorem toNat_repeatBytesCount {c : UsbConfig} (h : ChannelOk c) : (repeatBytesCount c).toNat = repeatLen c % 2 ^ 32 := by
  rw [repeatBytesCount, UInt32.toNat_mul, UInt32.toNat_mul, toNat_adChannel h, Nat.mod_mul_mod, repeatLen,
    Nat.mul_comm c.sampleCount.toNat]
  rfl

theorem toNat_usbBytesCount {c : UsbConfig} (h : ChannelOk c) :
    (usbBytesCount c).toNat = c.repeatCount.toNat * repeatLen c % 2 ^ 32 := by
  have hrepeat : usbBytesCount c = repeatBytesCount c * c.repeatCount.toUInt32 := rfl
  rw [hrepeat, UInt32.toNat_mul, toNat_repeatBytesCount h, UInt16.toNat_toUInt32, Nat.mod_mul_mod, Nat.mul_comm]

/-- **When the sizes are exact.**  The size of a repeat, and of all repeats together, is exact if and only if it is less
than `2 ^ 32`. -/
theorem counts_iff (c : UsbConfig) (h : ChannelOk c) :
    ((repeatBytesCount c).toNat = repeatLen c ↔ repeatLen c < 2 ^ 32) ∧
    ((usbBytesCount c).toNat = c.repeatCount.toNat * repeatLen c ↔ c.repeatCount.toNat * repeatLen c < 2 ^ 32) := by
  rw [toNat_repeatBytesCount h, toNat_usbBytesCount h]
  exact ⟨Nat.mod_eq_iff_lt (by omega), Nat.mod_eq_iff_lt (by omega)⟩

/-- 1100 repeats of 1000000 samples on two channels. -/
def manyRepeats : UsbConfig := { defaultConfig with repeatCount := 1100, adChannel := 2 }

/-- A repeat of them is counted right, all of them are not. -/
theorem counts_iff_many :
    (repeatBytesCount manyRepeats).toNat = 4000000 ∧ (usbBytesCount manyRepeats).toNat ≠ 4400000000 := by
  obtain ⟨hrepeat, hall⟩ := counts_iff manyRepeats (.inr rfl)
  exact ⟨hrepeat.2 (by decide), mt hall.1 (by decide)⟩

/-- They are 4400000000 bytes, and 105032704 are computed. -/
theorem not_exact_of_many : ¬ ∀ c, ChannelOk c →
    (repeatBytesCount c).toNat = repeatLen c ∧ (usbBytesCount c).toNat = c.repeatCount.toNat * repeatLen c := by
  intro h
  exact absurd (h manyRepeats (.inr rfl)).2 (by decide)

/-! ### Receives -/

/-- The length that a call of `FT_ReadPipe` asks for. -/
def Op.readLength : Op → Option UInt32
  | .ft (.readPipe _ _ n _) => some n
  | _ => none

/-- The lengths that a function asks the driver for. -/
def Outcome.requested {α : Type} (d : Outcome) (p : Ed α) : List UInt32 := (d.run p).2.filterMap Op.readLength

/-- The count that a receive returns is the integer `n`. -/
def Outcome.Returns (d : Outcome) (p : Ed (Int32 × Mem)) (n : ℕ) : Prop := ∃ r, (d.run p).1 = some r ∧ r.1.toInt = n

/-- **What the count of a receive should be**: a receive of `len` bytes asks for `len`, returns `len` if the driver reports
success and the length it was asked for, and returns any count that is not above that length. -/
structure FaithfulRecv (p : Ed (Int32 × Mem)) (len : UInt64) : Prop where
  full : ∀ d : Outcome, d.readStatus = ftOk → d.requested p = [d.readCount] →
    (d.requested p).map UInt32.toNat = [len.toNat] ∧ d.Returns p len.toNat
  counted : ∀ d : Outcome, (∀ n ∈ d.requested p, d.readCount ≤ n) → d.Returns p d.readCount.toNat

section Recv

variable (c : UsbConfig) (addr : UsbAddr) (repeatIndex : Int32) (data : Mem) (len : UInt64) (timeout : UInt32)
  (hi : repeatIndex < c.repeatCount.toUInt32.toInt32)
include hi

theorem run_recv (d : Outcome) :
    (d.run (usbStartRecvRepeatN c addr repeatIndex data len timeout)).1 =
        some (d.readCount.toInt32, data.write 0 (d.bytes len.toUInt32.toNat)) ∧
      d.requested (usbStartRecvRepeatN c addr repeatIndex data len timeout) = [len.toUInt32] := by
  constructor
  · simp [Outcome.run, usbStartRecvRepeatN, read, ft, undef, Outcome.driver, sizeToInt_toUInt64, hi]
  · have hcalls : (d.run (usbStartRecvRepeatN c addr repeatIndex data len timeout)).2 =
        [.ft (.setPipeTimeout addr.handle 0x82 timeout), .undef .count, .ft (readCall addr len.toUInt32)] := by
      simp [Outcome.run, usbStartRecvRepeatN, read, ft, undef, Outcome.driver, hi]
    rw [Outcome.requested, hcalls]
    rfl

/-- The count of a receive is returned as it is exactly while it is no negative `int`. -/
theorem returns_iff (d : Outcome) :
    d.Returns (usbStartRecvRepeatN c addr repeatIndex data len timeout) d.readCount.toNat ↔ d.readCount.toNat < 2 ^ 31 := by
  have h1 := toNat_toUInt32 d.readCount.toInt32
  have h2 := d.readCount.toInt32.toInt_lt
  have h3 := d.readCount.toInt32.le_toInt
  rw [UInt32.toUInt32_toInt32] at h1
  unfold Outcome.Returns
  rw [(run_recv c addr repeatIndex data len timeout hi d).1]
  simp only [Option.some.injEq, exists_eq_left']
  omega

/-- **When the count of a receive is what it should be**: if and only if its length is less than `2 ^ 31`; and of any
length, a count is returned as it is if and only if it is less than `2 ^ 31`. -/
theorem recv_faithful_iff :
    (FaithfulRecv (usbStartRecvRepeatN c addr repeatIndex data len timeout) len ↔ len.toNat < 2 ^ 31) ∧
    ∀ d : Outcome, d.Returns (usbStartRecvRepeatN c addr repeatIndex data len timeout) d.readCount.toNat ↔
      d.readCount.toNat < 2 ^ 31 := by
  refine ⟨?_, returns_iff c addr repeatIndex data len timeout hi⟩
  have hreq : ∀ d : Outcome, d.requested (usbStartRecvRepeatN c addr repeatIndex data len timeout) = [len.toUInt32] :=
    fun d => (run_recv c addr repeatIndex data len timeout hi d).2
  have hmod : len.toUInt32.toNat = len.toNat % 2 ^ 32 := UInt64.toNat_toUInt32 len
  constructor
  · intro h
    -- the driver that reports success and just the length asked for
    let d : Outcome := { timedOutFull with readStatus := ftOk, readCount := len.toUInt32 }
    obtain ⟨hlen, hret⟩ := h.full d rfl (hreq d)
    rw [hreq, List.map_singleton, List.singleton_inj] at hlen
    rw [← hlen] at hret ⊢
    exact (returns_iff c addr repeatIndex data len timeout hi d).1 hret
  · intro h
    refine ⟨?_, ?_⟩
    · intro d _ hcount
      rw [hreq, List.singleton_inj] at hcount
      have hd : d.readCount.toNat = len.toNat := by
        rw [← hcount, hmod]
        omega
      refine ⟨by rw [hreq, List.map_singleton, hcount, hd], ?_⟩
      rw [← hd]
      exact (returns_iff c addr repeatIndex data len timeout hi d).2 (by omega)
    · intro d hle
      have hle := hle len.toUInt32 (by rw [hreq]; exact List.mem_singleton_self _)
      rw [UInt32.le_iff_toNat_le, hmod] at hle
      exact (returns_iff c addr repeatIndex data len timeout hi d).2 (by omega)

end Recv

/-- A receive of 2000000 bytes, and one of 2147483648 of which 32 are stored. -/
theorem recv_faithful_iff_default :
    FaithfulRecv (usbStartRecvRepeatN defaultConfig ⟨1⟩ 0 (fun _ => 0) 2000000 1000) 2000000 ∧
      timedOutFull.Returns (usbStartRecvRepeatN defaultConfig ⟨1⟩ 0 (fun _ => 0) 2147483648 1000) 32 :=
  ⟨(recv_faithful_iff defaultConfig ⟨1⟩ 0 (fun _ => 0) 2000000 1000 (by decide)).1.2 (by decide),
    ((recv_faithful_iff defaultConfig ⟨1⟩ 0 (fun _ => 0) 2147483648 1000 (by decide)).2 timedOutFull).2 (by decide)⟩

/-- A receive of 2147483648 bytes returns a negative count. -/
theorem not_faithful_of_half : ¬ FaithfulRecv (usbStartRecvRepeatN defaultConfig ⟨1⟩ 0 (fun _ => 0) 2147483648 1000)
    2147483648 := by
  have hi : (0 : Int32) < defaultConfig.repeatCount.toUInt32.toInt32 := by decide
  let d : Outcome := { timedOutFull with readStatus := ftOk, readCount := 2147483648 }
  have hreq := (run_recv defaultConfig ⟨1⟩ 0 (fun _ => 0) 2147483648 1000 hi d).2
  intro h
  have hret := (h.full d rfl hreq).2
  exact absurd ((returns_iff defaultConfig ⟨1⟩ 0 (fun _ => 0) 2147483648 1000 hi d).1 hret) (by decide)

end EdUsb
