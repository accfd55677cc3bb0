import EdUsb.Codes
import EdUsb.Config

/-!
# The frames on the wire

The 32 bytes that `usb_send_config_to_device` writes (`configFrame`): what a decoder finds in them, when two
configurations give the same ones, and that they are not those of another command.  The frame carries neither `ad_channel`
nor `ad_bit`, so it fixes the sizes that the host computes only up to the channel count (`sizes_iff`).
-/

namespace EdUsb

open EdUsb.Lib Ed

/-! ### What `_pack_config` leaves -/

section Pack

variable (c : UsbConfig) (m : Mem)

theorem packConfig_code : (packConfig c m).bytes 0 8 = codeSendConfigRequest := by
  simp (disch := omega) only [packConfig, packShort, packUint16, packUint32, Mem.bytes_fill_disjoint]
  exact packUint8Arr_bytes m 0 codeSendConfigRequest

theorem packConfig_sampleCount : (packConfig c m).readLE 8 4 = c.sampleCount.toNat := by
  simp only [packConfig]
  rw [readLE_packShort_of_disjoint _ _ (by omega), readLE_packShort_of_disjoint _ _ (by omega),
    readLE_packUint16_of_disjoint _ _ (by omega), readLE_packUint16_of_disjoint _ _ (by omega),
    readLE_packUint32_of_disjoint _ _ (by omega)]
  exact readLE_packUint32 ..

theorem packConfig_delayCount : (packConfig c m).readLE 12 4 = c.delayCount.toNat := by
  simp only [packConfig]
  rw [readLE_packShort_of_disjoint _ _ (by omega), readLE_packShort_of_disjoint _ _ (by omega),
    readLE_packUint16_of_disjoint _ _ (by omega), readLE_packUint16_of_disjoint _ _ (by omega)]
  exact readLE_packUint32 ..

theorem packConfig_repeatCount : (packConfig c m).readLE 16 2 = c.repeatCount.toNat := by
  simp only [packConfig]
  rw [readLE_packShort_of_disjoint _ _ (by omega), readLE_packShort_of_disjoint _ _ (by omega),
    readLE_packUint16_of_disjoint _ _ (by omega)]
  exact readLE_packUint16 ..

theorem packConfig_downSampleCount : (packConfig c m).readLE 18 2 = c.downSampleCount.toNat := by
  simp only [packConfig]
  rw [readLE_packShort_of_disjoint _ _ (by omega), readLE_packShort_of_disjoint _ _ (by omega)]
  exact readLE_packUint16 ..

theorem packConfig_trigger : ((packConfig c m).readLE 24 1 : ℤ) = c.trigger.toInt % 256 := by
  simp only [packConfig]
  rw [readLE_packShort_of_disjoint _ _ (by omega)]
  exact readLE_packShort ..

theorem packConfig_outerTrigger : ((packConfig c m).readLE 25 1 : ℤ) = c.outerTrigger.toInt % 256 :=
  readLE_packShort ..

/-- The bytes that `_pack_config` skips, and those past the frame. -/
theorem packConfig_skip {i : ℕ} (h : 20 ≤ i ∧ i < 24 ∨ 26 ≤ i) : packConfig c m i = m i := by
  simp only [packConfig, packShort, packUint16, packUint32, packUint8Arr, Mem.fill_apply]
  split_ifs <;> first | rfl | omega

end Pack

/-! ### The frame -/

/-- The 32 bytes of the buffer of `usb_send_config_to_device`. -/
def configFrame (c : UsbConfig) : List UInt8 := (packConfig c (memset (fun _ => 0) 0 32)).bytes 0 32

/-- Two configurations agree in what the frame carries. -/
structure SameFrame (c c' : UsbConfig) : Prop where
  sampleCount : c.sampleCount = c'.sampleCount
  delayCount : c.delayCount = c'.delayCount
  repeatCount : c.repeatCount = c'.repeatCount
  downSampleCount : c.downSampleCount = c'.downSampleCount
  trigger : c.trigger.toInt % 256 = c'.trigger.toInt % 256
  outerTrigger : c.outerTrigger.toInt % 256 = c'.outerTrigger.toInt % 256

/-- `_pack_config` on two buffers that agree, with two configurations that agree in what it packs. -/
theorem packConfig_congr {c c' : UsbConfig} (h : SameFrame c c') {m m' : Mem} (hm : ∀ i < 32, m i = m' i) :
    (packConfig c m).bytes 0 32 = (packConfig c' m').bytes 0 32 := by
  apply Mem.bytes_congr
  intro i hi
  rw [Nat.zero_add]
  -- the code, the six fields and what is skipped
  have hcases : i < 8 ∨ (8 ≤ i ∧ i < 12) ∨ (12 ≤ i ∧ i < 16) ∨ (16 ≤ i ∧ i < 18) ∨ (18 ≤ i ∧ i < 20) ∨
      i = 24 ∨ i = 25 ∨ (20 ≤ i ∧ i < 24 ∨ 26 ≤ i) := by omega
  rcases hcases with hi | hi | hi | hi | hi | hi | hi | hskip
  · have := (packConfig_code c m).trans (packConfig_code c' m').symm
    simpa using Mem.bytes_eq_iff.1 this i hi
  · refine Mem.eq_of_readLE_eq 8 4 ?_ (by omega) (by omega)
    rw [packConfig_sampleCount, packConfig_sampleCount, h.sampleCount]
  · refine Mem.eq_of_readLE_eq 12 4 ?_ (by omega) (by omega)
    rw [packConfig_delayCount, packConfig_delayCount, h.delayCount]
  · refine Mem.eq_of_readLE_eq 16 2 ?_ (by omega) (by omega)
    rw [packConfig_repeatCount, packConfig_repeatCount, h.repeatCount]
  · refine Mem.eq_of_readLE_eq 18 2 ?_ (by omega) (by omega)
    rw [packConfig_downSampleCount, packConfig_downSampleCount, h.downSampleCount]
  · refine Mem.eq_of_readLE_eq 24 1 ?_ (by omega) (by omega)
    apply Int.ofNat_inj.1
    rw [packConfig_trigger, packConfig_trigger, h.trigger]
  · refine Mem.eq_of_readLE_eq 25 1 ?_ (by omega) (by omega)
    apply Int.ofNat_inj.1
    rw [packConfig_outerTrigger, packConfig_outerTrigger, h.outerTrigger]
  · rw [packConfig_skip c m hskip, packConfig_skip c' m' hskip, hm i hi]

/-- The frame does not depend on what the buffer held. -/
theorem packConfig_memset (c : UsbConfig) (m : Mem) : (packConfig c (memset m 0 32)).bytes 0 32 = configFrame c := by
  apply packConfig_congr ⟨rfl, rfl, rfl, rfl, rfl, rfl⟩
  intro i hi
  rw [memset, memset, Mem.fill_apply, Mem.fill_apply, if_pos (by omega), if_pos (by omega)]

/-- What a little-endian decoder finds in a frame of the configuration `c`. -/
structure FrameFields (c : UsbConfig) (b : List UInt8) : Prop where
  length : b.length = 32
  code : b.take 8 = codeSendConfigRequest
  sampleCount : decodeLE b 8 4 = c.sampleCount.toNat
  delayCount : decodeLE b 12 4 = c.delayCount.toNat
  repeatCount : decodeLE b 16 2 = c.repeatCount.toNat
  downSampleCount : decodeLE b 18 2 = c.downSampleCount.toNat
  trigger : (decodeLE b 24 1 : ℤ) = c.trigger.toInt % 256
  outerTrigger : (decodeLE b 25 1 : ℤ) = c.outerTrigger.toInt % 256
  zero : ∀ i, 20 ≤ i ∧ i < 24 ∨ 26 ≤ i ∧ i < 32 → b[i]? = some 0

theorem configFrame_fields (c : UsbConfig) : FrameFields c (configFrame c) where
  length := Mem.bytes_length ..
  code := by rw [configFrame, Mem.bytes_take _ _ (by omega), packConfig_code]
  sampleCount := by rw [configFrame, Mem.decodeLE_bytes _ (by omega), packConfig_sampleCount]
  delayCount := by rw [configFrame, Mem.decodeLE_bytes _ (by omega), packConfig_delayCount]
  repeatCount := by rw [configFrame, Mem.decodeLE_bytes _ (by omega), packConfig_repeatCount]
  downSampleCount := by rw [configFrame, Mem.decodeLE_bytes _ (by omega), packConfig_downSampleCount]
  trigger := by rw [configFrame, Mem.decodeLE_bytes _ (by omega), packConfig_trigger]
  outerTrigger := by rw [configFrame, Mem.decodeLE_bytes _ (by omega), packConfig_outerTrigger]
  zero i hi := by
    have hz : packConfig c (memset (fun _ => 0) 0 32) i = 0 := by
      rw [packConfig_skip c _ (by omega), memset, Mem.fill_apply, if_pos (by omega)]
    simp [configFrame, Mem.bytes, show i < 32 by omega, hz]

/-- The frame determines what it carries, and nothing else. -/
theorem configFrame_eq_iff (c c' : UsbConfig) : configFrame c = configFrame c' ↔ SameFrame c c' := by
  constructor
  · intro h
    have f := configFrame_fields c
    have f' := configFrame_fields c'
    rw [← h] at f'
    exact ⟨UInt32.toNat_inj.1 (f.sampleCount.symm.trans f'.sampleCount),
      UInt32.toNat_inj.1 (f.delayCount.symm.trans f'.delayCount),
      UInt16.toNat_inj.1 (f.repeatCount.symm.trans f'.repeatCount),
      UInt16.toNat_inj.1 (f.downSampleCount.symm.trans f'.downSampleCount),
      f.trigger.symm.trans f'.trigger, f.outerTrigger.symm.trans f'.outerTrigger⟩
  · intro h
    exact packConfig_congr h fun _ _ => rfl

/-! ### The frames of the commands -/

section Commands

variable (d : Outcome) (addr : UsbAddr)

theorem frames_usbDevConnect : d.frames (usbDevConnect addr) = [codeFrame codeConnectRequrst] := by
  have := exec_exchange_frames d addr (packUint8Arr (memset (d.other 0 (.undef .buf)) 0 32) 0 codeConnectRequrst 8)
    codeConnectResponse usbConnectSuccess usbConnectFail usbConnectVerifyErr (.inl rfl) rfl [.undef .buf]
  rw [bytes_codeFrame _ rfl] at this
  unfold Outcome.frames
  rw [usbDevConnect_eq]
  exact this

theorem frames_usbSendConfigToDevice (c : UsbConfig) : d.frames (usbSendConfigToDevice c addr) = [configFrame c] := by
  have := exec_exchange_frames d addr (packConfig c (memset (d.other 0 (.undef .buf)) 0 32)) codeSendConfigResponse
    usbSendConfigSuccess usbSendConfigFail usbSendConfigVerifyErr (.inl rfl) rfl [.undef .buf]
  rw [packConfig_memset] at this
  unfold Outcome.frames
  rw [usbSendConfigToDevice_eq]
  exact this

theorem frames_usbStartCollect : d.frames (usbStartCollect addr) = [codeFrame codeStartCollect] := by
  rw [← bytes_codeFrame (d.other 0 (.undef .buf)) (show codeStartCollect.length = 8 from rfl)]
  by_cases hw : d.writeCount = 32 <;>
    simp [Outcome.frames, Outcome.run, usbStartCollect, requestBuf, write, ft, undef, Outcome.driver, toUInt64_eq_32, hw,
      Op.writeBuf, List.filterMap_cons]

theorem frames_usbStopCollect : d.frames (usbStopCollect addr) = [codeFrame codeStopCollectRequest] := by
  have := exec_exchange_frames d addr (packUint8Arr (memset (d.other 0 (.undef .buf)) 0 32) 0 codeStopCollectRequest 8)
    codeStopCollectResponse usbStopCollectSuccess usbStopCollectFail usbStopCollectVerifyFail (.inr rfl) rfl
    [.undef .buf]
  rw [bytes_codeFrame _ rfl] at this
  unfold Outcome.frames
  rw [usbStopCollect_eq]
  exact this

/-- A frame of a configuration is not a frame that starts with another code. -/
theorem configFrame_ne_codeFrame (c : UsbConfig) {code : List UInt8} (h : code.length = 8)
    (hne : code ≠ codeSendConfigRequest) : configFrame c ≠ codeFrame code := by
  intro he
  have := (configFrame_fields c).code
  rw [he, codeFrame, List.take_left' h] at this
  exact hne this

/-- **The wire frame of a configuration.**  In every outcome `usb_send_config_to_device` writes exactly the frame of its
configuration; a decoder recovers from it what it carries; nothing past it is stored to; it is the frame of another
configuration only if that agrees in what it carries; and it is never the frame of another command. -/
theorem config_frame (c c' : UsbConfig) :
    d.frames (usbSendConfigToDevice c addr) = [configFrame c] ∧ FrameFields c (configFrame c) ∧
    (∀ (m : Mem) (i : ℕ), 32 ≤ i → packConfig c (memset m 0 32) i = m i) ∧
    (configFrame c = configFrame c' ↔ SameFrame c c') ∧
    ∀ p ∈ [usbDevConnect addr, usbStartCollect addr, usbStopCollect addr], configFrame c ∉ d.frames p := by
  refine ⟨frames_usbSendConfigToDevice d addr c, configFrame_fields c, ?_, configFrame_eq_iff c c', ?_⟩
  · intro m i hi
    rw [packConfig_skip c _ (by omega), memset, Mem.fill_of_le _ _ (by omega)]
  · intro p hp
    simp only [List.mem_cons, List.not_mem_nil, or_false] at hp
    rcases hp with rfl | rfl | rfl
    · simpa [frames_usbDevConnect] using configFrame_ne_codeFrame c rfl (by decide)
    · simpa [frames_usbStartCollect] using configFrame_ne_codeFrame c rfl (by decide)
    · simpa [frames_usbStopCollect] using configFrame_ne_codeFrame c rfl (by decide)

end Commands

/-! ### The sizes that the host computes -/

/-- The channel count is one of those that `ed.h` names. -/
def ChannelOk (c : UsbConfig) : Prop := c.adChannel = 1 ∨ c.adChannel = 2

theorem mul_one_eq_mul_two (x : UInt32) : x * 1 = x * 2 ↔ x = 0 := by
  constructor
  · intro h
    have h1 := congrArg UInt32.toNat h
    have h2 := x.toNat_lt
    rw [UInt32.toNat_mul, UInt32.toNat_mul] at h1
    apply UInt32.toNat_inj.1
    simp only [UInt32.reduceToNat] at h1 ⊢
    omega
  · rintro rfl
    rfl

/-- **The host's sizes are fixed by the frame and the channel count.**  The frame alone fixes them only where a repeat is
a multiple of `2 ^ 32` bytes for either channel count. -/
theorem sizes_iff (d : Outcome) (addr : UsbAddr) (c c' : UsbConfig) (h : ChannelOk c) (h' : ChannelOk c')
    (hf : d.frames (usbSendConfigToDevice c addr) = d.frames (usbSendConfigToDevice c' addr)) :
    (repeatBytesCount c = repeatBytesCount c' ∧ usbBytesCount c = usbBytesCount c') ↔
      (c.adChannel = c'.adChannel ∨ c.sampleCount * 2 = 0) := by
  rw [frames_usbSendConfigToDevice, frames_usbSendConfigToDevice, List.singleton_inj] at hf
  have hs := (configFrame_eq_iff c c').1 hf
  have e1 : (1 : Int16).toInt32.toUInt32 = 1 := rfl
  have e2 : (2 : Int16).toInt32.toUInt32 = 2 := rfl
  unfold repeatBytesCount usbBytesCount
  rw [← hs.sampleCount, ← hs.repeatCount]
  rcases h with h | h <;> rcases h' with h' | h' <;> rw [h, h']
  · simp
  · rw [e1, e2, mul_one_eq_mul_two]
    constructor
    · intro hz
      exact .inr hz.1
    · rintro (hz | hz)
      · exact absurd hz (by decide)
      · simp [hz]
  · rw [e1, e2, eq_comm, mul_one_eq_mul_two]
    constructor
    · intro hz
      exact .inr hz.1
    · rintro (hz | hz)
      · exact absurd hz (by decide)
      · simp [hz]
  · simp

/-- The default configuration on two channels. -/
def twoChannels : UsbConfig := { defaultConfig with adChannel := 2 }

theorem frames_twoChannels (d : Outcome) (addr : UsbAddr) :
    d.frames (usbSendConfigToDevice defaultConfig addr) = d.frames (usbSendConfigToDevice twoChannels addr) := by
  rw [frames_usbSendConfigToDevice, frames_usbSendConfigToDevice, List.singleton_inj]
  exact (configFrame_eq_iff _ _).2 ⟨rfl, rfl, rfl, rfl, rfl, rfl⟩

/-- The sizes of the two differ, as neither their channels nor their frames make them agree. -/
theorem sizes_iff_twoChannels :
    ¬ (repeatBytesCount defaultConfig = repeatBytesCount twoChannels ∧
      usbBytesCount defaultConfig = usbBytesCount twoChannels) := by
  rw [sizes_iff timedOutFull ⟨1⟩ defaultConfig twoChannels (.inl rfl) (.inr rfl) (frames_twoChannels _ _)]
  decide

/-- The host expects 2000000 bytes a repeat of the one and 4000000 of the other; the device is told the same. -/
theorem not_sizes_of_frame :
    ¬ ∀ (d : Outcome) (addr : UsbAddr) (c c' : UsbConfig), ChannelOk c → ChannelOk c' →
      d.frames (usbSendConfigToDevice c addr) = d.frames (usbSendConfigToDevice c' addr) →
      repeatBytesCount c = repeatBytesCount c' ∧ usbBytesCount c = usbBytesCount c' := by
  intro h
  have := (h timedOutFull ⟨1⟩ defaultConfig twoChannels (.inl rfl) (.inr rfl) (frames_twoChannels _ _)).1
  exact absurd this (by decide)

end EdUsb
