import EdUsb.Chip
import EdUsb.Lib.Word
import Mathlib.Data.List.Destutter

/-!
# example.c: the channels of the chip

`set_channel_config` reads the configuration of the chip, changes the clock, the mode, the optional features and the
channels in it, and writes it back if that made a difference.  However often it is called, the chip is written exactly when
what is asked for changes (`written_once`).
-/

namespace EdUsb.Example

open EdUsb.Lib

/-! ## ftd3xx.h -/

def configurationChannelConfig4 : UInt8 := 0
def configurationChannelConfig2 : UInt8 := 1
def configurationChannelConfig1Outpipe : UInt8 := 3
def configurationChannelConfig1Inpipe : UInt8 := 4

def configurationOptionalFeatureDisablecancelsessionunderrun : UInt16 := (0x1 : UInt16) <<< (1 : UInt16)
def configurationOptionalFeatureEnablenotificationmessageInchall : UInt16 := (0xF : UInt16) <<< (2 : UInt16)
def configurationOptionalFeatureDisableunderrunInchall : UInt16 := (0xF : UInt16) <<< (6 : UInt16)

def ftDeviceUnknown : UInt32 := 3
def ftDevice600 : UInt32 := 600
def ftDevice601 : UInt32 := 601

/-! ## The configuration -/

/-- `in_ch_cnt` and `out_ch_cnt` -/
structure ChCnt where
  inChCnt : UInt8
  outChCnt : UInt8

/-- `set_ft600_optional_features` -/
def setFt600OptionalFeatures (features : UInt16) : UInt16 :=
  let flag := configurationOptionalFeatureEnablenotificationmessageInchall
  let features := if flag &&& features ≠ 0 then features &&& ~~~flag else features
  let flag := configurationOptionalFeatureDisablecancelsessionunderrun
  let features := if flag &&& features = 0 then features ||| flag else features
  let flag := configurationOptionalFeatureDisableunderrunInchall
  let features := if flag &&& features = 0 then features ||| flag else features
  features

/-- `set_ft600_channels`: the channels, or the code that the program exits with -/
def setFt600Channels (cnt : ChCnt) (is600Mode : Bool) : Except Int32 UInt8 :=
  if cnt.inChCnt = 1 ∧ cnt.outChCnt = 0 then .ok configurationChannelConfig1Inpipe
  else if cnt.inChCnt = 0 ∧ cnt.outChCnt = 1 then .ok configurationChannelConfig1Outpipe
  else
    let total := if cnt.inChCnt < cnt.outChCnt then cnt.outChCnt else cnt.inChCnt
    let channels :=
      if total = 4 then configurationChannelConfig4
      else if total = 2 then configurationChannelConfig2
      else configurationChannelConfig1
    if !is600Mode ∧ total > 1 then .error (-1) else .ok channels

/-- `set_ft600_channel_config` -/
def setFt600ChannelConfig (cnt : ChCnt) (cfg : Ft60xConfiguration) (clock : UInt32) (is600Mode : Bool) :
    Except Int32 Ft60xConfiguration := do
  let cfg := { cfg with fifoClock := clock.toUInt8 }
  let cfg := { cfg with fifoMode := if is600Mode then configurationFifoMode600 else configurationFifoMode245 }
  let cfg := { cfg with optionalFeatureSupport := setFt600OptionalFeatures cfg.optionalFeatureSupport }
  let channels ← setFt600Channels cnt is600Mode
  return { cfg with channelConfig := channels }

/-! ## The calls -/

/-- The answer of `FT_GetDeviceInfoDetail`: the status and the type stored, if any. -/
structure Detail where
  status : FtStatus
  dwType : Option UInt32

/-- What the program asks for beyond what `ed.c` does. -/
inductive Op where
  | ed (o : EdUsb.Op)
  | getDeviceInfoDetail (dwIndex : UInt32)
  | createDeviceInfoList
  | getDeviceInfoList
  | undefConf

abbrev Op.Ans : Op → Type
  | .ed o => o.Ans
  | .getDeviceInfoDetail _ => Detail
  | .createDeviceInfoList => FtStatus
  | .getDeviceInfoList => FtStatus
  | .undefConf => Ft60xConfiguration

/-- A function of `example.c`. -/
abbrev Ex := Prog Op Op.Ans

def call (o : Op) : Ex o.Ans := .call o .ret

def ft (c : FtCall) : Ex c.Ans := .call (.ed (.ft c)) .ret

/-- `get_device_lists`: the devices are only printed -/
def getDeviceLists : Ex Unit := do
  let _ ← call .createDeviceInfoList
  let _ ← call .getDeviceInfoList
  return

/-- How a function that may call `exit` ends. -/
inductive Ended where
  | returned (value : Bool)
  | exited (code : Int32)
  deriving DecidableEq

/-- `set_channel_config` -/
def setChannelConfig (cnt : ChCnt) (is600Mode : Bool) (clock : UInt32) : Ex Ended := do
  let handle : FtHandle := 0
  let dwType := ftDeviceUnknown
  let r ← ft (.create .null ftOpenByIndex)
  let handle := r.handle.getD handle
  if handle = 0 then return .returned false
  let detail ← call (.getDeviceInfoDetail 0)
  let dwType := detail.dwType.getD dwType
  let oldCfg ← call .undefConf
  let g ← ft (.getChipConfiguration handle)
  let oldCfg := g.conf.getD oldCfg
  if ftOk ≠ g.status then return .returned false
  let newCfg := oldCfg
  if dwType = ftDevice600 ∨ dwType = ftDevice601 then
    match setFt600ChannelConfig cnt newCfg clock is600Mode with
    | .error code => return .exited code
    | .ok newCfg =>
      if newCfg ≠ oldCfg then
        let status ← ft (.setChipConfiguration handle newCfg)
        if ftOk ≠ status then return .exited (-1)
        getDeviceLists
      let _ ← ft (.close handle)
      return .returned true
  else return .returned false

/-! ## What is made of a configuration -/

variable {cnt : ChCnt} {clock : UInt32} {is600Mode : Bool} {conf c : Ft60xConfiguration}

/-- The features that are asked for are there. -/
theorem features_spec (x : UInt16) :
    configurationOptionalFeatureEnablenotificationmessageInchall &&& setFt600OptionalFeatures x = 0 ∧
      configurationOptionalFeatureDisablecancelsessionunderrun &&& setFt600OptionalFeatures x ≠ 0 ∧
      configurationOptionalFeatureDisableunderrunInchall &&& setFt600OptionalFeatures x ≠ 0 := by
  have hclear : ∀ flag x : UInt16, flag &&& (if flag &&& x ≠ 0 then x &&& ~~~flag else x) = 0 := by
    intro flag x
    split
    · exact and_clear x
    · exact not_not.1 ‹_›
  have hraise : ∀ {flag : UInt16}, flag ≠ 0 → ∀ x, flag &&& (if flag &&& x = 0 then x ||| flag else x) ≠ 0 := by
    intro flag hflag x
    split
    · rwa [and_raise]
    · exact ‹_›
  have hother : ∀ {flag other : UInt16}, other &&& flag = 0 → ∀ x,
      other &&& (if flag &&& x = 0 then x ||| flag else x) = other &&& x := by
    intro flag other h x
    split
    · exact and_raise_of_disjoint x h
    · rfl
  unfold setFt600OptionalFeatures
  refine ⟨?_, ?_, ?_⟩
  · rw [hother (by decide), hother (by decide)]
    exact hclear ..
  · rw [hother (by decide)]
    exact hraise (by decide) _
  · exact hraise (by decide) _

/-- Asking again changes nothing. -/
theorem features_idem (x : UInt16) : setFt600OptionalFeatures (setFt600OptionalFeatures x) = setFt600OptionalFeatures x := by
  obtain ⟨hn, hc, hu⟩ := features_spec x
  generalize setFt600OptionalFeatures x = y at hn hc hu ⊢
  simp only [setFt600OptionalFeatures, hn, ne_eq, not_true_eq_false, if_false, hc, hu]

theorem setFt600ChannelConfig_iff : setFt600ChannelConfig cnt conf clock is600Mode = .ok c ↔
    setFt600Channels cnt is600Mode = .ok c.channelConfig ∧ c = { conf with
      fifoClock := clock.toUInt8
      fifoMode := if is600Mode then configurationFifoMode600 else configurationFifoMode245
      channelConfig := c.channelConfig
      optionalFeatureSupport := setFt600OptionalFeatures conf.optionalFeatureSupport } := by
  unfold setFt600ChannelConfig
  cases setFt600Channels cnt is600Mode with
  | error code => exact iff_of_false (fun h => by cases h) (fun h => by cases h.1)
  | ok channels =>
    constructor
    · intro h
      cases h
      exact ⟨rfl, rfl⟩
    · rintro ⟨hch, hc⟩
      cases hch
      exact congrArg Except.ok hc.symm

theorem flash_of_config (h : setFt600ChannelConfig cnt conf clock is600Mode = .ok c) :
    c.flashEEPROMDetection = conf.flashEEPROMDetection := by
  rw [(setFt600ChannelConfig_iff.1 h).2]

/-- What was made before does not matter. -/
theorem setFt600ChannelConfig_again (h : setFt600ChannelConfig cnt conf clock is600Mode = .ok c) (cnt' : ChCnt)
    (clock' : UInt32) (is600Mode' : Bool) :
    setFt600ChannelConfig cnt' c clock' is600Mode' = setFt600ChannelConfig cnt' conf clock' is600Mode' := by
  obtain ⟨-, hc⟩ := setFt600ChannelConfig_iff.1 h
  unfold setFt600ChannelConfig
  cases setFt600Channels cnt' is600Mode' with
  | error code => rfl
  | ok channels =>
    rw [hc]
    simp only [features_idem]

/-- The channels are one of the five that have a name, and a single one in the mode 245. -/
theorem channels_lt {channels : UInt8} (h : setFt600Channels cnt is600Mode = .ok channels) : channels < 5 ∧
    (is600Mode = false → cnt.inChCnt ≤ 1 ∧ cnt.outChCnt ≤ 1 ∧ configurationChannelConfig1 ≤ channels) := by
  unfold setFt600Channels at h
  by_cases hin : cnt.inChCnt = 1 ∧ cnt.outChCnt = 0
  · rw [if_pos hin] at h
    obtain rfl := Except.ok.inj h
    rw [hin.1, hin.2]
    exact ⟨by decide, fun _ => by decide⟩
  · by_cases hout : cnt.inChCnt = 0 ∧ cnt.outChCnt = 1
    · rw [if_neg hin, if_pos hout] at h
      obtain rfl := Except.ok.inj h
      rw [hout.1, hout.2]
      exact ⟨by decide, fun _ => by decide⟩
    · rw [if_neg hin, if_neg hout] at h
      have hmax : ∀ total : UInt8, (if cnt.inChCnt < cnt.outChCnt then cnt.outChCnt else cnt.inChCnt) = total →
          ¬ total > 1 → cnt.inChCnt ≤ 1 ∧ cnt.outChCnt ≤ 1 := by
        rintro total rfl hle
        split at hle <;> grind
      generalize (if cnt.inChCnt < cnt.outChCnt then cnt.outChCnt else cnt.inChCnt) = total at h hmax
      by_cases hone : !is600Mode ∧ total > 1
      · simp only [hone, and_self, if_true] at h
        cases h
      · simp only [hone, if_false] at h
        obtain rfl := Except.ok.inj h
        refine ⟨by split_ifs <;> decide, fun hmode => ?_⟩
        have hle : ¬ total > 1 := fun ht => hone ⟨by rw [hmode]; rfl, ht⟩
        obtain ⟨hi, ho⟩ := hmax total rfl hle
        have h4 : total ≠ 4 := by
          rintro rfl
          exact hle (by decide)
        have h2 : total ≠ 2 := by
          rintro rfl
          exact hle (by decide)
        rw [if_neg h4, if_neg h2]
        exact ⟨hi, ho, by decide⟩

/-- What a call of `set_channel_config` is to set. -/
structure Setting where
  cnt : ChCnt
  is600Mode : Bool
  clock : UInt32

def Setting.prog (s : Setting) : Ex Ended := setChannelConfig s.cnt s.is600Mode s.clock

/-- The configuration that it makes of another. -/
def Setting.config (s : Setting) (conf : Ft60xConfiguration) : Except Int32 Ft60xConfiguration :=
  setFt600ChannelConfig s.cnt conf s.clock s.is600Mode

/-- What a configuration is like that was made out of `conf`. -/
structure Configured (s : Setting) (conf c : Ft60xConfiguration) : Prop where
  clock : c.fifoClock = s.clock.toUInt8
  mode : c.fifoMode = if s.is600Mode then configurationFifoMode600 else configurationFifoMode245
  /-- The channels and the mode have a name. -/
  named : c.channelConfig < 5 ∧ c.fifoMode < 2
  /-- In the mode 245 no more than one channel was asked for. -/
  single : s.is600Mode = false → s.cnt.inChCnt ≤ 1 ∧ s.cnt.outChCnt ≤ 1 ∧ configurationChannelConfig1 ≤ c.channelConfig
  notification : configurationOptionalFeatureEnablenotificationmessageInchall &&& c.optionalFeatureSupport = 0
  cancel : configurationOptionalFeatureDisablecancelsessionunderrun &&& c.optionalFeatureSupport ≠ 0
  underrun : configurationOptionalFeatureDisableunderrunInchall &&& c.optionalFeatureSupport ≠ 0
  others : { c with
    fifoClock := conf.fifoClock
    fifoMode := conf.fifoMode
    channelConfig := conf.channelConfig
    optionalFeatureSupport := conf.optionalFeatureSupport } = conf

theorem configured {s : Setting} (h : s.config conf = .ok c) : Configured s conf c := by
  obtain ⟨hch, hc⟩ := setFt600ChannelConfig_iff.1 h
  obtain ⟨hlt, hsingle⟩ := channels_lt hch
  obtain ⟨hn, hcancel, hu⟩ := features_spec conf.optionalFeatureSupport
  have hmode : c.fifoMode = if s.is600Mode then configurationFifoMode600 else configurationFifoMode245 := by rw [hc]
  have hfeatures : c.optionalFeatureSupport = setFt600OptionalFeatures conf.optionalFeatureSupport := by rw [hc]
  refine ⟨by rw [hc], hmode, ⟨hlt, ?_⟩, hsingle, by rwa [hfeatures], by rwa [hfeatures], by rwa [hfeatures], by rw [hc]⟩
  rw [hmode]
  cases s.is600Mode <;> decide

/-! ## What a call does to the chip -/

/-- The chip, asked by the program. -/
def env (H : Hardware) : Env Op Op.Ans Chip where
  ans w o r w' :=
    match o with
    | .ed o => Chip.ans H w o r w'
    | _ => w' = w
  move _ _ := False

section Calls

variable {α : Type} {H : Hardware} {w w' : Chip}

theorem moves_chip {v : Chip} (h : (env H).Moves w v) : v = w := h.eq fun _ _ hm => hm

theorem call_run {o : Op} {f : o.Ans → Ex α} {a : α} (h : (call o >>= f).Runs (env H) w a w') :
    ∃ r v, (env H).ans w o r v ∧ (f r).Runs (env H) v a w' := by
  obtain ⟨v, r, u, hm, ha, h⟩ := h
  obtain rfl := moves_chip hm
  exact ⟨r, u, ha, h⟩

theorem ft_run {c : FtCall} {f : c.Ans → Ex α} {a : α} (h : (ft c >>= f).Runs (env H) w a w') :
    ∃ r v, Chip.ans H w (.ft c) r v ∧ (f r).Runs (env H) v a w' := by
  obtain ⟨v, r, u, hm, ha, h⟩ := h
  obtain rfl := moves_chip hm
  exact ⟨r, u, ha, h⟩

theorem ret_run {b a : Ended} (h : (.ret b : Ex Ended).Runs (env H) w a w') : a = b ∧ w' = w :=
  ⟨h.1.symm, moves_chip h.2⟩

theorem close_run {h : FtHandle} {b a : Ended}
    (hr : (ft (.close h) >>= fun _ => (.ret b : Ex Ended)).Runs (env H) w a w') : a = b ∧ w' = w := by
  obtain ⟨s, v, rfl, hret⟩ := ft_run hr
  exact ret_run hret

/-- The end of a call, with the handle `h` open and the configuration `c` made. -/
theorem store_run {h : FtHandle} {a : Ended}
    (hr : (if c ≠ w.conf then ft (.setChipConfiguration h c) >>= fun status =>
        if ftOk ≠ status then .ret (.exited (-1))
        else getDeviceLists >>= fun _ => ft (.close h) >>= fun _ => (.ret (.returned true) : Ex Ended)
      else ft (.close h) >>= fun _ => .ret (.returned true)).Runs (env H) w a w') :
    (a = .returned true ∧ w' = if c = w.conf then w else w.set H c) ∨ (a ≠ .returned true ∧ w' = w) := by
  by_cases he : c = w.conf
  · rw [if_neg (not_not.2 he)] at hr
    rw [if_pos he]
    exact .inl (close_run hr)
  · rw [if_pos he] at hr
    obtain ⟨s, v, hv, h₁⟩ := ft_run hr
    change v = if (s : FtStatus) = ftOk then w.set H c else w at hv
    by_cases hs : (s : FtStatus) = ftOk
    · rw [if_pos hs] at hv
      rw [if_neg (not_not.2 hs.symm)] at h₁
      obtain ⟨_, u, hlists, h₂⟩ := Prog.runs_bind.1 h₁
      obtain ⟨_, x, rfl, h₃⟩ := call_run hlists
      obtain ⟨_, y, rfl, -, hm⟩ := call_run h₃
      obtain rfl := moves_chip hm
      obtain ⟨ha, hw⟩ := close_run h₂
      exact .inl ⟨ha, by rw [hw, hv, if_neg he]⟩
    · rw [if_neg hs] at hv
      rw [if_pos (Ne.symm hs)] at h₁
      obtain ⟨rfl, hw⟩ := ret_run h₁
      exact .inr ⟨by decide, hw.trans hv⟩

/-- The chip is written if that makes a difference, and the call returns `true`; or nothing happens. -/
theorem setChannelConfig_run {a : Ended} (h : (setChannelConfig cnt is600Mode clock).Runs (env H) w a w') :
    (a = .returned true ∧ ∃ c, setFt600ChannelConfig cnt w.conf clock is600Mode = .ok c ∧
      w' = if c = w.conf then w else w.set H c) ∨ (a ≠ .returned true ∧ w' = w) := by
  have hret : ∀ {b : Ended} {u : Chip}, b ≠ .returned true → (.ret b : Ex Ended).Runs (env H) u a w' →
      a ≠ .returned true ∧ w' = u := by
    intro b u hb hr
    obtain ⟨rfl, hw⟩ := ret_run hr
    exact ⟨hb, hw⟩
  obtain ⟨r, v, ⟨-, rfl⟩, h₁⟩ := ft_run h
  dsimp only at h₁
  by_cases h0 : Option.getD r.handle 0 = 0
  · rw [if_pos h0] at h₁
    exact .inr (hret (by decide) h₁)
  rw [if_neg h0] at h₁
  obtain ⟨detail, u, rfl, h₂⟩ := call_run h₁
  obtain ⟨old, u, rfl, h₃⟩ := call_run h₂
  obtain ⟨g, u, ⟨hg, rfl⟩, h₄⟩ := ft_run h₃
  by_cases hok : ChipConf.status g = ftOk
  · have hread : (ChipConf.conf g).getD old = u.conf := by
      rw [hg hok]
      rfl
    rw [if_neg (not_not.2 hok.symm), hread] at h₄
    by_cases htype : detail.dwType.getD ftDeviceUnknown = ftDevice600 ∨ detail.dwType.getD ftDeviceUnknown = ftDevice601
    · rw [if_pos htype] at h₄
      cases hc : setFt600ChannelConfig cnt u.conf clock is600Mode with
      | error code =>
        rw [hc] at h₄
        exact .inr (hret (by simp) h₄)
      | ok c =>
        rw [hc] at h₄
        rcases store_run h₄ with ⟨ha, hw⟩ | hsame
        · exact .inl ⟨ha, c, rfl, hw⟩
        · exact .inr hsame
    · rw [if_neg htype] at h₄
      exact .inr (hret (by decide) h₄)
  · rw [if_pos (Ne.symm hok)] at h₄
    exact .inr (hret (by decide) h₄)

/-- Where no call fails, a call on a device of type 600 sets what it makes. -/
theorem setChannelConfig_runs (hc : setFt600ChannelConfig cnt w.conf clock is600Mode = .ok c) :
    (setChannelConfig cnt is600Mode clock).Runs (env H) w (.returned true) (if c = w.conf then w else w.set H c) := by
  refine ⟨w, (⟨ftOk, some 1⟩ : Created), w, .refl w, ⟨fun _ => trivial, rfl⟩, ?_⟩
  refine ⟨w, (⟨ftOk, some ftDevice600⟩ : Detail), w, .refl w, rfl, w, w.conf, w, .refl w, rfl, ?_⟩
  refine ⟨w, (⟨ftOk, some w.conf⟩ : ChipConf), w, .refl w, ⟨fun _ => rfl, rfl⟩, ?_⟩
  show Prog.Runs _ (match setFt600ChannelConfig cnt w.conf clock is600Mode with
    | .error code => _
    | .ok newCfg => _) w _ _
  rw [hc]
  by_cases he : c = w.conf
  · simp only [he, Option.getD_some, ne_eq, not_true_eq_false, if_false, if_true]
    exact ⟨w, ftOk, w, .refl w, rfl, rfl, .refl w⟩
  · simp only [he, Option.getD_some, ne_eq, not_false_eq_true, if_true, if_false]
    exact ⟨w, ftOk, _, .refl w, rfl, _, ftOk, _, .refl _, rfl, _, ftOk, _, .refl _, rfl, _, ftOk, _, .refl _, rfl, rfl,
      .refl _⟩

end Calls

/-! ## Many calls -/

/-- The configurations that the calls that returned `true` make of `conf`. -/
def taken (conf : Ft60xConfiguration) (l : List (Done Setting Ended Chip)) : List Ft60xConfiguration :=
  l.filterMap fun d => if d.val = .returned true then (d.cmd.config conf).toOption else none

section Many

variable {H : Hardware} {w w' : Chip} {l : List (Done Setting Ended Chip)}

/-- The chip may differ from `conf` in what is set anyway. -/
def Varied (conf : Ft60xConfiguration) (w : Chip) : Prop := ∀ s : Setting, s.config w.conf = s.config conf

-- The chip keeps all that it is given, where the field that is read-only is given as it was.
variable (hkeep : ∀ old given, given.flashEEPROMDetection = old.flashEEPROMDetection → H.keep old given = given)
include hkeep

/-- **Step.**  A call that returns `true` leaves the chip with what it makes of `conf`, and has it written if the chip does
not have that already; any other call does nothing. -/
theorem Varied.step {s : Setting} {a : Ended} (hw : Varied conf w) (h : s.prog.Runs (env H) w a w') :
    (a = .returned true ∧ ∃ c, s.config conf = .ok c ∧ w'.conf = c ∧
      w'.given = if c = w.conf then w.given else w.given ++ [c]) ∨ (a ≠ .returned true ∧ w' = w) := by
  rcases setChannelConfig_run h with ⟨ha, c, hc, hw'⟩ | hsame
  · refine .inl ⟨ha, c, (hw s).symm.trans hc, ?_⟩
    by_cases he : c = w.conf
    · rw [if_pos he] at hw'
      rw [if_pos he, hw']
      exact ⟨he.symm, rfl⟩
    · rw [if_neg he] at hw'
      rw [if_neg he, hw']
      -- the read-only field is written back as it was read
      exact ⟨hkeep _ _ (flash_of_config hc), rfl⟩
  · exact .inr hsame

theorem Varied.run {s : Setting} {a : Ended} (hw : Varied conf w) (h : s.prog.Runs (env H) w a w') :
    Varied conf w' := by
  rcases hw.step hkeep h with ⟨-, c, hc, rfl, -⟩ | ⟨-, rfl⟩
  · exact fun s' => setFt600ChannelConfig_again hc ..
  · exact hw

/-- **Run.**  The chip is written for each configuration that differs from the one before. -/
theorem Varied.trace (h : Trace (env H) Setting.prog w l w') (hw : Varied conf w) :
    (∃ new, w'.given = w.given ++ new ∧ w.conf :: new = (w.conf :: taken conf l).destutter (· ≠ ·)) ∧
      w'.conf = (taken conf l).getLastD w.conf := by
  induction h with
  | nil hm =>
    rw [moves_chip hm]
    exact ⟨⟨[], by simp, by simp [taken]⟩, rfl⟩
  | @cons w v v' w' s a l hm hr _ ih =>
    obtain rfl := moves_chip hm
    obtain ⟨⟨new, hnew, hd⟩, hlast⟩ := ih (hw.run hkeep hr)
    rcases hw.step hkeep hr with ⟨rfl, c, hc, hv, hgiven⟩ | ⟨ha, rfl⟩
    · have htaken : taken conf (⟨s, v, .returned true, v'⟩ :: l) = c :: taken conf l := by
        simp [taken, hc, Except.toOption]
      rw [hv] at hd hlast
      refine ⟨?_, by rw [htaken, hlast, List.getLastD_cons]⟩
      rw [htaken, List.destutter_cons', List.destutter'_cons]
      by_cases he : c = v.conf
      · rw [if_neg (not_not.2 he.symm)]
        refine ⟨new, by rw [hnew, hgiven, if_pos he], ?_⟩
        rw [← he, hd, List.destutter_cons']
      · rw [if_pos (Ne.symm he)]
        refine ⟨c :: new, by rw [hnew, hgiven, if_neg he, List.append_assoc]; rfl, ?_⟩
        rw [hd, List.destutter_cons']
    · have htaken : taken conf (⟨s, v', a, v'⟩ :: l) = taken conf l := by
        simp [taken, ha]
      rw [htaken]
      exact ⟨⟨new, hnew, hd⟩, hlast⟩

/-- **The chip is written when something changes.**  On a chip that keeps what it is given but for the read-only field:
however often `set_channel_config` is called, with any counts, modes and clocks and any failures, of the configurations
that the calls that return `true` make of the first one, the chip is given each that differs from the one before, and no
other, and it has the last of them.  A call that returns `true` leaves the chip with what it sets, and all else as it was
at first; a call that does not leaves it alone. -/
theorem written_once (h : Trace (env H) Setting.prog ⟨conf, []⟩ l w) :
    conf :: w.given = (conf :: taken conf l).destutter (· ≠ ·) ∧ w.conf = (taken conf l).getLastD conf ∧
      ∀ d ∈ l, (d.val = .returned true → Configured d.cmd conf d.after.conf) ∧
        (d.val ≠ .returned true → d.after = d.before) := by
  have hfirst : Varied conf ⟨conf, []⟩ := fun _ => rfl
  obtain ⟨⟨new, hnew, hd⟩, hlast⟩ := hfirst.trace hkeep h
  refine ⟨by rw [hnew]; exact hd, hlast, ?_⟩
  intro d hmem
  obtain ⟨hbefore, hrun, -⟩ := (h.inv (I := Varied conf) (fun _ _ _ hm => False.elim hm)
    (fun _ _ _ _ hv hr => hv.run hkeep hr) hfirst).1 d hmem
  rcases hbefore.step hkeep hrun with ⟨ha, c, hc, hafter, -⟩ | ⟨ha, hafter⟩
  · rw [hafter]
    exact ⟨fun _ => configured hc, fun hne => absurd ha hne⟩
  · exact ⟨fun he => absurd he ha, fun _ => hafter⟩

end Many

/-- The same setting twice: a chip that keeps its read-only field is written once. -/
theorem written_once_twice : ∃ (c : Ft60xConfiguration) (l : List (Done Setting Ended Chip)) (w : Chip),
    l.map Done.val = [.returned true, .returned true] ∧
      Trace (env readOnlyFlash) Setting.prog ⟨.zero, []⟩ l w ∧ w.given = [c] := by
  let s : Setting := ⟨⟨1, 1⟩, true, 0⟩
  have hkeep : ∀ old given, given.flashEEPROMDetection = old.flashEEPROMDetection →
      readOnlyFlash.keep old given = given := by
    intro old given he
    simp only [readOnlyFlash, ← he]
  obtain ⟨c, hc⟩ : ∃ c, s.config .zero = .ok c := ⟨_, rfl⟩
  have hagain : s.config c = .ok c := (setFt600ChannelConfig_again hc ..).trans hc
  have hne : Ft60xConfiguration.zero ≠ c := by
    intro he
    have := (configured hc).mode
    rw [← he] at this
    exact absurd this (by decide)
  have hrun : ∀ {w : Chip}, s.config w.conf = .ok c →
      s.prog.Runs (env readOnlyFlash) w (.returned true) (if c = w.conf then w else w.set readOnlyFlash c) :=
    fun hw => setChannelConfig_runs hw
  have h₁ := hrun (w := ⟨.zero, []⟩) hc
  rw [if_neg (Ne.symm hne), Chip.set, hkeep _ _ (flash_of_config hc)] at h₁
  have h₂ := hrun (w := ⟨c, [] ++ [c]⟩) hagain
  rw [if_pos rfl] at h₂
  have h : Trace (env readOnlyFlash) Setting.prog ⟨.zero, []⟩ [⟨s, _, _, _⟩, ⟨s, _, _, _⟩] _ :=
    .cons (.refl _) h₁ (.cons (.refl _) h₂ (.nil (.refl _)))
  refine ⟨c, _, _, rfl, h, ?_⟩
  have htaken : ∀ v v' v'' : Chip, taken .zero [⟨s, v, .returned true, v'⟩, ⟨s, v', .returned true, v''⟩] = [c, c] := by
    simp [taken, hc, Except.toOption]
  have hw := (written_once hkeep h).1
  rw [htaken, List.destutter_cons', List.destutter'_cons_pos _ hne, List.destutter'_cons_neg _ (not_not.2 rfl)] at hw
  exact List.tail_eq_of_cons_eq hw

end EdUsb.Example
