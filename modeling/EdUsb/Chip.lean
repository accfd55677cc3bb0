import EdUsb.Discipline

/-!
# The configuration of the chip

The chip keeps a configuration, `FT_SetChipConfiguration` gives it a new one, and `FT_Create` finds a device by the serial
number in its string descriptors.  What a chip keeps of what it is given, and what serial number a device goes by that has
no descriptors, is not in the library: `Hardware` has both as parameters.  `reset_device601` writes no descriptors and
`reset_device245` those of a serial number that is not the one that the library asks for, and `reset_default` writes back
what is there.  So a device that is opened by serial number has the descriptors it always had, or none
(`opened_by_serial_iff`).
-/

namespace EdUsb

open EdUsb.Lib Ed

/-! ### The chip -/

/-- What the library relies on and does not do. -/
structure Hardware where
  /-- The configuration of a chip that had `old` and was given `given`. -/
  keep (old given : Ft60xConfiguration) : Ft60xConfiguration
  /-- A device with these string descriptors is found by the serial number. -/
  found (descriptors : Vector UInt8 128) (serialNumber : List UInt8) : Prop

/-- The string descriptors begin with those of a manufacturer, a product and a serial number. -/
def Describes (descriptors : Vector UInt8 128) (m p s : List UInt8) : Prop :=
  descriptor m ++ descriptor p ++ descriptor s <+: descriptors.toList

/-- The chip: its configuration, and those that it was given so far. -/
structure Chip where
  conf : Ft60xConfiguration
  given : List Ft60xConfiguration

namespace Chip

variable (H : Hardware)

def set (w : Chip) (conf : Ft60xConfiguration) : Chip := ⟨H.keep w.conf conf, w.given ++ [conf]⟩

/-- The device is found under what is asked for. -/
def Found (w : Chip) : PvArg → UInt32 → Prop
  | .serial s, dwFlags => dwFlags = ftOpenBySerialNumber → H.found w.conf.stringDescriptors (cString s)
  | .null, _ => True

/-- A call that fails changes nothing. -/
def ans (w : Chip) : (o : Op) → o.Ans → Chip → Prop
  | .ft (.setChipConfiguration _ conf), s, w' => w' = if s = ftOk then w.set H conf else w
  | .ft (.getChipConfiguration _), g, w' => (ChipConf.status g = ftOk → ChipConf.conf g = some w.conf) ∧ w' = w
  | .ft (.create pvArg dwFlags), r, w' => (Created.status r = ftOk → w.Found H pvArg dwFlags) ∧ w' = w
  | _, _, w' => w' = w

def env : Env Op Op.Ans Chip where
  ans := ans H
  move _ _ := False

end Chip

/-! ### The string descriptors of the resets -/

theorem asked_reset245 :
    Asked (cString "FIFO") (cString "FIDI SuperSpeed-FIFO Bridge") (cString "000000000000001") := by
  refine ⟨⟨?_, ?_, ?_⟩, ⟨?_, ?_, ?_⟩, ⟨?_, ?_, ?_⟩⟩ <;> decide +kernel

theorem describes_reset245 : Describes reset245.stringDescriptors (cString "FIFO") (cString "FIDI SuperSpeed-FIFO Bridge")
    (cString "000000000000001") := by
  rw [Describes, reset245, setStringDescriptorsExample_of_asked asked_reset245]
  decide +kernel

/-! ### What a call does to the chip -/

/-- The calls that do not set the configuration. -/
def Op.Keeps : Op → Prop
  | .ft (.setChipConfiguration ..) => False
  | _ => True

section Calls

variable {α : Type} {H : Hardware} {w w' : Chip} {a : α} {addr addr' : UsbAddr}

theorem moves_chip {v : Chip} (h : (Chip.env H).Moves w v) : v = w := h.eq fun _ _ hm => hm

theorem keeps_run {p : Ed α} (hp : p.Calls Op.Keeps) (h : p.Runs (Chip.env H) w a w') : w' = w := by
  refine hp.inv (I := (· = w)) ?_ (fun _ _ _ hm => False.elim hm) h rfl
  rintro v o r u rfl ho ha
  cases o with
  | ft c => cases c <;> first | exact ho.elim | exact ha | exact ha.2
  | errno => exact ha
  | undef l => exact ha

theorem keeps_bind {β : Type} {p : Ed β} (hp : p.Calls Op.Keeps) {f : β → Ed α}
    (h : (p >>= f).Runs (Chip.env H) w a w') : ∃ b, (f b).Runs (Chip.env H) w a w' := by
  obtain ⟨b, v, hb, hf⟩ := Prog.runs_bind.1 h
  obtain rfl := keeps_run hp hb
  exact ⟨b, hf⟩

theorem ft_run {c : FtCall} {f : c.Ans → Ed α} (h : (ft c >>= f).Runs (Chip.env H) w a w') :
    ∃ r v, Chip.ans H w (.ft c) r v ∧ (f r).Runs (Chip.env H) v a w' := by
  obtain ⟨v, r, u, hm, ha, h⟩ := h
  obtain rfl := moves_chip hm
  exact ⟨r, u, ha, h⟩

/-- The configuration is set, or the call fails and nothing happens. -/
theorem set_run {h : FtHandle} {conf : Ft60xConfiguration} {f : FtStatus → Ed α} (hf : ∀ s, (f s).Calls Op.Keeps)
    (hr : (ft (.setChipConfiguration h conf) >>= f).Runs (Chip.env H) w a w') : w' = w ∨ w' = w.set H conf := by
  obtain ⟨s, u, hu, hr⟩ := ft_run hr
  change u = if (s : FtStatus) = ftOk then w.set H conf else w at hu
  rw [keeps_run (hf s) hr, hu]
  split
  · exact .inr rfl
  · exact .inl rfl

theorem transfers_keeps {h : FtHandle} {o : Op} (ho : o.Transfers h) : o.Keeps := by
  cases o with
  | ft c => cases c <;> first | exact ho.elim | trivial
  | errno => trivial
  | undef l => trivial

theorem opens_keeps {o : Op} (ho : o.Opens) : o.Keeps := by
  cases o with
  | ft c => cases c <;> first | exact ho.elim | trivial
  | errno => trivial
  | undef l => trivial

theorem ftCreateWrapper_keeps (pvArg : PvArg) (dwFlags : UInt32) : (ftCreateWrapper pvArg dwFlags).Calls Op.Keeps :=
  (ftCreateWrapper_calls ..).mono fun _ => opens_keeps

theorem ftCloseWrapper_keeps (h : FtHandle) : (ftCloseWrapper h >>= fun _ => (.ret () : Ed Unit)).Calls Op.Keeps :=
  ⟨trivial, fun _ => trivial⟩

/-! ### What a maintenance function does to the chip -/

/-- What a maintenance function may give the chip. -/
def Maintenance.Gives (w : Chip) : Maintenance → Ft60xConfiguration → Prop
  | .resetDevice601, conf => conf = reset601
  | .resetDevice245, conf => conf = reset245
  | .resetDefault, conf => conf = w.conf
  | _, _ => False

theorem reset_keeps {h : FtHandle} (s : FtStatus) :
    (if s ≠ ftOk then .ret () else ftCloseWrapper h >>= fun _ => (.ret () : Ed Unit)).Calls Op.Keeps := by
  split
  · trivial
  · exact ftCloseWrapper_keeps h

theorem setChip_run {conf : Ft60xConfiguration} {a : Unit} (h : (setChip conf).Runs (Chip.env H) w a w') :
    w' = w ∨ w' = w.set H conf := by
  obtain ⟨g, h⟩ := keeps_bind (p := undef .handle) ⟨trivial, fun _ => trivial⟩ h
  obtain ⟨r, h⟩ := keeps_bind (ftCreateWrapper_keeps ..) h
  split at h
  · exact .inl (moves_chip h.2)
  · exact set_run reset_keeps h

theorem resetDefault_run {a : Unit} (h : resetDefault.Runs (Chip.env H) w a w') : w' = w ∨ w' = w.set H w.conf := by
  obtain ⟨g, h⟩ := keeps_bind (p := undef .handle) ⟨trivial, fun _ => trivial⟩ h
  obtain ⟨r, h⟩ := keeps_bind (ftCreateWrapper_keeps ..) h
  split at h
  · exact .inl (moves_chip h.2)
  · obtain ⟨s, u, rfl, hget⟩ := ft_run h
    -- what is read is what the chip holds, and that is what is written back
    obtain ⟨c, v, ⟨hconf, rfl⟩, hset⟩ := ft_run hget
    by_cases hok : ChipConf.status c = ftOk
    · simp only [ne_eq, hok, not_true_eq_false, if_false] at hset
      have hread : (ChipConf.conf c).getD .zero = v.conf := by
        rw [hconf hok]
        rfl
      rw [hread] at hset
      exact set_run (fun s => by split <;> exact ftCloseWrapper_keeps _) hset
    · simp only [ne_eq, hok, not_false_eq_true, if_true] at hset
      exact .inl (moves_chip hset.2)

theorem resetDevicenull_run {a : Unit} (h : resetDevicenull.Runs (Chip.env H) w a w') : w' = w := by
  obtain ⟨g, h⟩ := keeps_bind (p := undef .handle) ⟨trivial, fun _ => trivial⟩ h
  obtain ⟨r, h⟩ := keeps_bind (ftCreateWrapper_keeps ..) h
  split at h
  · exact moves_chip h.2
  · exact keeps_run (ftCloseWrapper_keeps _) h

theorem getChipConfiguration_run {a : Unit} (h : getChipConfiguration.Runs (Chip.env H) w a w') : w' = w := by
  obtain ⟨g, h⟩ := keeps_bind (p := undef .handle) ⟨trivial, fun _ => trivial⟩ h
  obtain ⟨r, h⟩ := keeps_bind (ftCreateWrapper_keeps ..) h
  split at h
  · exact moves_chip h.2
  · obtain ⟨c, v, ⟨-, rfl⟩, hget⟩ := ft_run h
    split at hget
    · exact moves_chip hget.2
    · exact keeps_run (ftCloseWrapper_keeps _) hget

theorem maintenance_run {m : Maintenance} {a : Unit} (h : m.prog.Runs (Chip.env H) w a w') :
    w' = w ∨ ∃ conf, m.Gives w conf ∧ w' = w.set H conf := by
  cases m with
  | sdkInfo =>
    refine .inl (keeps_run ?_ h)
    simp [Maintenance.prog, sdkInfo, setTransConf, ft, undef, Prog.Calls, Op.Keeps]
  | resetDevice601 =>
    rw [Maintenance.prog, resetDevice601_eq] at h
    exact (setChip_run h).imp_right fun he => ⟨_, rfl, he⟩
  | resetDevice245 =>
    rw [Maintenance.prog, resetDevice245_eq] at h
    exact (setChip_run h).imp_right fun he => ⟨_, rfl, he⟩
  | resetDevicenull => exact .inl (resetDevicenull_run h)
  | resetDefault => exact (resetDefault_run h).imp_right fun he => ⟨_, rfl, he⟩
  | getChipConfiguration => exact .inl (getChipConfiguration_run h)

/-! ### What a call of the library does to the chip -/

theorem chip_run {c : LibCall} {a : Int32} (h : (c.prog addr).Runs (Chip.env H) w (a, addr') w') :
    w' = w ∨ ∃ m conf, c = .maintenance m ∧ m.Gives w conf ∧ w' = w.set H conf := by
  cases c with
  | handle c => exact .inl (keeps_run ((HandleCall.calls c addr).mono fun _ => opens_keeps) h)
  | command c =>
    obtain ⟨b, v, hb, -, hm⟩ := Prog.runs_bind.1 h
    rw [moves_chip hm]
    exact .inl (keeps_run ((Command.calls addr c).mono fun _ => transfers_keeps) hb)
  | recv c repeatIndex data len timeout =>
    obtain ⟨b, v, hb, -, hm⟩ := Prog.runs_bind.1 h
    rw [moves_chip hm]
    by_cases hi : repeatIndex < c.repeatCount.toUInt32.toInt32
    · exact .inl (keeps_run ((recv_calls addr hi ..).mono fun _ => transfers_keeps) hb)
    · simp [usbStartRecvRepeatN, hi] at hb
  | maintenance m =>
    obtain ⟨b, v, hb, -, hm⟩ := Prog.runs_bind.1 h
    obtain rfl := moves_chip hm
    rcases maintenance_run hb with he | ⟨conf, hg, he⟩
    · exact .inl he
    · exact .inr ⟨m, conf, rfl, hg, he⟩

/-- A handle is opened by serial number only if the device is found by it. -/
theorem found_of_createWithSerialNum (h0 : addr.handle = 0)
    (h : (usbCreateHandleWithSerialNum addr).Runs (Chip.env H) w (0, addr') w') :
    H.found w.conf.stringDescriptors (cString "000000000001") := by
  rw [usbCreateHandleWithSerialNum_eq, openInto, if_neg (not_not.2 h0), ftCreateWrapper, Prog.bind_assoc] at h
  obtain ⟨_, h⟩ := keeps_bind (setTransConf_calls.mono fun _ ho => opens_keeps ho.opens) h
  obtain ⟨r, v, ⟨hr, rfl⟩, hret⟩ := ft_run h
  refine hr ?_ rfl
  by_contra hne
  simp only [ne_eq, hne, not_false_eq_true, if_true] at hret
  have hs : (Created.status r).toInt32 = 0 := (Prod.mk.inj hret.1).1
  exact toInt32_ne_zero hne hs

theorem ft_runs {c : FtCall} {f : c.Ans → Ed α} {r : c.Ans} {v : Chip} (ha : Chip.ans H w (.ft c) r v)
    (hf : (f r).Runs (Chip.env H) v a w') : (ft c >>= f).Runs (Chip.env H) w a w' :=
  ⟨w, r, v, .refl w, ha, hf⟩

/-- `FT_Create` succeeds if the device is found. -/
theorem ftCreateWrapper_runs {pvArg : PvArg} {dwFlags : UInt32} (h : w.Found H pvArg dwFlags)
    {f : Created → Ed α} (hf : (f ⟨ftOk, some 1⟩).Runs (Chip.env H) w a w') :
    (ftCreateWrapper pvArg dwFlags >>= f).Runs (Chip.env H) w a w' := by
  have hconf : setTransConf.Runs (Chip.env H) w () w :=
    ⟨w, default, w, .refl w, rfl, w, ftOk, w, .refl w, rfl, w, ftOk, w, .refl w, rfl, w, ftOk, w, .refl w, rfl,
      w, ftOk, w, .refl w, rfl, rfl, .refl w⟩
  rw [ftCreateWrapper, Prog.bind_assoc]
  exact Prog.runs_bind.2 ⟨(), w, hconf, ft_runs ⟨fun _ => h, rfl⟩ hf⟩

/-- A device that is found by the serial number may be opened by it. -/
theorem createWithSerialNum_of_found (h0 : addr.handle = 0)
    (h : H.found w.conf.stringDescriptors (cString "000000000001")) :
    (usbCreateHandleWithSerialNum addr).Runs (Chip.env H) w (0, ⟨1⟩) w := by
  have hfound : w.Found H (.serial "000000000001") ftOpenBySerialNumber := fun _ => h
  rw [usbCreateHandleWithSerialNum_eq, openInto, if_neg (not_not.2 h0)]
  exact ftCreateWrapper_runs hfound ⟨rfl, .refl w⟩

/-- A reset takes effect where no call fails. -/
theorem setChip_runs (conf : Ft60xConfiguration) : (setChip conf).Runs (Chip.env H) w () (w.set H conf) := by
  have hfound : w.Found H .null ftOpenByIndex := trivial
  refine ⟨w, 0, w, .refl w, rfl, ftCreateWrapper_runs hfound ?_⟩
  exact ft_runs (r := ftOk) rfl (ft_runs (r := ftOk) rfl ⟨rfl, .refl _⟩)

theorem resetDefault_runs : resetDefault.Runs (Chip.env H) w () (w.set H w.conf) := by
  have hfound : w.Found H .null ftOpenByIndex := trivial
  refine ⟨w, 0, w, .refl w, rfl, ftCreateWrapper_runs hfound ?_⟩
  refine ft_runs (r := ftOk) rfl (ft_runs (r := ⟨ftOk, some w.conf⟩) ⟨fun _ => rfl, rfl⟩ ?_)
  exact ft_runs (r := ftOk) rfl (ft_runs (r := ftOk) rfl ⟨rfl, .refl _⟩)

/-! ### What the chip was given -/

/-- The chip has the descriptors that it was given last, or those that it had at first, and they are those that it was given
all the time or those of a reset. -/
structure Chip.Reset (conf : Ft60xConfiguration) (w : Chip) : Prop where
  held : w.conf.stringDescriptors = (w.given.getLast?.getD conf).stringDescriptors
  known : (∀ c ∈ w.given, c.stringDescriptors = conf.stringDescriptors) ∨
    w.conf.stringDescriptors = reset601.stringDescriptors ∨ w.conf.stringDescriptors = reset245.stringDescriptors

theorem Chip.Reset.held_eq {conf : Ft60xConfiguration} (hw : w.Reset conf)
    (hall : ∀ c ∈ w.given, c.stringDescriptors = conf.stringDescriptors) :
    w.conf.stringDescriptors = conf.stringDescriptors := by
  rw [hw.held]
  cases hl : w.given.getLast? with
  | none => rfl
  | some c => exact hall c (List.mem_of_getLast? hl)

/-- **Step.**  Only the resets write new descriptors. -/
theorem Chip.Reset.step {conf : Ft60xConfiguration} {c : LibCall} {a : Int32}
    (hkeep : ∀ old given, (H.keep old given).stringDescriptors = given.stringDescriptors) (hw : w.Reset conf)
    (h : (c.prog addr).Runs (Chip.env H) w (a, addr') w') : w'.Reset conf := by
  rcases chip_run h with rfl | ⟨m, conf', -, hg, rfl⟩
  · exact hw
  have hheld : (w.set H conf').conf.stringDescriptors = conf'.stringDescriptors := hkeep ..
  constructor
  · rw [hheld]
    simp [Chip.set]
  rw [hheld]
  cases m with
  | resetDevice601 =>
    obtain rfl : conf' = reset601 := hg
    exact .inr (.inl rfl)
  | resetDevice245 =>
    obtain rfl : conf' = reset245 := hg
    exact .inr (.inr rfl)
  | resetDefault =>
    obtain rfl : conf' = w.conf := hg
    refine hw.known.imp_left fun hall c hc => ?_
    rcases List.mem_append.1 hc with hc | hc
    · exact hall c hc
    · rw [List.mem_singleton.1 hc]
      exact hw.held_eq hall
  | sdkInfo => exact hg.elim
  | resetDevicenull => exact hg.elim
  | getChipConfiguration => exact hg.elim

/-- **Opening by serial number**: on hardware that keeps the string descriptors it is given and does not find a device by
another serial number than that in its descriptors.  However the functions of the library were called on a chip that had the
configuration `conf` at first, `usb_create_handle_with_serial_num` may open a handle exactly if the chip was given the
descriptors of `conf` only and a device with them is found, or if it was given those of `reset_device601` last and one with
them is; never if it was given those of `reset_device245` last. -/
theorem opened_by_serial_iff {conf : Ft60xConfiguration} {l : List (Done LibCall Int32 (UsbAddr × Chip))}
    (hkeep : ∀ old given, (H.keep old given).stringDescriptors = given.stringDescriptors)
    (hfound : ∀ d m p s t, Asked m p s → Describes d m p s → H.found d t → t = s)
    (h : Chain (Chip.env H) LibCall.prog (addr, ⟨conf, []⟩) l (addr', w)) (h0 : addr'.handle = 0) :
    ((∃ x v, (usbCreateHandleWithSerialNum addr').Runs (Chip.env H) w (0, x) v) ↔
      (∀ c ∈ w.given, c.stringDescriptors = conf.stringDescriptors) ∧
          H.found conf.stringDescriptors (cString "000000000001") ∨
        (∃ c ∈ w.given.getLast?, c.stringDescriptors = reset601.stringDescriptors) ∧
          H.found reset601.stringDescriptors (cString "000000000001")) ∧
      ∀ c ∈ w.given.getLast?, c.stringDescriptors = reset245.stringDescriptors →
        ¬ ∃ x v, (usbCreateHandleWithSerialNum addr').Runs (Chip.env H) w (0, x) v := by
  have hw : w.Reset conf := by
    refine (Chain.inv (I := fun x => x.2.Reset conf) ?_ ?_ h ⟨rfl, .inl (by simp)⟩).2
    · intro s w v hw hm
      exact False.elim hm
    · intro c s w a s' v hw hr
      exact hw.step hkeep hr
  -- the serial number of `reset_device245` is another
  have h245 : ¬ H.found reset245.stringDescriptors (cString "000000000001") := by
    intro hs
    exact absurd (hfound _ _ _ _ _ asked_reset245 describes_reset245 hs) (by decide)
  refine ⟨⟨?_, ?_⟩, ?_⟩
  · rintro ⟨x, v, hr⟩
    have hs := found_of_createWithSerialNum h0 hr
    by_cases hall : ∀ c ∈ w.given, c.stringDescriptors = conf.stringDescriptors
    · rw [hw.held_eq hall] at hs
      exact .inl ⟨hall, hs⟩
    · rcases hw.known.resolve_left hall with he | he
      · rw [he] at hs
        refine .inr ⟨?_, hs⟩
        cases hl : w.given.getLast? with
        | none => exact absurd (by simp [List.getLast?_eq_none_iff.1 hl]) hall
        | some c => exact ⟨c, rfl, by rw [← he, hw.held, hl, Option.getD_some]⟩
      · rw [he] at hs
        exact absurd hs h245
  · rintro (⟨hall, hs⟩ | ⟨⟨c, hl, hc⟩, hs⟩)
    · rw [← hw.held_eq hall] at hs
      exact ⟨_, _, createWithSerialNum_of_found h0 hs⟩
    · refine ⟨_, _, createWithSerialNum_of_found h0 ?_⟩
      rw [hw.held, Option.mem_def.1 hl, Option.getD_some, hc]
      exact hs
  · rintro c hl hc ⟨x, v, hr⟩
    have hs := found_of_createWithSerialNum h0 hr
    rw [hw.held, Option.mem_def.1 hl, Option.getD_some, hc] at hs
    exact h245 hs

end Calls

/-! ### A chip with a read-only field -/

/-- The string of the descriptor in front, and what follows it. -/
def nextDescriptor : List UInt8 → Option (List UInt8 × List UInt8)
  | n :: 3 :: l =>
    (units (l.take (n.toNat - 2))).map fun x => (x.map UInt16.toUInt8, l.drop (n.toNat - 2))
  | _ => none

/-- The string of the third descriptor. -/
def thirdString (l : List UInt8) : Option (List UInt8) := do
  let (_, l) ← nextDescriptor l
  let (_, l) ← nextDescriptor l
  let (s, _) ← nextDescriptor l
  return s

/-- A chip that keeps `FlashEEPROMDetection`, in a device that goes by `000000000001` where it has no descriptors. -/
def readOnlyFlash : Hardware where
  keep old given := { given with flashEEPROMDetection := old.flashEEPROMDetection }
  found descriptors serialNumber := serialNumber = (thirdString descriptors.toList).getD (cString "000000000001")

theorem nextDescriptor_append {s : List UInt8} (hs : s.length < 127) (rest : List UInt8) :
    nextDescriptor (descriptor s ++ rest) = some (s, rest) := by
  have hn : (UInt8.ofNat ((s.flatMap fun c => [c, 0]).length + 2)).toNat - 2 = (s.flatMap fun c => [c, 0]).length := by
    rw [UInt8.toNat_ofNat', payload_length]
    omega
  simp only [descriptor, record, List.cons_append, nextDescriptor, hn, List.take_left, List.drop_left, units_map,
    Option.map_some, List.map_map]
  simp [Function.comp_def]

theorem thirdString_describes {d : Vector UInt8 128} {m p s : List UInt8} (h : Asked m p s) (hd : Describes d m p s) :
    thirdString d.toList = some s := by
  obtain ⟨⟨-, hm, -⟩, ⟨-, hp, -⟩, ⟨-, hs, -⟩⟩ := h
  obtain ⟨rest, hrest⟩ := hd
  rw [← hrest, List.append_assoc, List.append_assoc, thirdString, nextDescriptor_append (by omega)]
  simp only [Option.bind_eq_bind, Option.bind_some]
  rw [nextDescriptor_append (by omega)]
  simp only [Option.bind_some]
  rw [nextDescriptor_append (by omega)]
  rfl

/-- The chip after a reset and `reset_default`. -/
def written (conf reset : Ft60xConfiguration) : Chip :=
  let w := Chip.set readOnlyFlash ⟨conf, []⟩ reset
  w.set readOnlyFlash w.conf

theorem written_chain {m : Maintenance} {reset : Ft60xConfiguration} (hm : m.prog = setChip reset)
    (conf : Ft60xConfiguration) : ∃ l, l.map Done.cmd = [.maintenance m, .maintenance .resetDefault] ∧
      Chain (Chip.env readOnlyFlash) LibCall.prog (⟨0⟩, ⟨conf, []⟩) l (⟨0⟩, written conf reset) := by
  have hreset : m.prog.Runs (Chip.env readOnlyFlash) ⟨conf, []⟩ () (Chip.set readOnlyFlash ⟨conf, []⟩ reset) := by
    rw [hm]
    exact setChip_runs reset
  refine ⟨[⟨.maintenance m, (⟨0⟩, _), 0, (⟨0⟩, _)⟩, ⟨.maintenance .resetDefault, (⟨0⟩, _), 0, (⟨0⟩, _)⟩], rfl,
    .cons (.refl _) (Prog.runs_bind.2 ⟨(), _, hreset, rfl, .refl _⟩) (.cons (.refl _) ?_ (.nil (.refl _)))⟩
  exact Prog.runs_bind.2 ⟨(), _, resetDefault_runs, rfl, .refl _⟩

/-- After `reset_device601` and `reset_default` such a chip was given another configuration than that of the reset last, and
is still found; after `reset_device245` and `reset_default` it is not. -/
theorem opened_by_serial_iff_readOnly : ∃ conf : Ft60xConfiguration,
    (∃ l w, l.map Done.cmd = [.maintenance .resetDevice601, .maintenance .resetDefault] ∧
      Chain (Chip.env readOnlyFlash) LibCall.prog (⟨0⟩, ⟨conf, []⟩) l (⟨0⟩, w) ∧ w.given.getLast? ≠ some reset601 ∧
      ∃ x v, (usbCreateHandleWithSerialNum ⟨0⟩).Runs (Chip.env readOnlyFlash) w (0, x) v) ∧
    ∃ l w, l.map Done.cmd = [.maintenance .resetDevice245, .maintenance .resetDefault] ∧
      Chain (Chip.env readOnlyFlash) LibCall.prog (⟨0⟩, ⟨conf, []⟩) l (⟨0⟩, w) ∧
      ¬ ∃ x v, (usbCreateHandleWithSerialNum ⟨0⟩).Runs (Chip.env readOnlyFlash) w (0, x) v := by
  let conf : Ft60xConfiguration := { Ft60xConfiguration.zero with flashEEPROMDetection := 1 }
  have hkeep : ∀ old given, (readOnlyFlash.keep old given).stringDescriptors = given.stringDescriptors := fun _ _ => rfl
  have hfound : ∀ d m p s t, Asked m p s → Describes d m p s → readOnlyFlash.found d t → t = s := by
    intro d m p s t ha hd ht
    rw [ht, thirdString_describes ha hd, Option.getD_some]
  have hnone : thirdString reset601.stringDescriptors.toList = none := by decide +kernel
  obtain ⟨l₁, hl₁, h₁⟩ := written_chain (m := .resetDevice601) resetDevice601_eq conf
  obtain ⟨l₂, hl₂, h₂⟩ := written_chain (m := .resetDevice245) resetDevice245_eq conf
  refine ⟨conf, ⟨l₁, _, hl₁, h₁, ?_, ?_⟩, l₂, _, hl₂, h₂, fun ho => ?_⟩
  · intro he
    have := congrArg Ft60xConfiguration.flashEEPROMDetection (Option.some_inj.1 he)
    exact absurd this (by decide)
  · refine (opened_by_serial_iff hkeep hfound h₁ rfl).1.2 (.inr ⟨⟨_, rfl, rfl⟩, ?_⟩)
    show _ = (thirdString reset601.stringDescriptors.toList).getD _
    rw [hnone, Option.getD_none]
  · exact (opened_by_serial_iff hkeep hfound h₂ rfl).2 _ rfl rfl ho

end EdUsb
