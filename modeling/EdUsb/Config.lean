import EdUsb.Defs
import EdUsb.Lib.CString
import EdUsb.Lib.Prog
import EdUsb.Lib.Stream

/-!
# config.c

Saving asks for operations on the file that may fail or do half of their work, so it is a program over them (`FileOp`);
reading a file is a function of it.  The text of a line and the bytes of `buf` are C strings.
-/

namespace EdUsb

open EdUsb.Lib

/-! ## Keys -/

def keySampleCount : List UInt8 := cString "sample_count"
def keyDelayCount : List UInt8 := cString "delay_count"
def keyRepeatCount : List UInt8 := cString "repeat_count"
def keyDownSampleCount : List UInt8 := cString "down_sample_count"
def keyAdChannel : List UInt8 := cString "ad_channel"
def keyAdBit : List UInt8 := cString "ad_bit"
def keyTrigger : List UInt8 := cString "trigger"
def keyOuterTrigger : List UInt8 := cString "outer_trigger"

/-! ## Defaults -/

/-- `usb_load_default_config` -/
def usbLoadDefaultConfig (c : UsbConfig) : UsbConfig :=
  { c with
    sampleCount := 1000000
    downSampleCount := 2
    delayCount := 320000
    repeatCount := 3
    adChannel := usbAdchannelSingle
    adBit := usbAdbit12
    trigger := usbTriggerInner
    outerTrigger := usbOuterTriggerDown }

/-- The default configuration, with its addresses left at zero. -/
def defaultConfig : UsbConfig := usbLoadDefaultConfig
  { sampleCount := 0, delayCount := 0, repeatCount := 0, downSampleCount := 0
    localIp := .replicate 32 0, localPort := 0, deviceIp := .replicate 32 0, devicePort := 0
    adChannel := 0, adBit := 0, trigger := 0, outerTrigger := 0
    newLocalIp := .replicate 32 0, newLocalPort := 0 }

/-! ## Saving -/

/-- What `write_config` does to its file. -/
inductive FileOp where
  | ftruncate (length : ℕ)
  | fprintf (text : List UInt8)
  | fflush

/-- Every operation returns an `int`. -/
abbrev FileOp.Ans (_ : FileOp) : Type := Int32

abbrev Saving := Prog FileOp FileOp.Ans

def fileOp (o : FileOp) : Saving Int32 := .call o .ret

/-- `fprintf(config_file, "%s=%d\n", key, value)`, the whole of each `_write_config_prop_…` -/
def writeConfigProp (key : List UInt8) (value : Int32) : Saving Bool := do
  let _ ← fileOp (.fprintf (key ++ 0x3D :: printInt value.toInt ++ [0x0A]))
  return true

/-- `_write_config_prop_uint32`: `%d` takes the number for an `int` -/
def writeConfigPropUint32 (key : List UInt8) (value : UInt32) : Saving Bool := writeConfigProp key value.toInt32

/-- `_write_config_prop_uint16` -/
def writeConfigPropUint16 (key : List UInt8) (value : UInt16) : Saving Bool :=
  writeConfigProp key value.toUInt32.toInt32

/-- `_write_config_prop_short` -/
def writeConfigPropShort (key : List UInt8) (value : Int16) : Saving Bool := writeConfigProp key value.toInt32

/-- `write_config` -/
def writeConfig (c : UsbConfig) : Saving Int32 := do
  let _ ← fileOp (.ftruncate 0)
  let _ ← writeConfigPropUint32 keySampleCount c.sampleCount
  let _ ← writeConfigPropUint32 keyDelayCount c.delayCount
  let _ ← writeConfigPropUint16 keyRepeatCount c.repeatCount
  let _ ← writeConfigPropUint16 keyDownSampleCount c.downSampleCount
  let _ ← writeConfigPropShort keyAdChannel c.adChannel
  let _ ← writeConfigPropShort keyAdBit c.adBit
  let _ ← writeConfigPropShort keyTrigger c.trigger
  let _ ← writeConfigPropShort keyOuterTrigger c.outerTrigger
  let _ ← fileOp .fflush
  return usbWriteConfigSuccess

/-! ## Loading -/

/-- `has_prefix` -/
def hasPrefix (str pre : List UInt8) : Bool :=
  if str.length < pre.length then false else decide (pre = str.take pre.length)

/-- `atoi`: the number at the front of the string, reduced to an `int`.  C leaves it undefined for a number beyond 64 bits
(glibc saturates there); that it is reduced modulo `2 ^ 32` there too is an assumption. -/
def atoi (s : List UInt8) : Int32 := Int32.ofInt (parseInt s)

/-- The number after the first `=`, or `0`, which each `_read_config_prop_…` stores. -/
def readConfigProp (buf : List UInt8) : Int32 :=
  match strchr buf 0x3D with
  | some pos => atoi (pos.drop 1)
  | none => 0

/-- `_read_config_prop_uint32` -/
def readConfigPropUint32 (buf : List UInt8) : UInt32 := (readConfigProp buf).toUInt32

/-- `_read_config_prop_uint16` -/
def readConfigPropUint16 (buf : List UInt8) : UInt16 := (readConfigProp buf).toUInt32.toUInt16

/-- `_read_config_prop_short` -/
def readConfigPropShort (buf : List UInt8) : Int16 := (readConfigProp buf).toInt16

/-- The body of the loop of `load_config`. -/
def loadLine (c : UsbConfig) (buf : List UInt8) : UsbConfig :=
  let c := if hasPrefix buf keySampleCount then { c with sampleCount := readConfigPropUint32 buf } else c
  let c := if hasPrefix buf keyDelayCount then { c with delayCount := readConfigPropUint32 buf } else c
  let c := if hasPrefix buf keyRepeatCount then { c with repeatCount := readConfigPropUint16 buf } else c
  let c := if hasPrefix buf keyDownSampleCount then { c with downSampleCount := readConfigPropUint16 buf } else c
  let c := if hasPrefix buf keyAdChannel then { c with adChannel := readConfigPropShort buf } else c
  let c := if hasPrefix buf keyAdBit then { c with adBit := readConfigPropShort buf } else c
  let c := if hasPrefix buf keyTrigger then { c with trigger := readConfigPropShort buf } else c
  let c := if hasPrefix buf keyOuterTrigger then { c with outerTrigger := readConfigPropShort buf } else c
  c

/-- `load_config`: what it returns, and the configuration and the file it leaves -/
def loadConfig (c : UsbConfig) (configFile : File) : Int32 × UsbConfig × File :=
  let r := configFile.rewind.whileFgets 128 (fun c buf => loadLine c (terminated buf)) c
  (usbReadConfigSuccess, r.1, r.2)

end EdUsb
