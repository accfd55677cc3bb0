import Mathlib.Data.List.Basic

/-!
# The data of the library

The structures of `ed.h` and of the headers of the D3XX driver, as far as the code reads or writes them, and their
constants.  `unsigned int`, `DWORD`, `ULONG` and `BOOL` are 32 bits, `USHORT` and `WORD` 16, `UCHAR` and `BYTE` 8,
`size_t` 64; `short` and `int` are two's complement.  A pointer to a device is a 64-bit number, `0` for null.
-/

namespace EdUsb

/-! ## ed.h -/

/-- `usb_config_t` -/
structure UsbConfig where
  sampleCount : UInt32
  delayCount : UInt32
  repeatCount : UInt16
  downSampleCount : UInt16
  localIp : Vector UInt8 32
  localPort : UInt32
  deviceIp : Vector UInt8 32
  devicePort : UInt32
  adChannel : Int16
  adBit : Int16
  trigger : Int16
  outerTrigger : Int16
  newLocalIp : Vector UInt8 32
  newLocalPort : UInt32
  deriving DecidableEq

/-- `FT_HANDLE`, a `void *` -/
abbrev FtHandle := UInt64

/-- `usb_addr_t` -/
structure UsbAddr where
  handle : FtHandle
  deriving DecidableEq

def usbConnectSuccess : Int32 := 0
def usbConnectFail : Int32 := 1
def usbConnectVerifyErr : Int32 := 2

def usbSendConfigSuccess : Int32 := 0
def usbSendConfigFail : Int32 := 10001
def usbSendConfigVerifyErr : Int32 := 10003

def usbWriteConfigFail : Int32 := -1
def usbWriteConfigSuccess : Int32 := 0

def usbReadConfigSuccess : Int32 := 0
def usbReadConfigFail : Int32 := -1

def usbStartCollectSuccess : Int32 := 0
def usbStartCollectFail : Int32 := 10001

def usbStopCollectSuccess : Int32 := 0
def usbStopCollectFail : Int32 := 10001
def usbStopCollectVerifyFail : Int32 := 10002

def usbAdchannelSingle : Int16 := 1
def usbAdbit12 : Int16 := 12
def usbTriggerOuter : Int16 := 0
def usbTriggerInner : Int16 := 1
def usbOuterTriggerDown : Int16 := 0

/-! ## ftd3xx.h -/

/-- `FT_STATUS`: any value of its type, not only the named ones -/
abbrev FtStatus := UInt32

def ftOk : FtStatus := 0

/-- `FT_FAILED(status)` -/
def ftFailed (status : FtStatus) : Bool := status != ftOk

/-- `FT_IS_READ_PIPE(ucPipeID)` -/
def ftIsReadPipe (ucPipeID : UInt8) : Bool := ucPipeID &&& 0x80 != 0

def ftOpenBySerialNumber : UInt32 := 0x1
def ftOpenByIndex : UInt32 := 0x10

/-- `FT_PIPE_TRANSFER_CONF` -/
structure FtPipeTransferConf where
  fPipeNotUsed : UInt32
  fNonThreadSafeTransfer : UInt32
  bURBCount : UInt8
  wURBBufferCount : UInt16
  dwURBBufferSize : UInt32
  dwStreamingSize : UInt32
  deriving DecidableEq, Inhabited

/-- `FT_TRANSFER_CONF` -/
structure FtTransferConf where
  wStructSize : UInt16
  pipe : Vector FtPipeTransferConf 2
  fStopReadingOnURBUnderrun : UInt32
  fBitBangMode : UInt32
  fKeepDeviceSideBufferAfterReopen : UInt32
  deriving DecidableEq, Inhabited

/-- `FT_60XCONFIGURATION` -/
structure Ft60xConfiguration where
  vendorID : UInt16
  productID : UInt16
  stringDescriptors : Vector UInt8 128
  bInterval : UInt8
  powerAttributes : UInt8
  powerConsumption : UInt16
  reserved2 : UInt8
  fifoClock : UInt8
  fifoMode : UInt8
  channelConfig : UInt8
  optionalFeatureSupport : UInt16
  batteryChargingGPIOConfig : UInt8
  flashEEPROMDetection : UInt8
  msioControl : UInt32
  gpioControl : UInt32
  deriving DecidableEq

/-- `{ 0 }` -/
def Ft60xConfiguration.zero : Ft60xConfiguration where
  vendorID := 0
  productID := 0
  stringDescriptors := .replicate 128 0
  bInterval := 0
  powerAttributes := 0
  powerConsumption := 0
  reserved2 := 0
  fifoClock := 0
  fifoMode := 0
  channelConfig := 0
  optionalFeatureSupport := 0
  batteryChargingGPIOConfig := 0
  flashEEPROMDetection := 0
  msioControl := 0
  gpioControl := 0

def configurationDefaultVendorID : UInt16 := 0x0403
def configurationDefaultProductID601 : UInt16 := 0x601F
def configurationDefaultPowerAttributes : UInt8 := 0xE0
def configurationDefaultPowerConsumption : UInt16 := 0x60
def configurationDefaultFifoClock : UInt8 := 0
def configurationDefaultBatteryCharging : UInt8 := 0xE4
def configurationDefaultMsioControl : UInt32 := 0x10800
def configurationDefaultGpioControl : UInt32 := 0x0
def configurationFifoMode245 : UInt8 := 0
def configurationFifoMode600 : UInt8 := 1
def configurationChannelConfig1 : UInt8 := 2

end EdUsb
