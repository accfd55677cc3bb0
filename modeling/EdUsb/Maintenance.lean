import EdUsb.Driver
import EdUsb.StringDescriptors

/-!
# ed.c: handles and the configuration of the chip

The functions of `ed.c` that open a handle for themselves: they look at the driver or set the chip up, and close the
handle again.  A handle is a local variable without an initialiser that `FT_Create` stores into when it succeeds.  The
functions that open and close a handle for the caller are at the end; they return what they leave in `*addr` as well.
-/

namespace EdUsb

open EdUsb.Lib Ed

/-- `set_trans_conf` -/
def setTransConf : Ed Unit := do
  let conf ← undef .conf
  let conf := { conf with pipe := conf.pipe.set 0 { conf.pipe[0] with bURBCount := 7 } }
  let conf := { conf with pipe := conf.pipe.set 1 { conf.pipe[1] with bURBCount := 7 } }
  let conf := { conf with pipe := conf.pipe.set 0 { conf.pipe[0] with dwURBBufferSize := 1024 } }
  let conf := { conf with pipe := conf.pipe.set 1 { conf.pipe[1] with dwURBBufferSize := 1024 } }
  [0, 1, 2, 3].forM fun i => do
    let _ ← ft (.setTransferParams conf i)
    return

/-- `sdk_info`: the status of `FT_Create` is only printed -/
def sdkInfo : Ed Unit := do
  let _ ← ft .getLibraryVersion
  setTransConf
  let handle ← undef .handle
  let r ← ft (.create (.serial "000000000001") ftOpenBySerialNumber)
  let handle := r.handle.getD handle
  let _ ← ft (.getDriverVersion handle)
  let _ ← ft (.close handle)
  return

/-- `ft_create_wrapper` -/
def ftCreateWrapper (pvArg : PvArg) (dwFlags : UInt32) : Ed Created := do
  setTransConf
  ft (.create pvArg dwFlags)

/-- `ft_close_wrapper` -/
def ftCloseWrapper (handle : FtHandle) : Ed FtStatus := ft (.close handle)

/-- `oConfigurationData` as `reset_device601` fills it. -/
def reset601 : Ft60xConfiguration := { Ft60xConfiguration.zero with
  vendorID := configurationDefaultVendorID
  productID := configurationDefaultProductID601
  powerAttributes := configurationDefaultPowerAttributes
  powerConsumption := configurationDefaultPowerConsumption
  fifoClock := configurationDefaultFifoClock
  batteryChargingGPIOConfig := configurationDefaultBatteryCharging
  msioControl := configurationDefaultMsioControl
  gpioControl := configurationDefaultGpioControl
  reserved2 := 0
  flashEEPROMDetection := 0
  fifoMode := configurationFifoMode600
  channelConfig := configurationChannelConfig1 }

/-- `reset_device601` -/
def resetDevice601 : Ed Unit := do
  let ftHandle ← undef .handle
  let r ← ftCreateWrapper .null ftOpenByIndex
  let ftHandle := r.handle.getD ftHandle
  if r.status ≠ ftOk then return
  let ftStatus ← ft (.setChipConfiguration ftHandle reset601)
  if ftStatus ≠ ftOk then return
  let _ ← ftCloseWrapper ftHandle
  return

/-- `oConfigurationData` as `reset_device245` fills it, but for the string descriptors. -/
def reset245Numbers : Ft60xConfiguration := { Ft60xConfiguration.zero with
  vendorID := configurationDefaultVendorID
  productID := configurationDefaultProductID601
  powerAttributes := configurationDefaultPowerAttributes
  powerConsumption := configurationDefaultPowerConsumption
  fifoClock := configurationDefaultFifoClock
  batteryChargingGPIOConfig := 0
  msioControl := configurationDefaultMsioControl
  gpioControl := configurationDefaultGpioControl
  reserved2 := 0
  fifoMode := configurationFifoMode245
  channelConfig := configurationChannelConfig1
  optionalFeatureSupport := 0 }

/-- `oConfigurationData` with them; the result of `SetStringDescriptorsExample` is only printed. -/
def reset245 : Ft60xConfiguration :=
  let (_, descriptors) := setStringDescriptorsExample (fun i => reset245Numbers.stringDescriptors.toList.getD i 0)
    (cString "FIFO") (cString "FIDI SuperSpeed-FIFO Bridge") (cString "000000000000001")
  { reset245Numbers with stringDescriptors := .ofFn fun i => descriptors i }

/-- `reset_device245` -/
def resetDevice245 : Ed Unit := do
  let ftHandle ← undef .handle
  let r ← ftCreateWrapper .null ftOpenByIndex
  let ftHandle := r.handle.getD ftHandle
  if r.status ≠ ftOk then return
  let ftStatus ← ft (.setChipConfiguration ftHandle reset245)
  if ftStatus ≠ ftOk then return
  let _ ← ftCloseWrapper ftHandle
  return

/-- `reset_devicenull` -/
def resetDevicenull : Ed Unit := do
  let handle ← undef .handle
  let r ← ftCreateWrapper .null ftOpenByIndex
  let handle := r.handle.getD handle
  if ftFailed r.status then return
  let _ ← ftCloseWrapper handle
  return

/-- `reset_default` -/
def resetDefault : Ed Unit := do
  let handle ← undef .handle
  let r ← ftCreateWrapper .null ftOpenByIndex
  let handle := r.handle.getD handle
  if ftFailed r.status then return
  let _ ← ft (.getDeviceInfoDetail 0)
  let g ← ft (.getChipConfiguration handle)
  let oConfigurationData := g.conf.getD .zero
  if g.status ≠ ftOk then return
  let status ← ft (.setChipConfiguration handle oConfigurationData)
  if ftFailed status then
    let _ ← ftCloseWrapper handle
    return
  let _ ← ftCloseWrapper handle
  return

/-- `get_chip_configuration`: the configuration is only printed -/
def getChipConfiguration : Ed Unit := do
  let ftHandle ← undef .handle
  let r ← ftCreateWrapper .null ftOpenByIndex
  let ftHandle := r.handle.getD ftHandle
  if r.status ≠ ftOk then return
  let g ← ft (.getChipConfiguration ftHandle)
  if g.status ≠ ftOk then return
  let _ ← ftCloseWrapper ftHandle
  return

/-! ### The handle of a caller -/

/-- `usb_create_handle_with_serial_num` -/
def usbCreateHandleWithSerialNum (addr : UsbAddr) : Ed (Int32 × UsbAddr) := do
  if addr.handle ≠ 0 then return (1, addr)
  let r ← ftCreateWrapper (.serial "000000000001") ftOpenBySerialNumber
  let addr := { addr with handle := r.handle.getD addr.handle }
  if r.status ≠ ftOk then return (r.status.toInt32, addr)
  return (0, addr)

/-- `usb_create_handle` -/
def usbCreateHandle (addr : UsbAddr) : Ed (Int32 × UsbAddr) := do
  if addr.handle ≠ 0 then return (1, addr)
  let r ← ftCreateWrapper .null ftOpenByIndex
  let addr := { addr with handle := r.handle.getD addr.handle }
  if r.status ≠ ftOk then return (r.status.toInt32, addr)
  return (0, addr)

/-- `usb_close_handle` -/
def usbCloseHandle (addr : UsbAddr) : Ed (Int32 × UsbAddr) := do
  if addr.handle ≠ 0 then
    let _ ← ftCloseWrapper addr.handle
  return (0, { addr with handle := 0 })

end EdUsb
