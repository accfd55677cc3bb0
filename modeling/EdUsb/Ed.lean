import EdUsb.Driver
import EdUsb.Utils

/-!
# ed.c

The functions of `ed.c`, in the build without `ED_DEBUG`: `ED_LOG` and `_debug_hex` do nothing.  What the functions print
is left out.  A pointer argument is the value it points to, and what a function stores through it is returned.
-/

namespace EdUsb

open EdUsb.Lib Ed

def defaultTimeout : UInt32 := 1000

/-! ## Command codes -/

def codeConnectRequrst : List UInt8 := [0xC3, 0x5A, 0xD8, 0x47, 0xC6, 0x59, 0xB3, 0x31]
def codeConnectResponse : List UInt8 := [0x43, 0x6F, 0x4E, 0x6E, 0x65, 0x63, 0x74, 0x21]
def codeSendConfigRequest : List UInt8 := [0x65, 0xED, 0xEF, 0x43, 0x61, 0xF4, 0xE1, 0x44]
def codeSendConfigResponse : List UInt8 := [0x43, 0x66, 0x67, 0x20, 0x52, 0x63, 0x76, 0x23]
def codeStartCollect : List UInt8 := [0x49, 0x6E, 0x74, 0x2D, 0x54, 0x72, 0x69, 0x67]
def codeStopCollectRequest : List UInt8 := [0x53, 0x74, 0x6F, 0x70, 0x2B, 0x41, 0x63, 0x71]
def codeStopCollectResponse : List UInt8 := [0x46, 0x69, 0x6E, 0x3E, 0x73, 0x74, 0x6F, 0x50]

/-! ## Transfers -/

/-- `_write`: the status of `FT_WritePipe` is only logged -/
def write (addr : UsbAddr) (buf : Mem) (size : UInt64) (timeout : UInt32) : Ed UInt64 := do
  let _ ← ft (.setPipeTimeout addr.handle 2 timeout)
  let count ← undef .count
  let r ← ft (.writePipe addr.handle 2 (buf.bytes 0 size.toNat) size.toUInt32 0)
  return (r.count.getD count).toUInt64

/-- `_read`: the status of `FT_ReadPipe` is only logged.  Returns the count and the buffer. -/
def read (addr : UsbAddr) (buf : Mem) (size : UInt64) (timeout : UInt32) : Ed (UInt64 × Mem) := do
  let _ ← ft (.setPipeTimeout addr.handle 0x82 timeout)
  let count ← undef .count
  let r ← ft (.readPipe addr.handle 2 size.toUInt32 0)
  return ((r.count.getD count).toUInt64, buf.write 0 r.data)

/-- `memset(m, v, n)` -/
def memset (m : Mem) (v : UInt8) (n : ℕ) : Mem := m.fill 0 n fun _ => v

/-- `memcmp(a, b, n) != 0` -/
def memcmpNe (a b : Mem) (n : ℕ) : Bool := decide (a.bytes 0 n ≠ b.bytes 0 n)

/-- The `int` that a `size_t` is converted to. -/
def sizeToInt (n : UInt64) : Int32 := n.toUInt32.toInt32

/-! ## Commands -/

/-- A buffer of 32 bytes that starts with a command code and is zero after it. -/
def requestBuf (code : List UInt8) : Ed Mem := do
  let buf ← undef .buf
  return packUint8Arr (memset buf 0 32) 0 code 8

/-- The last part of a command: compare the first 8 bytes of the response with the code expected. -/
def verify (resp : Mem) (code : List UInt8) (success verifyErr : Int32) : Ed Int32 := do
  let expected ← undef .buf
  if memcmpNe resp (packUint8Arr expected 0 code 8) 8 then return verifyErr
  return success

/-- `usb_dev_connect` -/
def usbDevConnect (addr : UsbAddr) : Ed Int32 := do
  let message ← requestBuf codeConnectRequrst
  if (← write addr message 32 defaultTimeout) ≠ 32 then return usbConnectFail
  let connectResp ← undef .buf
  let (n, connectResp) ← read addr connectResp 32 defaultTimeout
  let nread := sizeToInt n
  if nread ≠ 32 then return usbConnectFail
  verify connectResp codeConnectResponse usbConnectSuccess usbConnectVerifyErr

/-- `_pack_config` -/
def packConfig (c : UsbConfig) (packed : Mem) : Mem :=
  let pos := 0
  let packed := packUint8Arr packed pos codeSendConfigRequest 8
  let pos := pos + 8
  let packed := packUint32 packed pos c.sampleCount
  let pos := pos + 4
  let packed := packUint32 packed pos c.delayCount
  let pos := pos + 4
  let packed := packUint16 packed pos c.repeatCount
  let pos := pos + 2
  let packed := packUint16 packed pos c.downSampleCount
  let pos := pos + 2
  let pos := pos + 4
  let packed := packShort packed pos c.trigger
  let pos := pos + 1
  packShort packed pos c.outerTrigger

/-- `usb_send_config_to_device` -/
def usbSendConfigToDevice (c : UsbConfig) (addr : UsbAddr) : Ed Int32 := do
  let buf ← undef .buf
  let buf := packConfig c (memset buf 0 32)
  if (← write addr buf 32 defaultTimeout) ≠ 32 then return usbSendConfigFail
  let sendConfigResp ← undef .buf
  let (n, sendConfigResp) ← read addr sendConfigResp 32 defaultTimeout
  if n ≠ 32 then return usbSendConfigFail
  verify sendConfigResp codeSendConfigResponse usbSendConfigSuccess usbSendConfigVerifyErr

/-- `usb_start_collect` -/
def usbStartCollect (addr : UsbAddr) : Ed Int32 := do
  let buf ← requestBuf codeStartCollect
  if (← write addr buf 32 defaultTimeout) ≠ 32 then return usbStartCollectFail
  return usbStartCollectSuccess

/-- `usb_start_recv_repeat_n`.  Returns the count and the buffer `data`. -/
def usbStartRecvRepeatN (c : UsbConfig) (addr : UsbAddr) (repeatIndex : Int32) (data : Mem) (len : UInt64)
    (timeout : UInt32) : Ed (Int32 × Mem) := do
  Prog.assert (decide (repeatIndex < c.repeatCount.toUInt32.toInt32))
  let (n, data) ← read addr data len timeout
  let nread := sizeToInt n
  return (nread, data)

/-- `EAGAIN` -/
def eagain : Int32 := 11

/-- `usb_stop_collect` -/
def usbStopCollect (addr : UsbAddr) : Ed Int32 := do
  let buf ← requestBuf codeStopCollectRequest
  if (← write addr buf 32 defaultTimeout) ≠ 32 then return usbStopCollectFail
  let stopCollectResp ← undef .buf
  let (n, stopCollectResp) ← read addr stopCollectResp 32 defaultTimeout
  let nread := sizeToInt n
  -- `errno` is read only when the count is short
  if nread ≠ 32 then
    if (← errno) = eagain then return usbStopCollectFail
  if nread ≠ 32 then return usbStopCollectFail
  verify stopCollectResp codeStopCollectResponse usbStopCollectSuccess usbStopCollectVerifyFail

/-- `abort_pipe` -/
def abortPipe (addr : UsbAddr) : Ed Unit := do
  let _ ← ft (.abortPipe addr.handle 0x02)
  let _ ← ft (.abortPipe addr.handle 0x82)
  let _ ← ft (.abortPipe addr.handle 2)
  return

/-! ## Sizes -/

/-- `usb_bytes_count`: `uint32_t` arithmetic throughout, `short` and `uint16_t` being converted -/
def usbBytesCount (c : UsbConfig) : UInt32 :=
  c.sampleCount * 2 * c.adChannel.toInt32.toUInt32 * c.repeatCount.toUInt32

/-- `repeat_bytes_count` -/
def repeatBytesCount (c : UsbConfig) : UInt32 := c.sampleCount * 2 * c.adChannel.toInt32.toUInt32

end EdUsb
