import EdUsb.Lib.Prog
import EdUsb.Lib.Mem
import EdUsb.Defs

/-!
# What the library asks of its surroundings

`FtCall` lists the functions of the D3XX driver that `ed.c` calls, with their arguments, and `FtCall.Ans` what each may
answer: a status, and what it stored through its pointers.  A driver that returns an error may leave a pointer unstored
(`none`).  `Op` adds the two other things a function of `ed.c` reads without having computed it: `errno`, and the
initial contents of a local variable declared without an initialiser.
-/

namespace EdUsb

open EdUsb.Lib

/-- The first argument of `FT_Create`. -/
inductive PvArg where
  | null
  | serial (s : String)
  deriving DecidableEq

inductive FtCall where
  | getLibraryVersion
  | getDriverVersion (ftHandle : FtHandle)
  | setTransferParams (conf : FtTransferConf) (dwFifoID : UInt32)
  | create (pvArg : PvArg) (dwFlags : UInt32)
  | close (ftHandle : FtHandle)
  | abortPipe (ftHandle : FtHandle) (ucPipeID : UInt8)
  | setPipeTimeout (ftHandle : FtHandle) (ucPipeID : UInt8) (dwTimeoutInMs : UInt32)
  | writePipe (ftHandle : FtHandle) (ucPipeID : UInt8) (pucBuffer : List UInt8) (ulBufferLength dwTimeoutInMs : UInt32)
  | readPipe (ftHandle : FtHandle) (ucPipeID : UInt8) (ulBufferLength dwTimeoutInMs : UInt32)
  | getChipConfiguration (ftHandle : FtHandle)
  | setChipConfiguration (ftHandle : FtHandle) (pvConfiguration : Ft60xConfiguration)
  | getDeviceInfoDetail (dwIndex : UInt32)
  deriving DecidableEq

/-- The answer of `FT_Create`: the status and the handle stored, if any. -/
structure Created where
  status : FtStatus
  handle : Option FtHandle

/-- The answer of `FT_WritePipe`: the status and the transfer count stored, if any. -/
structure Written where
  status : FtStatus
  count : Option UInt32

/-- The answer of `FT_ReadPipe`: the status, the transfer count stored, if any, and the bytes put into the buffer. -/
structure Got where
  status : FtStatus
  count : Option UInt32
  data : List UInt8

/-- The answer of `FT_GetChipConfiguration`: the status and the configuration stored, if any. -/
structure ChipConf where
  status : FtStatus
  conf : Option Ft60xConfiguration

/-- What a call may answer. -/
abbrev FtCall.Ans : FtCall → Type
  | .create .. => Created
  | .writePipe .. => Written
  | .readPipe .. => Got
  | .getChipConfiguration _ => ChipConf
  | _ => FtStatus

/-- The kinds of local variables that are declared without an initialiser. -/
inductive Local where
  | count
  | handle
  | conf
  | buf
  deriving DecidableEq

/-- The contents of such a variable. -/
abbrev Local.Val : Local → Type
  | .count => UInt32
  | .handle => FtHandle
  | .conf => FtTransferConf
  | .buf => Mem

inductive Op where
  | ft (c : FtCall)
  | errno
  | undef (l : Local)
  deriving DecidableEq

abbrev Op.Ans : Op → Type
  | .ft c => c.Ans
  | .errno => Int32
  | .undef l => l.Val

/-- A function of `ed.c`. -/
abbrev Ed := Prog Op Op.Ans

namespace Ed

/-- A call of the driver. -/
def ft (c : FtCall) : Ed c.Ans := .call (.ft c) .ret

def errno : Ed Int32 := .call .errno .ret

/-- The declaration of a local variable without an initialiser. -/
def undef (l : Local) : Ed l.Val := .call (.undef l) .ret

end Ed

end EdUsb
