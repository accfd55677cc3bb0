import EdUsb.Lib.Prog
import EdUsb.Lib.Mem
import EdUsb.Defs
import EdUsb.Utils
import EdUsb.Driver
import EdUsb.Ed
import EdUsb.Exchange
import EdUsb.Codes
import EdUsb.Frame
import EdUsb.Lib.Fifo
import EdUsb.Link
import EdUsb.Matching
import EdUsb.Barrier
import EdUsb.Repeats
import EdUsb.Session
import EdUsb.Maintenance
import EdUsb.Neutral
import EdUsb.Codec
import EdUsb.Saves
import EdUsb.Lifecycle
import EdUsb.Locals
import EdUsb.Lib.LastWins
import EdUsb.Lib.Lines
import EdUsb.Loading
import EdUsb.Lib.Numeral
import EdUsb.Counts
import EdUsb.Numbers
import EdUsb.Chunks
import EdUsb.FailedSaves
import EdUsb.Timeouts
import EdUsb.Lib.Product
import EdUsb.Overdue
import EdUsb.Discipline
import EdUsb.Ownership
import EdUsb.HappyPath
import EdUsb.Leftovers
import EdUsb.Histories
import EdUsb.Agreement
import EdUsb.Chip
import EdUsb.Delivery
import EdUsb.Example
import EdUsb.Resync
