import EdUsb.Exchange
import EdUsb.Lib.Fifo

/-!
# The link: the pipes and the device behind them

A `Link` is the state that the commands act on through the driver: the IN pipe, a FIFO of bytes that know where they come
from, and what the device has received and not answered.  A `Device` says what may happen to it: what the device does with
a complete request, what it does on its own, and with which status and count the driver may end a transfer.  Each result
about runs fixes a device.
-/

namespace EdUsb

open EdUsb.Lib Ed

/-- Where a byte of the IN pipe comes from. -/
inductive Origin where
  /-- the `i`-th byte of the response to the request with this number -/
  | reply (request i : ℕ)
  /-- the `k`-th byte of the samples -/
  | sample (k : ℕ)
  deriving DecidableEq

structure InByte where
  val : UInt8
  origin : Origin
  deriving DecidableEq

/-- The bytes of the response to the request number `n`. -/
def replyBytes (n : ℕ) (resp : List UInt8) : List InByte := resp.mapIdx fun i b => ⟨b, .reply n i⟩

/-- The bytes of a piece of the samples that starts at the place `k`. -/
def sampleBytes (k : ℕ) (xs : List UInt8) : List InByte := xs.mapIdx fun i b => ⟨b, .sample (k + i)⟩

@[simp] theorem replyBytes_length (n : ℕ) (resp : List UInt8) : (replyBytes n resp).length = resp.length := by
  simp [replyBytes]

@[simp] theorem sampleBytes_length (k : ℕ) (xs : List UInt8) : (sampleBytes k xs).length = xs.length := by
  simp [sampleBytes]

@[simp] theorem map_val_replyBytes (n : ℕ) (resp : List UInt8) : (replyBytes n resp).map InByte.val = resp := by
  apply List.ext_getElem (by simp)
  intro i h1 h2
  simp [replyBytes]

@[simp] theorem map_val_sampleBytes (k : ℕ) (xs : List UInt8) : (sampleBytes k xs).map InByte.val = xs := by
  apply List.ext_getElem (by simp)
  intro i h1 h2
  simp [sampleBytes]

theorem mem_replyBytes {n : ℕ} {resp : List UInt8} {b : InByte} (h : b ∈ replyBytes n resp) :
    ∃ i, b.origin = .reply n i := by
  obtain ⟨i, hi, rfl⟩ := List.getElem_of_mem h
  exact ⟨i, by simp [replyBytes]⟩

theorem mem_sampleBytes {k : ℕ} {xs : List UInt8} {b : InByte} (h : b ∈ sampleBytes k xs) :
    ∃ i, b.origin = .sample i := by
  obtain ⟨i, hi, rfl⟩ := List.getElem_of_mem h
  exact ⟨k + i, by simp [sampleBytes]⟩

/-! ### The state -/

/-- The requests of the protocol. -/
inductive Request where
  | connect
  | config
  | start
  | stop
  deriving DecidableEq

/-- The request that a frame is. -/
def requestOf (frame : List UInt8) : Option Request :=
  if frame.take 8 = codeConnectRequrst then some .connect
  else if frame.take 8 = codeSendConfigRequest then some .config
  else if frame.take 8 = codeStartCollect then some .start
  else if frame.take 8 = codeStopCollectRequest then some .stop
  else none

structure Link where
  inPipe : Fifo InByte
  /-- how many requests the device received; they are numbered from `0` -/
  sent : ℕ
  /-- the requests that the device has not answered -/
  waiting : List ℕ
  /-- the responses that the device produced, each with its request -/
  replied : List (ℕ × List UInt8)
  collecting : Bool
  /-- how many bytes of samples the device streamed -/
  streamed : ℕ

namespace Link

/-- A device that was just switched on. -/
def init : Link where
  inPipe := .empty
  sent := 0
  waiting := []
  replied := []
  collecting := false
  streamed := 0

/-- The device receives a request; all but `start` are to be answered. -/
def receive (w : Link) (q : Request) : Link :=
  { w with
    sent := w.sent + 1
    waiting := if q = .start then w.waiting else w.waiting ++ [w.sent]
    collecting := match q with
      | .start => true
      | .stop => false
      | _ => w.collecting }

/-- The device receives a frame; it ignores one that is no request. -/
def accept (w : Link) (frame : List UInt8) : Link :=
  match requestOf frame with
  | some q => w.receive q
  | none => w

/-- The device answers the request number `n`. -/
def reply (w : Link) (n : ℕ) (resp : List UInt8) : Link :=
  { w with
    inPipe := w.inPipe.put (replyBytes n resp)
    waiting := w.waiting.erase n
    replied := w.replied ++ [(n, resp)] }

/-- The device streams the samples `xs`. -/
def stream (w : Link) (xs : List UInt8) : Link :=
  { w with
    inPipe := w.inPipe.put (sampleBytes w.streamed xs)
    streamed := w.streamed + xs.length }

/-- The host takes `k` bytes out of the IN pipe. -/
def take (w : Link) (k : ℕ) : Link := { w with inPipe := w.inPipe.take k }

end Link

/-! ### Devices -/

/-- What the device and the driver may do. -/
structure Device where
  /-- what the device may do on its own -/
  move : Link → Link → Prop
  /-- what it may do with a complete frame -/
  accept : Link → List UInt8 → Link → Prop
  /-- the status and the count that a write may end with; a count of 32 is a complete frame -/
  wrote : FtStatus → UInt32 → Prop
  /-- the status and the count that a read of so many bytes may end with -/
  reads : Link → ℕ → FtStatus → ℕ → Prop

namespace Device

variable (D : Device)

/-- The environment of the commands.  They make no other calls of the driver. -/
def ans (w : Link) : (o : Op) → o.Ans → Link → Prop
  | .ft (.setPipeTimeout ..), _, w' => w' = w
  | .errno, _, w' => w' = w
  | .undef _, _, w' => w' = w
  | .ft (.writePipe _ _ b _ _), r, w' =>
    ∃ k, Written.count r = some k ∧ D.wrote (Written.status r) k ∧ if k = 32 then D.accept w b w' else w' = w
  | .ft (.readPipe _ _ n _), r, w' =>
    ∃ k, k ≤ n.toNat ∧ k ≤ w.inPipe.queue.length ∧ D.reads w n.toNat (Got.status r) k ∧
      Got.count r = some (UInt32.ofNat k) ∧ Got.data r = (w.inPipe.queue.take k).map InByte.val ∧ w' = w.take k
  | _, _, _ => False

def env : Env Op Op.Ans Link where
  move := D.move
  ans := D.ans

theorem quiet : Quiet D.env where
  setPipeTimeout h := h
  errno h := h
  undef h := h
  written h := by
    obtain ⟨k, hk, -⟩ := h
    exact ⟨k, hk⟩
  got h := by
    obtain ⟨k, hn, hq, -, hc, hd, -⟩ := h
    rw [hd, List.length_map, List.length_take_of_le hq]
    exact ⟨hn, hc⟩

end Device

/-- What receiving a frame and taking bytes out keep, every answer of the driver keeps. -/
theorem Device.ans_inv {D : Device} {I : Link → Prop} (haccept : ∀ w frame u, I w → D.accept w frame u → I u)
    (htake : ∀ w k, I w → I (w.take k)) {w v : Link} {o : Op} {r : o.Ans} (hw : I w) (h : D.env.ans w o r v) : I v := by
  cases o with
  | ft c =>
    cases c with
    | setPipeTimeout =>
      obtain rfl : v = w := h
      exact hw
    | writePipe =>
      obtain ⟨k, -, -, h⟩ := h
      by_cases hk : k = 32
      · rw [if_pos hk] at h
        exact haccept _ _ _ hw h
      · rw [if_neg hk] at h
        rwa [h]
    | readPipe =>
      obtain ⟨k, -, -, -, -, -, rfl⟩ := h
      exact htake _ k hw
    | _ => exact False.elim h
  | errno =>
    obtain rfl : v = w := h
    exact hw
  | undef =>
    obtain rfl : v = w := h
    exact hw

/-! ### Runs on a link -/

section Runs

variable {D : Device} {α : Type} {w v u w' : Link} {a : α} {s : FtStatus} {addr : UsbAddr} {buf : Mem} {size : UInt64}
  {timeout : UInt32}

theorem undef_runs {l : Local} {f : l.Val → Ed α} (g : l.Val) (h : (f g).Runs D.env w a w') :
    (undef l >>= f).Runs D.env w a w' :=
  ⟨w, g, w, .refl w, rfl, h⟩

theorem write_runs {k : UInt32} {f : UInt64 → Ed α} (hm : D.env.Moves w v) (hw : D.wrote s k)
    (ha : if k = 32 then D.accept v (buf.bytes 0 size.toNat) u else u = v) (h : (f k.toUInt64).Runs D.env u a w') :
    (write addr buf size timeout >>= f).Runs D.env w a w' :=
  ⟨w, ftOk, w, .refl w, rfl, w, (0 : UInt32), w, .refl w, rfl, v, (⟨s, some k⟩ : Written), u, hm, ⟨k, rfl, hw, ha⟩, h⟩

theorem read_runs {k : ℕ} {f : UInt64 × Mem → Ed α} (hm : D.env.Moves w v) (hk : k ≤ size.toUInt32.toNat)
    (hq : k ≤ v.inPipe.queue.length) (hr : D.reads v size.toUInt32.toNat s k)
    (h : (f ((UInt32.ofNat k).toUInt64, buf.write 0 ((v.inPipe.queue.take k).map InByte.val))).Runs D.env (v.take k) a w') :
    (read addr buf size timeout >>= f).Runs D.env w a w' :=
  ⟨w, ftOk, w, .refl w, rfl, w, (0 : UInt32), w, .refl w, rfl, v,
    (⟨s, some (UInt32.ofNat k), (v.inPipe.queue.take k).map InByte.val⟩ : Got), v.take k, hm,
    ⟨k, hk, hq, hr, rfl, rfl, rfl⟩, h⟩

end Runs

end EdUsb
