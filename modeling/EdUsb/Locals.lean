import EdUsb.Lifecycle
import EdUsb.Neutral
import EdUsb.Command

/-!
# Uninitialised locals

A sequence of calls of the library is run twice against one driver, with different contents of the locals that are
declared without an initialiser.  `blind_iff` says for which sequences and drivers the two runs cannot be told apart: no
call opens a handle, since `set_trans_conf` hands on fields it never set, and every transfer stores its count.
-/

namespace EdUsb

open EdUsb.Lib Ed

/-- What the driver answers, and what `errno` is, after the calls that were made to the driver so far. -/
structure Responses where
  answer : List FtCall → (c : FtCall) → c.Ans
  errno : List FtCall → Int32

/-- What the locals of one call of the library hold at first, in the order in which they are declared. -/
abbrev Contents := ℕ → (l : Local) → l.Val

/-- The calls of the driver that a call of the library made so far, and the number of locals it declared. -/
structure Progress where
  made : List FtCall
  locals : ℕ

/-- The surroundings of a call of the library, `past` being the calls of the driver before it. -/
def Responses.handler (d : Responses) (past : List FtCall) (σ : Contents) (w : Progress) : (o : Op) → o.Ans × Progress
  | .ft c => (d.answer (past ++ w.made) c, ⟨w.made ++ [c], w.locals⟩)
  | .errno => (d.errno (past ++ w.made), w)
  | .undef l => (σ w.locals l, ⟨w.made, w.locals + 1⟩)

/-- The calls of the library. -/
inductive LibCall where
  | handle (c : HandleCall)
  | command (c : Command)
  | recv (c : UsbConfig) (repeatIndex : Int32) (data : Mem) (len : UInt64) (timeout : UInt32)
  | maintenance (m : Maintenance)

/-- The code a call returns and what it leaves in the `usb_addr_t` it was given; a `void` function returns 0. -/
def LibCall.prog : LibCall → UsbAddr → Ed (Int32 × UsbAddr)
  | .handle c, addr => c.prog addr
  | .command c, addr => do return (← c.prog addr, addr)
  | .recv c repeatIndex data len timeout, addr => do
    let (n, _) ← usbStartRecvRepeatN c addr repeatIndex data len timeout
    return (n, addr)
  | .maintenance m, addr => do
    m.prog
    return (0, addr)

/-- What is seen of a call: the calls of the driver it made, and the code it returned unless an assertion failed. -/
structure Seen where
  calls : List FtCall
  code : Option Int32

namespace Responses

variable (d : Responses)

/-- How a call ends, and the calls of the driver it made. -/
def outcome (past : List FtCall) (σ : Contents) (c : LibCall) (addr : UsbAddr) :
    Option (Int32 × UsbAddr) × List FtCall :=
  let r := (c.prog addr).exec (d.handler past σ) ⟨[], 0⟩
  (r.1, r.2.made)

/-- What is seen of a sequence of calls, each on one of the `usb_addr_t`s of the caller.  It ends with the first
assertion that fails. -/
def observe : List FtCall → (ℕ → UsbAddr) → (ℕ → Contents) → List (ℕ × LibCall) → List Seen
  | _, _, _, [] => []
  | past, addrs, g, (i, c) :: l =>
    let r := d.outcome past (g 0) c (addrs i)
    ⟨r.2, r.1.map Prod.fst⟩ ::
      match r.1 with
      | none => []
      | some (_, addr) => observe (past ++ r.2) (Function.update addrs i addr) (fun n => g (n + 1)) l

/-- What is seen of a sequence of calls does not depend on the contents of the locals. -/
def Blind (past : List FtCall) (addrs : ℕ → UsbAddr) (l : List (ℕ × LibCall)) : Prop :=
  ∀ g g', d.observe past addrs g l = d.observe past addrs g' l

/-! ### When the locals do not matter -/

/-- The answer to a request. -/
def wrote (past : List FtCall) (addr : UsbAddr) (frame : List UInt8) : Written :=
  d.answer (past ++ [.setPipeTimeout addr.handle 2 defaultTimeout]) (writeCall addr frame)

/-- The answer to a read of `n` bytes. -/
def got (past : List FtCall) (addr : UsbAddr) (n : UInt32) (timeout : UInt32) : Got :=
  d.answer (past ++ [.setPipeTimeout addr.handle 0x82 timeout]) (readCall addr n)

/-- The calls of the driver with which a request is written. -/
def writing (addr : UsbAddr) (frame : List UInt8) : List FtCall :=
  [.setPipeTimeout addr.handle 2 defaultTimeout, writeCall addr frame]

/-- The calls of the driver with which `n` bytes are read. -/
def reading (addr : UsbAddr) (n : UInt32) (timeout : UInt32) : List FtCall :=
  [.setPipeTimeout addr.handle 0x82 timeout, readCall addr n]

/-- The bytes that a read puts into a buffer decide alone whether it then begins with `code`. -/
def Decides (data code : List UInt8) : Prop := 8 ≤ data.length ∨ ¬ data <+: code

/-- The driver stores the count of a request; if that is 32, the count of the response; and if that is 32 too, enough
of the response. -/
def Stored (past : List FtCall) (addr : UsbAddr) (c : Command) : Prop :=
  ∃ k, (d.wrote past addr c.frame).count = some k ∧ (k = 32 → ∀ code, c.request.answer = some code →
    ∃ n, (d.got (past ++ writing addr c.frame) addr 32 defaultTimeout).count = some n ∧
      (n = 32 → Decides (d.got (past ++ writing addr c.frame) addr 32 defaultTimeout).data code))

/-- The locals of a call do not matter in the state before it. -/
def Settled (past : List FtCall) (addr : UsbAddr) : LibCall → Prop
  | .handle .close => True
  | .handle _ => addr.handle ≠ 0
  | .command c => d.Stored past addr c
  | .recv c repeatIndex _ len timeout => repeatIndex < c.repeatCount.toUInt32.toInt32 →
    (d.got past addr len.toUInt32 timeout).count ≠ none
  | .maintenance _ => False

/-- In every run of a sequence of calls, the locals of none of them matter. -/
def Covered : List FtCall → (ℕ → UsbAddr) → List (ℕ × LibCall) → Prop
  | _, _, [] => True
  | past, addrs, (i, c) :: l => d.Settled past (addrs i) c ∧ ∀ σ code addr,
    (d.outcome past σ c (addrs i)).1 = some (code, addr) →
      Covered (past ++ (d.outcome past σ c (addrs i)).2) (Function.update addrs i addr) l

end Responses

/-! ### The bytes of a response -/

namespace Responses

section Decides

variable {data code : List UInt8}

/-- What a buffer held does not matter where the bytes put into it decide. -/
theorem Decides.bytes_iff (h : Decides data code) (m m' : Mem) :
    (m.write 0 data).bytes 0 8 = code ↔ (m'.write 0 data).bytes 0 8 = code := by
  by_cases h8 : 8 ≤ data.length
  · rw [Mem.bytes_write_take m 0 h8, Mem.bytes_write_take m' 0 h8]
  · have hnot : ∀ x : Mem, (x.write 0 data).bytes 0 8 ≠ code := by
      intro x hx
      rw [Mem.bytes_write_append x 0 (Nat.le_of_not_le h8)] at hx
      exact h.resolve_left h8 ⟨_, hx⟩
    exact iff_of_false (hnot m) (hnot m')

/-- Where they do not decide, some contents give the code and some do not. -/
theorem exists_of_not_decides (h : ¬ Decides data code) (hc : code.length = 8) :
    ∃ m m' : Mem, (m.write 0 data).bytes 0 8 = code ∧ (m'.write 0 data).bytes 0 8 ≠ code := by
  obtain ⟨hlen, tail, rfl⟩ : ¬ 8 ≤ data.length ∧ data <+: code := by
    unfold Decides at h
    tauto
  rw [List.length_append] at hc
  have hread : ∀ x : Mem, (x.write 0 data).bytes 0 8 = data ++ tail ↔ x.bytes data.length tail.length = tail := by
    intro x
    rw [Mem.bytes_write_append x 0 (by omega), Nat.zero_add, List.append_cancel_left_eq,
      show 8 - data.length = tail.length by omega]
  refine ⟨Mem.write (fun _ => 0) data.length tail, Mem.write (fun _ => 0) data.length (tail.map (· + 1)), ?_, ?_⟩
  · rw [hread]
    exact Mem.bytes_write _ _ _
  · rw [Ne, hread]
    have := Mem.bytes_write (fun _ => 0) data.length (tail.map (· + 1))
    rw [List.length_map] at this
    rw [this]
    cases tail with
    | nil => simp at hc; omega
    | cons b l => simp

end Decides

end Responses

/-! ### What the calls do -/

namespace Responses

section Runs

variable (d : Responses) (past : List FtCall) (σ : Contents) {α : Type}

/-- A run only adds to the calls made. -/
theorem made_exec (p : Ed α) (w : Progress) : w.made <+: (p.exec (d.handler past σ) w).2.made := by
  induction p generalizing w with
  | ret a => exact List.prefix_rfl
  | fail => exact List.prefix_rfl
  | call o k ih =>
    have hstep : w.made <+: (d.handler past σ w o).2.made := by
      cases o with
      | ft c => exact List.prefix_append ..
      | errno => exact List.prefix_rfl
      | undef l => exact List.prefix_rfl
    exact hstep.trans (ih _ _)

theorem exec_write (addr : UsbAddr) (buf : Mem) (w : Progress) (f : UInt64 → Ed α) :
    (write addr buf 32 defaultTimeout >>= f).exec (d.handler past σ) w =
      (f ((d.wrote (past ++ w.made) addr (buf.bytes 0 32)).count.getD (σ w.locals .count)).toUInt64).exec
        (d.handler past σ) ⟨w.made ++ writing addr (buf.bytes 0 32), w.locals + 1⟩ := by
  simp only [write, ft, undef, Prog.call_bind, Prog.ret_bind, Prog.pure_eq, Prog.exec_call, handler, wrote, writing,
    List.append_assoc, List.singleton_append]
  rfl

theorem exec_read (addr : UsbAddr) (buf : Mem) (size : UInt64) (timeout : UInt32) (w : Progress)
    (f : UInt64 × Mem → Ed α) :
    (read addr buf size timeout >>= f).exec (d.handler past σ) w =
      (f (((d.got (past ++ w.made) addr size.toUInt32 timeout).count.getD (σ w.locals .count)).toUInt64,
          buf.write 0 (d.got (past ++ w.made) addr size.toUInt32 timeout).data)).exec
        (d.handler past σ) ⟨w.made ++ reading addr size.toUInt32 timeout, w.locals + 1⟩ := by
  simp only [read, ft, undef, Prog.call_bind, Prog.ret_bind, Prog.pure_eq, Prog.exec_call, handler, got, reading,
    List.append_assoc, List.singleton_append]

theorem exec_undef (l : Local) (w : Progress) (f : l.Val → Ed α) :
    (undef l >>= f).exec (d.handler past σ) w = (f (σ w.locals l)).exec (d.handler past σ) ⟨w.made, w.locals + 1⟩ := rfl

theorem exec_verify (resp : Mem) {code : List UInt8} (hc : code.length = 8) (success verifyErr : Int32) (w : Progress) :
    (verify resp code success verifyErr).exec (d.handler past σ) w =
      (some (if resp.bytes 0 8 = code then success else verifyErr), ⟨w.made, w.locals + 1⟩) := by
  have hb : ∀ g : Mem, (packUint8Arr g 0 code 8).bytes 0 8 = code := by
    intro g
    have := packUint8Arr_bytes g 0 code
    rwa [hc] at this
  unfold verify
  rw [exec_undef]
  by_cases h : resp.bytes 0 8 = code <;> simp [memcmpNe, hb, h]

section Exchange

variable {addr : UsbAddr} {buf : Mem} {frame code : List UInt8} {success fail verifyErr : Int32} {short : Ed Unit}
  (hb : buf.bytes 0 32 = frame)

include hb

theorem exec_exchange_unwritten (hk : (d.wrote past addr frame).count.getD (σ 1 .count) ≠ 32) :
    (exchange addr buf code success fail verifyErr short).exec (d.handler past σ) ⟨[], 1⟩ =
      (some fail, ⟨writing addr frame, 2⟩) := by
  unfold exchange
  rw [exec_write, hb, List.append_nil, if_pos]
  · rfl
  · exact fun h => hk ((toUInt64_eq_32 _).1 h)

variable (hk : (d.wrote past addr frame).count.getD (σ 1 .count) = 32)
include hk

theorem exec_exchange_short (hs : short = .ret () ∨ short = Ed.errno >>= fun _ => .ret ())
    (hn : (d.got (past ++ writing addr frame) addr 32 defaultTimeout).count.getD (σ 3 .count) ≠ 32) :
    (exchange addr buf code success fail verifyErr short).exec (d.handler past σ) ⟨[], 1⟩ =
      (some fail, ⟨writing addr frame ++ reading addr 32 defaultTimeout, 4⟩) := by
  unfold exchange
  rw [exec_write, hb, List.append_nil, hk, if_neg (by decide), exec_undef, exec_read]
  simp only [List.nil_append]
  rw [if_pos]
  · rcases hs with rfl | rfl <;> rfl
  · exact fun h => hn ((toUInt64_eq_32 _).1 h)

theorem exec_exchange_full (hc : code.length = 8)
    (hn : (d.got (past ++ writing addr frame) addr 32 defaultTimeout).count.getD (σ 3 .count) = 32) :
    (exchange addr buf code success fail verifyErr short).exec (d.handler past σ) ⟨[], 1⟩ =
      (some (if ((σ 2 .buf).write 0 (d.got (past ++ writing addr frame) addr 32 defaultTimeout).data).bytes 0 8 = code
        then success else verifyErr), ⟨writing addr frame ++ reading addr 32 defaultTimeout, 5⟩) := by
  unfold exchange
  rw [exec_write, hb, List.append_nil, hk, if_neg (by decide), exec_undef, exec_read]
  simp only [List.nil_append]
  rw [if_neg]
  · exact exec_verify d past σ _ hc success verifyErr _
  · exact fun h => h ((toUInt64_eq_32 _).2 hn)

end Exchange

theorem exec_usbStartCollect (addr : UsbAddr) :
    (usbStartCollect addr).exec (d.handler past σ) ⟨[], 0⟩ =
      (some (if (d.wrote past addr (codeFrame codeStartCollect)).count.getD (σ 1 .count) = 32 then usbStartCollectSuccess
        else usbStartCollectFail), ⟨writing addr (codeFrame codeStartCollect), 2⟩) := by
  unfold usbStartCollect requestBuf
  rw [Prog.bind_assoc, exec_undef, Prog.pure_eq, Prog.ret_bind, exec_write, bytes_codeFrame _ rfl, List.append_nil]
  by_cases hk : (d.wrote past addr (codeFrame codeStartCollect)).count.getD (σ 1 .count) = 32
  · rw [if_pos hk, hk]
    rfl
  · rw [if_neg hk, if_pos]
    · rfl
    · exact fun h => hk ((toUInt64_eq_32 _).1 h)

end Runs

/-! ### What is seen of a command -/

section Commands

variable (d : Responses) (past : List FtCall) (σ : Contents) (addr : UsbAddr) (c : Command)

theorem outcome_command {a : Int32} {w : Progress}
    (h : (c.prog addr).exec (d.handler past σ) ⟨[], 0⟩ = (some a, w)) :
    d.outcome past σ (.command c) addr = (some (a, addr), w.made) := by
  unfold outcome LibCall.prog
  simp only [Prog.exec_bind _ h]
  rfl

variable {c} {code : List UInt8}

theorem outcome_start :
    d.outcome past σ (.command .start) addr =
      (some (if (d.wrote past addr (codeFrame codeStartCollect)).count.getD (σ 1 .count) = 32 then usbStartCollectSuccess
        else usbStartCollectFail, addr), writing addr (codeFrame codeStartCollect)) :=
  outcome_command d past σ addr .start (exec_usbStartCollect d past σ addr)

theorem outcome_unwritten (hc : c.request.answer = some code)
    (hk : (d.wrote past addr c.frame).count.getD (σ 1 .count) ≠ 32) :
    d.outcome past σ (.command c) addr = (some (c.fail, addr), writing addr c.frame) := by
  obtain ⟨buf, short, hb, -, -, hp⟩ := c.prog_eq hc addr
  refine outcome_command d past σ addr c (w := ⟨writing addr c.frame, 2⟩) ?_
  rw [hp, exec_undef]
  exact exec_exchange_unwritten d past σ (hb _) hk

theorem outcome_short (hc : c.request.answer = some code)
    (hk : (d.wrote past addr c.frame).count.getD (σ 1 .count) = 32)
    (hn : (d.got (past ++ writing addr c.frame) addr 32 defaultTimeout).count.getD (σ 3 .count) ≠ 32) :
    d.outcome past σ (.command c) addr =
      (some (c.fail, addr), writing addr c.frame ++ reading addr 32 defaultTimeout) := by
  obtain ⟨buf, short, hb, -, hs, hp⟩ := c.prog_eq hc addr
  refine outcome_command d past σ addr c (w := ⟨_, 4⟩) ?_
  rw [hp, exec_undef]
  exact exec_exchange_short d past σ (hb _) hk hs hn

theorem outcome_full (hc : c.request.answer = some code)
    (hk : (d.wrote past addr c.frame).count.getD (σ 1 .count) = 32)
    (hn : (d.got (past ++ writing addr c.frame) addr 32 defaultTimeout).count.getD (σ 3 .count) = 32) :
    d.outcome past σ (.command c) addr =
      (some (if ((σ 2 .buf).write 0 (d.got (past ++ writing addr c.frame) addr 32 defaultTimeout).data).bytes 0 8 = code
        then c.success else c.verifyErr, addr), writing addr c.frame ++ reading addr 32 defaultTimeout) := by
  obtain ⟨buf, short, hb, h8, -, hp⟩ := c.prog_eq hc addr
  refine outcome_command d past σ addr c (w := ⟨_, 5⟩) ?_
  rw [hp, exec_undef]
  exact exec_exchange_full d past σ (hb _) hk h8 hn

end Commands

/-! ### When a call settles what is seen -/

/-- The same contents for every local of a kind. -/
def Contents.uniform (count : UInt32) (conf : FtTransferConf) (buf : Mem) : Contents
  | _, .count => count
  | _, .handle => 0
  | _, .conf => conf
  | _, .buf => buf

/-- What is seen of a call does not depend on the contents of its locals. -/
def Hidden (d : Responses) (past : List FtCall) (addr : UsbAddr) (c : LibCall) : Prop :=
  ∀ σ σ', (d.outcome past σ c addr).2 = (d.outcome past σ' c addr).2 ∧
    (d.outcome past σ c addr).1.map Prod.fst = (d.outcome past σ' c addr).1.map Prod.fst

section Commands

variable {d : Responses} {past : List FtCall} {addr : UsbAddr} {c : Command}

theorem alike_of_stored (h : d.Stored past addr c) (σ σ' : Contents) :
    d.outcome past σ (.command c) addr = d.outcome past σ' (.command c) addr := by
  obtain ⟨k, hk, h⟩ := h
  have hcount : ∀ n, (d.wrote past addr c.frame).count.getD n = k := by
    intro n
    rw [hk]
    rfl
  cases hc : c.request.answer with
  | none =>
    obtain rfl := Command.eq_start hc
    rw [outcome_start, outcome_start]
    simp only [Command.frame] at hcount
    rw [hcount, hcount]
  | some code =>
    by_cases hk32 : k = 32
    · obtain ⟨n, hn, h⟩ := h hk32 code hc
      have hgot : ∀ x, (d.got (past ++ writing addr c.frame) addr 32 defaultTimeout).count.getD x = n := by
        intro x
        rw [hn]
        rfl
      by_cases hn32 : n = 32
      · rw [outcome_full d past σ addr hc ((hcount _).trans hk32) ((hgot _).trans hn32),
          outcome_full d past σ' addr hc ((hcount _).trans hk32) ((hgot _).trans hn32)]
        simp only [(h hn32).bytes_iff (σ 2 .buf) (σ' 2 .buf)]
      · rw [outcome_short d past σ addr hc ((hcount _).trans hk32) ((hgot _).trans_ne hn32),
          outcome_short d past σ' addr hc ((hcount _).trans hk32) ((hgot _).trans_ne hn32)]
    · rw [outcome_unwritten d past σ addr hc ((hcount _).trans_ne hk32),
        outcome_unwritten d past σ' addr hc ((hcount _).trans_ne hk32)]

/-- Counts of 32 where none is stored, and `buf` in every buffer. -/
def Contents.full (buf : Mem) : Contents := Contents.uniform 32 default buf

/-- Counts of 0 where none is stored. -/
def Contents.empty : Contents := Contents.uniform 0 default fun _ => 0

/-- A count that is not stored shows: without one the response is not read, and a start has failed. -/
theorem wrote_count_ne_none (h : d.Hidden past addr (.command c)) : (d.wrote past addr c.frame).count ≠ none := by
  intro hw
  obtain ⟨hmade, hcode⟩ := h (Contents.full fun _ => 0) Contents.empty
  cases hc : c.request.answer with
  | none =>
    obtain rfl := Command.eq_start hc
    simp only [Command.frame] at hw
    rw [outcome_start, outcome_start, hw] at hcode
    have hne : usbStartCollectSuccess ≠ usbStartCollectFail := by decide
    exact hne (Option.some_inj.1 hcode)
  | some code =>
    rw [outcome_unwritten d past Contents.empty addr hc (by rw [hw]; decide)] at hmade
    by_cases hn : (d.got (past ++ writing addr c.frame) addr 32 defaultTimeout).count.getD 32 = 32
    · rw [outcome_full d past _ addr hc (by rw [hw]; rfl) hn] at hmade
      simp [reading] at hmade
    · rw [outcome_short d past _ addr hc (by rw [hw]; rfl) hn] at hmade
      simp [reading] at hmade

/-- So does the count of the response, where the request was written. -/
theorem got_count_ne_none {code : List UInt8} (h : d.Hidden past addr (.command c)) (hc : c.request.answer = some code)
    (hw : (d.wrote past addr c.frame).count = some 32) :
    (d.got (past ++ writing addr c.frame) addr 32 defaultTimeout).count ≠ none := by
  intro hg
  have hcode := (h (Contents.full fun _ => 0) Contents.empty).2
  rw [outcome_full d past (Contents.full fun _ => 0) addr hc (by rw [hw]; rfl) (by rw [hg]; rfl),
    outcome_short d past Contents.empty addr hc (by rw [hw]; rfl) (by rw [hg]; decide)] at hcode
  simp only [Option.map_some, Option.some.injEq] at hcode
  split at hcode
  · exact c.success_ne_fail hcode
  · exact Command.fail_ne_verifyErr hc hcode.symm

/-- So do the bytes of a response of which too few were stored. -/
theorem decides_of_hidden {code : List UInt8} (h : d.Hidden past addr (.command c)) (hc : c.request.answer = some code)
    (hw : (d.wrote past addr c.frame).count = some 32)
    (hg : (d.got (past ++ writing addr c.frame) addr 32 defaultTimeout).count = some 32) :
    Decides (d.got (past ++ writing addr c.frame) addr 32 defaultTimeout).data code := by
  by_contra hdec
  obtain ⟨m, m', hm, hm'⟩ := exists_of_not_decides hdec (Request.answer_length hc)
  have hcode := (h (Contents.full m) (Contents.full m')).2
  rw [outcome_full d past (Contents.full m) addr hc (by rw [hw]; rfl) (by rw [hg]; rfl),
    outcome_full d past (Contents.full m') addr hc (by rw [hw]; rfl) (by rw [hg]; rfl)] at hcode
  simp only [Option.map_some, Option.some.injEq] at hcode
  have hbuf : ∀ x : Mem, Contents.full x 2 .buf = x := fun _ => rfl
  rw [if_pos (by rw [hbuf]; exact hm), if_neg (by rw [hbuf]; exact hm')] at hcode
  exact c.success_ne_verifyErr hcode

theorem stored_of_hidden (h : d.Hidden past addr (.command c)) : d.Stored past addr c := by
  obtain ⟨k, hk⟩ := Option.ne_none_iff_exists'.1 (wrote_count_ne_none h)
  refine ⟨k, hk, ?_⟩
  rintro rfl code hc
  obtain ⟨n, hn⟩ := Option.ne_none_iff_exists'.1 (got_count_ne_none h hc hk)
  refine ⟨n, hn, ?_⟩
  rintro rfl
  exact decides_of_hidden h hc hk hn

end Commands

/-! ### When another call settles what is seen -/

section Opening

variable {d : Responses} {past : List FtCall} {σ : Contents} {α : Type}

variable (d past σ) in
/-- `set_trans_conf` hands the `wStructSize` of its local on as it found it. -/
theorem made_setTransConf (f : Unit → Ed α) (w : Progress) :
    ∃ conf, conf.wStructSize = (σ w.locals .conf).wStructSize ∧
      w.made ++ [.setTransferParams conf 0] <+: ((setTransConf >>= f).exec (d.handler past σ) w).2.made := by
  unfold setTransConf
  rw [Prog.bind_assoc, exec_undef]
  refine ⟨_, ?_, made_exec d past σ _ ⟨_, _⟩⟩
  rfl

/-- A call whose first calls of the driver are `calls` and then one with the `wStructSize` that a local held. -/
def Opens (d : Responses) (past : List FtCall) (addr : UsbAddr) (c : LibCall) : Prop :=
  ∃ calls, ∀ conf : FtTransferConf, ∃ conf', conf'.wStructSize = conf.wStructSize ∧
    calls ++ [.setTransferParams conf' 0] <+: (d.outcome past (Contents.uniform 0 conf fun _ => 0) c addr).2

theorem not_hidden_of_opens {addr : UsbAddr} {c : LibCall} (h : d.Opens past addr c) : ¬ d.Hidden past addr c := by
  intro hid
  obtain ⟨calls, h⟩ := h
  let conf (n : UInt16) : FtTransferConf := { (default : FtTransferConf) with wStructSize := n }
  obtain ⟨x, hx, h0⟩ := h (conf 0)
  obtain ⟨y, hy, h1⟩ := h (conf 1)
  rw [(hid _ (Contents.uniform 0 (conf 1) fun _ => 0)).1] at h0
  have heq := (List.prefix_of_prefix_length_le h0 h1 (by simp)).eq_of_length (by simp)
  have hlast := List.singleton_inj.1 (List.append_cancel_left heq)
  have hsize := congrArg FtTransferConf.wStructSize (FtCall.setTransferParams.inj hlast).1
  rw [hx, hy] at hsize
  have hne : (0 : UInt16) ≠ 1 := by decide
  exact hne hsize

theorem opens_create {addr : UsbAddr} {c : HandleCall} (hc : c ≠ .close) (h : addr.handle = 0) :
    d.Opens past addr (.handle c) := by
  refine ⟨[], ?_⟩
  intro conf
  unfold outcome LibCall.prog
  have hopen : ∀ (pvArg : PvArg) (dwFlags : UInt32), ∃ conf' : FtTransferConf, conf'.wStructSize = conf.wStructSize ∧
      [.setTransferParams conf' 0] <+:
        ((openInto pvArg dwFlags addr).exec (d.handler past (Contents.uniform 0 conf fun _ => 0)) ⟨[], 0⟩).2.made := by
    intro pvArg dwFlags
    unfold openInto ftCreateWrapper
    rw [if_neg (not_not_intro h), Prog.bind_assoc]
    exact made_setTransConf d past (Contents.uniform 0 conf fun _ => 0) _ ⟨[], 0⟩
  cases c with
  | create => exact hopen ..
  | createWithSerialNum => exact hopen ..
  | close => exact absurd rfl hc

/-- Every function of `Maintenance` opens a handle. -/
theorem opens_maintenance (m : Maintenance) (addr : UsbAddr) : d.Opens past addr (.maintenance m) := by
  have hcreate : ∀ (conf : FtTransferConf) (f : FtHandle → Created → Ed (Int32 × UsbAddr)),
      ∃ conf' : FtTransferConf, conf'.wStructSize = conf.wStructSize ∧ [.setTransferParams conf' 0] <+:
        ((undef .handle >>= fun g => ftCreateWrapper .null ftOpenByIndex >>= f g).exec
          (d.handler past (Contents.uniform 0 conf fun _ => 0)) ⟨[], 0⟩).2.made := by
    intro conf f
    rw [exec_undef]
    unfold ftCreateWrapper
    rw [Prog.bind_assoc]
    exact made_setTransConf d past (Contents.uniform 0 conf fun _ => 0) _ ⟨[], 1⟩
  cases m with
  | sdkInfo =>
    refine ⟨[.getLibraryVersion], ?_⟩
    intro conf
    simp only [outcome, LibCall.prog, Maintenance.prog, EdUsb.sdkInfo, Prog.bind_assoc]
    exact made_setTransConf d past (Contents.uniform 0 conf fun _ => 0) _ ⟨[.getLibraryVersion], 0⟩
  | _ =>
    refine ⟨[], ?_⟩
    intro conf
    exact hcreate conf _

end Opening

section Calls

variable {d : Responses} {past : List FtCall} {addr : UsbAddr}

theorem outcome_recv {c : UsbConfig} {repeatIndex : Int32} {data : Mem} {len : UInt64} {timeout : UInt32} (σ : Contents)
    (hi : repeatIndex < c.repeatCount.toUInt32.toInt32) :
    d.outcome past σ (.recv c repeatIndex data len timeout) addr =
      (some (((d.got past addr len.toUInt32 timeout).count.getD (σ 0 .count)).toInt32, addr),
        reading addr len.toUInt32 timeout) := by
  simp only [outcome, LibCall.prog, usbStartRecvRepeatN, hi, decide_true, Prog.assert_true, Prog.ret_bind, Prog.bind_assoc,
    exec_read, List.append_nil, List.nil_append, sizeToInt_toUInt64]
  rfl

/-- **Step.**  What a call does, in a state where its locals do not matter. -/
theorem outcome_of_settled {c : LibCall} (h : d.Settled past addr c) (σ σ' : Contents) :
    d.outcome past σ c addr = d.outcome past σ' c addr := by
  cases c with
  | handle c =>
    cases c with
    | close =>
      simp only [outcome, LibCall.prog, HandleCall.prog, usbCloseHandle]
      split <;> rfl
    | create =>
      have h : addr.handle ≠ 0 := h
      simp only [outcome, LibCall.prog, HandleCall.prog, usbCreateHandle, if_pos h]
      rfl
    | createWithSerialNum =>
      have h : addr.handle ≠ 0 := h
      simp only [outcome, LibCall.prog, HandleCall.prog, usbCreateHandleWithSerialNum, if_pos h]
      rfl
  | command c => exact alike_of_stored h σ σ'
  | recv c repeatIndex data len timeout =>
    by_cases hi : repeatIndex < c.repeatCount.toUInt32.toInt32
    · obtain ⟨k, hk⟩ := Option.ne_none_iff_exists'.1 (h hi)
      rw [outcome_recv σ hi, outcome_recv σ' hi, hk]
      rfl
    · simp only [outcome, LibCall.prog, usbStartRecvRepeatN, hi, decide_false, Prog.assert_false, Prog.fail_bind]
      rfl
  | maintenance m => exact h.elim

/-- In any other state something of the call shows its locals. -/
theorem settled_of_hidden {c : LibCall} (h : d.Hidden past addr c) : d.Settled past addr c := by
  cases c with
  | handle c =>
    cases c with
    | close => exact trivial
    | create => exact fun h0 => not_hidden_of_opens (opens_create (by decide) h0) h
    | createWithSerialNum => exact fun h0 => not_hidden_of_opens (opens_create (by decide) h0) h
  | command c => exact stored_of_hidden h
  | recv c repeatIndex data len timeout =>
    intro hi hnone
    have hcode := (h (Contents.uniform 0 default fun _ => 0) (Contents.uniform 1 default fun _ => 0)).2
    rw [outcome_recv _ hi, outcome_recv _ hi, hnone] at hcode
    have hne : (0 : UInt32).toInt32 ≠ (1 : UInt32).toInt32 := by decide
    exact hne (Option.some_inj.1 hcode)
  | maintenance m => exact not_hidden_of_opens (opens_maintenance m addr) h

end Calls

section Sequences

variable {d : Responses} {past : List FtCall} {addrs : ℕ → UsbAddr} {l : List (ℕ × LibCall)}

theorem observe_cons {g : ℕ → Contents} {i : ℕ} {c : LibCall} {code : Int32} {addr : UsbAddr}
    (h : (d.outcome past (g 0) c (addrs i)).1 = some (code, addr)) :
    d.observe past addrs g ((i, c) :: l) = ⟨(d.outcome past (g 0) c (addrs i)).2, some code⟩ ::
      d.observe (past ++ (d.outcome past (g 0) c (addrs i)).2) (Function.update addrs i addr) (fun n => g (n + 1)) l := by
  simp only [observe, h]
  rfl

theorem blind_of_covered (h : d.Covered past addrs l) : d.Blind past addrs l := by
  intro g g'
  induction l generalizing past addrs g g' with
  | nil => rfl
  | cons x l ih =>
    obtain ⟨i, c⟩ := x
    obtain ⟨hset, h⟩ := h
    have heq := outcome_of_settled hset (g 0) (g' 0)
    cases ho : (d.outcome past (g 0) c (addrs i)).1 with
    | none =>
      simp only [observe, ← heq, ho]
    | some r =>
      obtain ⟨code, addr⟩ := r
      rw [observe_cons ho, observe_cons (heq ▸ ho), ← heq]
      rw [ih (h (g 0) code addr ho)]

/-- What is seen of a sequence shows what is seen of its first call. -/
theorem hidden_of_blind {i : ℕ} {c : LibCall} (h : d.Blind past addrs ((i, c) :: l)) : d.Hidden past (addrs i) c := by
  intro σ σ'
  have hhead := List.head_eq_of_cons_eq (h (fun _ => σ) fun _ => σ')
  exact ⟨congrArg Seen.calls hhead, congrArg Seen.code hhead⟩

theorem covered_of_blind (h : d.Blind past addrs l) : d.Covered past addrs l := by
  induction l generalizing past addrs with
  | nil => exact trivial
  | cons x l ih =>
    obtain ⟨i, c⟩ := x
    refine ⟨settled_of_hidden (hidden_of_blind h), ?_⟩
    intro σ code addr ho
    apply ih
    intro g g'
    -- the first call starts with `σ` in both runs
    let G (g : ℕ → Contents) (n : ℕ) : Contents := n.casesOn σ g
    have heq := h (G g) (G g')
    rw [observe_cons (show (d.outcome past (G g 0) c (addrs i)).1 = _ from ho),
      observe_cons (show (d.outcome past (G g' 0) c (addrs i)).1 = _ from ho)] at heq
    exact List.tail_eq_of_cons_eq heq

end Sequences

end Responses

/-- **When the contents of uninitialised locals do not matter.**  For every driver, every state of the caller's
`usb_addr_t`s and every sequence of calls of the library: the calls made to the driver and the codes returned are the
same for all contents of the locals if and only if no call opens a handle and every transfer stores what is used of it. -/
theorem blind_iff (d : Responses) (past : List FtCall) (addrs : ℕ → UsbAddr) (l : List (ℕ × LibCall)) :
    d.Blind past addrs l ↔ d.Covered past addrs l :=
  ⟨Responses.covered_of_blind, Responses.blind_of_covered⟩

/-- A driver that does all it is asked to. -/
def obliging : Responses where
  answer _
    | .create .. => ⟨ftOk, some 1⟩
    | .writePipe _ _ _ n _ => ⟨ftOk, some n⟩
    | .readPipe _ _ n _ => ⟨ftOk, some n, List.replicate n.toNat 0⟩
    | .getChipConfiguration _ => ⟨ftOk, some .zero⟩
    | .getLibraryVersion | .getDriverVersion _ | .setTransferParams .. | .close _ | .abortPipe .. | .setPipeTimeout ..
    | .setChipConfiguration .. | .getDeviceInfoDetail _ => ftOk
  errno _ := 0

/-- Opening a handle shows what the stack held. -/
theorem not_blind_of_create : ¬ obliging.Blind [] (fun _ => ⟨0⟩) [(0, .handle .create)] := by
  intro h
  obtain ⟨hset, -⟩ := Responses.covered_of_blind h
  exact hset rfl

end EdUsb
