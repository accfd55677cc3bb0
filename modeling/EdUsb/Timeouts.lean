import EdUsb.Locals

/-!
# The timeouts of the transfers

The driver holds one timeout for each pipe.  `_write` sets that of the pipe 2 and writes to it; `_read` sets that of the
pipe 0x82, but reads from the pipe 2, so a read runs under the timeout that was set for the last write.  `timeoutLaw_iff`
says in which runs of the library every transfer runs under the timeout that was asked for.
-/

namespace EdUsb

open EdUsb.Lib Ed

/-- The timeout that the driver holds for each pipe of a handle. -/
abbrev PipeTimeouts := FtHandle → UInt8 → UInt32

/-- The timeouts after a call of the driver. -/
def PipeTimeouts.after (T : PipeTimeouts) : FtCall → PipeTimeouts
  | .setPipeTimeout h p t => fun h' p' => if h' = h ∧ p' = p then t else T h' p'
  | _ => T

/-- A transfer for which the timeout `t` was asked: that of its pipe is `t`. -/
def FtCall.Timed (T : PipeTimeouts) (t : UInt32) : FtCall → Prop
  | .writePipe h p _ _ _ => T h p = t
  | .readPipe h p _ _ => T h p = t
  | _ => True

/-- A read is from a pipe that can be read. -/
def FtCall.FromReadPipe : FtCall → Prop
  | .readPipe _ p _ _ => ftIsReadPipe p = true
  | _ => True

/-- In a sequence of calls of the driver, each with the timeout asked for, every transfer runs under that. -/
def Timely : PipeTimeouts → List (UInt32 × FtCall) → Prop
  | _, [] => True
  | T, (t, c) :: l => c.Timed T t ∧ Timely (T.after c) l

/-- **What the transfers should do**: each runs under the timeout asked for, and what is read is a read pipe. -/
def TimeoutLaw (T : PipeTimeouts) (l : List (UInt32 × FtCall)) : Prop := Timely T l ∧ ∀ x ∈ l, x.2.FromReadPipe

/-- The calls of the library that transfer something. -/
inductive Transfer where
  | command (c : Command)
  | recv (c : UsbConfig) (repeatIndex : Int32) (data : Mem) (len : UInt64) (timeout : UInt32)

namespace Transfer

def call : Transfer → LibCall
  | .command c => .command c
  | .recv c repeatIndex data len timeout => .recv c repeatIndex data len timeout

/-- The timeout argument of each `_write` and `_read` of the call. -/
def timeout : Transfer → UInt32
  | .command _ => defaultTimeout
  | .recv _ _ _ _ timeout => timeout

end Transfer

namespace Responses

variable (d : Responses) (addr : UsbAddr)

/-- The calls of the driver in a run of the library on one handle, each with the timeout asked for.  The run ends with the
first assertion that fails. -/
def issued : List FtCall → (ℕ → Contents) → List Transfer → List (UInt32 × FtCall)
  | _, _, [] => []
  | past, g, x :: l =>
    let r := d.outcome past (g 0) x.call addr
    r.2.map (fun c => (x.timeout, c)) ++
      match r.1 with
      | none => []
      | some _ => issued (past ++ r.2) (fun n => g (n + 1)) l

/-- A command comes to read its response. -/
def Reads (past : List FtCall) (c : Command) (σ : Contents) : Prop :=
  c.request.answer ≠ none ∧ (d.wrote past addr c.frame).count.getD (σ 1 .count) = 32

/-- In a run nothing is read: no receive passes its assertion, and of no request that is answered 32 bytes are said to be
written. -/
def Readless : List FtCall → (ℕ → Contents) → List Transfer → Prop
  | _, _, [] => True
  | past, g, .command c :: l =>
    ¬ d.Reads addr past c (g 0) ∧ Readless (past ++ writing addr c.frame) (fun n => g (n + 1)) l
  | _, _, .recv c repeatIndex _ _ _ :: _ => ¬ repeatIndex < c.repeatCount.toUInt32.toInt32

end Responses

/-- Every receive of a run asks for the timeout of the pipe 2, which is `t` at first and that of the requests after the
first command. -/
def OnTime : UInt32 → List Transfer → Prop
  | _, [] => True
  | _, .command _ :: l => OnTime defaultTimeout l
  | t, .recv c repeatIndex _ _ timeout :: l =>
    repeatIndex < c.repeatCount.toUInt32.toInt32 → timeout = t ∧ OnTime t l

/-! ### The calls of a transfer -/

/-- The timeouts after several calls. -/
def PipeTimeouts.afterAll (T : PipeTimeouts) (l : List (UInt32 × FtCall)) : PipeTimeouts :=
  l.foldl (fun T x => T.after x.2) T

theorem timely_append (T : PipeTimeouts) (l l' : List (UInt32 × FtCall)) :
    Timely T (l ++ l') ↔ Timely T l ∧ Timely (T.afterAll l) l' := by
  induction l generalizing T with
  | nil => exact (and_iff_right trivial).symm
  | cons x l ih =>
    obtain ⟨t, c⟩ := x
    simp only [List.cons_append, Timely, ih, PipeTimeouts.afterAll, List.foldl_cons, and_assoc]

theorem timeoutLaw_append (T : PipeTimeouts) (l l' : List (UInt32 × FtCall)) :
    TimeoutLaw T (l ++ l') ↔ TimeoutLaw T l ∧ TimeoutLaw (T.afterAll l) l' := by
  unfold TimeoutLaw
  rw [timely_append, List.forall_mem_append]
  exact and_and_and_comm

namespace Responses

section Pipes

variable (T : PipeTimeouts) (addr : UsbAddr)

/-- A request runs under the timeout that is set for it. -/
theorem timely_writing (frame : List UInt8) (t : UInt32) :
    Timely T ((writing addr frame).map fun c => (t, c)) ↔ t = defaultTimeout := by
  simp [writing, Timely, FtCall.Timed, PipeTimeouts.after, eq_comm]

theorem afterAll_writing (frame : List UInt8) (t : UInt32) :
    T.afterAll ((writing addr frame).map fun c => (t, c)) addr.handle 2 = defaultTimeout := by
  simp [writing, PipeTimeouts.afterAll, PipeTimeouts.after]

/-- A read runs under the timeout that the pipe 2 had before. -/
theorem timely_reading (n t' t : UInt32) :
    Timely T ((reading addr n t').map fun c => (t, c)) ↔ t = T addr.handle 2 := by
  simp [reading, Timely, FtCall.Timed, PipeTimeouts.after, eq_comm]

theorem afterAll_reading (n t' t : UInt32) :
    T.afterAll ((reading addr n t').map fun c => (t, c)) addr.handle 2 = T addr.handle 2 := by
  simp [reading, PipeTimeouts.afterAll, PipeTimeouts.after]

end Pipes

/-- A request keeps the law, as it reads nothing. -/
theorem timeoutLaw_writing (T : PipeTimeouts) (addr : UsbAddr) (frame : List UInt8) :
    TimeoutLaw T ((writing addr frame).map fun c => (defaultTimeout, c)) := by
  refine ⟨(timely_writing T addr frame defaultTimeout).2 rfl, ?_⟩
  simp [writing, FtCall.FromReadPipe]

/-- A read breaks the law under any timeout: the pipe 2 is no read pipe. -/
theorem not_timeoutLaw_reading (addr : UsbAddr) (T : PipeTimeouts) (n t' t : UInt32) :
    ¬ TimeoutLaw T ((reading addr n t').map fun c => (t, c)) := by
  have hpipe : ftIsReadPipe 2 = false := rfl
  rintro ⟨-, hread⟩
  simp [reading, FtCall.FromReadPipe, hpipe] at hread

section Issued

variable (d : Responses) (addr : UsbAddr) (past : List FtCall) (g : ℕ → Contents) (l : List Transfer)

/-- The calls of the driver that a command makes: it writes its request, and reads if it comes to that. -/
theorem outcome_of_not_reads {c : Command} {σ : Contents} (h : ¬ d.Reads addr past c σ) :
    ∃ a, d.outcome past σ (.command c) addr = (some (a, addr), writing addr c.frame) := by
  cases hc : c.request.answer with
  | none =>
    obtain rfl := Command.eq_start hc
    exact ⟨_, outcome_start d past σ addr⟩
  | some code =>
    have hk : (d.wrote past addr c.frame).count.getD (σ 1 .count) ≠ 32 := by
      intro hk
      exact h ⟨by rw [hc]; exact Option.some_ne_none code, hk⟩
    exact ⟨_, outcome_unwritten d past σ addr hc hk⟩

theorem outcome_of_reads {c : Command} {σ : Contents} (h : d.Reads addr past c σ) :
    ∃ a, d.outcome past σ (.command c) addr =
      (some (a, addr), writing addr c.frame ++ reading addr 32 defaultTimeout) := by
  obtain ⟨hne, hk⟩ := h
  obtain ⟨code, hc⟩ := Option.ne_none_iff_exists'.1 hne
  by_cases hn : (d.got (past ++ writing addr c.frame) addr 32 defaultTimeout).count.getD (σ 3 .count) = 32
  · exact ⟨_, outcome_full d past σ addr hc hk hn⟩
  · exact ⟨_, outcome_short d past σ addr hc hk hn⟩

theorem issued_cons {x : Transfer} {a : Int32} {calls : List FtCall}
    (h : d.outcome past (g 0) x.call addr = (some (a, addr), calls)) :
    d.issued addr past g (x :: l) =
      calls.map (fun c => (x.timeout, c)) ++ d.issued addr (past ++ calls) (fun n => g (n + 1)) l := by
  simp only [issued, h]

theorem issued_of_not_reads {c : Command} (h : ¬ d.Reads addr past c (g 0)) :
    d.issued addr past g (.command c :: l) =
      (writing addr c.frame).map (fun x => (defaultTimeout, x)) ++
        d.issued addr (past ++ writing addr c.frame) (fun n => g (n + 1)) l := by
  obtain ⟨a, hout⟩ := outcome_of_not_reads d addr past h
  exact issued_cons d addr past g l (x := .command c) hout

theorem issued_of_reads {c : Command} (h : d.Reads addr past c (g 0)) :
    d.issued addr past g (.command c :: l) =
      (writing addr c.frame).map (fun x => (defaultTimeout, x)) ++
        ((reading addr 32 defaultTimeout).map (fun x => (defaultTimeout, x)) ++
          d.issued addr (past ++ (writing addr c.frame ++ reading addr 32 defaultTimeout)) (fun n => g (n + 1)) l) := by
  obtain ⟨a, hout⟩ := outcome_of_reads d addr past h
  rw [issued_cons d addr past g l (x := .command c) hout, List.map_append, List.append_assoc]
  rfl

/-- A receive that passes its assertion reads whatever the driver answered before. -/
theorem issued_recv {c : UsbConfig} {repeatIndex : Int32} {data : Mem} {len : UInt64} {timeout : UInt32}
    (hi : repeatIndex < c.repeatCount.toUInt32.toInt32) :
    d.issued addr past g (.recv c repeatIndex data len timeout :: l) =
      (reading addr len.toUInt32 timeout).map (fun x => (timeout, x)) ++
        d.issued addr (past ++ reading addr len.toUInt32 timeout) (fun n => g (n + 1)) l :=
  issued_cons d addr past g l (x := .recv c repeatIndex data len timeout) (outcome_recv (g 0) hi)

theorem issued_recv_of_not {c : UsbConfig} {repeatIndex : Int32} {data : Mem} {len : UInt64} {timeout : UInt32}
    (hi : ¬ repeatIndex < c.repeatCount.toUInt32.toInt32) :
    d.issued addr past g (.recv c repeatIndex data len timeout :: l) = [] := by
  have hout : d.outcome past (g 0) (.recv c repeatIndex data len timeout) addr = (none, []) := by
    simp only [outcome, LibCall.prog, usbStartRecvRepeatN, hi, decide_false, Prog.assert_false, Prog.fail_bind]
    rfl
  simp only [issued, Transfer.call, hout]
  rfl

end Issued

/-! ### Runs -/

section Runs

variable (d : Responses) (addr : UsbAddr)

/-- The timeouts alone: only receives can go wrong, as the commands all ask for the same. -/
theorem timely_issued_iff (past : List FtCall) (g : ℕ → Contents) (T : PipeTimeouts) (l : List Transfer) :
    Timely T (d.issued addr past g l) ↔ OnTime (T addr.handle 2) l := by
  induction l generalizing past g T with
  | nil => exact Iff.rfl
  | cons x l ih =>
    cases x with
    | command c =>
      by_cases h : d.Reads addr past c (g 0)
      · rw [issued_of_reads d addr past g l h, timely_append, timely_append, ih, timely_writing, timely_reading,
          afterAll_reading, afterAll_writing]
        exact (and_iff_right rfl).trans (and_iff_right rfl)
      · rw [issued_of_not_reads d addr past g l h, timely_append, ih, timely_writing, afterAll_writing]
        exact and_iff_right rfl
    | recv c repeatIndex data len timeout =>
      by_cases hi : repeatIndex < c.repeatCount.toUInt32.toInt32
      · rw [issued_recv d addr past g l hi, timely_append, ih, timely_reading, afterAll_reading]
        exact ⟨fun h _ => h, fun h => h hi⟩
      · rw [issued_recv_of_not d addr past g l hi]
        exact iff_of_true trivial fun h => absurd h hi

/-- Reads are from no read pipe, so the law holds of the runs without any. -/
theorem timeoutLaw_issued_iff (past : List FtCall) (g : ℕ → Contents) (T : PipeTimeouts) (l : List Transfer) :
    TimeoutLaw T (d.issued addr past g l) ↔ d.Readless addr past g l := by
  induction l generalizing past g T with
  | nil => exact iff_of_true ⟨trivial, nofun⟩ trivial
  | cons x l ih =>
    cases x with
    | command c =>
      by_cases h : d.Reads addr past c (g 0)
      · refine iff_of_false ?_ fun hr => hr.1 h
        rw [issued_of_reads d addr past g l h, timeoutLaw_append, timeoutLaw_append]
        rintro ⟨-, hread, -⟩
        exact not_timeoutLaw_reading addr _ 32 defaultTimeout defaultTimeout hread
      · rw [issued_of_not_reads d addr past g l h, timeoutLaw_append, Readless, ← ih]
        exact and_congr (iff_of_true (timeoutLaw_writing T addr c.frame) h) Iff.rfl
    | recv c repeatIndex data len timeout =>
      by_cases hi : repeatIndex < c.repeatCount.toUInt32.toInt32
      · refine iff_of_false ?_ fun hr => hr hi
        rw [issued_recv d addr past g l hi, timeoutLaw_append]
        rintro ⟨hread, -⟩
        exact not_timeoutLaw_reading addr T len.toUInt32 timeout timeout hread
      · rw [issued_recv_of_not d addr past g l hi]
        exact iff_of_true ⟨trivial, nofun⟩ hi

end Runs

end Responses

/-- **Which transfers run under the timeout asked for.**  For every driver and every run of the library on a handle,
whatever timeouts the driver holds at first: every transfer runs under the timeout asked for, and every read is from a
read pipe, if and only if nothing is read; and of the timeouts alone this is true if and only if every receive asks for
the timeout that the pipe 2 has anyway. -/
theorem timeoutLaw_iff (d : Responses) (addr : UsbAddr) (past : List FtCall) (g : ℕ → Contents) (T : PipeTimeouts)
    (l : List Transfer) :
    (TimeoutLaw T (d.issued addr past g l) ↔ d.Readless addr past g l) ∧
      (Timely T (d.issued addr past g l) ↔ OnTime (T addr.handle 2) l) :=
  ⟨Responses.timeoutLaw_issued_iff d addr past g T l, Responses.timely_issued_iff d addr past g T l⟩

/-- A start, and a receive that is to wait five seconds for the trigger. -/
def lateTrigger : List Transfer := [.command .start, .recv defaultConfig 0 (fun _ => 0) 2000000 5000]

/-- The receive waits one second, as the start did. -/
theorem not_timeoutLaw_of_lateTrigger :
    ¬ TimeoutLaw (fun _ _ => 0) (obliging.issued ⟨1⟩ [] (fun _ => Responses.Contents.empty) lateTrigger) := by
  rintro ⟨htimely, -⟩
  have htime := (Responses.timely_issued_iff obliging ⟨1⟩ [] _ _ lateTrigger).1 htimely
  have hi : (0 : Int32) < defaultConfig.repeatCount.toUInt32.toInt32 := by decide
  have heq : (5000 : UInt32) = defaultTimeout := (htime hi).1
  exact absurd heq (by decide)

end EdUsb
