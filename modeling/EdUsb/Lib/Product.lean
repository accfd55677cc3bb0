import EdUsb.Lib.Prog

/-!
# Environments put together

Two environments that both see every call (`Env.prod`): one answers, the other takes note of it or adds its own
conditions.  Each run against one is a run against both if the other can follow (`Prog.Runs.prod`).  In an environment with
a guard (`Env.guard`) a call is answered only where it is allowed; a program that goes through there makes no other call
in any run (`Prog.Wp.guarded`).  With a log (`Env.logged`) every call that was made can be spoken of; what is known of a
program on its own holds there too, with what it adds to the log (`Prog.Wp.logged`).
-/

namespace EdUsb.Lib

variable {Op : Type} {Res : Op → Type} {W V α β : Type}

/-! ### The calls of a program -/

namespace Prog

/-- The program does not fail, and each call that it may come to make is one of `ok`. -/
def Calls (ok : Op → Prop) : Prog Op Res α → Prop
  | .ret _ => True
  | .fail => False
  | .call o k => ok o ∧ ∀ r, (k r).Calls ok

variable {ok ok' : Op → Prop} {p : Prog Op Res α} {E : Env Op Res W}

theorem Calls.bind {f : α → Prog Op Res β} (hp : p.Calls ok) (hf : ∀ a, (f a).Calls ok) : (p >>= f).Calls ok := by
  induction p with
  | ret a => exact hf a
  | fail => exact hp.elim
  | call o k ih => exact ⟨hp.1, fun r => ih r (hp.2 r)⟩

theorem Calls.mono (h : ∀ o, ok o → ok' o) (hp : p.Calls ok) : p.Calls ok' := by
  induction p with
  | ret a => trivial
  | fail => exact hp.elim
  | call o k ih => exact ⟨h o hp.1, fun r => ih r (hp.2 r)⟩

/-- A program goes through if its calls are answered, and keeps what they keep. -/
theorem Calls.wp {I : W → Prop} (hp : p.Calls ok)
    (hans : ∀ w o, I w → ok o → (∃ r u, E.ans w o r u) ∧ ∀ r u, E.ans w o r u → I u)
    (hmove : ∀ w v, I w → E.move w v → I v) {w : W} (hw : I w) : p.Wp E (fun _ v => I v) w := by
  induction p generalizing w with
  | ret a =>
    intro v hv
    exact hv.inv hmove hw
  | fail => exact hp.elim
  | call o k ih =>
    intro v hv
    obtain ⟨hex, hall⟩ := hans v o (hv.inv hmove hw) hp.1
    refine ⟨hex, ?_⟩
    intro r u hu
    exact ih r (hp.2 r) (hall r u hu)

/-- A program that goes through does so in its first part. -/
theorem wp_of_bind {f : α → Prog Op Res β} {Q : β → W → Prop} {w : W} (h : (p >>= f).Wp E Q w) :
    p.Wp E (fun a v => (f a).Wp E Q v) w := by
  induction p generalizing w with
  | ret a =>
    intro v hv
    exact h.move_left hv
  | fail => exact h
  | call o k ih =>
    intro v hv
    obtain ⟨hex, hall⟩ := h v hv
    exact ⟨hex, fun r u hu => ih r (hall r u hu)⟩

/-- What the answers to its calls keep, a run keeps. -/
theorem Calls.inv {I : W → Prop} (hp : p.Calls ok) (hans : ∀ w o r u, I w → ok o → E.ans w o r u → I u)
    (hmove : ∀ w v, I w → E.move w v → I v) {w w' : W} {a : α} (h : p.Runs E w a w') (hw : I w) : I w' := by
  induction p generalizing w with
  | ret b => exact h.2.inv hmove hw
  | fail => exact h.elim
  | call o k ih =>
    obtain ⟨v, r, u, hm, ha, h⟩ := h
    exact ih r (hp.2 r) h (hans v o r u (hm.inv hmove hw) hp.1 ha)

end Prog

/-! ### Simulation -/

namespace Env

/-- On the calls `ok` the environment `F` can do what `E` does, the states of `E` being seen through `f`. -/
structure Simulates (F : Env Op Res V) (E : Env Op Res W) (ok : Op → Prop) (f : W → V) : Prop where
  ans : ∀ w o r u, ok o → E.ans w o r u → F.ans (f w) o r (f u)
  move : ∀ w v, E.move w v → F.Moves (f w) (f v)

variable {E : Env Op Res W} {F : Env Op Res V} {ok : Op → Prop} {f : W → V}

theorem Simulates.moves (h : F.Simulates E ok f) {w v : W} (hm : E.Moves w v) : F.Moves (f w) (f v) := by
  induction hm with
  | refl => exact .refl _
  | tail _ hm ih => exact ih.trans (h.move _ _ hm)

/-- **Simulation.**  A run against `E` is one against `F`. -/
theorem Simulates.runs (h : F.Simulates E ok f) {p : Prog Op Res α} (hp : p.Calls ok) {w w' : W} {a : α}
    (hr : p.Runs E w a w') : p.Runs F (f w) a (f w') := by
  induction p generalizing w with
  | ret b => exact ⟨hr.1, h.moves hr.2⟩
  | fail => exact hr.elim
  | call o k ih =>
    obtain ⟨v, r, u, hm, ha, hr⟩ := hr
    exact ⟨f v, r, f u, h.moves hm, h.ans _ _ _ _ hp.1 ha, ih r (hp.2 r) hr⟩

/-- Where all calls are simulated, so are programs whose assertions may fail. -/
theorem Simulates.runs_all (h : F.Simulates E (fun _ => True) f) {p : Prog Op Res α} {w w' : W} {a : α}
    (hr : p.Runs E w a w') : p.Runs F (f w) a (f w') := by
  induction p generalizing w with
  | ret b => exact ⟨hr.1, h.moves hr.2⟩
  | fail => exact hr.elim
  | call o k ih =>
    obtain ⟨v, r, u, hm, ha, hr⟩ := hr
    exact ⟨f v, r, f u, h.moves hm, h.ans _ _ _ _ trivial ha, ih r hr⟩

/-- Sequences of programs are simulated program by program. -/
theorem Simulates.trace {C : Type} (h : F.Simulates E (fun _ => True) f) {prog : C → Prog Op Res α} {w w' : W}
    {l : List (Done C α W)} (ht : Trace E prog w l w') :
    Trace F prog (f w) (l.map fun d => ⟨d.cmd, f d.before, d.val, f d.after⟩) (f w') := by
  induction ht with
  | nil hm => exact .nil (h.moves hm)
  | cons hm hr _ ih => exact .cons (h.moves hm) (h.runs_all hr) ih

/-! ### Products -/

/-- Both environments see each call and its answer; each moves on its own. -/
def prod (E : Env Op Res W) (F : Env Op Res V) : Env Op Res (W × V) where
  ans x o r y := E.ans x.1 o r y.1 ∧ F.ans x.2 o r y.2
  move x y := E.move x.1 y.1 ∧ y.2 = x.2 ∨ F.move x.2 y.2 ∧ y.1 = x.1

theorem moves_prod {E : Env Op Res W} (F : Env Op Res V) {w v : W} (h : E.Moves w v) (x : V) :
    (E.prod F).Moves (w, x) (v, x) := by
  induction h with
  | refl => exact .refl _
  | tail _ hm ih => exact ih.trans (.single (.inl ⟨hm, rfl⟩))

/-! ### Guards -/

/-- The environment `E`, which answers a call only where it is allowed. -/
def guard (E : Env Op Res W) (allowed : W → Op → Prop) : Env Op Res W where
  ans w o r u := allowed w o ∧ E.ans w o r u
  move := E.move

/-! ### Logs -/

/-- Takes note of every call. -/
def log : Env Op Res (List Op) where
  ans l o _ l' := l' = l ++ [o]
  move _ _ := False

/-- The environment `E`, with a log of all calls. -/
def logged (E : Env Op Res W) : Env Op Res (W × List Op) := E.prod log

theorem moves_logged {E : Env Op Res W} {x y : W × List Op} (h : E.logged.Moves x y) : E.Moves x.1 y.1 ∧ y.2 = x.2 := by
  induction h with
  | refl => exact ⟨.refl x.1, rfl⟩
  | tail _ hm ih =>
    rcases hm with ⟨hm, he⟩ | ⟨hm, -⟩
    · exact ⟨ih.1.trans (.single hm), he.trans ih.2⟩
    · exact False.elim hm

end Env

namespace Prog

variable {E : Env Op Res W} {F : Env Op Res V} {p : Prog Op Res α} {a : α}

/-- A run is one against two environments if the other can follow every answer. -/
theorem Runs.prod (hF : ∀ v o r, ∃ v', F.ans v o r v') {w w' : W} (h : p.Runs E w a w') (v : V) :
    ∃ v', p.Runs (E.prod F) (w, v) a (w', v') := by
  induction p generalizing w v with
  | ret b => exact ⟨v, h.1, Env.moves_prod F h.2 v⟩
  | fail => exact h.elim
  | call o k ih =>
    obtain ⟨x, r, u, hm, ha, h⟩ := h
    obtain ⟨y, hy⟩ := hF v o r
    obtain ⟨v', h'⟩ := ih r h y
    exact ⟨v', (x, v), r, (u, y), Env.moves_prod F hm v, ⟨ha, hy⟩, h'⟩

/-- **Guard rule.**  If a program goes through where only allowed calls are answered, then in every run it makes allowed
calls only, and it ends well. -/
theorem Wp.guarded {allowed : W → Op → Prop} {Q : α → W → Prop} {w w' : W} (h : p.Wp (E.guard allowed) Q w)
    (hr : p.Runs E w a w') : p.Runs (E.guard allowed) w a w' ∧ Q a w' := by
  induction p generalizing w with
  | ret b =>
    obtain ⟨rfl, hm⟩ := hr
    exact ⟨⟨rfl, hm⟩, h w' hm⟩
  | fail => exact hr.elim
  | call o k ih =>
    obtain ⟨v, r, u, hm, ha, hr⟩ := hr
    obtain ⟨⟨_, _, hok, -⟩, hall⟩ := h v hm
    obtain ⟨hrun, hq⟩ := ih r (hall r u ⟨hok, ha⟩) hr
    exact ⟨⟨v, r, u, hm, ⟨hok, ha⟩, hrun⟩, hq⟩

/-- **Log rule.**  A program that goes through does so with a log, and adds its own calls at the end. -/
theorem Wp.logged {ok : Op → Prop} {Q : α → W → Prop} {w : W} (h : p.Wp E Q w) (hp : p.Calls ok) (l : List Op) :
    p.Wp E.logged (fun a x => Q a x.1 ∧ ∃ m, (∀ o ∈ m, ok o) ∧ x.2 = l ++ m) (w, l) := by
  induction p generalizing w l with
  | ret b =>
    intro x hx
    obtain ⟨hm, he⟩ := Env.moves_logged hx
    exact ⟨h x.1 hm, [], by simp, by rw [he, List.append_nil]⟩
  | fail => exact hp.elim
  | call o k ih =>
    intro x hx
    obtain ⟨hm, he⟩ := Env.moves_logged hx
    obtain ⟨⟨r, u, ha⟩, hall⟩ := h x.1 hm
    refine ⟨⟨r, (u, x.2 ++ [o]), ha, rfl⟩, ?_⟩
    rintro r ⟨u, l'⟩ ⟨ha, rfl⟩
    refine (ih r (hall r u ha) (hp.2 r) _).mono ?_
    rintro a y ⟨hq, m, hm, hy⟩
    refine ⟨hq, o :: m, List.forall_mem_cons.2 ⟨hp.1, hm⟩, ?_⟩
    rw [hy, he, List.append_assoc, List.singleton_append]

/-- One call adds itself. -/
theorem wp_logged_call {o : Op} {Q : Res o → W → Prop} {w : W} (h : (Prog.call o .ret).Wp E Q w) (l : List Op) :
    (Prog.call o .ret).Wp E.logged (fun r x => Q r x.1 ∧ x.2 = l ++ [o]) (w, l) := by
  intro x hx
  obtain ⟨hm, he⟩ := Env.moves_logged hx
  obtain ⟨⟨r, u, ha⟩, hall⟩ := h x.1 hm
  refine ⟨⟨r, (u, x.2 ++ [o]), ha, rfl⟩, ?_⟩
  rintro r ⟨u, l'⟩ ⟨ha, rfl⟩ y hy
  obtain ⟨hm', he'⟩ := Env.moves_logged hy
  exact ⟨hall r u ha y.1 hm', by rw [he', he]⟩

end Prog

end EdUsb.Lib
