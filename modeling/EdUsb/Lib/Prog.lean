import Mathlib.Logic.Relation

/-!
# Programs that make calls

A `Prog Op Res α` makes calls `o : Op`, each answered by some `r : Res o`, and ends with a value or by a
failed assertion.  It says nothing about who answers.  Three readings are given:

* `exec`: the answers come from a handler with a state; the run is computed;
* `Runs`: the answers come from an environment (`Env`), which may also move on its own between any two calls, so a run
  is one interleaving of the program with that environment;
* `Wp`: every interleaving goes through (no call is left unanswered, no assertion fails) and ends well.

`Trace` is a sequence of such programs run one after the other against one environment, with what happened in each; in
a `Chain` each program also hands a value on to the next.
-/

namespace EdUsb.Lib

/-- A program over the calls `Op`. -/
inductive Prog (Op : Type) (Res : Op → Type) (α : Type) where
  | ret (a : α)
  | fail
  | call (o : Op) (k : Res o → Prog Op Res α)

namespace Prog

variable {Op : Type} {Res : Op → Type} {W α β γ : Type}

def bind : Prog Op Res α → (α → Prog Op Res β) → Prog Op Res β
  | .ret a, f => f a
  | .fail, _ => .fail
  | .call o k, f => .call o fun r => (k r).bind f

instance : Monad (Prog Op Res) where
  pure := .ret
  bind := .bind

/-- `assert(b)` -/
def assert (b : Bool) : Prog Op Res Unit := if b then .ret () else .fail

@[simp] theorem pure_eq (a : α) : (pure a : Prog Op Res α) = .ret a := rfl
@[simp] theorem ret_bind (a : α) (f : α → Prog Op Res β) : (Prog.ret a >>= f) = f a := rfl
@[simp] theorem fail_bind (f : α → Prog Op Res β) : ((.fail : Prog Op Res α) >>= f) = .fail := rfl
@[simp] theorem call_bind (o : Op) (k : Res o → Prog Op Res α) (f : α → Prog Op Res β) :
    (Prog.call o k >>= f) = .call o fun r => k r >>= f := rfl
@[simp] theorem assert_true : (assert true : Prog Op Res Unit) = .ret () := rfl
@[simp] theorem assert_false : (assert false : Prog Op Res Unit) = .fail := rfl

theorem bind_assoc (p : Prog Op Res α) (f : α → Prog Op Res β) (g : β → Prog Op Res γ) :
    (p >>= f >>= g) = p >>= fun a => f a >>= g := by
  induction p with
  | ret a => rfl
  | fail => rfl
  | call o k ih => simp only [call_bind, ih]

/-! ## Handlers -/

/-- The run against a handler: the value, if no assertion failed, and the handler's last state. -/
def exec (h : W → (o : Op) → Res o × W) : Prog Op Res α → W → Option α × W
  | .ret a, w => (some a, w)
  | .fail, w => (none, w)
  | .call o k, w => (k (h w o).1).exec h (h w o).2

variable (h : W → (o : Op) → Res o × W)

@[simp] theorem exec_ret (a : α) (w : W) : (Prog.ret a : Prog Op Res α).exec h w = (some a, w) := rfl
@[simp] theorem exec_fail (w : W) : (Prog.fail : Prog Op Res α).exec h w = (none, w) := rfl
@[simp] theorem exec_call (o : Op) (k : Res o → Prog Op Res α) (w : W) :
    (Prog.call o k).exec h w = (k (h w o).1).exec h (h w o).2 := rfl

/-- A run of a program that goes through, continued. -/
theorem exec_bind {p : Prog Op Res α} {w w' : W} {a : α} (hp : p.exec h w = (some a, w')) (f : α → Prog Op Res β) :
    (p >>= f).exec h w = (f a).exec h w' := by
  induction p generalizing w with
  | ret b =>
    obtain ⟨hb, rfl⟩ := Prod.mk.inj hp
    obtain rfl := Option.some_inj.1 hb
    rfl
  | fail => cases hp
  | call o k ih => exact ih _ hp

end Prog

/-! ## Environments -/

/-- Who answers the calls: `ans w o r w'` if in the state `w` the call `o` may be answered by `r`, leaving `w'`, and
`move w w'` if the environment may go from `w` to `w'` on its own. -/
structure Env (Op : Type) (Res : Op → Type) (W : Type) where
  ans : W → (o : Op) → Res o → W → Prop
  move : W → W → Prop

namespace Env

variable {Op : Type} {Res : Op → Type} {W : Type} (E : Env Op Res W)

/-- Any number of moves of the environment alone. -/
def Moves : W → W → Prop := Relation.ReflTransGen E.move

variable {E}

theorem Moves.refl (w : W) : E.Moves w w := Relation.ReflTransGen.refl

theorem Moves.trans {w v u : W} (h₁ : E.Moves w v) (h₂ : E.Moves v u) : E.Moves w u :=
  Relation.ReflTransGen.trans h₁ h₂

theorem Moves.single {w v : W} (h : E.move w v) : E.Moves w v := Relation.ReflTransGen.single h

/-- What every move keeps, every sequence of moves keeps. -/
theorem Moves.inv {I : W → Prop} (hI : ∀ w v, I w → E.move w v → I v) {w v : W} (h : E.Moves w v) (hw : I w) :
    I v := by
  induction h with
  | refl => exact hw
  | tail _ hm ih => exact hI _ _ ih hm

/-- Moves that never move leave the state alone. -/
theorem Moves.eq (hE : ∀ w v, ¬ E.move w v) {w v : W} (h : E.Moves w v) : v = w := by
  induction h with
  | refl => rfl
  | tail _ hm _ => exact absurd hm (hE _ _)

end Env

namespace Prog

variable {Op : Type} {Res : Op → Type} {W α β : Type} {E : Env Op Res W}

/-- One interleaving of the program with the environment, from `w` to `w'`, ending with the value `a`. -/
def Runs (E : Env Op Res W) : Prog Op Res α → W → α → W → Prop
  | .ret b, w, a, w' => b = a ∧ E.Moves w w'
  | .fail, _, _, _ => False
  | .call o k, w, a, w' => ∃ v r u, E.Moves w v ∧ E.ans v o r u ∧ (k r).Runs E u a w'

@[simp] theorem runs_ret {b a : α} {w w' : W} :
    (Prog.ret b : Prog Op Res α).Runs E w a w' ↔ b = a ∧ E.Moves w w' := Iff.rfl

@[simp] theorem runs_fail {a : α} {w w' : W} : ¬ (Prog.fail : Prog Op Res α).Runs E w a w' := fun h => h

/-- Moves before a run belong to it. -/
theorem Runs.move_left {p : Prog Op Res α} {w v w' : W} {a : α} (hm : E.Moves w v) (h : p.Runs E v a w') :
    p.Runs E w a w' := by
  cases p with
  | ret b => exact ⟨h.1, hm.trans h.2⟩
  | fail => exact h
  | call o k =>
    obtain ⟨x, r, u, h1, h2, h3⟩ := h
    exact ⟨x, r, u, hm.trans h1, h2, h3⟩

theorem runs_bind {p : Prog Op Res α} {f : α → Prog Op Res β} {b : β} {w w' : W} :
    (p >>= f).Runs E w b w' ↔ ∃ a v, p.Runs E w a v ∧ (f a).Runs E v b w' := by
  induction p generalizing w with
  | ret a =>
    constructor
    · intro h
      exact ⟨a, w, ⟨rfl, .refl w⟩, h⟩
    · rintro ⟨_, v, ⟨rfl, hm⟩, h⟩
      exact h.move_left hm
  | fail => simp
  | call o k ih =>
    rw [call_bind]
    constructor
    · rintro ⟨x, r, u, h1, h2, h3⟩
      obtain ⟨a, v, h4, h5⟩ := ih r |>.1 h3
      exact ⟨a, v, ⟨x, r, u, h1, h2, h4⟩, h5⟩
    · rintro ⟨a, v, ⟨x, r, u, h1, h2, h4⟩, h5⟩
      exact ⟨x, r, u, h1, h2, (ih r).2 ⟨a, v, h4, h5⟩⟩

/-- **Invariant rule.**  What every answer and every move keep, every run keeps. -/
theorem Runs.inv {I : W → Prop} (hans : ∀ w o r v, I w → E.ans w o r v → I v)
    (hmove : ∀ w v, I w → E.move w v → I v) {p : Prog Op Res α} {w w' : W} {a : α} (h : p.Runs E w a w') (hw : I w) :
    I w' := by
  induction p generalizing w with
  | ret b => exact h.2.inv hmove hw
  | fail => exact h.elim
  | call o k ih =>
    obtain ⟨v, r, u, h1, h2, h3⟩ := h
    exact ih r h3 (hans _ _ _ _ (h1.inv hmove hw) h2)

/-! ## Total correctness -/

/-- Every interleaving from `w` goes through and ends with a value and a state that satisfy `Q`. -/
def Wp (E : Env Op Res W) : Prog Op Res α → (α → W → Prop) → W → Prop
  | .ret a, Q, w => ∀ v, E.Moves w v → Q a v
  | .fail, _, _ => False
  | .call o k, Q, w => ∀ v, E.Moves w v →
      (∃ r u, E.ans v o r u) ∧ ∀ r u, E.ans v o r u → (k r).Wp E Q u

theorem Wp.mono {p : Prog Op Res α} {Q R : α → W → Prop} {w : W} (hQR : ∀ a v, Q a v → R a v) (h : p.Wp E Q w) :
    p.Wp E R w := by
  induction p generalizing w with
  | ret a =>
    intro v hv
    exact hQR a v (h v hv)
  | fail => exact h
  | call o k ih =>
    intro v hv
    refine ⟨(h v hv).1, ?_⟩
    intro r u hu
    exact ih r ((h v hv).2 r u hu)

theorem Wp.move_left {p : Prog Op Res α} {Q : α → W → Prop} {w v : W} (h : p.Wp E Q w) (hm : E.Moves w v) :
    p.Wp E Q v := by
  cases p with
  | ret a =>
    intro u hu
    exact h u (hm.trans hu)
  | fail => exact h
  | call o k =>
    intro u hu
    exact h u (hm.trans hu)

theorem wp_bind {p : Prog Op Res α} {f : α → Prog Op Res β} {Q : β → W → Prop} {w : W}
    (h : p.Wp E (fun a v => (f a).Wp E Q v) w) : (p >>= f).Wp E Q w := by
  induction p generalizing w with
  | ret a => exact h w (.refl w)
  | fail => exact h
  | call o k ih =>
    intro v hv
    refine ⟨(h v hv).1, ?_⟩
    intro r u hu
    exact ih r ((h v hv).2 r u hu)

/-- A program goes through and ends well if it goes through and every run ends well. -/
theorem Wp.of_runs {p : Prog Op Res α} {Q : α → W → Prop} {w : W} (h : p.Wp E (fun _ _ => True) w)
    (hr : ∀ a v, p.Runs E w a v → Q a v) : p.Wp E Q w := by
  induction p generalizing w with
  | ret a =>
    intro v hv
    exact hr a v ⟨rfl, hv⟩
  | fail => exact h
  | call o k ih =>
    intro v hv
    refine ⟨(h v hv).1, ?_⟩
    intro r u hu
    apply ih r ((h v hv).2 r u hu)
    intro a v' hrun
    exact hr a v' ⟨v, r, u, hv, hu, hrun⟩

end Prog

/-! ## Sequences of programs -/

/-- A finished program of a sequence: which one, the states before and after it, and its value. -/
structure Done (C α W : Type) where
  cmd : C
  before : W
  val : α
  after : W

section Trace

variable {Op : Type} {Res : Op → Type} {W C α : Type}

/-- The programs named by a list of commands, run one after the other, with the environment moving in between. -/
inductive Trace (E : Env Op Res W) (prog : C → Prog Op Res α) : W → List (Done C α W) → W → Prop
  | nil {w w' : W} : E.Moves w w' → Trace E prog w [] w'
  | cons {w v v' w' : W} {c : C} {a : α} {l : List (Done C α W)} :
      E.Moves w v → (prog c).Runs E v a v' → Trace E prog v' l w' → Trace E prog w (⟨c, v, a, v'⟩ :: l) w'

variable {E : Env Op Res W} {prog : C → Prog Op Res α}

/-- **Run rule.**  If the moves and the programs keep `I`, then in every sequence started in `I` each program was run
from a state of `I` to a state of `I`. -/
theorem Trace.inv {I : W → Prop} (hmove : ∀ w v, I w → E.move w v → I v)
    (hprog : ∀ c w a v, I w → (prog c).Runs E w a v → I v) {w w' : W} {l : List (Done C α W)}
    (h : Trace E prog w l w') (hw : I w) :
    (∀ d ∈ l, I d.before ∧ (prog d.cmd).Runs E d.before d.val d.after ∧ I d.after) ∧ I w' := by
  induction h with
  | nil hm => exact ⟨by simp, hm.inv hmove hw⟩
  | cons hm hr _ ih =>
    have hv := hm.inv hmove hw
    have hv' := hprog _ _ _ _ hv hr
    obtain ⟨h1, h2⟩ := ih hv'
    refine ⟨?_, h2⟩
    intro d hd
    rcases List.mem_cons.1 hd with rfl | hd
    · exact ⟨hv, hr, hv'⟩
    · exact h1 d hd

/-- A sequence can be cut anywhere. -/
theorem Trace.cut {l₁ l₂ : List (Done C α W)} {w w' : W} (h : Trace E prog w (l₁ ++ l₂) w') :
    ∃ v, Trace E prog w l₁ v ∧ Trace E prog v l₂ w' := by
  induction l₁ generalizing w with
  | nil => exact ⟨w, .nil (.refl w), h⟩
  | cons d l₁ ih =>
    cases h with
    | cons hm hr ht =>
      obtain ⟨v, h₁, h₂⟩ := ih ht
      exact ⟨v, .cons hm hr h₁, h₂⟩

end Trace

/-! ## Programs that hand a value on -/

section Chain

variable {Op : Type} {Res : Op → Type} {W C S α : Type}

/-- The programs named by a list of commands, run one after the other; each is given what the one before it handed on. -/
inductive Chain (E : Env Op Res W) (prog : C → S → Prog Op Res (α × S)) : S × W → List (Done C α (S × W)) → S × W → Prop
  | nil {s : S} {w w' : W} : E.Moves w w' → Chain E prog (s, w) [] (s, w')
  | cons {s s' : S} {w v v' : W} {c : C} {a : α} {l : List (Done C α (S × W))} {x : S × W} :
      E.Moves w v → (prog c s).Runs E v (a, s') v' → Chain E prog (s', v') l x →
      Chain E prog (s, w) (⟨c, (s, v), a, (s', v')⟩ :: l) x

variable {E : Env Op Res W} {prog : C → S → Prog Op Res (α × S)}

/-- **Run rule.**  If the moves and the programs keep `I`, then in every chain started in `I` each program was run from
`I` to `I`. -/
theorem Chain.inv {I : S × W → Prop} (hmove : ∀ s w v, I (s, w) → E.move w v → I (s, v))
    (hprog : ∀ c s w a s' v, I (s, w) → (prog c s).Runs E w (a, s') v → I (s', v)) {x y : S × W}
    {l : List (Done C α (S × W))} (h : Chain E prog x l y) (hx : I x) :
    (∀ d ∈ l, I d.before ∧ (prog d.cmd d.before.1).Runs E d.before.2 (d.val, d.after.1) d.after.2 ∧ I d.after) ∧ I y := by
  induction h with
  | @nil s w w' hm => exact ⟨by simp, hm.inv (hmove s) hx⟩
  | @cons s s' w v v' c a l x hm hr _ ih =>
    have hv : I (s, v) := hm.inv (hmove s) hx
    have hv' : I (s', v') := hprog _ _ _ _ _ _ hv hr
    obtain ⟨h1, h2⟩ := ih hv'
    refine ⟨?_, h2⟩
    intro d hd
    rcases List.mem_cons.1 hd with rfl | hd
    · exact ⟨hv, hr, hv'⟩
    · exact h1 d hd

end Chain

end EdUsb.Lib
