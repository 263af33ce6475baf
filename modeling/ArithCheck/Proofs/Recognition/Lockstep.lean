import ArithCheck.Proofs.Recognition.Simulation

/-!
# Recognitions in step

The same rules over two sources go in step if the two sources do. A `Lockstep` says how the states
of two recognitions are related as long as both go on and after both have met the same fault, and
that drawing a token and entering a rule keep them related.

* `Lockstep.rule`: then so does every rule;
* `Lockstep.Whole.recognize`: and so do whole recognitions, if they have the same room for chains,
  meet their limit at the same token and come to conclusions in step (`Lockstep.Whole`).
-/

namespace ArithCheck.Recognition

open Token

variable {σ τ : Type}

/-- Two results that are the same but for the states, which are related by `P` after a value and by
`E` after a fault. -/
inductive Agree {α : Type} (P E : Recognition σ → Recognition τ → Prop) :
    EStateM.Result Fault (Recognition σ) α → EStateM.Result Fault (Recognition τ) α → Prop
  | ok {a : α} {r : Recognition σ} {s : Recognition τ} : P r s → Agree P E (.ok a r) (.ok a s)
  | error {fault : Fault} {r : Recognition σ} {s : Recognition τ} :
    E r s → Agree P E (.error fault r) (.error fault s)

/-- From related states two computations come to results that agree. -/
def InStep {α : Type} (P E : Recognition σ → Recognition τ → Prop) (c : Recognize σ α)
    (d : Recognize τ α) : Prop :=
  ∀ r s, P r s → Agree P E (c r) (d s)

section InStep

variable {α β : Type} {P E : Recognition σ → Recognition τ → Prop}

theorem InStep.pure (a : α) : InStep P E (Pure.pure a) (Pure.pure a) := fun _ _ h => .ok h

theorem InStep.bind {c : Recognize σ α} {d : Recognize τ α} {f : α → Recognize σ β}
    {g : α → Recognize τ β} (h : InStep P E c d) (hf : ∀ a, InStep P E (f a) (g a)) :
    InStep P E (c >>= f) (d >>= g) := by
  intro r s hrs
  have hcd := h r s hrs
  show Agree P E (EStateM.bind c f r) (EStateM.bind d g s)
  unfold EStateM.bind
  generalize c r = x, d s = y at hcd
  cases hcd with
  | ok h' => exact hf _ _ _ h'
  | error h' => exact .error h'

end InStep

variable [TokenSource σ] [TokenSource τ]

/-- How the states of two recognitions in step are related, before and after a fault. -/
structure Lockstep (σ τ : Type) [TokenSource σ] [TokenSource τ] where
  holds : Recognition σ → Recognition τ → Prop
  ended : Recognition σ → Recognition τ → Prop
  kindAhead : InStep holds ended kindAhead kindAhead
  enter (n : Nonterminal) (active : Nat) : InStep holds ended (enter n active) (enter n active)
  advance : InStep holds ended advance advance
  throw {α : Type} (fault : Fault) : InStep holds ended (throw fault : Recognize σ α) (throw fault)

namespace Lockstep

variable (l : Lockstep σ τ)

/-- Going in step is a simulation. -/
def simulation : Simulation σ τ where
  rel := InStep l.holds l.ended
  pure := .pure
  bind := .bind
  kindAhead := l.kindAhead
  enter := l.enter
  advance := l.advance
  throw := l.throw

/-- Every rule keeps two recognitions in step. -/
theorem rule (width budget active : Nat) (n : Nonterminal) :
    InStep l.holds l.ended (rule width budget active n) (rule width budget active n) :=
  l.simulation.rule width budget active n

/-- What whole recognitions in step need besides. -/
structure Whole (l : Lockstep σ τ) : Prop where
  width {r : Recognition σ} {s : Recognition τ} (h : l.holds r s) : r.width = s.width
  lookahead {r : Recognition σ} {s : Recognition τ} (h : l.ended r s) : r.lookahead = s.lookahead
  file {r : Recognition σ} {s : Recognition τ} (h : l.ended r s) :
    TokenSource.file r.source = TokenSource.file s.source
  conclude (complete : Bool) : InStep l.holds l.ended (conclude complete) (conclude complete)

variable {l}

theorem Whole.start (h : l.Whole) (limit : Nat) (n : Nonterminal) :
    InStep l.holds l.ended (start limit n) (start limit n) := by
  intro r s hrs
  show Agree _ _ (Recognition.rule r.width limit 0 n r) (Recognition.rule s.width limit 0 n s)
  rw [h.width hrs]
  exact l.rule s.width limit 0 n r s hrs

theorem Whole.nested {α : Type} {c : Recognize σ α} {d : Recognize τ α} (h : l.Whole)
    (hcd : InStep l.holds l.ended c d) : InStep l.holds l.ended (nested c) (nested d) := by
  intro r s hrs
  have hsame := hcd r s hrs
  generalize hr : c r = x, hs : d s = y at hsame
  cases hsame with
  | ok h' => rw [nested_ok hr, nested_ok hs]; exact .ok h'
  | @error fault r' s' h' =>
    by_cases hexhausted : fault = .exhausted
    · subst hexhausted
      rw [nested_exhausted hr, nested_exhausted hs, h.file h', h.lookahead h']
      exact .error h'
    · rw [nested_error hr hexhausted, nested_error hs hexhausted]
      exact .error h'

/-- Whole recognitions keep in step. -/
theorem Whole.recognize (h : l.Whole) (limit : Nat) :
    InStep l.holds l.ended (recognize limit) (recognize limit) :=
  InStep.bind l.advance fun _ => (h.nested (h.start limit .e)).bind h.conclude

end Lockstep

end ArithCheck.Recognition
