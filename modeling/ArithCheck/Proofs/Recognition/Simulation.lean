import ArithCheck.Proofs.Recognition.Parts

/-!
# Simulations of rules

The rules are made of a few parts: looking ahead, drawing a token, ending in a fault, going on with
another part, and entering a rule. A `Simulation` relates computations over two sources, each of
these parts to itself. For the body of a rule the entry is not needed (`BodySimulation`).

* `BodySimulation.body`: then the body of a rule is related to itself, if the rules are that it
  enters;
* `Simulation.rule`: then every rule is related to itself, by induction on its budget;
* `rule_width`: chains that are given more room do the same, unless they have run out of it.
-/

namespace ArithCheck.Recognition

open Token

/-- A relation of computations that the parts of a body keep. -/
structure BodySimulation (σ τ : Type) [TokenSource σ] [TokenSource τ] where
  rel {α : Type} : Recognize σ α → Recognize τ α → Prop
  pure {α : Type} (a : α) : rel (Pure.pure a) (Pure.pure a)
  bind {α β : Type} {c : Recognize σ α} {d : Recognize τ α} {f : α → Recognize σ β}
    {g : α → Recognize τ β} : rel c d → (∀ a, rel (f a) (g a)) → rel (c >>= f) (d >>= g)
  kindAhead : rel kindAhead kindAhead
  advance : rel advance advance
  throw {α : Type} (fault : Fault) : rel (throw fault : Recognize σ α) (throw fault)

/-- A relation of computations that the parts of a rule keep. -/
structure Simulation (σ τ : Type) [TokenSource σ] [TokenSource τ] extends
    BodySimulation σ τ where
  enter (n : Nonterminal) (active : Nat) : rel (enter n active) (enter n active)

namespace BodySimulation

variable {σ τ : Type} [TokenSource σ] [TokenSource τ] (sim : BodySimulation σ τ)

theorem both {first second : Recognize σ Bool} {first' second' : Recognize τ Bool}
    (h : sim.rel first first') (h' : sim.rel second second') :
    sim.rel (both first second) (both first' second') :=
  sim.bind h fun b => by
    cases b with
    | false => exact sim.pure false
    | true => exact h'

theorem terminal (k : Kind) : sim.rel (terminal k) (terminal k) :=
  sim.bind sim.kindAhead fun ahead => by
    by_cases h : ahead = some k
    · simp only [h, if_true]
      exact sim.bind sim.advance fun _ => sim.pure true
    · simp only [h, if_false]
      exact sim.pure false

/-- One more operator of a chain. -/
theorem chain_succ (operators : List Kind) {operand : Recognize σ Bool}
    {operand' : Recognize τ Bool} {bound bound' : Nat} (h : sim.rel operand operand')
    (hrest : sim.rel (chain operators operand bound) (chain operators operand' bound')) :
    sim.rel (chain operators operand (bound + 1)) (chain operators operand' (bound' + 1)) := by
  refine sim.bind sim.kindAhead fun ahead => ?_
  cases ahead with
  | none => exact sim.pure true
  | some k =>
    by_cases hk : k ∈ operators
    · simp only [hk, if_true]
      exact sim.both (sim.both (sim.terminal k) h) hrest
    · simp only [hk, if_false]
      exact sim.pure true

theorem chain (operators : List Kind) {operand : Recognize σ Bool} {operand' : Recognize τ Bool}
    (h : sim.rel operand operand') (bound : Nat) :
    sim.rel (chain operators operand bound) (chain operators operand' bound) := by
  induction bound with
  | zero => exact sim.throw .stalled
  | succ bound ih => exact sim.chain_succ operators h ih

/-- The body of a rule is related to itself, if the rules that it enters and its chains are. -/
theorem body_of_chain {call : Nonterminal → Recognize σ Bool}
    {call' : Nonterminal → Recognize τ Bool} {bound bound' : Nat}
    (hcall : ∀ m, sim.rel (call m) (call' m))
    (hchain : ∀ operators {operand : Recognize σ Bool} {operand' : Recognize τ Bool},
      sim.rel operand operand' →
        sim.rel (Recognition.chain operators operand bound)
          (Recognition.chain operators operand' bound'))
    (n : Nonterminal) : sim.rel (body call bound n) (body call' bound' n) := by
  cases n with
  | e => exact sim.both (hcall .t) (hcall .ee)
  | t => exact sim.both (hcall .x) (hcall .tt)
  | x => exact sim.both (hcall .y) (hcall .xx)
  | ee => exact hchain _ (hcall .t)
  | tt => exact hchain _ (hcall .x)
  | xx =>
    refine sim.bind sim.kindAhead fun ahead => ?_
    by_cases h : ahead = some .pow
    · simp only [h, if_true]
      exact sim.both (sim.terminal .pow) (hcall .x)
    · simp only [h, if_false]
      exact sim.pure true
  | y =>
    refine sim.bind sim.kindAhead fun ahead => ?_
    match ahead with
    | some .plus => exact sim.both (sim.terminal .plus) (hcall .f)
    | some .minus => exact sim.both (sim.terminal .minus) (hcall .f)
    | none | some .float | some .variable | some .times | some .divide | some .pow | some .lparen
    | some .rparen => exact hcall .f
  | f =>
    refine sim.bind sim.kindAhead fun ahead => ?_
    match ahead with
    | some .lparen =>
      exact sim.both (sim.terminal .lparen) (sim.both (hcall .e) (sim.terminal .rparen))
    | some .float => exact sim.terminal .float
    | some .variable => exact sim.terminal .variable
    | none | some .plus | some .minus | some .times | some .divide | some .pow
    | some .rparen => exact sim.pure false

theorem body {call : Nonterminal → Recognize σ Bool} {call' : Nonterminal → Recognize τ Bool}
    (hcall : ∀ m, sim.rel (call m) (call' m)) (bound : Nat) (n : Nonterminal) :
    sim.rel (body call bound n) (body call' bound n) :=
  sim.body_of_chain hcall (fun operators _ _ h => sim.chain operators h bound) n

end BodySimulation

namespace Simulation

variable {σ τ : Type} [TokenSource σ] [TokenSource τ] (sim : Simulation σ τ)

/-- Every rule is related to itself, if its chains are. -/
theorem rule_of_chain {width width' : Nat}
    (hchain : ∀ operators {operand : Recognize σ Bool} {operand' : Recognize τ Bool},
      sim.rel operand operand' →
        sim.rel (Recognition.chain operators operand width)
          (Recognition.chain operators operand' width'))
    (budget active : Nat) (n : Nonterminal) :
    sim.rel (rule width budget active n) (rule width' budget active n) := by
  induction budget generalizing active n with
  | zero => exact sim.throw .exhausted
  | succ budget ih =>
    rw [rule_eq, rule_eq]
    exact sim.bind (sim.enter n (active + 1)) fun _ => sim.body_of_chain (ih (active + 1)) hchain n

/-- Every rule is related to itself. -/
theorem rule (width budget active : Nat) (n : Nonterminal) :
    sim.rel (rule width budget active n) (rule width budget active n) :=
  sim.rule_of_chain (fun operators _ _ h => sim.chain operators h width) budget active n

end Simulation

/-! ## Room for chains -/

variable {σ α β : Type}

/-- The two do the same, unless the first one ends in the given fault. -/
def Unless (fault : Fault) (c d : Recognize σ α) : Prop :=
  ∀ r, c r = d r ∨ ∃ r', c r = .error fault r'

variable {fault : Fault}

theorem Unless.refl (c : Recognize σ α) : Unless fault c c := fun _ => .inl rfl

theorem Unless.bind {c d : Recognize σ α} {f g : α → Recognize σ β}
    (h : Unless fault c d) (hf : ∀ a, Unless fault (f a) (g a)) :
    Unless fault (c >>= f) (d >>= g) := by
  intro r
  show EStateM.bind c f r = EStateM.bind d g r ∨ ∃ r', EStateM.bind c f r = .error fault r'
  unfold EStateM.bind
  rcases h r with h | ⟨r', h⟩
  · rw [← h]
    cases c r with
    | error fault r' => exact .inl rfl
    | ok a r' => exact hf a r'
  · rw [h]
    exact .inr ⟨r', rfl⟩

variable [TokenSource σ]

/-- The parts of a rule do the same as themselves. -/
def roomy (fault : Fault) (σ : Type) [TokenSource σ] : Simulation σ σ where
  rel := Unless fault
  pure _ := .refl _
  bind := .bind
  kindAhead := .refl _
  enter _ _ := .refl _
  advance := .refl _
  throw _ := .refl _

/-- More room for chains changes nothing, unless one of them has run out of it. -/
theorem rule_width {width width' : Nat} (hle : width ≤ width') (budget active : Nat)
    (n : Nonterminal) : Unless .stalled (rule width budget active n : Recognize σ Bool)
      (rule width' budget active n) := by
  refine (roomy .stalled σ).rule_of_chain (fun operators operand operand' h => ?_) budget active n
  induction width generalizing width' with
  | zero => exact fun r => .inr ⟨r, rfl⟩
  | succ width ih =>
    obtain ⟨more, rfl⟩ : ∃ more, width' = more + 1 := ⟨width' - 1, by omega⟩
    exact (roomy .stalled σ).chain_succ operators h (ih (by omega))

end ArithCheck.Recognition
