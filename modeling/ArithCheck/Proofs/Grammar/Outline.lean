import ArithCheck.Grammar

/-!
# Outlines of expressions

An outline keeps of the tokens read so far how many groups are open and what may come next. Reading
along an outline takes one pass and knows no precedence: only outside all groups does it matter
which operators there are (`operators`), and there it tells the nonterminals apart.

* `Derives.run`: the sentences of a nonterminal lead from its first outline to the end of an
  operand, inside a larger sentence as well;
* `run_completion`: every outline can be completed.
-/

namespace ArithCheck

open Token

/-- What may come next: an operand, which may have a sign; an operand without a sign; or an
operator or a closing bracket. -/
inductive Expected
  | operand | atom | operator
  deriving DecidableEq, Repr

/-- The number of open groups, and what may come next. -/
structure Outline where
  depth : Nat
  next : Expected
  deriving DecidableEq, Repr

namespace Outline

def signs : List Kind := [.plus, .minus]

/-- The operators between two operands. -/
def infixes : List Kind := [.plus, .minus, .times, .divide, .pow]

/-- No group is open and the last operand is complete. -/
def done : Outline := ⟨0, .operator⟩

/-- The outline in one more group. -/
def inside (s : Outline) : Outline := ⟨s.depth + 1, s.next⟩

/-- The outline after the first kind of an operand without a sign. -/
def atom (depth : Nat) : Kind → Option Outline
  | .float | .variable => some ⟨depth, .operator⟩
  | .lparen => some ⟨depth + 1, .operand⟩
  | _ => none

/-- The outline after one more kind, if it may come next. Outside all groups only the given
operators may. -/
def step (operators : List Kind) : Outline → Kind → Option Outline
  | ⟨d, .operand⟩, k => if k ∈ signs then some ⟨d, .atom⟩ else atom d k
  | ⟨d, .atom⟩, k => atom d k
  | ⟨0, .operator⟩, k => if k ∈ operators then some ⟨0, .operand⟩ else none
  | ⟨d + 1, .operator⟩, k =>
    if k ∈ infixes then some ⟨d + 1, .operand⟩
    else if k = .rparen then some ⟨d, .operator⟩ else none

/-- The outline after more kinds. -/
def run (operators : List Kind) (s : Outline) : List Kind → Option Outline
  | [] => some s
  | k :: ks => (step operators s k).bind fun s => run operators s ks

variable {ops ops' : List Kind} {s s' : Outline} {k : Kind} {ks ks' : List Kind}

@[simp] theorem run_nil : run ops s [] = some s := rfl

@[simp] theorem run_cons : run ops s (k :: ks) = (step ops s k).bind (run ops · ks) := rfl

theorem run_append : run ops s (ks ++ ks') = (run ops s ks).bind (run ops · ks') := by
  induction ks generalizing s with
  | nil => rfl
  | cons k ks ih => simp only [List.cons_append, run_cons, ih, Option.bind_assoc]

theorem run_step {o : Option Outline} (h : step ops s k = some s') (h' : run ops s' ks = o) :
    run ops s (k :: ks) = o := by
  rw [run_cons, h]
  exact h'

theorem run_trans {o : Option Outline} (h : run ops s ks = some s') (h' : run ops s' ks' = o) :
    run ops s (ks ++ ks') = o := by
  rw [run_append, h]
  exact h'

/-- A part of a sentence that can be run over leads somewhere. -/
theorem run_of_append {t : Outline} (h : run ops s (ks ++ ks') = some t) :
    ∃ s', run ops s ks = some s' ∧ run ops s' ks' = some t := by
  rw [run_append] at h
  exact Option.bind_eq_some_iff.mp h

/-! ## Other operators -/

/-- The operators matter where an operand is complete outside all groups, and nowhere else. -/
theorem step_congr (hs : s ≠ done) : step ops s k = step ops' s k := by
  obtain ⟨d, next⟩ := s
  cases next with
  | operand | atom => rfl
  | operator =>
    cases d with
    | zero => exact absurd rfl hs
    | succ d => rfl

theorem step_done : step ops done k = if k ∈ ops then some ⟨0, .operand⟩ else none := rfl

theorem step_mono (hops : ops ⊆ ops') (h : step ops s k = some s') :
    step ops' s k = some s' := by
  by_cases hs : s = done
  · subst hs
    by_cases hk : k ∈ ops
    · rw [step_done, if_pos hk] at h
      rw [step_done, if_pos (hops hk), h]
    · simp [step_done, if_neg hk] at h
  · rw [← h]; exact step_congr hs

theorem run_mono (hops : ops ⊆ ops') (h : run ops s ks = some s') : run ops' s ks = some s' := by
  induction ks generalizing s with
  | nil => exact h
  | cons k ks ih =>
    obtain ⟨t, ht, h⟩ := Option.bind_eq_some_iff.mp h
    rw [run_cons, step_mono hops ht]
    exact ih h

/-! ## Groups -/

theorem inside_ne_done : s.inside ≠ done := by
  intro h
  have hdepth : s.depth + 1 = 0 := congrArg depth h
  omega

/-- In a group an outline goes on as outside with every operator, until a bracket closes it. -/
theorem step_inside (h : s ≠ done ∨ k ≠ .rparen) :
    step ops s.inside k = (step infixes s k).map inside := by
  obtain ⟨d, next⟩ := s
  cases next with
  | operand | atom => cases k <;> rfl
  | operator =>
    cases d with
    | zero =>
      have hr : k ≠ .rparen := h.resolve_left fun h => h rfl
      cases k <;> first | rfl | exact absurd rfl hr
    | succ d => cases k <;> rfl

theorem run_inside (h : run infixes s ks = some s') : run ops s.inside ks = some s'.inside := by
  induction ks generalizing s with
  | nil => cases h; rfl
  | cons k ks ih =>
    obtain ⟨t, ht, h⟩ := Option.bind_eq_some_iff.mp h
    have hk : s ≠ done ∨ k ≠ .rparen := by
      apply Decidable.or_iff_not_not_and_not.mpr
      rintro ⟨hs, hk⟩
      rw [Decidable.not_not.mp hs, Decidable.not_not.mp hk] at ht
      cases ht
    rw [run_cons, step_inside hk, ht]
    exact ih h

/-! ## Completions -/

theorem run_rparens (d : Nat) :
    run ops ⟨d, .operator⟩ (List.replicate d .rparen) = some done := by
  induction d with
  | zero => rfl
  | succ d ih => rw [List.replicate_succ, run_cons]; exact ih

/-- What completes an outline: an operand if one is due, and the brackets of the open groups. -/
def completion : Outline → List Kind
  | ⟨d, .operator⟩ => List.replicate d .rparen
  | ⟨d, _⟩ => .variable :: List.replicate d .rparen

theorem run_completion (ops : List Kind) (s : Outline) : run ops s s.completion = some done := by
  obtain ⟨d, next⟩ := s
  cases next with
  | operand | atom | operator => exact run_rparens d

end Outline

/-! ## Nonterminals -/

namespace Nonterminal

/-- The operators outside all groups in the sentences of a nonterminal. -/
def operators : Nonterminal → List Kind
  | .e | .ee => Outline.infixes
  | .t | .tt => [.times, .divide, .pow]
  | .x | .xx => [.pow]
  | .y | .f => []

/-- What comes first in the sentences of a nonterminal. -/
def first : Nonterminal → Expected
  | .e | .t | .x | .y => .operand
  | .f => .atom
  | .ee | .tt | .xx => .operator

/-- The outline in front of the sentences of a nonterminal. -/
def initial (n : Nonterminal) : Outline := ⟨0, n.first⟩

/-- The operators with which no sentence starts, as they are left to what is in front of it. -/
def reserved : Nonterminal → List Kind
  | .ee => [.times, .divide, .pow]
  | .tt => [.pow]
  | _ => []

end Nonterminal

open Outline

/-- A sign makes the only difference between the two outlines in front of an operand. -/
theorem Outline.run_operand {ops : List Kind} {d : Nat} {ks : List Kind} (hne : ks ≠ [])
    (h : ∀ k, ks.head? = some k → k ∉ signs) :
    run ops ⟨d, .operand⟩ ks = run ops ⟨d, .atom⟩ ks := by
  obtain ⟨k, ks, rfl⟩ := List.exists_cons_of_ne_nil hne
  have hstep : step ops ⟨d, .operand⟩ k = step ops ⟨d, .atom⟩ k := if_neg (h k rfl)
  rw [run_cons, hstep, run_cons]

theorem Outline.run_unsigned {ops : List Kind} {d : Nat} {ks : List Kind}
    (h : run ops ⟨d, .atom⟩ ks = some ⟨d, .operator⟩) :
    run ops ⟨d, .operand⟩ ks = some ⟨d, .operator⟩ := by
  cases ks with
  | nil => simp at h
  | cons k ks =>
    refine (run_operand (List.cons_ne_nil _ _) fun k' hk' hsign => ?_).trans h
    obtain rfl := Option.some.inj hk'
    obtain rfl | rfl : k = .plus ∨ k = .minus := by simpa [signs] using hsign
    all_goals cases h

namespace Nonterminal

theorem operators_subset_infixes (n : Nonterminal) : n.operators ⊆ infixes := by
  cases n <;> simp [operators, infixes]

/-- An operator of the nonterminal may come next in a group, and outside if it may there. -/
theorem step_operator {n : Nonterminal} {ops : List Kind} {d : Nat} {k : Kind}
    (hops : 0 < d ∨ n.operators ⊆ ops) (hk : k ∈ n.operators) :
    step ops ⟨d, .operator⟩ k = some ⟨d, .operand⟩ := by
  cases d with
  | zero => exact if_pos (hops.resolve_left (Nat.lt_irrefl 0) hk)
  | succ d => exact if_pos (n.operators_subset_infixes hk)

end Nonterminal

/-- A sentence leads to the end of an operand wherever its operators may stand. -/
theorem Derives.run {n : Nonterminal} {ks : List Kind} (h : Derives n ks) {ops : List Kind}
    {d : Nat} (hops : 0 < d ∨ n.operators ⊆ ops) :
    run ops ⟨d, n.first⟩ ks = some ⟨d, .operator⟩ := by
  have hte : Nonterminal.t.operators ⊆ Nonterminal.e.operators := by decide
  have hxt : Nonterminal.x.operators ⊆ Nonterminal.t.operators := by decide
  induction h generalizing d with
  | sumEnd | productEnd | powerEnd | float | «variable» => rfl
  | sum _ _ iht ihee =>
    have hproduct := iht (hops.imp_right (List.Subset.trans hte))
    exact run_trans hproduct (ihee hops)
  | @sumMore k _ _ hk _ _ iht ihee =>
    have hmem : k ∈ Nonterminal.ee.operators := by rcases hk with rfl | rfl <;> decide
    have hproduct := iht (hops.imp_right (List.Subset.trans hte))
    exact run_trans (run_step (Nonterminal.step_operator hops hmem) hproduct) (ihee hops)
  | product _ _ ihx ihtt =>
    have hpower := ihx (hops.imp_right (List.Subset.trans hxt))
    exact run_trans hpower (ihtt hops)
  | @productMore k _ _ hk _ _ ihx ihtt =>
    have hmem : k ∈ Nonterminal.tt.operators := by rcases hk with rfl | rfl <;> decide
    have hpower := ihx (hops.imp_right (List.Subset.trans hxt))
    exact run_trans (run_step (Nonterminal.step_operator hops hmem) hpower) (ihtt hops)
  | power _ _ ihy ihxx => exact run_trans (ihy (.inr (List.nil_subset _))) (ihxx hops)
  | @powerMore _ _ ihx =>
    have hmem : .pow ∈ Nonterminal.xx.operators := by decide
    exact run_step (Nonterminal.step_operator hops hmem) (ihx hops)
  | signed hk _ ihf =>
    refine run_step ?_ (ihf hops)
    rcases hk with rfl | rfl <;> rfl
  | unsigned _ ihf => exact run_unsigned (ihf hops)
  | group _ ihe =>
    exact run_trans (run_step rfl (ihe (.inl (by omega)))) rfl

/-- No sentence starts with an operator that is left to what is in front of it. -/
theorem Derives.not_reserved {n : Nonterminal} {ks : List Kind} (h : Derives n ks) {k : Kind}
    (hk : ks.head? = some k) : k ∉ n.reserved := by
  cases h with
  | sumMore hsign =>
    obtain rfl := Option.some.inj hk
    rcases hsign with rfl | rfl <;> decide
  | productMore hsign =>
    obtain rfl := Option.some.inj hk
    rcases hsign with rfl | rfl <;> decide
  | sumEnd | productEnd => simp at hk
  | _ => exact List.not_mem_nil

end ArithCheck
