import ArithCheck.Grammar

/-!
# Levels of groups

The groups that are open behind some tokens, one level for each and one for what is outside all of
them. A level tells which operators have been read on it as far as they keep rules in progress: an
operator between two sums is forgotten by its product, and one between two products by its powers,
but each operator of a chain of powers keeps the ones in front of it waiting.

* `Levels.cost`: the rules that are in progress in front of an atom;
* `Levels.Within.cost_le`: it is bounded by the depth of the groups and the length of the chains of
  powers alone.
-/

namespace ArithCheck

open Token

/-- What has been read on one level: a `+` or `-` between two products, a `*` or `/` in the product
that is being read, and a number of `^` in its last chain of powers. -/
structure Level where
  sum : Bool
  product : Bool
  powers : Nat
  deriving DecidableEq, Repr

namespace Level

/-- Nothing has been read. -/
def fresh : Level := ⟨false, false, 0⟩

/-- The level behind an operator that stands between two operands. -/
def behind (l : Level) : Kind → Level
  | .plus | .minus => ⟨true, false, 0⟩
  | .times | .divide => ⟨l.sum, true, 0⟩
  | .pow => ⟨l.sum, l.product, l.powers + 1⟩
  | .float | .variable | .lparen | .rparen => l

/-- The rules in progress on a level whose next atom is being read. -/
def cost (l : Level) : Nat := 5 + l.sum.toNat + l.product.toNat + 2 * l.powers

theorem cost_le (l : Level) : l.cost ≤ 7 + 2 * l.powers := by
  have hsum := l.sum.toNat_le
  have hproduct := l.product.toNat_le
  rw [cost]
  omega

/-- The rules in progress on several levels together. -/
def costs : List Level → Nat
  | [] => 0
  | l :: ls => l.cost + costs ls

theorem costs_le {ls : List Level} {c : Nat} (h : ∀ l ∈ ls, l.powers ≤ c) :
    costs ls ≤ ls.length * (7 + 2 * c) := by
  induction ls with
  | nil => exact Nat.zero_le _
  | cons l ls ih =>
    obtain ⟨hpowers, hrest⟩ := List.forall_mem_cons.mp h
    have hcost := l.cost_le
    have hcosts := ih hrest
    rw [costs, List.length_cons, Nat.succ_mul]
    omega

end Level

/-- The level of the innermost open group, those around it, and whether an operand has just been
completed. Where none has, a `+` or `-` is a sign. -/
structure Levels where
  inner : Level
  outer : List Level
  complete : Bool
  deriving DecidableEq, Repr

namespace Levels

def start : Levels := ⟨.fresh, [], false⟩

/-- The levels behind one more kind. -/
def step (L : Levels) : Kind → Levels
  | .float | .variable => { L with complete := true }
  | .lparen => ⟨.fresh, L.inner :: L.outer, false⟩
  | .rparen =>
    match L.outer with
    | l :: ls => ⟨l, ls, true⟩
    | [] => { L with complete := true }
  | k => if L.complete then ⟨L.inner.behind k, L.outer, false⟩ else L

/-- The levels behind a sequence of kinds. -/
def ofKinds (ks : List Kind) : Levels := ks.foldl step start

theorem ofKinds_concat (ks : List Kind) (k : Kind) : ofKinds (ks ++ [k]) = (ofKinds ks).step k :=
  by simp [ofKinds]

/-- The levels of all open groups and the outermost one. -/
def all (L : Levels) : List Level := L.inner :: L.outer

/-- The rules in progress on the levels around the innermost one. -/
def around (L : Levels) : Nat := Level.costs L.outer

/-- The rules in progress in front of an atom. -/
def cost (L : Levels) : Nat := Level.costs L.all

theorem cost_eq (L : Levels) : L.cost = L.inner.cost + L.around := rfl

/-- Behind `x + x * (x ^ -` there are seven rules in progress for each of the two levels. -/
example : ofKinds [.variable, .plus, .variable, .times, .lparen, .variable, .pow, .minus] =
    ⟨⟨false, false, 1⟩, [⟨true, true, 0⟩], false⟩ := by decide

/-- At most `p` groups are open, and no chain of powers in them has more than `c` operators. -/
structure Within (p c : Nat) (L : Levels) : Prop where
  depth : L.outer.length ≤ p
  powers : ∀ l ∈ L.all, l.powers ≤ c

theorem Within.cost_le {p c : Nat} {L : Levels} (h : L.Within p c) :
    L.cost ≤ (p + 1) * (7 + 2 * c) := by
  calc L.cost
    _ ≤ (L.outer.length + 1) * (7 + 2 * c) := Level.costs_le h.powers
    _ ≤ (p + 1) * (7 + 2 * c) := Nat.mul_le_mul_right _ (Nat.succ_le_succ h.depth)

end Levels

end ArithCheck
