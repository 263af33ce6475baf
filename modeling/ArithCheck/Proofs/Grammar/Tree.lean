import ArithCheck.Proofs.Grammar.Outline

/-!
# Derivation trees

The derivation trees of the nonterminals, and their depth: the number of rules in progress at the
same time when a tree is gone through from the left, if the links of a chain of operators come one
after the other and not one inside the other.

* `derives_iff_tree`: sentences are what trees have at their leaves.
-/

namespace ArithCheck

open Token

/-- The derivation trees of a nonterminal. -/
inductive Tree : Nonterminal → Type
  | sum (product : Tree .t) (rest : Tree .ee) : Tree .e
  | sumEnd : Tree .ee
  | sumMore (k : Kind) (hk : k = .plus ∨ k = .minus) (product : Tree .t) (rest : Tree .ee) :
    Tree .ee
  | product (power : Tree .x) (rest : Tree .tt) : Tree .t
  | productEnd : Tree .tt
  | productMore (k : Kind) (hk : k = .times ∨ k = .divide) (power : Tree .x) (rest : Tree .tt) :
    Tree .tt
  | power (base : Tree .y) (rest : Tree .xx) : Tree .x
  | powerEnd : Tree .xx
  | powerMore (exponent : Tree .x) : Tree .xx
  | signed (k : Kind) (hk : k = .plus ∨ k = .minus) (atom : Tree .f) : Tree .y
  | unsigned (atom : Tree .f) : Tree .y
  | group (sum : Tree .e) : Tree .f
  | float : Tree .f
  | variable : Tree .f

namespace Tree

/-- The kinds at the leaves. -/
def kinds : {n : Nonterminal} → Tree n → List Kind
  | _, sum t rest => t.kinds ++ rest.kinds
  | _, sumEnd => []
  | _, sumMore k _ t rest => k :: t.kinds ++ rest.kinds
  | _, product t rest => t.kinds ++ rest.kinds
  | _, productEnd => []
  | _, productMore k _ t rest => k :: t.kinds ++ rest.kinds
  | _, power t rest => t.kinds ++ rest.kinds
  | _, powerEnd => []
  | _, powerMore t => .pow :: t.kinds
  | _, signed k _ t => k :: t.kinds
  | _, unsigned t => t.kinds
  | _, group t => .lparen :: t.kinds ++ [.rparen]
  | _, float => [.float]
  | _, .variable => [.variable]

/-- The most rules that are in progress at the same time. A rule is in progress while the rules that
it enters are, except that in a chain it is over with one link before it goes on to the next. -/
def depth : {n : Nonterminal} → Tree n → Nat
  | _, sum t rest => max t.depth rest.depth + 1
  | _, sumEnd => 1
  | _, sumMore _ _ t rest => max (t.depth + 1) rest.depth
  | _, product t rest => max t.depth rest.depth + 1
  | _, productEnd => 1
  | _, productMore _ _ t rest => max (t.depth + 1) rest.depth
  | _, power t rest => max t.depth rest.depth + 1
  | _, powerEnd => 1
  | _, powerMore t => t.depth + 1
  | _, signed _ _ t => t.depth + 1
  | _, unsigned t => t.depth + 1
  | _, group t => t.depth + 1
  | _, float => 1
  | _, .variable => 1

theorem depth_pos {n : Nonterminal} (t : Tree n) : 0 < t.depth := by
  cases t <;> simp only [depth] <;> omega

theorem derives {n : Nonterminal} (t : Tree n) : Derives n t.kinds := by
  induction t with
  | sum _ _ ih ih' => exact .sum ih ih'
  | sumEnd => exact .sumEnd
  | sumMore _ hk _ _ ih ih' => exact .sumMore hk ih ih'
  | product _ _ ih ih' => exact .product ih ih'
  | productEnd => exact .productEnd
  | productMore _ hk _ _ ih ih' => exact .productMore hk ih ih'
  | power _ _ ih ih' => exact .power ih ih'
  | powerEnd => exact .powerEnd
  | powerMore _ ih => exact .powerMore ih
  | signed _ hk _ ih => exact .signed hk ih
  | unsigned _ ih => exact .unsigned ih
  | group _ ih => exact .group ih
  | float => exact .float
  | «variable» => exact .variable

end Tree

theorem Derives.exists_tree {n : Nonterminal} {ks : List Kind} (h : Derives n ks) :
    ∃ t : Tree n, t.kinds = ks := by
  induction h with
  | sum _ _ ih ih' =>
    obtain ⟨t, rfl⟩ := ih
    obtain ⟨t', rfl⟩ := ih'
    exact ⟨.sum t t', rfl⟩
  | sumEnd => exact ⟨.sumEnd, rfl⟩
  | sumMore hk _ _ ih ih' =>
    obtain ⟨t, rfl⟩ := ih
    obtain ⟨t', rfl⟩ := ih'
    exact ⟨.sumMore _ hk t t', rfl⟩
  | product _ _ ih ih' =>
    obtain ⟨t, rfl⟩ := ih
    obtain ⟨t', rfl⟩ := ih'
    exact ⟨.product t t', rfl⟩
  | productEnd => exact ⟨.productEnd, rfl⟩
  | productMore hk _ _ ih ih' =>
    obtain ⟨t, rfl⟩ := ih
    obtain ⟨t', rfl⟩ := ih'
    exact ⟨.productMore _ hk t t', rfl⟩
  | power _ _ ih ih' =>
    obtain ⟨t, rfl⟩ := ih
    obtain ⟨t', rfl⟩ := ih'
    exact ⟨.power t t', rfl⟩
  | powerEnd => exact ⟨.powerEnd, rfl⟩
  | powerMore _ ih =>
    obtain ⟨t, rfl⟩ := ih
    exact ⟨.powerMore t, rfl⟩
  | signed hk _ ih =>
    obtain ⟨t, rfl⟩ := ih
    exact ⟨.signed _ hk t, rfl⟩
  | unsigned _ ih =>
    obtain ⟨t, rfl⟩ := ih
    exact ⟨.unsigned t, rfl⟩
  | group _ ih =>
    obtain ⟨t, rfl⟩ := ih
    exact ⟨.group t, rfl⟩
  | float => exact ⟨.float, rfl⟩
  | «variable» => exact ⟨.variable, rfl⟩

theorem derives_iff_tree {n : Nonterminal} {ks : List Kind} :
    Derives n ks ↔ ∃ t : Tree n, t.kinds = ks :=
  ⟨Derives.exists_tree, fun ⟨t, h⟩ => h ▸ t.derives⟩

/-- An atom starts with no sign. -/
theorem Derives.exists_cons_of_atom {ks : List Kind} (h : Derives .f ks) :
    ∃ k ks', ks = k :: ks' ∧ k ≠ .plus ∧ k ≠ .minus := by
  cases h <;> exact ⟨_, _, rfl, by decide, by decide⟩

end ArithCheck
