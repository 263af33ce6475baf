import ArithCheck.Log
import ArithCheck.Proofs.Grammar.Tree

/-!
# Going through a derivation tree

The nodes of a derivation tree in preorder, in front of a list of tokens that begins with those at
its leaves. Where a chain of operators is gone through in a loop its further links are not visited:
these are the nodes at the end of a node of the same nonterminal.

* `Tree.nodes`: all nodes; `Tree.visits`: those that are visited;
* `Tree.inner`: those visited below the root.
-/

namespace ArithCheck

open Token

/-- A visit of a nonterminal, with the first of the tokens that are left. -/
structure Visit where
  rule : Nonterminal
  ahead : Option Token
  deriving DecidableEq, Repr

/-- The text by which a visit is logged. -/
def Visit.text (v : Visit) : String := s!"{v.rule.name} at {Token.describe? v.ahead}"

/-- The visit that a record tells of. -/
def Log.Record.visit? : Log.Record → Option Visit
  | .enter n _ ahead => some ⟨n, ahead⟩
  | .token _ | .trailing _ | .verdict _ => none

/-- The visits that a log tells of. -/
def visitsOf (log : Log) : List Visit := log.toList.filterMap Log.Record.visit?

theorem visitsOf_append (log : Log) (records : List Log.Record) :
    visitsOf (log ++ records) = visitsOf log ++ records.filterMap Log.Record.visit? := by
  simp [visitsOf]

/-- The records of visits have the texts of the visits. -/
theorem map_text_visits (log : Log) :
    (log.toList.filter (·.visit?.isSome)).map (·.text) = (visitsOf log).map (·.text) := by
  rw [visitsOf]
  induction log.toList with
  | nil => rfl
  | cons record records ih =>
    cases record with
    | enter n active ahead => exact congrArg (Visit.text ⟨n, ahead⟩ :: ·) ih
    | token | trailing | verdict => exact ih

/-- A node of a derivation tree, and the nonterminal of the node above it, if there is one. -/
structure Node extends Visit where
  parent : Option Nonterminal
  deriving DecidableEq, Repr

/-- A further link of a chain: its first link, or another one, is the node above it. -/
def Node.isLink (node : Node) : Bool :=
  (node.rule = .ee || node.rule = .tt) && node.parent = some node.rule

namespace Tree

/-- The nodes of a tree in preorder, in front of the tokens `ts`. -/
def nodes : {n : Nonterminal} → (parent : Option Nonterminal) → Tree n → (ts : List Token) →
    List Node
  | n, parent, tree, ts =>
    ⟨⟨n, ts.head?⟩, parent⟩ :: match tree with
      | sum t rest => t.nodes (some n) ts ++ rest.nodes (some n) (ts.drop t.kinds.length)
      | sumEnd => []
      | sumMore _ _ t rest =>
        t.nodes (some n) ts.tail ++ rest.nodes (some n) (ts.tail.drop t.kinds.length)
      | product t rest => t.nodes (some n) ts ++ rest.nodes (some n) (ts.drop t.kinds.length)
      | productEnd => []
      | productMore _ _ t rest =>
        t.nodes (some n) ts.tail ++ rest.nodes (some n) (ts.tail.drop t.kinds.length)
      | power t rest => t.nodes (some n) ts ++ rest.nodes (some n) (ts.drop t.kinds.length)
      | powerEnd => []
      | powerMore t => t.nodes (some n) ts.tail
      | signed _ _ t => t.nodes (some n) ts.tail
      | unsigned t => t.nodes (some n) ts
      | group t => t.nodes (some n) ts.tail
      | float => []
      | .variable => []

/-- The visits of a list of nodes. -/
def visited (nodes : List Node) : List Visit := (nodes.filter (!·.isLink)).map (·.toVisit)

/-- The visits of a tree: those of its nodes in preorder but for further links of chains. -/
def visits {n : Nonterminal} (t : Tree n) (ts : List Token) : List Visit :=
  visited (t.nodes none ts)

/-- The visits below the root of a tree. -/
def inner {n : Nonterminal} (t : Tree n) (ts : List Token) : List Visit :=
  visited (t.nodes none ts).tail

theorem visited_append (nodes nodes' : List Node) :
    visited (nodes ++ nodes') = visited nodes ++ visited nodes' := by
  simp [visited]

variable {n : Nonterminal} {ts : List Token}

/-- Where a tree stands does not matter to what is below its root. -/
theorem nodes_eq (parent : Option Nonterminal) (t : Tree n) (ts : List Token) :
    t.nodes parent ts = ⟨⟨n, ts.head?⟩, parent⟩ :: (t.nodes none ts).tail := by
  cases t <;> rfl

theorem visits_eq (t : Tree n) (ts : List Token) :
    t.visits ts = ⟨n, ts.head?⟩ :: t.inner ts := by
  rw [visits, nodes_eq]
  cases n <;> rfl

/-- A child is visited unless it is a further link. -/
theorem visited_nodes {parent : Nonterminal} (t : Tree n)
    (h : Node.isLink ⟨⟨n, ts.head?⟩, some parent⟩ = false) :
    visited (t.nodes (some parent) ts) = t.visits ts := by
  rw [visits_eq, nodes_eq, visited, List.filter_cons_of_pos (by rw [h]; rfl)]
  rfl

/-- Of a further link only what is below it is visited. -/
theorem visited_nodes_link {parent : Nonterminal} (t : Tree n)
    (h : Node.isLink ⟨⟨n, ts.head?⟩, some parent⟩ = true) :
    visited (t.nodes (some parent) ts) = t.inner ts := by
  rw [inner, nodes_eq, visited, List.filter_cons_of_neg (by rw [h]; decide)]
  rfl

/-- Two children, both visited. -/
theorem visited_children {a b : Nonterminal} (p : Nonterminal) (t : Tree a) (u : Tree b)
    {ts us : List Token} (ht : Node.isLink ⟨⟨a, ts.head?⟩, some p⟩ = false)
    (hu : Node.isLink ⟨⟨b, us.head?⟩, some p⟩ = false) :
    visited (t.nodes (some p) ts ++ u.nodes (some p) us) = t.visits ts ++ u.visits us := by
  rw [visited_append, visited_nodes t ht, visited_nodes u hu]

/-- A child that is visited, and a further link behind it. -/
theorem visited_children_link {a b : Nonterminal} (p : Nonterminal) (t : Tree a) (u : Tree b)
    {ts us : List Token} (ht : Node.isLink ⟨⟨a, ts.head?⟩, some p⟩ = false)
    (hu : Node.isLink ⟨⟨b, us.head?⟩, some p⟩ = true) :
    visited (t.nodes (some p) ts ++ u.nodes (some p) us) = t.visits ts ++ u.inner us := by
  rw [visited_append, visited_nodes t ht, visited_nodes_link u hu]

end Tree

end ArithCheck
