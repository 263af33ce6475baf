import ArithCheck.Token

/-!
# The grammar of arithmetic expressions

    E  -> T EE
    EE -> '+' T EE | '-' T EE | nothing
    T  -> X TT
    TT -> '*' X TT | '/' X TT | nothing
    X  -> Y XX
    XX -> '^' X | nothing
    Y  -> '+' F | '-' F | F
    F  -> '(' E ')' | float | variable

Sums are made of products, products of powers, powers of signed atoms. `Derives n ks` says that
the kinds `ks` form a sentence of the nonterminal `n`.
-/

namespace ArithCheck

open Token

inductive Nonterminal
  | e | ee | t | tt | x | xx | y | f
  deriving DecidableEq, Repr, Inhabited

namespace Nonterminal

def all : List Nonterminal := [.e, .ee, .t, .tt, .x, .xx, .y, .f]

def name : Nonterminal → String
  | .e => "E"
  | .ee => "EE"
  | .t => "T"
  | .tt => "TT"
  | .x => "X"
  | .xx => "XX"
  | .y => "Y"
  | .f => "F"

end Nonterminal

/-- The sentences of the nonterminals. -/
inductive Derives : Nonterminal → List Kind → Prop
  | sum {u v : List Kind} : Derives .t u → Derives .ee v → Derives .e (u ++ v)
  | sumEnd : Derives .ee []
  | sumMore {k : Kind} {u v : List Kind} (hk : k = .plus ∨ k = .minus) :
    Derives .t u → Derives .ee v → Derives .ee (k :: u ++ v)
  | product {u v : List Kind} : Derives .x u → Derives .tt v → Derives .t (u ++ v)
  | productEnd : Derives .tt []
  | productMore {k : Kind} {u v : List Kind} (hk : k = .times ∨ k = .divide) :
    Derives .x u → Derives .tt v → Derives .tt (k :: u ++ v)
  | power {u v : List Kind} : Derives .y u → Derives .xx v → Derives .x (u ++ v)
  | powerEnd : Derives .xx []
  | powerMore {u : List Kind} : Derives .x u → Derives .xx (.pow :: u)
  | signed {k : Kind} {u : List Kind} (hk : k = .plus ∨ k = .minus) :
    Derives .f u → Derives .y (k :: u)
  | unsigned {u : List Kind} : Derives .f u → Derives .y u
  | group {u : List Kind} : Derives .e u → Derives .f (.lparen :: u ++ [.rparen])
  | float : Derives .f [.float]
  | variable : Derives .f [.variable]

end ArithCheck
