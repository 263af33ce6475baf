import ArithCheck.Proofs.Grammar.Tree

/-!
# The grammar is unambiguous

No two derivation trees of a nonterminal have the same leaves. Where a part of a sentence ends is
told by its outline: at the end of an operand, in front of an operator that is none of its own.

* `Outline.append_inj`: two ways to cut a word behind a part that is such an operand;
* `Tree.split`: the two parts of a node;
* `Tree.eq_of_kinds`: whole trees.
-/

namespace ArithCheck

open Token Outline

/-- A word can be cut in one way only behind a part that leads to the end of an operand and in front
of a rest that does not go on with an operator. -/
theorem Outline.append_inj {ops : List Kind} {s : Outline} {ks ks' ls ls' : List Kind}
    (h : run ops s ks = some done) (h' : run ops s ks' = some done) (heq : ks ++ ls = ks' ++ ls')
    (hl : ∀ k, ls.head? = some k → k ∉ ops) (hl' : ∀ k, ls'.head? = some k → k ∉ ops) :
    ks = ks' ∧ ls = ls' := by
  -- What one part has more than the other one would begin with an operator.
  have hnil {us vs ms : List Kind} (hm : run ops s (us ++ ms) = some done)
      (hu : run ops s us = some done) (hv : ∀ k, (ms ++ vs).head? = some k → k ∉ ops) :
      ms = [] := by
    rw [run_append, hu, Option.bind_some] at hm
    cases ms with
    | nil => rfl
    | cons k ms => simp [run_cons, step_done, hv k rfl] at hm
  rcases List.append_eq_append_iff.mp heq with ⟨ms, rfl, rfl⟩ | ⟨ms, rfl, rfl⟩
  · obtain rfl := hnil h' h hl
    exact ⟨(List.append_nil ks).symm, rfl⟩
  · obtain rfl := hnil h h' hl'
    exact ⟨List.append_nil ks', rfl⟩

namespace Tree

variable {m n : Nonterminal}

/-- Two trees side by side are told apart, if the operators of the first one are reserved by the
nonterminal of the second one. -/
theorem split (hreserved : m.operators ⊆ n.reserved) {t t' : Tree m} {u u' : Tree n}
    (h : t.kinds ++ u.kinds = t'.kinds ++ u'.kinds) :
    t.kinds = t'.kinds ∧ u.kinds = u'.kinds := by
  have hrun (t : Tree m) : run m.operators m.initial t.kinds = some done :=
    t.derives.run (.inr (List.Subset.refl _))
  have hhead (u : Tree n) (k : Kind) (hk : u.kinds.head? = some k) : k ∉ m.operators :=
    fun hmem => u.derives.not_reserved hk (hreserved hmem)
  exact append_inj (hrun t) (hrun t') h (hhead u) (hhead u')

/-- A tree is determined by its leaves. -/
theorem eq_of_kinds (t t' : Tree n) (h : t.kinds = t'.kinds) : t = t' := by
  induction t with
  | sum t rest ih ih' =>
    cases t' with
    | sum t' rest' =>
      obtain ⟨ht, hrest⟩ := split (by decide) h
      rw [ih t' ht, ih' rest' hrest]
  | product t rest ih ih' =>
    cases t' with
    | product t' rest' =>
      obtain ⟨ht, hrest⟩ := split (by decide) h
      rw [ih t' ht, ih' rest' hrest]
  | power t rest ih ih' =>
    cases t' with
    | power t' rest' =>
      obtain ⟨ht, hrest⟩ := split (by decide) h
      rw [ih t' ht, ih' rest' hrest]
  | sumEnd | productEnd | powerEnd => cases t' <;> first | rfl | cases h
  | sumMore k hk t rest ih ih' =>
    cases t' with
    | sumEnd => cases h
    | sumMore k' hk' t' rest' =>
      obtain ⟨rfl, hparts⟩ := List.cons.inj h
      obtain ⟨ht, hrest⟩ := split (by decide) hparts
      rw [ih t' ht, ih' rest' hrest]
  | productMore k hk t rest ih ih' =>
    cases t' with
    | productEnd => cases h
    | productMore k' hk' t' rest' =>
      obtain ⟨rfl, hparts⟩ := List.cons.inj h
      obtain ⟨ht, hrest⟩ := split (by decide) hparts
      rw [ih t' ht, ih' rest' hrest]
  | powerMore t ih =>
    cases t' with
    | powerEnd => cases h
    | powerMore t' => rw [ih t' (List.cons.inj h).2]
  | signed k hk t ih =>
    cases t' with
    | signed k' hk' t' =>
      obtain ⟨rfl, ht⟩ := List.cons.inj h
      rw [ih t' ht]
    | unsigned t' =>
      obtain ⟨k', ks, hks, hplus, hminus⟩ := t'.derives.exists_cons_of_atom
      obtain ⟨rfl, -⟩ := List.cons.inj (h.trans hks)
      exact absurd hk (by simp [hplus, hminus])
  | unsigned t ih =>
    cases t' with
    | unsigned t' => rw [ih t' h]
    | signed k hk t' =>
      obtain ⟨k', ks, hks, hplus, hminus⟩ := t.derives.exists_cons_of_atom
      obtain ⟨rfl, -⟩ := List.cons.inj (h.symm.trans hks)
      exact absurd hk (by simp [hplus, hminus])
  | group t ih =>
    cases t' with
    | group t' => rw [ih t' (List.append_cancel_right (List.cons.inj h).2)]
    | float | «variable» => cases h
  | float | «variable» => cases t' <;> first | rfl | cases h

end Tree

end ArithCheck
