import ArithCheck.Proofs.Recognition.Descent

/-!
# Sentences and what they can begin with

A sequence of kinds is viable for a nonterminal if a sentence can begin with it. Both sentences and
viable sequences are known by their outlines: that every outline which is done belongs to a
sentence is seen by running the rule of the nonterminal over the sequence.

* `derives_iff_run`: the sentences of a nonterminal;
* `viable_iff_run`: what they can begin with.
-/

namespace ArithCheck

open Token Outline Recognition

/-- A sentence of the nonterminal can begin with these kinds. -/
def Viable (n : Nonterminal) (ks : List Kind) : Prop := ∃ ks', Derives n (ks ++ ks')

/-- A recognition that has nothing to take but given kinds. -/
def Recognition.ofKinds (ks : List Kind) : Recognition Tape where
  tracing := false
  lookahead := ks.head?.map fun k => ⟨k, "", .start, none⟩
  source := ⟨ks.tail.map fun k => ⟨k, "", .start, none⟩, none, none, false⟩
  log := #[]

theorem settled_ofKinds (ks : List Kind) : (Recognition.ofKinds ks).Settled := by
  cases ks with
  | nil => exact fun _ => ⟨rfl, rfl⟩
  | cons k ks => exact nofun

@[simp] theorem kindsOf_pending_ofKinds (ks : List Kind) :
    kindsOf (Recognition.ofKinds ks).pending = ks := by
  cases ks with
  | nil => rfl
  | cons k ks => simp [pending, Recognition.ofKinds, kindsOf, Function.comp_def]

theorem length_pending_ofKinds (ks : List Kind) :
    (Recognition.ofKinds ks).pending.length = ks.length := by
  simpa [kindsOf] using congrArg List.length (kindsOf_pending_ofKinds ks)

variable {n : Nonterminal} {ks ks' : List Kind}

theorem derives_of_run (hreserved : ∀ k, ks.head? = some k → k ∉ n.reserved)
    (h : run n.operators n.initial ks = some done) : Derives n ks := by
  have hr := settled_ofKinds ks
  have hks := kindsOf_pending_ofKinds ks
  have hlength := length_pending_ofKinds ks
  have hfresh : Fresh n (Recognition.ofKinds ks) := by
    intro k hk
    rw [hr.ahead_eq, hks] at hk
    exact hreserved k hk
  have hmeets := rule_meets (ks.length + 1) (n.rank + 5 * ks.length) 0 n _ hr (by omega) hfresh
  rw [← hks] at h
  cases hres : rule (ks.length + 1) (n.rank + 5 * ks.length) 0 n (Recognition.ofKinds ks) with
  | ok accepted r' =>
    rw [hres] at hmeets
    cases hmeets with
    | accepted took sentence run stuck =>
      obtain ⟨-, rfl, -⟩ := took.eq_pending run stuck h
      rwa [hks] at sentence
    | rejected took run ne stuck => exact absurd (took.eq_pending run stuck h).2.2 ne
  | error fault r' =>
    rw [hres] at hmeets
    cases hmeets with
    | faulty met => cases met
    | exhausted many => omega

/-- The sentences of a nonterminal are what its outline completes. -/
theorem derives_iff_run : Derives n ks ↔
    run n.operators n.initial ks = some done ∧ ∀ k, ks.head? = some k → k ∉ n.reserved :=
  ⟨fun h => ⟨h.run (.inr fun _ => id), fun _ => h.not_reserved⟩,
    fun h => derives_of_run h.2 h.1⟩

theorem Nonterminal.completion_not_reserved {k : Kind} (h : n.initial.completion.head? = some k) :
    k ∉ n.reserved := by
  cases n with
  | ee | tt | xx => cases h
  | _ => exact List.not_mem_nil

/-- A sequence is viable if its outline goes on to its end. -/
theorem viable_iff_run : Viable n ks ↔
    (∃ s, run n.operators n.initial ks = some s) ∧ ∀ k, ks.head? = some k → k ∉ n.reserved := by
  constructor
  · rintro ⟨ks', h⟩
    obtain ⟨hrun, hreserved⟩ := derives_iff_run.mp h
    obtain ⟨s, hs, -⟩ := run_of_append hrun
    refine ⟨⟨s, hs⟩, fun k hk => hreserved k ?_⟩
    rw [List.head?_append, hk]
    rfl
  · rintro ⟨⟨s, hs⟩, hreserved⟩
    refine ⟨s.completion, derives_iff_run.mpr ⟨run_trans hs (run_completion _ s), ?_⟩⟩
    intro k hk
    cases ks with
    | nil =>
      obtain rfl := Option.some.inj hs
      exact n.completion_not_reserved hk
    | cons _ _ => exact hreserved k hk

/-- What is viable is so up to every place. -/
theorem Viable.mono (h : Viable n ks') (hle : ks <+: ks') : Viable n ks := by
  obtain ⟨v, rfl⟩ := hle
  obtain ⟨w, h⟩ := h
  exact ⟨v ++ w, by rw [← List.append_assoc]; exact h⟩

/-- Nothing is viable that goes on with a kind that cannot come next. -/
theorem not_viable_of_stuck {s : Outline} {k : Kind}
    (hrun : run n.operators n.initial ks = some s) (hstuck : step n.operators s k = none)
    (v : List Kind) : ¬ Viable n (ks ++ k :: v) := by
  rw [viable_iff_run]
  rintro ⟨⟨t, h⟩, -⟩
  simp [run_append, hrun, hstuck] at h

end ArithCheck
