import ArithCheck.Proofs.Recognition.Outcome

/-!
# The outcome of a rule

Over a tape the rule of a nonterminal takes the longest part of the input with which a sentence of
the nonterminal can begin, and accepts if it is a sentence. The budget that this takes is at most
linear in the number of tokens.

* `Meets`: what a rule with a given budget is held to;
* `body_meets`: the body of a rule, if the rules that it enters meet this;
* `rule_meets`: every rule, by induction on the budget.
-/

namespace ArithCheck

open Token Outline

/-- One more than the rules that a nonterminal can enter one inside the other before a token is
taken. -/
def Nonterminal.rank : Nonterminal → Nat
  | .e => 5
  | .t => 4
  | .x => 3
  | .y => 2
  | .f | .ee | .tt | .xx => 1

theorem Nonterminal.rank_pos (n : Nonterminal) : 0 < n.rank := by cases n <;> decide

theorem Nonterminal.rank_le (n : Nonterminal) : n.rank ≤ 5 := by cases n <;> decide

namespace Recognition

variable {r r' : Recognition Tape} {call : Nonterminal → Recognize Tape Bool}
  {width budget : Nat}

/-- The token ahead is not reserved by what is in front of a nonterminal. -/
def Fresh (n : Nonterminal) (r : Recognition Tape) : Prop :=
  ∀ k, r.ahead = some k → k ∉ n.reserved

/-- A rule ends as it should wherever it may be entered. -/
def Meets (width budget : Nat) (n : Nonterminal) (rule : Recognize Tape Bool) : Prop :=
  ∀ r, r.Settled → r.pending.length < width → Fresh n r →
    Outcome n.operators n.initial (Derives n) (budget < n.rank + 5 * r.pending.length) r (rule r)

/-- A rule that is entered inside another one. -/
theorem Meets.enter {n m : Nonterminal} {u : List Token} (h : Meets width budget m (call m))
    (hw : r.pending.length < width) (took : Took r u r') (hfresh : Fresh m r')
    (hrank : m.rank < n.rank ∨ u ≠ []) :
    Outcome m.operators m.initial (Derives m) (budget + 1 < n.rank + 5 * r.pending.length) r'
      (call m r') := by
  have hle := took.length_le
  refine (h r' took.settled (by omega) hfresh).mono (fun _ => id) fun h => ?_
  rcases hrank with hrank | hu
  · omega
  · have hm := m.rank_le
    have hn := n.rank_pos
    have hpos := List.length_pos_iff.mpr hu
    omega

theorem fresh_of_reserved_nil {n : Nonterminal} (h : n.reserved = []) : Fresh n r := fun k _ => by
  rw [h]
  exact List.not_mem_nil

/-- A rule that another one enters first. -/
theorem Meets.enter_first {n m : Nonterminal} (h : Meets width budget m (call m))
    (hr : r.Settled) (hw : r.pending.length < width) (hreserved : m.reserved = [])
    (hrank : m.rank < n.rank) :
    Outcome m.operators m.initial (Derives m) (budget + 1 < n.rank + 5 * r.pending.length) r
      (call m r) :=
  h.enter hw (.refl hr) (fresh_of_reserved_nil hreserved) (.inl hrank)

/-- A rule that another one enters with fewer tokens left. -/
theorem Meets.enter_later {n m : Nonterminal} {u : List Token} (h : Meets width budget m (call m))
    (hw : r.pending.length < width) (took : Took r u r') (hu : u ≠ [])
    (hreserved : m.reserved = []) :
    Outcome m.operators m.initial (Derives m) (budget + 1 < n.rank + 5 * r.pending.length) r'
      (call m r') :=
  h.enter hw took (fresh_of_reserved_nil hreserved) (.inr hu)

/-- The body of a rule meets what is asked of the rule with one more in its budget. -/
theorem body_meets (hcall : ∀ m, Meets width budget m (call m)) (n : Nonterminal) :
    Meets width (budget + 1) n (body call width n) := by
  intro r hr hw hfresh
  cases n with
  | e =>
    refine .both (by decide) ((hcall .t).enter_first hr hw rfl (by decide))
      (fun u r' took stuck => ?_) fun _ _ => .sum
    exact (hcall .ee).enter hw took (fun k hk => stuck.not_mem hk) (.inl (by decide))
  | t =>
    refine .both (by decide) ((hcall .x).enter_first hr hw rfl (by decide))
      (fun u r' took stuck => ?_) fun _ _ => .product
    exact (hcall .tt).enter hw took (fun k hk => stuck.not_mem hk) (.inl (by decide))
  | x =>
    refine .both (by decide) ((hcall .y).enter_first hr hw rfl (by decide))
      (fun u r' took stuck => ?_) fun _ _ => .power
    exact (hcall .xx).enter hw took (fresh_of_reserved_nil rfl) (.inl (by decide))
  | ee =>
    refine .chain hr hw (fun k => by cases k <;> decide) hfresh (fun u r' took hu => ?_) .sumEnd
      fun k ks ks' hk => .sumMore (by simpa using hk)
    exact (hcall .t).enter_later hw took hu rfl
  | tt =>
    refine .chain hr hw (fun k => by cases k <;> decide) hfresh (fun u r' took hu => ?_) .productEnd
      fun k ks ks' hk => .productMore (by simpa using hk)
    exact (hcall .x).enter_later hw took hu rfl
  | xx =>
    by_cases hk : r.ahead = some .pow
    · rw [body_xx_pow hk]
      refine .terminal hk rfl (fun u r' took hu => ?_) fun _ => .powerMore
      exact (hcall .x).enter_later hw took hu rfl
    · rw [body_xx_over hk]
      refine .accepted (.refl hr) .powerEnd rfl fun k hk' => if_neg ?_
      simpa [Nonterminal.operators] using fun h : k = .pow => hk (h ▸ hk')
  | y =>
    by_cases hsign : ∃ k, r.ahead = some k ∧ k ∈ signs
    · obtain ⟨k, hk, hmem⟩ := hsign
      have hk' : k = .plus ∨ k = .minus := by simpa [signs] using hmem
      rw [body_y_signed hk hk']
      refine .terminal hk (if_pos hmem) (fun u r' took hu => ?_) fun _ => .signed hk'
      exact (hcall .f).enter_later hw took hu rfl
    · have hnot : ∀ k, r.ahead = some k → k ∉ signs := fun k hk hmem => hsign ⟨k, hk, hmem⟩
      rw [body_y_unsigned (fun hk => hnot _ hk (by decide)) fun hk => hnot _ hk (by decide)]
      have hatom := (hcall .f).enter_first (n := .y) hr hw rfl (by decide)
      exact .unsigned hr hnot (hatom.mono (fun _ => .unsigned) id)
  | f =>
    by_cases hgroup : r.ahead = some .lparen
    · rw [body_f_group hgroup]
      refine .terminal hgroup rfl (fun u r' took hu => ?_) fun _ h => h
      exact .group ((hcall .e).enter_later hw took hu rfl) fun _ => .group
    by_cases hfloat : r.ahead = some .float
    · rw [body_f_atom hfloat (.inl rfl)]
      refine (Outcome.last hfloat rfl).mono ?_ id
      rintro _ rfl
      exact .float
    by_cases hvariable : r.ahead = some .variable
    · rw [body_f_atom hvariable (.inr rfl)]
      refine (Outcome.last hvariable rfl).mono ?_ id
      rintro _ rfl
      exact .variable
    rw [body_f_over hgroup hfloat hvariable]
    refine .rejected (.refl hr) rfl (by decide) fun k hk => ?_
    cases k with
    | lparen => exact absurd hk hgroup
    | float => exact absurd hk hfloat
    | «variable» => exact absurd hk hvariable
    | _ => rfl

/-- The rule of every nonterminal ends as it should. -/
theorem rule_meets (width budget active : Nat) (n : Nonterminal) :
    Meets width budget n (rule width budget active n) := by
  induction budget generalizing active n with
  | zero =>
    intro r hr hw hfresh
    exact .exhausted (by have := n.rank_pos; omega) rfl
  | succ budget ih =>
    intro r hr hw hfresh
    rw [rule_succ]
    have hbody := body_meets (ih (active + 1)) n
      { r with log := r.log ++ entering n (active + 1) r.toRecognizer } hr hw hfresh
    exact hbody.of_log

end Recognition

end ArithCheck
