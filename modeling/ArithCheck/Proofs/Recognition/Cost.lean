import ArithCheck.Proofs.Grammar.Levels
import ArithCheck.Proofs.Recognition.Outcome

/-!
# The rules in progress

The number of rules in progress on every entry of a rule, told by the levels of the tokens taken up
to there. Each rule is entered with a number of rules around it that its level decides (`Fits`), and
leaves of its level what they are decided by (`Leaves`).

* `Costed`: what the entries in a log say;
* `Leads`: what a computation does to the levels, and that it keeps the log so;
* `leads_rule`: the rules, by induction on the budget.
-/

namespace ArithCheck

open Token

namespace Nonterminal

/-- The rules in progress on a level when the rule of a nonterminal is entered on it. -/
def around : Nonterminal → Level → Nat
  | .e, _ => 0
  | .ee, _ => 1
  | .t, l => 1 + l.sum.toNat
  | .tt, l => 2 + l.sum.toNat
  | .x, l => 2 + l.sum.toNat + l.product.toNat + 2 * l.powers
  | .xx, l | .y, l => 3 + l.sum.toNat + l.product.toNat + 2 * l.powers
  | .f, l => 4 + l.sum.toNat + l.product.toNat + 2 * l.powers

/-- What is left of a level around the sentences of a nonterminal. -/
def scope : Nonterminal → Level → Level
  | .e, _ | .ee, _ => .fresh
  | .t, l | .tt, l => ⟨l.sum, false, 0⟩
  | .x, l | .xx, l => ⟨l.sum, l.product, 0⟩
  | .y, l | .f, l => l

/-- A level on which a sum or a product begins: no product, or no power, has been read of it. -/
def opening : Nonterminal → Level → Level
  | .e, _ => .fresh
  | .t, l => ⟨l.sum, false, 0⟩
  | .ee, l | .tt, l | .x, l | .xx, l | .y, l | .f, l => l

theorem around_lt_cost (n : Nonterminal) (l : Level) : n.around l < l.cost := by
  cases n <;> simp only [around, Level.cost] <;> omega

end Nonterminal

/-- The token that a record tells of, if it tells of one. -/
def Log.Record.token? : Log.Record → Option Token
  | .token t => some t
  | .enter _ _ _ | .trailing _ | .verdict _ => none

/-- The tokens that records tell of. -/
def drawnIn (records : List Log.Record) : List Token := records.filterMap Log.Record.token?

theorem drawnIn_append (records records' : List Log.Record) :
    drawnIn (records ++ records') = drawnIn records ++ drawnIn records' :=
  List.filterMap_append

/-- On every entry of a rule the tokens drawn are some that have been taken and the one ahead, and
the rules in progress are no more than the levels behind the former cost. On the entry of an atom
they are as many. -/
def Costed (records : List Log.Record) : Prop :=
  ∀ before n active ahead, before ++ [.enter n active ahead] <+: records →
    ∃ u, drawnIn before = u ++ ahead.toList ∧ active ≤ (Levels.ofKinds (kindsOf u)).cost ∧
      (n = .f → active = (Levels.ofKinds (kindsOf u)).cost)

variable {records : List Log.Record}

theorem costed_nil : Costed [] := by
  intro before n active ahead h
  simp at h

theorem Costed.concat {record : Log.Record} (h : Costed records)
    (hrecord : ∀ n active ahead, record = .enter n active ahead →
      ∃ u, drawnIn records = u ++ ahead.toList ∧ active ≤ (Levels.ofKinds (kindsOf u)).cost ∧
        (n = .f → active = (Levels.ofKinds (kindsOf u)).cost)) :
    Costed (records ++ [record]) := by
  intro before n active ahead hprefix
  rcases List.prefix_concat_iff.mp hprefix with hlast | hprefix
  · obtain ⟨rfl, hentry⟩ := List.append_inj' hlast rfl
    exact hrecord n active ahead (List.cons.inj hentry).1.symm
  · exact h before n active ahead hprefix

/-- The fault is that the nesting is too deep. -/
def Fault.IsNesting : Fault → Prop
  | .exhausted | .nesting _ _ => True
  | _ => False

namespace Recognition

variable {ts u : List Token} {L : Levels} {limit : Nat} {r : Recognition Tape}

/-- Of the tokens `ts` a recognition that traces everything has taken `u`, and its log says so. -/
structure Follows (ts u : List Token) (r : Recognition Tape) : Prop where
  tokens : ts = u ++ r.pending
  fault : ∀ fault, r.source.fault = some fault → ¬ fault.IsNesting
  rules : r.tracing = true
  drawing : r.source.tracing = true
  drawn : drawnIn r.log.toList = u ++ r.lookahead.toList
  costed : Costed r.log.toList

/-- Drawing takes the token ahead, unless a fault comes up: then nothing changes. -/
theorem Follows.advance (h : Follows ts u r) :
    (∃ r', advance r = .ok () r' ∧ Follows ts (u ++ r.lookahead.toList) r') ∨
      ∃ fault, ¬ fault.IsNesting ∧ advance r = .error fault r := by
  obtain ⟨⟨tracing, lookahead⟩, ⟨rest, fault, file, drawing⟩, log⟩ := r
  obtain rfl : drawing = true := h.drawing
  have htokens : ts = u ++ (lookahead.toList ++ rest) := h.tokens
  have hdrawn : drawnIn log.toList = u ++ lookahead.toList := h.drawn
  cases rest with
  | cons t rest =>
    have hlog : (log ++ [Log.Record.token t]).toList = log.toList ++ [.token t] :=
      Array.toList_appendList
    refine .inl ⟨_, rfl, ?_, h.fault, h.rules, rfl, ?_, ?_⟩
    · rw [htokens, List.append_assoc]
      rfl
    · show drawnIn (log ++ [Log.Record.token t]).toList = _
      rw [hlog, drawnIn_append, hdrawn]
      rfl
    · show Costed (log ++ [Log.Record.token t]).toList
      rw [hlog]
      exact h.costed.concat fun _ _ _ h => by cases h
  | nil =>
    cases fault with
    | some fault => exact .inr ⟨fault, h.fault fault rfl, rfl⟩
    | none =>
      have hlog : (log ++ ([] : List Log.Record)).toList = log.toList := by simp
      refine .inl ⟨_, rfl, ?_, h.fault, h.rules, rfl, ?_, ?_⟩
      · rw [htokens, List.append_assoc]
        rfl
      · show drawnIn (log ++ ([] : List Log.Record)).toList = _
        rw [hlog, hdrawn]
        exact (List.append_nil _).symm
      · show Costed (log ++ ([] : List Log.Record)).toList
        rw [hlog]
        exact h.costed

/-- The recognition stands behind tokens with the given levels. -/
def Stands (ts : List Token) (L : Levels) (r : Recognition Tape) : Prop :=
  ∃ u, Follows ts u r ∧ Levels.ofKinds (kindsOf u) = L

/-- How a computation under a limit may end: with levels that meet `Q` if it succeeds, and given up
only where the levels cost more than the limit. -/
inductive Ends (ts : List Token) (limit : Nat) (Q : Levels → Prop) :
    EStateM.Result Fault (Recognition Tape) Bool → Prop
  | success {L : Levels} {r : Recognition Tape} (stands : Stands ts L r) (levels : Q L) :
    Ends ts limit Q (.ok true r)
  | failure {L : Levels} {r : Recognition Tape} (stands : Stands ts L r) :
    Ends ts limit Q (.ok false r)
  | fault {L : Levels} {fault : Fault} {r : Recognition Tape} (stands : Stands ts L r)
    (exceeds : fault.IsNesting → limit < L.cost) : Ends ts limit Q (.error fault r)

/-- From the levels `L` a computation leads to levels that meet `Q`, if it succeeds. -/
def Leads (ts : List Token) (limit : Nat) (L : Levels) (c : Recognize Tape Bool)
    (Q : Levels → Prop) : Prop :=
  ∀ r, Stands ts L r → Ends ts limit Q (c r)

variable {Q Q' : Levels → Prop} {first second operand : Recognize Tape Bool}
  {operators : List Kind}

theorem Leads.mono (h : Leads ts limit L first Q) (hQ : ∀ L', Q L' → Q' L') :
    Leads ts limit L first Q' := by
  intro r hr
  have hfirst := h r hr
  generalize first r = result at hfirst ⊢
  cases hfirst with
  | success stands levels => exact .success stands (hQ _ levels)
  | failure stands => exact .failure stands
  | fault stands exceeds => exact .fault stands exceeds

theorem Leads.both (h : Leads ts limit L first Q) (h' : ∀ L', Q L' → Leads ts limit L' second Q') :
    Leads ts limit L (both first second) Q' := by
  intro r hr
  have hfirst := h r hr
  generalize hresult : first r = result at hfirst
  cases hfirst with
  | success stands levels =>
    rw [both_true hresult]
    exact h' _ levels _ stands
  | failure stands =>
    rw [both_false hresult]
    exact .failure stands
  | fault stands exceeds =>
    rw [both_error hresult]
    exact .fault stands exceeds

theorem leads_terminal (k : Kind) : Leads ts limit L (terminal k) (· = L.step k) := by
  rintro r ⟨u, follows, rfl⟩
  by_cases hk : r.ahead = some k
  · obtain ⟨t, ht, rfl⟩ := Option.map_eq_some_iff.mp hk
    rcases follows.advance with ⟨r', hadvance, follows'⟩ | ⟨fault, hfault, hadvance⟩
    · rw [terminal_ok hk hadvance]
      refine .success ⟨_, follows', rfl⟩ ?_
      rw [ht, kindsOf_append]
      exact Levels.ofKinds_concat _ _
    · rw [terminal_error hk hadvance]
      exact .fault ⟨u, follows, rfl⟩ fun h => absurd h hfault
  · rw [terminal_false hk]
    exact .failure ⟨u, follows, rfl⟩

/-- A chain whose links lead from `Q` to `Q` again. -/
theorem leads_chain (h : ∀ L, Q L → ∀ k ∈ operators, Leads ts limit (L.step k) operand Q)
    (bound : Nat) (hL : Q L) : Leads ts limit L (chain operators operand bound) Q := by
  induction bound generalizing L with
  | zero => exact fun r hr => .fault hr False.elim
  | succ bound ih =>
    intro r hr
    by_cases hk : ∃ k, r.ahead = some k ∧ k ∈ operators
    · obtain ⟨k, hk, hmem⟩ := hk
      have hlink : Leads ts limit (L.step k) (Recognition.both operand
          (chain operators operand bound)) Q := (h L hL k hmem).both fun _ => ih
      rw [chain_operator hk hmem]
      exact (leads_terminal k).both (fun L' hL' => hL' ▸ hlink) r hr
    · rw [chain_over fun k hk' hmem => hk ⟨k, hk', hmem⟩]
      exact .success hr hL

/-! ## Rules -/

variable {n : Nonterminal} {active : Nat} {L' : Levels}

/-- The rule of a nonterminal may be entered with `active` rules around it. -/
structure Fits (n : Nonterminal) (active : Nat) (L : Levels) : Prop where
  count : active = L.around + n.around L.inner
  complete : L.complete = decide (n.first = .operator)
  begins : n.opening L.inner = L.inner

/-- The levels behind a sentence of a nonterminal. -/
structure Leaves (n : Nonterminal) (L L' : Levels) : Prop where
  complete : L'.complete = true
  outer : L'.outer = L.outer
  scope : n.scope L'.inner = n.scope L.inner

theorem Fits.lt_cost (h : Fits n active L) : active < L.cost := by
  have hlt := n.around_lt_cost L.inner
  rw [h.count, L.cost_eq]
  omega

theorem Leaves.around (h : Leaves n L L') : L'.around = L.around := by
  rw [Levels.around, h.outer, Levels.around]

/-- Inside a sum it is left whether a sum is being read. -/
theorem Leaves.sum_eq (h : Leaves n L L') (hn : n ∉ [Nonterminal.e, .ee]) :
    L'.inner.sum = L.inner.sum := by
  have hsum := congrArg Level.sum h.scope
  cases n with
  | e | ee => exact absurd (by decide) hn
  | _ => exact hsum

/-- Entering a rule that fits. -/
theorem Fits.enter (h : Fits n active L) (hr : Stands ts L r) :
    Stands ts L { r with log := r.log ++ entering n (active + 1) r.toRecognizer } := by
  obtain ⟨u, follows, rfl⟩ := hr
  have hlog : (r.log ++ entering n (active + 1) r.toRecognizer).toList =
      r.log.toList ++ [.enter n (active + 1) r.lookahead] := by
    rw [entering, if_pos follows.rules]
    exact Array.toList_appendList
  refine ⟨u, ⟨follows.tokens, follows.fault, follows.rules, follows.drawing, ?_, ?_⟩, rfl⟩
  · show drawnIn (r.log ++ entering n (active + 1) r.toRecognizer).toList = _
    rw [hlog, drawnIn_append]
    exact (List.append_nil _).trans follows.drawn
  · show Costed (r.log ++ entering n (active + 1) r.toRecognizer).toList
    rw [hlog]
    refine follows.costed.concat fun m count ahead hentry => ?_
    cases hentry
    refine ⟨u, follows.drawn, h.lt_cost, ?_⟩
    rintro rfl
    rw [h.count, Levels.cost_eq]
    simp only [Nonterminal.around, Level.cost]
    omega

section Body

variable {call : Nonterminal → Recognize Tape Bool} {l : Level} {outer : List Level}
  {sum product : Bool} {powers : Nat}

/-! The bodies of the rules, on the innermost of given levels, if the rules that they enter keep the
levels around them. -/

variable (hcall : ∀ m L, Fits m (active + 1) L → Leads ts limit L (call m) (Leaves m L))
include hcall

theorem leads_sum (h : active = Level.costs outer) :
    Leads ts limit ⟨.fresh, outer, false⟩ (both (call .t) (call .ee))
      (Leaves .e ⟨.fresh, outer, false⟩) := by
  subst h
  refine (hcall .t _ ⟨rfl, rfl, rfl⟩).both fun L₁ left => ?_
  refine (hcall .ee L₁ ⟨?_, left.complete, rfl⟩).mono fun L₂ left₂ => ?_
  · rw [left.around]
    rfl
  · exact ⟨left₂.complete, left₂.outer.trans left.outer, rfl⟩

theorem leads_sum_more (h : active = Level.costs outer + 1) (bound : Nat) :
    Leads ts limit ⟨l, outer, true⟩ (chain [.plus, .minus] (call .t) bound)
      (Leaves .ee ⟨l, outer, true⟩) := by
  subst h
  refine leads_chain (fun L₁ left k hk => ?_) bound ⟨rfl, rfl, rfl⟩
  have hstep : L₁.step k = ⟨⟨true, false, 0⟩, outer, false⟩ := by
    obtain rfl | rfl : k = .plus ∨ k = .minus := by simpa using hk
    all_goals simp [Levels.step, left.complete, left.outer, Level.behind]
  rw [hstep]
  refine (hcall .t _ ⟨rfl, rfl, rfl⟩).mono fun L₂ left₂ => ?_
  exact ⟨left₂.complete, left₂.outer, rfl⟩

theorem leads_product (h : active = Level.costs outer + (1 + sum.toNat)) :
    Leads ts limit ⟨⟨sum, false, 0⟩, outer, false⟩ (both (call .x) (call .tt))
      (Leaves .t ⟨⟨sum, false, 0⟩, outer, false⟩) := by
  refine (hcall .x _ ⟨?_, rfl, rfl⟩).both fun L₁ left => ?_
  · simp only [Levels.around, Nonterminal.around, Bool.toNat_false]
    omega
  have hsum : L₁.inner.sum = sum := left.sum_eq (by decide)
  refine (hcall .tt L₁ ⟨?_, left.complete, rfl⟩).mono fun L₂ left₂ => ?_
  · rw [left.around]
    simp only [Levels.around, Nonterminal.around, hsum]
    omega
  · have hsum₂ : L₂.inner.sum = L₁.inner.sum := left₂.sum_eq (by decide)
    refine ⟨left₂.complete, left₂.outer.trans left.outer, ?_⟩
    simp only [Nonterminal.scope, hsum₂, hsum]

theorem leads_product_more (h : active = Level.costs outer + (2 + sum.toNat))
    (bound : Nat) :
    Leads ts limit ⟨⟨sum, product, powers⟩, outer, true⟩ (chain [.times, .divide] (call .x) bound)
      (Leaves .tt ⟨⟨sum, product, powers⟩, outer, true⟩) := by
  refine leads_chain (fun L₁ left k hk => ?_) bound ⟨rfl, rfl, rfl⟩
  have hsum : L₁.inner.sum = sum := left.sum_eq (by decide)
  have hstep : L₁.step k = ⟨⟨sum, true, 0⟩, outer, false⟩ := by
    obtain rfl | rfl : k = .times ∨ k = .divide := by simpa using hk
    all_goals simp [Levels.step, left.complete, left.outer, Level.behind, hsum]
  rw [hstep]
  refine (hcall .x _ ⟨?_, rfl, rfl⟩).mono fun L₂ left₂ => ?_
  · simp only [Levels.around, Nonterminal.around, Bool.toNat_true]
    omega
  · have hsum₂ : L₂.inner.sum = sum := left₂.sum_eq (by decide)
    refine ⟨left₂.complete, left₂.outer, ?_⟩
    simp only [Nonterminal.scope, hsum₂]

theorem leads_power (h : active = Level.costs outer + Nonterminal.x.around l) :
    Leads ts limit ⟨l, outer, false⟩ (both (call .y) (call .xx))
      (Leaves .x ⟨l, outer, false⟩) := by
  simp only [Nonterminal.around] at h
  refine (hcall .y _ ⟨?_, rfl, rfl⟩).both fun L₁ left => ?_
  · simp only [Levels.around, Nonterminal.around]
    omega
  have hinner : L₁.inner = l := left.scope
  refine (hcall .xx L₁ ⟨?_, left.complete, rfl⟩).mono fun L₂ left₂ => ?_
  · rw [left.around]
    simp only [Levels.around, Nonterminal.around, hinner]
    omega
  · refine ⟨left₂.complete, left₂.outer.trans left.outer, left₂.scope.trans ?_⟩
    rw [hinner]
    rfl

theorem leads_power_more (h : active = Level.costs outer + Nonterminal.xx.around l)
    (bound : Nat) :
    Leads ts limit ⟨l, outer, true⟩ (body call bound .xx) (Leaves .xx ⟨l, outer, true⟩) := by
  simp only [Nonterminal.around] at h
  intro r hr
  by_cases hk : r.ahead = some .pow
  · rw [body_xx_pow hk]
    refine (leads_terminal .pow).both (fun L₁ hL₁ => ?_) r hr
    obtain rfl : L₁ = ⟨⟨l.sum, l.product, l.powers + 1⟩, outer, false⟩ := hL₁
    refine (hcall .x _ ⟨?_, rfl, rfl⟩).mono fun L₂ left => ?_
    · simp only [Levels.around, Nonterminal.around]
      omega
    · exact ⟨left.complete, left.outer, left.scope⟩
  · rw [body_xx_over hk]
    exact .success hr ⟨rfl, rfl, rfl⟩

theorem leads_sign (h : active = Level.costs outer + Nonterminal.y.around l)
    (bound : Nat) :
    Leads ts limit ⟨l, outer, false⟩ (body call bound .y) (Leaves .y ⟨l, outer, false⟩) := by
  have hatom : Leads ts limit ⟨l, outer, false⟩ (call .f) (Leaves .y ⟨l, outer, false⟩) := by
    refine (hcall .f _ ⟨?_, rfl, rfl⟩).mono fun L₁ left => ?_
    · simp only [Levels.around, Nonterminal.around] at h ⊢
      omega
    · exact ⟨left.complete, left.outer, left.scope⟩
  intro r hr
  by_cases hsign : ∃ k, r.ahead = some k ∧ (k = .plus ∨ k = .minus)
  · obtain ⟨k, hk, hsign⟩ := hsign
    rw [body_y_signed hk hsign]
    refine (leads_terminal k).both (fun L₁ hL₁ => ?_) r hr
    -- In front of an operand it is no operator.
    obtain rfl : L₁ = ⟨l, outer, false⟩ := by
      rcases hsign with rfl | rfl <;> exact hL₁
    exact hatom
  · rw [body_y_unsigned (fun hk => hsign ⟨_, hk, .inl rfl⟩) fun hk => hsign ⟨_, hk, .inr rfl⟩]
    exact hatom r hr

theorem leads_atom (h : active = Level.costs outer + Nonterminal.f.around l)
    (bound : Nat) :
    Leads ts limit ⟨l, outer, false⟩ (body call bound .f) (Leaves .f ⟨l, outer, false⟩) := by
  intro r hr
  by_cases hgroup : r.ahead = some .lparen
  · rw [body_f_group hgroup]
    refine (leads_terminal .lparen).both (fun L₁ hL₁ => ?_) r hr
    obtain rfl : L₁ = ⟨.fresh, l :: outer, false⟩ := hL₁
    refine (hcall .e _ ⟨?_, rfl, rfl⟩).both fun L₂ left => ?_
    · simp only [Levels.around, Nonterminal.around, Level.costs, Level.cost] at h ⊢
      omega
    refine (leads_terminal .rparen).mono fun L₃ hL₃ => ?_
    have houter : L₂.outer = l :: outer := left.outer
    obtain rfl : L₃ = ⟨l, outer, true⟩ := by rw [hL₃, Levels.step, houter]
    exact ⟨rfl, rfl, rfl⟩
  by_cases hatom : ∃ k, r.ahead = some k ∧ (k = .float ∨ k = .variable)
  · obtain ⟨k, hk, hatom⟩ := hatom
    rw [body_f_atom hk hatom]
    refine (leads_terminal k).mono (fun L₁ hL₁ => ?_) r hr
    obtain rfl : L₁ = ⟨l, outer, true⟩ := by rcases hatom with rfl | rfl <;> exact hL₁
    exact ⟨rfl, rfl, rfl⟩
  · rw [body_f_over hgroup (fun hk => hatom ⟨_, hk, .inl rfl⟩)
      fun hk => hatom ⟨_, hk, .inr rfl⟩]
    exact .failure hr

theorem leads_body (h : Fits n active L) (bound : Nat) :
    Leads ts limit L (body call bound n) (Leaves n L) := by
  obtain ⟨⟨sum, product, powers⟩, outer, complete⟩ := L
  obtain ⟨hcount, rfl, hbegins⟩ := h
  cases n with
  | e =>
    obtain ⟨rfl, rfl, rfl⟩ : sum = false ∧ product = false ∧ powers = 0 := by
      simpa [Nonterminal.opening, Level.fresh, eq_comm] using hbegins
    exact leads_sum hcall hcount
  | ee => exact leads_sum_more hcall hcount bound
  | t =>
    obtain ⟨rfl, rfl⟩ : product = false ∧ powers = 0 := by
      simpa [Nonterminal.opening, eq_comm] using hbegins
    exact leads_product hcall hcount
  | tt => exact leads_product_more hcall hcount bound
  | x => exact leads_power hcall hcount
  | xx => exact leads_power_more hcall hcount bound
  | y => exact leads_sign hcall hcount bound
  | f => exact leads_atom hcall hcount bound

end Body

/-- Where a rule fits it keeps the levels around it. -/
theorem leads_rule (width budget active : Nat) (n : Nonterminal) (h : Fits n active L) :
    Leads ts (budget + active) L (rule width budget active n) (Leaves n L) := by
  induction budget generalizing active n L with
  | zero => exact fun r hr => .fault hr fun _ => by rw [Nat.zero_add]; exact h.lt_cost
  | succ budget ih =>
    intro r hr
    have hlimit : budget + 1 + active = budget + (active + 1) := by omega
    rw [rule_succ, hlimit]
    exact leads_body (fun m L => ih (active + 1) m) h width _ (h.enter hr)

end Recognition

end ArithCheck
