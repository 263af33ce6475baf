import ArithCheck.Proofs.Grammar.Preorder
import ArithCheck.Proofs.Recognition.Outcome

/-!
# Rules in front of a tree

In front of the tokens of a derivation tree the rule of its nonterminal takes these tokens if the
budget is no less than the depth of the tree, and exhausts a smaller one. On its way it enters the
rules of the tree in preorder.

* `Takes.both`, `Takes.terminal_both`: parts of a rule from their own parts;
* `takes_body`: the body of a rule, by induction on the tree; `takes_tree`: the rule.
-/

namespace ArithCheck.Recognition

open Token Outline

/-- A state in front of the tokens `us` of a tape without a fault: less than `width` tokens are
left, and behind those of `us` comes none of the operators. -/
structure Facing (width : Nat) (operators : List Kind) (us : List Token) (r : Recognition Tape) :
    Prop where
  settled : r.Settled
  fault : r.source.fault = none
  length : r.pending.length < width
  pending : ∃ ts, r.pending = us ++ ts ∧ ∀ k, (kindsOf ts).head? = some k → k ∉ operators

/-- From one state to another the tokens `u` are taken, and rules are entered, which are logged if
rules are traced. -/
structure Walked (r : Recognition Tape) (u : List Token) (visits : List Visit)
    (r' : Recognition Tape) : Prop where
  took : Took r u r'
  tracing : r'.tracing = r.tracing
  visits : r.tracing = true → visitsOf r'.log = visitsOf r.log ++ visits

/-- In front of tokens of the kinds `ks` a computation takes these if it has room for them, and
enters rules according to the tokens that are left; otherwise it exhausts its budget. -/
def Takes (width : Nat) (operators ks : List Kind) (visits : List Token → List Visit) (room : Prop)
    (c : Recognize Tape Bool) : Prop :=
  ∀ r us, Facing width operators us r → kindsOf us = ks →
    (room → ∃ r', c r = .ok true r' ∧ Walked r us (visits r.pending) r') ∧
      (¬ room → ∃ r', c r = .error .exhausted r' ∧ r'.source.file = r.source.file)

variable {width bound budget active : Nat} {operators ops₁ ks ks₁ ks₂ : List Kind}
  {room room' : Prop} {r r' r'' : Recognition Tape} {u v us : List Token}
  {visits visits' : List Token → List Visit} {vs vs' : List Visit}
  {first second : Recognize Tape Bool} {n : Nonterminal}

theorem Walked.refl (hr : r.Settled) : Walked r [] [] r :=
  ⟨.refl hr, rfl, fun _ => (List.append_nil _).symm⟩

theorem Walked.trans (h : Walked r u vs r') (h' : Walked r' v vs' r'') :
    Walked r (u ++ v) (vs ++ vs') r'' where
  took := h.took.trans h'.took
  tracing := h'.tracing.trans h.tracing
  visits htracing := by
    rw [h'.visits (h.tracing.trans htracing), h.visits htracing, List.append_assoc]

/-- Behind the tokens taken the others are left. -/
theorem Took.pending_eq_drop (h : Took r u r') : r'.pending = r.pending.drop u.length := by
  rw [h.pending, List.drop_left]

/-- Drawing a token is no visit of a rule. -/
theorem visitsOf_advance (h : advance r = .ok () r') :
    r'.tracing = r.tracing ∧ visitsOf r'.log = visitsOf r.log := by
  cases hpull : TokenSource.pull r.source with
  | error fault source =>
    rw [advance_error hpull] at h
    cases h
  | ok token source =>
    rw [advance_eq hpull] at h
    cases h
    refine ⟨rfl, (visitsOf_append _ _).trans ?_⟩
    rw [Log.ofToken]
    split
    · cases token <;> exact List.append_nil _
    · exact List.append_nil _

/-- Nor is a terminal. -/
theorem visitsOf_terminal {k : Kind} (hk : r.ahead = some k) (h : terminal k r = .ok true r') :
    r'.tracing = r.tracing ∧ visitsOf r'.log = visitsOf r.log := by
  cases hadvance : advance r with
  | error fault r₁ =>
    rw [terminal_error hk hadvance] at h
    cases h
  | ok _ r₁ =>
    rw [terminal_ok hk hadvance] at h
    cases h
    exact visitsOf_advance hadvance

theorem Facing.mono (h : Facing bound operators us r) (hle : bound ≤ width) :
    Facing width operators us r :=
  ⟨h.settled, h.fault, Nat.lt_of_lt_of_le h.length hle, h.pending⟩

/-- The state in front of a first part. -/
theorem Facing.front (h : Facing width operators (u ++ v) r)
    (hhead : ∀ k, (kindsOf v).head? = some k → k ∉ ops₁) (hops : v = [] → ops₁ ⊆ operators) :
    Facing width ops₁ u r := by
  obtain ⟨ts, hts, hstop⟩ := h.pending
  refine ⟨h.settled, h.fault, h.length, v ++ ts, by rw [hts, List.append_assoc], fun k hk => ?_⟩
  cases v with
  | nil => exact fun hmem => hstop k hk (hops rfl hmem)
  | cons t v => exact hhead k hk

/-- The state after a first part is taken. -/
theorem Facing.after (h : Facing width operators (u ++ v) r) (took : Took r u r')
    (hlength : r'.pending.length < bound) : Facing bound operators v r' := by
  obtain ⟨ts, hts, hstop⟩ := h.pending
  rw [took.pending, List.append_assoc] at hts
  exact ⟨took.settled, took.fault.trans h.fault, hlength, ts, List.append_cancel_left hts, hstop⟩

theorem Facing.ahead_eq {t : Token} (h : Facing width operators (t :: us) r) :
    r.ahead = some t.kind := by
  obtain ⟨ts, hts, -⟩ := h.pending
  rw [h.settled.ahead_eq, hts]
  rfl

/-- Where nothing is to be taken no operator is ahead. -/
theorem Facing.not_mem {k : Kind} (h : Facing width operators [] r) (hk : r.ahead = some k) :
    k ∉ operators := by
  obtain ⟨ts, hts, hstop⟩ := h.pending
  apply hstop k
  rw [← hk, h.settled.ahead_eq, hts, List.nil_append]

/-- The first token to be taken is taken as a terminal. -/
theorem Facing.terminal {t : Token} (h : Facing width operators (t :: us) r) :
    ∃ r', terminal t.kind r = .ok true r' ∧ Walked r [t] [] r' := by
  obtain ⟨ts, hts, -⟩ := h.pending
  rcases terminal_cases h.ahead_eq with ⟨r', u, ht, took, hu⟩ | ⟨fault, met, -⟩
  · obtain ⟨t', rfl, -⟩ := List.map_eq_singleton_iff.mp hu
    obtain rfl : t' = t := by
      rw [took.pending] at hts
      exact (List.cons.inj hts).1
    obtain ⟨htracing, hvisits⟩ := visitsOf_terminal h.ahead_eq ht
    exact ⟨r', ht, took, htracing, fun _ => hvisits.trans (List.append_nil _).symm⟩
  · simp [h.fault] at met

theorem Takes.congr (h : Takes width operators ks visits room first)
    (hvisits : ∀ ts, visits ts = visits' ts) (hroom : room ↔ room') :
    Takes width operators ks visits' room' first := by
  rwa [← propext hroom, ← funext hvisits]

theorem takes_zero : Takes 0 operators ks visits room first := by
  intro r us h
  have hlength := h.length
  omega

/-- The kind ahead tells what a computation is like. -/
theorem Takes.of_ahead {k : Kind} (h : Takes width operators (k :: ks) visits room second)
    (heq : ∀ r, r.ahead = some k → first r = second r) :
    Takes width operators (k :: ks) visits room first := by
  intro r us hfacing hus
  obtain ⟨t, us, rfl, rfl, rfl⟩ := List.map_eq_cons_iff.mp hus
  rw [heq r hfacing.ahead_eq]
  exact h r (t :: us) hfacing rfl

/-- One part after another. The second one, or what comes behind it, stops the first one. -/
theorem Takes.both (h₁ : Takes width ops₁ ks₁ visits room first)
    (h₂ : Takes width operators ks₂ visits' room' second)
    (hhead : ∀ k, ks₂.head? = some k → k ∉ ops₁) (hops : ks₂ = [] → ops₁ ⊆ operators) :
    Takes width operators (ks₁ ++ ks₂) (fun ts => visits ts ++ visits' (ts.drop ks₁.length))
      (room ∧ room') (both first second) := by
  intro r us h hus
  obtain ⟨u, v, rfl, rfl, rfl⟩ := List.map_eq_append_iff.mp hus
  have hfront := h₁ r u (h.front hhead fun hv => hops (by rw [hv]; rfl)) rfl
  by_cases hroom : room
  · obtain ⟨r₁, hfirst, walked⟩ := hfront.1 hroom
    have hle := walked.took.length_le
    have hrest := h₂ r₁ v (h.after walked.took (by have := h.length; omega)) rfl
    rw [both_true hfirst]
    refine ⟨fun hboth => ?_, fun hboth => ?_⟩
    · obtain ⟨r', hsecond, walked'⟩ := hrest.1 hboth.2
      have hdrop : r₁.pending = r.pending.drop (kindsOf u).length := by
        rw [kindsOf, List.length_map, walked.took.pending_eq_drop]
      rw [hdrop] at walked'
      exact ⟨r', hsecond, walked.trans walked'⟩
    · obtain ⟨r', hsecond, hfile⟩ := hrest.2 fun h => hboth ⟨hroom, h⟩
      exact ⟨r', hsecond, hfile.trans walked.took.file⟩
  · obtain ⟨r', hfirst, hfile⟩ := hfront.2 hroom
    exact ⟨fun hboth => absurd hboth.1 hroom, fun _ => ⟨r', both_error hfirst, hfile⟩⟩

theorem takes_terminal (k : Kind) :
    Takes width operators [k] (fun _ => []) True (terminal k) := by
  intro r us h hus
  obtain ⟨t, us, rfl, rfl, hnil⟩ := List.map_eq_cons_iff.mp hus
  obtain rfl := List.map_eq_nil_iff.mp hnil
  obtain ⟨r', ht, walked⟩ := h.terminal
  exact ⟨fun _ => ⟨r', ht, walked⟩, fun h => absurd trivial h⟩

/-- A terminal, and then another part with fewer tokens left. -/
theorem Takes.terminal_both {k : Kind}
    (h₂ : Takes (bound - 1) operators ks visits room second) :
    Takes bound operators (k :: ks) (fun ts => visits ts.tail) room
      (Recognition.both (terminal k) second) := by
  intro r us h hus
  obtain ⟨t, us, rfl, rfl, rfl⟩ := List.map_eq_cons_iff.mp hus
  obtain ⟨r₁, ht, walked⟩ := h.terminal
  have hle : r₁.pending.length + 1 = r.pending.length := walked.took.length_le
  have hlength := h.length
  have hcons : Facing bound operators ([t] ++ us) r := h
  have hrest := h₂ r₁ us (hcons.after walked.took (by omega)) rfl
  rw [both_true ht]
  refine ⟨fun hroom => ?_, fun hroom => ?_⟩
  · obtain ⟨r', hsecond, walked'⟩ := hrest.1 hroom
    have htail : r₁.pending = r.pending.tail :=
      walked.took.pending_eq_drop.trans List.drop_one
    rw [htail] at walked'
    exact ⟨r', hsecond, walked.trans walked'⟩
  · obtain ⟨r', hsecond, hfile⟩ := hrest.2 hroom
    exact ⟨r', hsecond, hfile.trans walked.took.file⟩

/-- A chain without links. -/
theorem takes_chain_over {heads : List Kind} {operand : Recognize Tape Bool}
    (hheads : heads ⊆ operators) :
    Takes bound operators [] (fun _ => []) True (chain heads operand bound) := by
  intro r us h hus
  obtain rfl := List.map_eq_nil_iff.mp hus
  refine ⟨fun _ => ⟨r, ?_, .refl h.settled⟩, fun h => absurd trivial h⟩
  have hlength := h.length
  obtain ⟨bound, rfl⟩ : ∃ n, bound = n + 1 := ⟨bound - 1, by omega⟩
  exact chain_over fun k hk hmem => h.not_mem hk (hheads hmem)

/-- A chain with a first link. -/
theorem takes_chain_link {heads : List Kind} {operand : Recognize Tape Bool} {k : Kind}
    (hk : k ∈ heads) (h₁ : Takes (bound - 1) ops₁ ks₁ visits room operand)
    (h₂ : Takes (bound - 1) operators ks₂ visits' room' (chain heads operand (bound - 1)))
    (hhead : ∀ k, ks₂.head? = some k → k ∉ ops₁) (hops : ks₂ = [] → ops₁ ⊆ operators) :
    Takes bound operators (k :: (ks₁ ++ ks₂))
      (fun ts => visits ts.tail ++ visits' (ts.tail.drop ks₁.length)) (room ∧ room')
      (chain heads operand bound) := by
  have hlink := (h₁.both h₂ hhead hops).terminal_both (k := k)
  cases bound with
  | zero => exact takes_zero
  | succ bound => exact hlink.of_ahead fun r hr => chain_operator hr hk

/-- A rule has one more in its budget than its body, and is a visit of its own. -/
theorem takes_rule (t : Tree n) (hle : bound ≤ width)
    (h : ∀ budget active, Takes width n.operators t.kinds t.inner (t.depth ≤ budget + 1)
      (body (rule width budget active) width n)) (budget active : Nat) :
    Takes bound n.operators t.kinds t.visits (t.depth ≤ budget) (rule width budget active n) := by
  intro r us hfacing hus
  cases budget with
  | zero =>
    have hpos := t.depth_pos
    exact ⟨fun hle => by omega, fun _ => ⟨r, rfl, rfl⟩⟩
  | succ budget =>
    rw [rule_succ]
    have hwide := hfacing.mono hle
    have hlog : Facing width n.operators us
        { r with log := r.log ++ entering n (active + 1) r.toRecognizer } :=
      ⟨hwide.settled, hwide.fault, hwide.length, hwide.pending⟩
    obtain ⟨hok, herror⟩ := h budget (active + 1) _ us hlog hus
    refine ⟨fun hroom => ?_, herror⟩
    obtain ⟨r', hbody, walked⟩ := hok hroom
    refine ⟨r', hbody, ⟨walked.took.settled, walked.took.pending, walked.took.tape⟩,
      walked.tracing, fun htracing => ?_⟩
    rw [walked.visits htracing, visitsOf_append, entering, if_pos htracing,
      hfacing.settled.lookahead_eq, List.append_assoc, t.visits_eq]
    rfl

/-- In front of a tree the body of a rule takes the tree, and visits it below its root. -/
theorem takes_body (t : Tree n) (hle : bound ≤ width) (budget active : Nat) :
    Takes bound n.operators t.kinds t.inner (t.depth ≤ budget + 1)
      (body (rule width budget active) bound n) := by
  -- By induction on the tree. The bound of a chain shrinks with every link, and that of the rules
  -- which it enters does not.
  induction t generalizing width bound budget active with
  | sum t rest ih ih' =>
    have ht := takes_rule t hle (ih (Nat.le_refl width)) budget active
    have hrest := takes_rule rest hle (ih' (Nat.le_refl width)) budget active
    apply (ht.both hrest (fun k => rest.derives.not_reserved) fun _ => by decide).congr
      fun ts => (Tree.visited_children .e t rest rfl rfl).symm
    simp only [Tree.depth]
    omega
  | product t rest ih ih' =>
    have ht := takes_rule t hle (ih (Nat.le_refl width)) budget active
    have hrest := takes_rule rest hle (ih' (Nat.le_refl width)) budget active
    apply (ht.both hrest (fun k => rest.derives.not_reserved) fun _ => by decide).congr
      fun ts => (Tree.visited_children .t t rest rfl rfl).symm
    simp only [Tree.depth]
    omega
  | power t rest ih ih' =>
    have ht := takes_rule t hle (ih (Nat.le_refl width)) budget active
    have hrest := takes_rule rest hle (ih' (Nat.le_refl width)) budget active
    apply (ht.both hrest (fun _ _ => List.not_mem_nil) fun _ => by decide).congr
      fun ts => (Tree.visited_children .x t rest rfl rfl).symm
    simp only [Tree.depth]
    omega
  | sumEnd | productEnd =>
    apply (takes_chain_over (by decide)).congr fun _ => rfl
    simp [Tree.depth]
  | sumMore k hk t rest ih ih' =>
    have hless : bound - 1 ≤ width := by omega
    have hmem : k ∈ [Kind.plus, .minus] := by simpa using hk
    have ht := takes_rule t hless (ih (Nat.le_refl width)) budget active
    have hlink := takes_chain_link hmem ht
      (ih' hless budget active) (fun k => rest.derives.not_reserved) fun _ => by decide
    apply hlink.congr fun ts => (Tree.visited_children_link .ee t rest rfl rfl).symm
    simp only [Tree.depth]
    omega
  | productMore k hk t rest ih ih' =>
    have hless : bound - 1 ≤ width := by omega
    have hmem : k ∈ [Kind.times, .divide] := by simpa using hk
    have ht := takes_rule t hless (ih (Nat.le_refl width)) budget active
    have hlink := takes_chain_link hmem ht
      (ih' hless budget active) (fun k => rest.derives.not_reserved) fun _ => by decide
    apply hlink.congr fun ts => (Tree.visited_children_link .tt t rest rfl rfl).symm
    simp only [Tree.depth]
    omega
  | powerEnd =>
    intro r us h hus
    obtain rfl := List.map_eq_nil_iff.mp hus
    have hk : r.ahead ≠ some .pow := fun hk => h.not_mem hk (by decide)
    rw [body_xx_over hk]
    exact ⟨fun _ => ⟨r, rfl, .refl h.settled⟩, fun h => by simp [Tree.depth] at h⟩
  | powerMore t ih =>
    have hless : bound - 1 ≤ width := by omega
    have ht := takes_rule t hless (ih (Nat.le_refl width)) budget active
    apply (ht.terminal_both.of_ahead fun r hr => body_xx_pow hr).congr
      fun ts => (Tree.visited_nodes t rfl).symm
    simp [Tree.depth]
  | signed k hk t ih =>
    have hless : bound - 1 ≤ width := by omega
    have ht := takes_rule t hless (ih (Nat.le_refl width)) budget active
    apply (ht.terminal_both.of_ahead fun r hr => body_y_signed hr hk).congr
      fun ts => (Tree.visited_nodes t rfl).symm
    simp [Tree.depth]
  | unsigned t ih =>
    have ht := takes_rule t hle (ih (Nat.le_refl width)) budget active
    obtain ⟨k, ks, hks, hplus, hminus⟩ := t.derives.exists_cons_of_atom
    rw [hks] at ht
    rw [Tree.kinds, hks]
    have hbody : Takes bound Nonterminal.y.operators (k :: ks) t.visits (t.depth ≤ budget)
        (body (rule width budget active) bound .y) := by
      refine ht.of_ahead fun r hr => body_y_unsigned ?_ ?_
      · rw [hr]; exact fun h => hplus (Option.some.inj h)
      · rw [hr]; exact fun h => hminus (Option.some.inj h)
    apply hbody.congr fun ts => (Tree.visited_nodes t rfl).symm
    simp [Tree.depth]
  | group t ih =>
    have hless : bound - 1 ≤ width := by omega
    have ht := takes_rule t hless (ih (Nat.le_refl width)) budget active
    have hclose : Takes (bound - 1) Nonterminal.f.operators [.rparen] (fun _ => []) True
        (terminal .rparen) := takes_terminal .rparen
    have hboth := ht.both hclose (by simp [Nonterminal.operators, infixes])
      fun h => absurd h (List.cons_ne_nil _ _)
    apply (hboth.terminal_both.of_ahead fun r hr => body_f_group hr).congr
      fun ts => (List.append_nil _).trans (Tree.visited_nodes t rfl).symm
    simp [Tree.depth]
  | float =>
    apply ((takes_terminal .float).of_ahead fun r hr => body_f_atom hr (.inl rfl)).congr
      fun _ => rfl
    simp [Tree.depth]
  | «variable» =>
    apply ((takes_terminal .variable).of_ahead fun r hr => body_f_atom hr (.inr rfl)).congr
      fun _ => rfl
    simp [Tree.depth]

/-- In front of a tree the rule of its nonterminal takes the tree if it is not too deep, and visits
its nodes. -/
theorem takes_tree (t : Tree n) (width budget active : Nat) :
    Takes width n.operators t.kinds t.visits (t.depth ≤ budget) (rule width budget active n) :=
  takes_rule t (Nat.le_refl width) (takes_body t (Nat.le_refl width)) budget active

end ArithCheck.Recognition
