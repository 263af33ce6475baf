import ArithCheck.Proofs.Recognition.Simulation
import ArithCheck.Proofs.Scanner.Draw

/-!
# Rules under a limit

A rule that may have fewer rules in progress does what it does with more of them, up to the first
entry into a rule that is one too many, and gives up there. Which rules are entered is told by the
log, so that the rules have to be traced.

* `Curbed`: what becomes of a computation under a limit, told by what it does without;
* `rule_curbs`: a rule with a smaller budget and one with a larger budget, by induction on the
  latter.
-/

namespace ArithCheck

/-- The number of rules in progress when a rule is entered; other records do not count them. -/
def Log.Record.active : Log.Record → Nat
  | .enter _ active _ => active
  | .token _ | .trailing _ | .verdict _ => 0

namespace Recognition

variable {α β : Type} {limit : Nat} {r r' r'' : Recognition Scanner}
  {records records' : List Log.Record}

/-- The state in which a computation ends. -/
def left {σ : Type} : EStateM.Result Fault (Recognition σ) α → Recognition σ
  | .ok _ r | .error _ r => r

/-- A recognition that traces rules has gone on and written some records. -/
structure Later (r : Recognition Scanner) (records : List Log.Record) (r' : Recognition Scanner) :
    Prop where
  ready : r'.source.Ready
  source : r.source.Continues r'.source
  tracing : r'.tracing = true
  log : r'.log.toList = r.log.toList ++ records

/-- A recognition that can go on and traces rules. -/
def Traced (r : Recognition Scanner) : Prop := r.source.Ready ∧ r.tracing = true

theorem Later.traced (h : Later r records r') : Traced r' := ⟨h.ready, h.tracing⟩

theorem Later.refl (h : Traced r) : Later r [] r :=
  ⟨h.1, .refl _, h.2, (List.append_nil _).symm⟩

theorem Later.trans (h : Later r records r') (h' : Later r' records' r'') :
    Later r (records ++ records') r'' :=
  ⟨h'.ready, h.source.trans h'.source, h'.tracing, by rw [h'.log, h.log, List.append_assoc]⟩

/-- No record tells of more rules in progress than the limit allows. -/
def Keeping (limit : Nat) (records : List Log.Record) : Prop :=
  ∀ record ∈ records, record.active ≤ limit

theorem keeping_nil (limit : Nat) : Keeping limit [] := List.forall_mem_nil _

theorem Keeping.append (h : Keeping limit records) (h' : Keeping limit records') :
    Keeping limit (records ++ records') :=
  List.forall_mem_append.mpr ⟨h, h'⟩

theorem Keeping.mono {limit' : Nat} (h : Keeping limit records) (hle : limit ≤ limit') :
    Keeping limit' records := fun record hmem => Nat.le_trans (h record hmem) hle

/-- What becomes of a computation under a limit, told by what becomes of it without. -/
inductive Curbed (limit : Nat) (r : Recognition Scanner) :
    EStateM.Result Fault (Recognition Scanner) α →
      EStateM.Result Fault (Recognition Scanner) α → Prop
  /-- There are never too many rules in progress, and the limit makes no difference. -/
  | kept {x : EStateM.Result Fault (Recognition Scanner) α} {records : List Log.Record}
    (later : Later r records (left x)) (keeping : Keeping limit records) : Curbed limit r x x
  /-- At the first entry into a rule that is one too many the computation is given up. -/
  | cut {y : EStateM.Result Fault (Recognition Scanner) α} {m : Recognition Scanner}
    {before after : List Log.Record} {n : Nonterminal} {active : Nat}
    (earlier : Later r before m) (keeping : Keeping limit before) (exceeds : limit < active)
    (later : Later m (.enter n active m.lookahead :: after) (left y)) :
    Curbed limit r (.error .exhausted m) y

/-- Without the limit a computation goes on at least as far. -/
theorem Curbed.later {x y : EStateM.Result Fault (Recognition Scanner) α}
    (h : Curbed limit r x y) : ∃ records, Later r records (left y) := by
  cases h with
  | kept later => exact ⟨_, later⟩
  | cut earlier _ _ later => exact ⟨_, earlier.trans later⟩

/-- The computation `c` is `d` under a limit. -/
def Curbs (limit : Nat) (c d : Recognize Scanner α) : Prop :=
  ∀ r, Traced r → Curbed limit r (c r) (d r)

/-- A computation that writes no records of too many rules in progress. -/
theorem Curbs.of_kept {c : Recognize Scanner α}
    (h : ∀ r, Traced r → ∃ records, Later r records (left (c r)) ∧ Keeping limit records) :
    Curbs limit c c := by
  intro r hr
  obtain ⟨records, later, keeping⟩ := h r hr
  exact .kept later keeping

theorem Curbs.bind {c d : Recognize Scanner α} {f g : α → Recognize Scanner β}
    (h : Curbs limit c d) (hf : ∀ a, Curbs limit (f a) (g a)) :
    Curbs limit (c >>= f) (d >>= g) := by
  intro r hr
  have hcd := h r hr
  show Curbed limit r (EStateM.bind c f r) (EStateM.bind d g r)
  unfold EStateM.bind
  generalize c r = x, d r = y at hcd
  cases hcd with
  | @kept _ records later keeping =>
    cases x with
    | error fault r' => exact .kept later keeping
    | ok a r' =>
      have hrest := hf a r' later.traced
      dsimp only
      generalize f a r' = x, g a r' = y at hrest ⊢
      cases hrest with
      | kept later' keeping' => exact .kept (later.trans later') (keeping.append keeping')
      | cut earlier keeping' exceeds later' =>
        exact .cut (later.trans earlier) (keeping.append keeping') exceeds later'
  | @cut _ m before after n active earlier keeping exceeds later =>
    cases y with
    | error fault r' => exact .cut earlier keeping exceeds later
    | ok a r' =>
      obtain ⟨records, hlater⟩ := (hf a r' later.traced).later
      exact .cut earlier keeping exceeds (later.trans hlater)

/-! ## Rules -/

theorem later_advance (hr : Traced r) (limit : Nat) :
    ∃ records, Later r records (left (advance r)) ∧ Keeping limit records := by
  have hdraw : r.source.Draw (TokenSource.pull r.source) := hr.1.draw
  cases hn : TokenSource.pull r.source with
  | ok token s =>
    have hkeeping : Keeping limit (Log.ofToken (TokenSource.tracing r.source) token) := by
      rw [Log.ofToken]
      split
      · cases token <;> simp [Keeping, Log.Record.active]
      · exact keeping_nil limit
    rw [hn] at hdraw
    rw [advance_eq hn]
    refine ⟨_, ?_, hkeeping⟩
    cases hdraw with
    | token ready same | complete ready same => exact ⟨ready, same, hr.2, Array.toList_appendList⟩
  | error fault s =>
    rw [hn] at hdraw
    rw [advance_error hn]
    refine ⟨[], ?_, keeping_nil limit⟩
    cases hdraw with
    | fault ready same => exact ⟨ready, same, hr.2, (List.append_nil _).symm⟩

theorem later_enter (hr : Traced r) (n : Nonterminal) (active : Nat) :
    Later r [.enter n active r.lookahead]
      { r with log := r.log ++ entering n active r.toRecognizer } := by
  refine ⟨hr.1, .refl _, hr.2, ?_⟩
  rw [entering, if_pos hr.2]
  exact Array.toList_appendList

/-- The parts of a body do the same under a limit. -/
def curbing (limit : Nat) : BodySimulation Scanner Scanner where
  rel := Curbs limit
  pure _ := .of_kept fun _ hr => ⟨[], .refl hr, keeping_nil limit⟩
  bind := .bind
  kindAhead := .of_kept fun _ hr => ⟨[], .refl hr, keeping_nil limit⟩
  advance := .of_kept fun _ hr => later_advance hr limit
  throw _ := .of_kept fun _ hr => ⟨[], .refl hr, keeping_nil limit⟩

/-- Entering a rule that is not one too many. -/
theorem curbs_enter {active : Nat} (hle : active ≤ limit) (n : Nonterminal) :
    Curbs limit (enter n active) (enter n active) := by
  refine .of_kept fun r hr => ?_
  rw [enter_eq]
  exact ⟨_, later_enter hr n active, List.forall_mem_singleton.mpr hle⟩

/-- A rule with a smaller budget is the rule with a larger one under a limit. -/
theorem rule_curbs {budget budget' : Nat} (hle : budget ≤ budget') (width active : Nat)
    (n : Nonterminal) : Curbs (budget + active) (rule width budget active n)
      (rule width budget' active n) := by
  induction budget' generalizing budget active n with
  | zero =>
    obtain rfl : budget = 0 := by omega
    exact (curbing _).throw .exhausted
  | succ more ih =>
    cases budget with
    | zero =>
      -- What the entry is followed by does not matter, except that it goes on from there.
      intro r hr
      have hentry := later_enter hr n (active + 1)
      have hcall : ∀ m, Curbs (more + (active + 1)) (rule width more (active + 1) m)
          (rule width more (active + 1) m) := ih (Nat.le_refl more) (active + 1)
      obtain ⟨records, hrest⟩ := ((curbing _).body hcall width n _ hentry.traced).later
      rw [rule_succ]
      exact .cut (.refl hr) (keeping_nil _) (by omega) (hentry.trans hrest)
    | succ budget =>
      have hlimit : budget + 1 + active = budget + (active + 1) := by omega
      rw [rule_eq, rule_eq, hlimit]
      exact (curbs_enter (by omega) n).bind fun _ =>
        (curbing _).body (ih (by omega) (active + 1)) width n

end Recognition

end ArithCheck
