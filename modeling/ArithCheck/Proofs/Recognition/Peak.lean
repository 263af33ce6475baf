import Mathlib.Data.Finset.Dedup
import Mathlib.Data.Finset.Max
import ArithCheck.Proofs.Grammar.Outline
import ArithCheck.Proofs.Recognition.Limit

/-!
# The peak of the rules in progress

When a computation has come to its end, the most rules were in progress on the entry of some atom.
A rule that begins with an operand goes down to an atom in any case. The other ones, which stand
behind an operand, may find nothing to take, but then there were more rules in progress in front of
them.

* `Peaked`: records whose highest entries are entries of atoms;
* `Climbs`: what a computation that comes to its end adds to the log;
* `rule_crests`: the rules, by induction on the budget.
-/

namespace ArithCheck

open Token

variable {records records' : List Log.Record} {bound bound' count count' : Nat}

/-- On the entry of some atom at least `count` rules are in progress. -/
def Reaches (count : Nat) (records : List Log.Record) : Prop :=
  0 < count → ∃ active ahead, .enter .f active ahead ∈ records ∧ count ≤ active

/-- Above the bound there are never more rules in progress than on the entry of some atom. -/
def Peaked (bound : Nat) (records : List Log.Record) : Prop :=
  ∀ record ∈ records, record.active ≤ bound ∨ Reaches record.active records

theorem reaches_zero (records : List Log.Record) : Reaches 0 records :=
  fun h => absurd h (Nat.lt_irrefl 0)

theorem Reaches.mono (h : Reaches count records) (hrecords : records ⊆ records')
    (hle : count' ≤ count) : Reaches count' records' := by
  intro hpos
  obtain ⟨active, ahead, hmem, hactive⟩ := h (Nat.lt_of_lt_of_le hpos hle)
  exact ⟨active, ahead, hrecords hmem, Nat.le_trans hle hactive⟩

/-- What comes later may exceed its bound by what was reached before. -/
theorem Peaked.append (h : Peaked bound records) (hreaches : Reaches count records)
    (h' : Peaked bound' records') (hle : bound' ≤ max bound count) :
    Peaked bound (records ++ records') := by
  intro record hmem
  rcases List.mem_append.mp hmem with hmem | hmem
  · exact (h record hmem).imp_right fun h =>
      h.mono (List.subset_append_left _ _) (Nat.le_refl _)
  · rcases h' record hmem with hactive | h'
    · rcases Nat.le_total record.active bound with hbound | hbound
      · exact .inl hbound
      · by_cases hcount : record.active ≤ count
        · exact .inr (hreaches.mono (List.subset_append_left _ _) hcount)
        · exact .inl (by omega)
    · exact .inr (h'.mono (List.subset_append_right _ _) (Nat.le_refl _))

/-- The highest entry of all is the entry of an atom. -/
theorem Peaked.exists_max (h : Peaked 0 records) (hreaches : Reaches count records)
    (hcount : 0 < count) : ∃ active ahead, .enter .f active ahead ∈ records ∧
      ∀ record ∈ records, record.active ≤ active := by
  obtain ⟨active, ahead, hatom, hactive⟩ := hreaches hcount
  obtain ⟨top, htop, hmax⟩ := records.toFinset.exists_max_image Log.Record.active
    ⟨_, List.mem_toFinset.mpr hatom⟩
  simp only [List.mem_toFinset] at htop hmax
  have hle : active ≤ top.active := hmax _ hatom
  have hpos : 0 < top.active := by omega
  obtain ⟨active, ahead, hatom, hle⟩ := (h top htop).resolve_left (Nat.not_le.mpr hpos) hpos
  exact ⟨active, ahead, hatom, fun record hmem => Nat.le_trans (hmax record hmem) hle⟩

namespace Recognition

variable {σ : Type} {r r' r'' : Recognition σ}

/-- From one state to another records are logged that keep below the bound but for what is reached
on the entries of atoms, which is at least `count`. -/
structure Climbed (bound count : Nat) (r r' : Recognition σ) : Prop where
  tracing : r'.tracing = true
  log : ∃ records, r'.log.toList = r.log.toList ++ records ∧ Peaked bound records ∧
    Reaches count records

theorem Climbed.refl (h : r.tracing = true) : Climbed 0 0 r r :=
  ⟨h, [], (List.append_nil _).symm, List.forall_mem_nil _, reaches_zero _⟩

theorem Climbed.trans (h : Climbed bound count r r') (h' : Climbed bound' count' r' r'')
    (hle : bound' ≤ max bound count) : Climbed bound (max count count') r r'' := by
  obtain ⟨-, records, hlog, hpeaked, hreaches⟩ := h
  obtain ⟨htracing, records', hlog', hpeaked', hreaches'⟩ := h'
  refine ⟨htracing, records ++ records', by rw [hlog', hlog, List.append_assoc],
    hpeaked.append hreaches hpeaked' hle, ?_⟩
  rcases Nat.le_total count count' with hle | hle
  · exact hreaches'.mono (List.subset_append_right _ _) (Nat.max_le.mpr ⟨hle, Nat.le_refl _⟩)
  · exact hreaches.mono (List.subset_append_left _ _) (Nat.max_le.mpr ⟨Nat.le_refl _, hle⟩)

theorem Climbed.mono (h : Climbed bound count r r') (hle : bound ≤ bound') (hle' : count' ≤ count) :
    Climbed bound' count' r r' := by
  obtain ⟨htracing, records, hlog, hpeaked, hreaches⟩ := h
  exact ⟨htracing, records, hlog,
    fun record hmem => (hpeaked record hmem).imp_left (Nat.le_trans · hle),
    hreaches.mono (List.Subset.refl _) hle'⟩

/-- A bound that is reached does not matter. -/
theorem Climbed.lower (h : Climbed bound count r r') (hle : bound ≤ count) :
    Climbed 0 count r r' := by
  obtain ⟨htracing, records, hlog, hpeaked, hreaches⟩ := h
  refine ⟨htracing, records, hlog, fun record hmem => .inr ?_, hreaches⟩
  exact (hpeaked record hmem).elim
    (fun hbound => hreaches.mono (List.Subset.refl _) (Nat.le_trans hbound hle)) id

/-- The entry of a rule. -/
theorem climbed_enter (htracing : r.tracing = true) (n : Nonterminal) (active : Nat) :
    Climbed active (if n = .f then active else 0) r
      { r with log := r.log ++ entering n active r.toRecognizer } := by
  refine ⟨htracing, [.enter n active r.lookahead], ?_, ?_, ?_⟩
  · rw [entering, if_pos htracing]
    exact Array.toList_appendList
  · exact List.forall_mem_singleton.mpr (.inl (Nat.le_refl active))
  · split
    next hn => exact fun _ => ⟨active, r.lookahead, by simp [hn], Nat.le_refl _⟩
    next => exact reaches_zero _

/-- What a computation logs that comes to its end. -/
def Climbs (bound count : Nat) (c : Recognize σ Bool) : Prop :=
  ∀ r accepted r', r.tracing = true → c r = .ok accepted r' → Climbed bound count r r'

variable {first second operand : Recognize σ Bool} {operators : List Kind}

theorem Climbs.both (h : Climbs bound count first) (h' : Climbs bound' count' second)
    (hle : bound' ≤ max bound count) : Climbs bound count (both first second) := by
  intro r accepted r' htracing hboth
  cases hfirst : first r with
  | error fault r₁ =>
    rw [both_error hfirst] at hboth
    cases hboth
  | ok complete r₁ =>
    have climbed := h r complete r₁ htracing hfirst
    cases complete with
    | false =>
      rw [both_false hfirst] at hboth
      cases hboth
      exact climbed
    | true =>
      rw [both_true hfirst] at hboth
      exact (climbed.trans (h' _ _ _ climbed.tracing hboth) hle).mono (Nat.le_refl _)
        (Nat.le_max_left _ _)

variable [TokenSource σ]

theorem climbed_advance (htracing : r.tracing = true) (h : advance r = .ok () r') :
    Climbed 0 0 r r' := by
  cases hpull : TokenSource.pull r.source with
  | error fault source =>
    rw [advance_error hpull] at h
    cases h
  | ok token source =>
    rw [advance_eq hpull] at h
    cases h
    refine ⟨htracing, _, Array.toList_appendList, fun record hmem => .inl ?_, reaches_zero _⟩
    rw [Log.ofToken] at hmem
    split at hmem
    · obtain ⟨t, -, rfl⟩ := List.mem_map.mp hmem
      exact Nat.le_refl 0
    · cases hmem

theorem climbs_terminal (k : Kind) : Climbs 0 0 (terminal k : Recognize σ Bool) := by
  intro r accepted r' htracing hterminal
  by_cases hk : r.ahead = some k
  · cases hadvance : advance r with
    | error fault r₁ =>
      rw [terminal_error hk hadvance] at hterminal
      cases hterminal
    | ok _ r₁ =>
      rw [terminal_ok hk hadvance] at hterminal
      cases hterminal
      exact climbed_advance htracing hadvance
  · rw [terminal_false hk] at hterminal
    cases hterminal
    exact .refl htracing

/-- Behind a terminal that is ahead a computation reaches what it reaches. -/
theorem Climbs.after_terminal {k : Kind} {accepted : Bool} (h : Climbs bound count second)
    (hbound : bound = 0) (hk : r.ahead = some k) (htracing : r.tracing = true)
    (hboth : Recognition.both (terminal k) second r = .ok accepted r') :
    Climbed 0 count r r' := by
  subst hbound
  cases hadvance : advance r with
  | error fault r₁ =>
    rw [both_error (terminal_error hk hadvance)] at hboth
    cases hboth
  | ok _ r₁ =>
    have climbed := climbed_advance htracing hadvance
    rw [both_true (terminal_ok hk hadvance)] at hboth
    have climbed' := climbed.trans (h _ _ _ climbed.tracing hboth) (Nat.zero_le _)
    rwa [Nat.zero_max] at climbed'

theorem climbs_chain (h : Climbs 0 count operand) (bound : Nat) :
    Climbs 0 0 (chain operators operand bound) := by
  induction bound with
  | zero => exact fun r accepted r' _ hchain => by cases hchain
  | succ bound ih =>
    intro r accepted r' htracing hchain
    by_cases hk : ∃ k, r.ahead = some k ∧ k ∈ operators
    · obtain ⟨k, hk, hmem⟩ := hk
      rw [chain_operator hk hmem] at hchain
      exact (climbs_terminal k).both (h.both ih (Nat.zero_le _)) (Nat.zero_le _) r _ r' htracing
        hchain
    · rw [chain_over fun k hk' hmem => hk ⟨k, hk', hmem⟩] at hchain
      cases hchain
      exact .refl htracing

/-! ## Rules -/

variable {n : Nonterminal} {active : Nat}

/-- What the rule of a nonterminal logs with `active` rules in progress, itself included: behind an
operand at least its own entry, and else nothing that is higher than the entry of some atom. -/
def Crests (n : Nonterminal) (active : Nat) (c : Recognize σ Bool) : Prop :=
  match n.first with
  | .operator => Climbs active 0 c
  | .operand | .atom => Climbs 0 active c

/-- The body of a rule, by the rules that it enters. Where the rule begins with an operand it goes
down to an atom with more rules in progress than itself, or is an atom. -/
theorem climbs_body {call : Nonterminal → Recognize σ Bool}
    (hcall : ∀ m, Crests m (active + 1) (call m)) (bound : Nat) :
    Climbs 0 (if n.first = .operand then active + 1 else 0) (body call bound n) := by
  cases n with
  | e => exact (hcall .t).both (hcall .ee) (Nat.le_max_right _ _)
  | t => exact (hcall .x).both (hcall .tt) (Nat.le_max_right _ _)
  | x => exact (hcall .y).both (hcall .xx) (Nat.le_max_right _ _)
  | ee => exact climbs_chain (hcall .t) bound
  | tt => exact climbs_chain (hcall .x) bound
  | xx =>
    intro r accepted r' htracing hbody
    by_cases hk : r.ahead = some .pow
    · rw [body_xx_pow hk] at hbody
      exact (climbs_terminal .pow).both (hcall .x) (Nat.zero_le _) r _ r' htracing hbody
    · rw [body_xx_over hk] at hbody
      cases hbody
      exact .refl htracing
  | y =>
    intro r accepted r' htracing hbody
    by_cases hsign : ∃ k, r.ahead = some k ∧ (k = .plus ∨ k = .minus)
    · obtain ⟨k, hk, hsign⟩ := hsign
      rw [body_y_signed hk hsign] at hbody
      exact Climbs.after_terminal (hcall .f) rfl hk htracing hbody
    · rw [body_y_unsigned (fun hk => hsign ⟨_, hk, .inl rfl⟩)
        fun hk => hsign ⟨_, hk, .inr rfl⟩] at hbody
      exact hcall .f r _ r' htracing hbody
  | f =>
    intro r accepted r' htracing hbody
    by_cases hgroup : r.ahead = some .lparen
    · rw [body_f_group hgroup] at hbody
      have hrest : Climbs 0 (active + 1) (Recognition.both (call .e) (terminal .rparen)) :=
        Climbs.both (hcall .e) (climbs_terminal .rparen) (Nat.zero_le _)
      exact (climbs_terminal .lparen).both hrest (Nat.zero_le _) r _ r' htracing hbody
    by_cases hatom : ∃ k, r.ahead = some k ∧ (k = .float ∨ k = .variable)
    · obtain ⟨k, hk, hatom⟩ := hatom
      rw [body_f_atom hk hatom] at hbody
      exact climbs_terminal k r _ r' htracing hbody
    · rw [body_f_over hgroup (fun hk => hatom ⟨_, hk, .inl rfl⟩)
        fun hk => hatom ⟨_, hk, .inr rfl⟩] at hbody
      cases hbody
      exact .refl htracing

theorem rule_crests (width budget active : Nat) (n : Nonterminal) :
    Crests n (active + 1) (rule width budget active n : Recognize σ Bool) := by
  induction budget generalizing active n with
  | zero => cases n <;> exact fun r accepted r' _ hrule => by cases hrule
  | succ budget ih =>
    have hclimbs : ∀ r accepted r', r.tracing = true →
        (rule width (budget + 1) active n : Recognize σ Bool) r = .ok accepted r' →
        Climbed (active + 1) (max (if n = .f then active + 1 else 0)
          (if n.first = .operand then active + 1 + 1 else 0)) r r' := by
      intro r accepted r' htracing hrule
      rw [rule_succ] at hrule
      have hentered := climbed_enter htracing n (active + 1)
      have hbody := climbs_body (ih (active + 1)) width _ _ _ hentered.tracing hrule
      exact hentered.trans hbody (Nat.zero_le _)
    cases n with
    | ee | tt | xx => exact hclimbs
    | e | t | x | y | f =>
      intro r accepted r' htracing hrule
      refine ((hclimbs r accepted r' htracing hrule).lower ?_).mono (Nat.le_refl 0) ?_
      all_goals simp [Nonterminal.first]

end Recognition

end ArithCheck
