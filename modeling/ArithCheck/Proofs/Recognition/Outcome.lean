import ArithCheck.Proofs.Grammar.Outline
import ArithCheck.Proofs.Recognition.Parts

/-!
# Outcomes of a recognition

What a computation of a recognizer over a tape comes to, told by the outline of the tokens that it
takes (`Outcome`): it takes all tokens that can come next and no other, and accepts if those it
took are a sentence; a fault of the tape comes up only behind tokens all of which it could take.

* `Outcome.prepend`: tokens in front of the first token ahead;
* `Outcome.both`, `Outcome.terminal`, `Outcome.chain`, `Outcome.group`: the outcome of a part of a
  rule from the outcomes of its own parts.
-/

namespace ArithCheck

open Token Outline

/-- The kinds of tokens. -/
def kindsOf (ts : List Token) : List Kind := ts.map (·.kind)

@[simp] theorem kindsOf_nil : kindsOf [] = [] := rfl

@[simp] theorem kindsOf_cons (t : Token) (ts : List Token) :
    kindsOf (t :: ts) = t.kind :: kindsOf ts := rfl

@[simp] theorem kindsOf_append (ts us : List Token) :
    kindsOf (ts ++ us) = kindsOf ts ++ kindsOf us := List.map_append

namespace Recognition

/-- The tokens not taken yet: the one ahead and those of the tape. -/
def pending (r : Recognition Tape) : List Token := r.lookahead.toList ++ r.source.tokens

/-- No token is ahead only at the end of the tape. -/
def Settled (r : Recognition Tape) : Prop :=
  r.lookahead = none → r.source.tokens = [] ∧ r.source.fault = none

/-- From one state to another the tokens `u` are taken. -/
structure Took (r : Recognition Tape) (u : List Token) (r' : Recognition Tape) : Prop where
  settled : r'.Settled
  pending : r.pending = u ++ r'.pending
  tape : r'.source = { r.source with tokens := r'.source.tokens }

/-- What is ahead, if anything is, cannot come next. -/
def Stuck (ops : List Kind) (s : Outline) (r : Recognition Tape) : Prop :=
  ∀ k, r.ahead = some k → step ops s k = none

variable {ops : List Kind} {s s' : Outline} {r r' r'' : Recognition Tape} {u v : List Token}

/-- Behind a whole sentence no operator is ahead. -/
theorem Stuck.not_mem {ops : List Kind} (h : Stuck ops done r) {k : Kind} (hk : r.ahead = some k) :
    k ∉ ops := fun hmem => by
  have hnone := h k hk
  simp [step_done, if_pos hmem] at hnone

theorem Took.fault (h : Took r u r') : r'.source.fault = r.source.fault := by rw [h.tape]

theorem Took.file (h : Took r u r') : r'.source.file = r.source.file := by rw [h.tape]

theorem Took.refl (hr : r.Settled) : Took r [] r := ⟨hr, rfl, rfl⟩

theorem Took.trans (h : Took r u r') (h' : Took r' v r'') : Took r (u ++ v) r'' where
  settled := h'.settled
  pending := by rw [h.pending, h'.pending, List.append_assoc]
  tape := by rw [h'.tape, h.tape]

theorem Took.length_le (h : Took r u r') : r'.pending.length + u.length = r.pending.length := by
  rw [h.pending, List.length_append, Nat.add_comm]

theorem pending_of_ahead {t : Token} (ht : r.lookahead = some t) :
    r.pending = t :: r.source.tokens := by
  rw [pending, ht]
  rfl

theorem lookahead_of_pending (h : r.pending = []) : r.lookahead = none := by
  cases ht : r.lookahead with
  | none => rfl
  | some t => simp [pending_of_ahead ht] at h

theorem Settled.pending_ne_nil {fault : Fault} (hr : r.Settled)
    (hf : r.source.fault = some fault) : r.pending ≠ [] := by
  cases h : r.lookahead with
  | none => simp [(hr h).2] at hf
  | some t => rw [pending_of_ahead h]; exact List.cons_ne_nil _ _

/-- From the start of a tape to where no token is ahead all tokens are taken, and no fault follows
them. -/
theorem Took.eq_tokens (hr : r.lookahead = none) (h : Took r u r') (hnone : r'.lookahead = none) :
    u = r.source.tokens ∧ r.source.fault = none := by
  obtain ⟨htokens, hfault⟩ := h.settled hnone
  have hpending := h.pending
  rw [Recognition.pending, Recognition.pending, hr, hnone, htokens] at hpending
  exact ⟨(List.append_nil u).symm.trans hpending.symm, h.fault ▸ hfault⟩

theorem Settled.lookahead_eq (hr : r.Settled) : r.lookahead = r.pending.head? := by
  cases h : r.lookahead with
  | none => rw [pending, h, (hr h).1]; rfl
  | some t => rw [pending_of_ahead h]; rfl

theorem Settled.ahead_eq (hr : r.Settled) : r.ahead = (kindsOf r.pending).head? := by
  rw [ahead, hr.lookahead_eq, kindsOf, List.head?_map]

theorem Took.ahead_eq (hr : r.Settled) (h : Took r [] r') : r'.ahead = r.ahead := by
  rw [hr.ahead_eq, h.settled.ahead_eq, h.pending, List.nil_append]

/-- The first token taken is the one ahead. -/
theorem Took.head?_eq (hr : r.Settled) (h : Took r u r') (hu : u ≠ []) :
    (kindsOf u).head? = r.ahead := by
  obtain ⟨t, u, rfl⟩ := List.exists_cons_of_ne_nil hu
  rw [hr.ahead_eq, h.pending]
  rfl

/-- Where everything can come next nothing is left. -/
theorem Took.eq_pending {t : Outline} (took : Took r u r') (hu : run ops s (kindsOf u) = some s')
    (stuck : Stuck ops s' r') (h : run ops s (kindsOf r.pending) = some t) :
    r'.pending = [] ∧ u = r.pending ∧ s' = t := by
  rw [took.pending, kindsOf_append, run_append, hu, Option.bind_some] at h
  cases hp : r'.pending with
  | nil =>
    rw [hp] at h
    exact ⟨rfl, by rw [took.pending, hp, List.append_nil], Option.some.inj h⟩
  | cons t ts =>
    have hk : r'.ahead = some t.kind := by rw [took.settled.ahead_eq, hp]; rfl
    simp [hp, kindsOf_cons, run_cons, stuck _ hk] at h

/-- Drawing takes the token ahead, unless the fault of the tape comes up: then the token stays. -/
theorem advance_cases (r : Recognition Tape) :
    (∃ r', advance r = .ok () r' ∧ Took r r.lookahead.toList r') ∨
      ∃ fault, r.source.fault = some fault ∧ r.pending = r.lookahead.toList ∧
        advance r = .error fault r := by
  obtain ⟨⟨tracing, lookahead⟩, ⟨ts, fault, file, traced⟩, log⟩ := r
  cases ts with
  | cons t' ts => exact .inl ⟨_, rfl, nofun, rfl, rfl⟩
  | nil =>
    cases fault with
    | none => exact .inl ⟨_, rfl, fun _ => ⟨rfl, rfl⟩, rfl, rfl⟩
    | some fault => exact .inr ⟨fault, rfl, List.append_nil _, rfl⟩

/-- A terminal that is ahead is taken, unless a fault comes up behind it. -/
theorem terminal_cases {k : Kind} (hk : r.ahead = some k) :
    (∃ r' u, terminal k r = .ok true r' ∧ Took r u r' ∧ kindsOf u = [k]) ∨
      ∃ fault, r.source.fault = some fault ∧ kindsOf r.pending = [k] ∧
        r.lookahead = r.pending.getLast? ∧ terminal k r = .error fault r := by
  obtain ⟨t, ht, rfl⟩ := Option.map_eq_some_iff.mp hk
  rcases advance_cases r with ⟨r', hadv, took⟩ | ⟨fault, met, hall, hadv⟩
  · rw [ht] at took
    exact .inl ⟨r', [t], terminal_ok hk hadv, took, rfl⟩
  · rw [ht] at hall
    exact .inr ⟨fault, met, by rw [hall]; rfl, by rw [hall, ht]; rfl, terminal_error hk hadv⟩

/-- How a computation may end over a tape if the outline in front is `s`, its sentences are those
of `D` and its rules are too many only if `short`. -/
inductive Outcome (ops : List Kind) (s : Outline) (D : List Kind → Prop) (short : Prop)
    (r : Recognition Tape) : EStateM.Result Fault (Recognition Tape) Bool → Prop
  /-- The tokens taken are a sentence, and no longer part of the input could be. -/
  | accepted {u : List Token} {r' : Recognition Tape} (took : Took r u r')
    (sentence : D (kindsOf u)) (run : run ops s (kindsOf u) = some done)
    (stuck : Stuck ops done r') : Outcome ops s D short r (.ok true r')
  /-- The tokens taken can be completed, but by nothing that is ahead. -/
  | rejected {u : List Token} {r' : Recognition Tape} {s' : Outline} (took : Took r u r')
    (run : run ops s (kindsOf u) = some s') (ne : s' ≠ done) (stuck : Stuck ops s' r') :
    Outcome ops s D short r (.ok false r')
  /-- The fault of the tape comes up. Then all its tokens could be taken, and the last one is still
  ahead. -/
  | faulty {fault : Fault} {r' : Recognition Tape} {s' : Outline}
    (met : r.source.fault = some fault) (run : run ops s (kindsOf r.pending) = some s')
    (last : r'.lookahead = r.pending.getLast?) : Outcome ops s D short r (.error fault r')
  /-- Too many rules are in progress. -/
  | exhausted {r' : Recognition Tape} (many : short)
    (file : r'.source.file = r.source.file) : Outcome ops s D short r (.error .exhausted r')

namespace Outcome

variable {D D₁ D₂ : List Kind → Prop} {short short' : Prop} {ops₁ : List Kind}
  {result : EStateM.Result Fault (Recognition Tape) Bool} {first second : Recognize Tape Bool}

theorem mono (h : Outcome ops s D₁ short r result) (hD : ∀ ks, D₁ ks → D ks)
    (hshort : short → short') : Outcome ops s D short' r result := by
  cases h with
  | accepted took sentence run stuck => exact .accepted took (hD _ sentence) run stuck
  | rejected took run ne stuck => exact .rejected took run ne stuck
  | faulty met run last => exact .faulty met run last
  | exhausted many file => exact .exhausted (hshort many) file

/-- The log does not matter. -/
theorem of_log {log : Log} (h : Outcome ops s D short { r with log := log } result) :
    Outcome ops s D short r result := by
  cases h with
  | accepted took sentence run stuck =>
    exact .accepted ⟨took.settled, took.pending, took.tape⟩ sentence run stuck
  | rejected took run ne stuck =>
    exact .rejected ⟨took.settled, took.pending, took.tape⟩ run ne stuck
  | faulty met run last => exact .faulty met run last
  | exhausted many file => exact .exhausted many file

/-- After tokens that lead from one outline to another a computation ends as it does from there. -/
theorem prepend (took : Took r u r') (hu : run ops s (kindsOf u) = some s')
    (h : Outcome ops s' D₁ short r' result) (hD : ∀ ks, D₁ ks → D (kindsOf u ++ ks)) :
    Outcome ops s D short r result := by
  cases h with
  | accepted took' sentence run stuck =>
    refine .accepted (took.trans took') ?_ ?_ stuck
    · rw [kindsOf_append]; exact hD _ sentence
    · rw [kindsOf_append]; exact run_trans hu run
  | rejected took' run ne stuck =>
    refine .rejected (took.trans took') ?_ ne stuck
    rw [kindsOf_append]; exact run_trans hu run
  | @faulty _ _ t met run last =>
    have hne := took.settled.pending_ne_nil met
    have hall : Outline.run ops s (kindsOf r.pending) = some t := by
      rw [took.pending, kindsOf_append]
      exact run_trans hu run
    refine .faulty (took.fault ▸ met) hall ?_
    rw [last, took.pending, List.getLast?_append, List.getLast?_eq_some_getLast hne]
    rfl
  | exhausted many file => exact .exhausted many (file.trans took.file)

/-- One part after another: the second one has more operators, and begins at the end of an
operand. -/
theorem both (hops : ops₁ ⊆ ops) (h₁ : Outcome ops₁ s D₁ short r (first r))
    (h₂ : ∀ u r', Took r u r' → Stuck ops₁ done r' → Outcome ops done D₂ short r' (second r'))
    (hD : ∀ ks ks', D₁ ks → D₂ ks' → D (ks ++ ks')) :
    Outcome ops s D short r (both first second r) := by
  cases h : first r with
  | ok b r' =>
    rw [h] at h₁
    cases h₁ with
    | accepted took sentence run stuck =>
      rw [both_true h]
      exact prepend took (run_mono hops run) (h₂ _ _ took stuck) fun ks => hD _ ks sentence
    | rejected took run ne stuck =>
      rw [both_false h]
      exact .rejected took (run_mono hops run) ne fun k hk => (step_congr ne).trans (stuck k hk)
  | error fault r' =>
    rw [h] at h₁
    rw [both_error h]
    cases h₁ with
    | faulty met run last => exact .faulty met (run_mono hops run) last
    | exhausted many file => exact .exhausted many file

/-- A terminal that is ahead, and then another part. -/
theorem terminal {k : Kind} (hk : r.ahead = some k) (hs : step ops s k = some s')
    (h : ∀ u r', Took r u r' → u ≠ [] → Outcome ops s' D₁ short r' (second r'))
    (hD : ∀ ks, D₁ ks → D (k :: ks)) :
    Outcome ops s D short r (Recognition.both (Recognition.terminal k) second r) := by
  rcases terminal_cases hk with ⟨r', u, ht, took, hu⟩ | ⟨fault, met, hall, hlast, ht⟩
  · rw [both_true ht]
    have hrun : Outline.run ops s (kindsOf u) = some s' := by rw [hu]; exact run_step hs rfl
    have hne : u ≠ [] := by rintro rfl; simp at hu
    exact prepend took hrun (h u r' took hne) fun ks hks => by rw [hu]; exact hD ks hks
  · rw [both_error ht]
    exact .faulty met (by rw [hall]; exact run_step hs rfl) hlast

/-- A terminal that is ahead and completes an operand behind which nothing may come. -/
theorem last {k : Kind} (hk : r.ahead = some k) (hs : step [] s k = some done) :
    Outcome [] s (· = [k]) short r (Recognition.terminal k r) := by
  rcases terminal_cases hk with ⟨r', u, ht, took, hu⟩ | ⟨fault, met, hall, hlast, ht⟩
  · rw [ht]
    exact .accepted took hu (by rw [hu]; exact run_step hs rfl) fun _ _ => rfl
  · rw [ht]
    exact .faulty met (by rw [hall]; exact run_step hs rfl) hlast

/-- A chain takes all operators that its operands do not take. -/
theorem chain {operators : List Kind} {operand : Recognize Tape Bool} {bound : Nat}
    (hr : r.Settled) (hbound : r.pending.length < bound)
    (hops : ∀ k, k ∈ ops ↔ k ∈ operators ∨ k ∈ ops₁) (hahead : ∀ k, r.ahead = some k → k ∉ ops₁)
    (h : ∀ u r', Took r u r' → u ≠ [] →
      Outcome ops₁ ⟨0, .operand⟩ D₁ short r' (operand r'))
    (hnil : D []) (hcons : ∀ k ks ks', k ∈ operators → D₁ ks → D ks' → D (k :: (ks ++ ks'))) :
    Outcome ops done D short r (chain operators operand bound r) := by
  induction bound generalizing r with
  | zero => omega
  | succ bound ih =>
    by_cases hk : ∃ k, r.ahead = some k ∧ k ∈ operators
    · obtain ⟨k, hk, hmem⟩ := hk
      have hrest : ∀ u r₁, Took r u r₁ → u ≠ [] →
          Outcome ops ⟨0, .operand⟩ (fun ks => ∃ v w, ks = v ++ w ∧ D₁ v ∧ D w) short r₁
            (Recognition.both operand (Recognition.chain operators operand bound) r₁) := by
        intro u r₁ took hne
        have hlt := took.length_le
        have hpos := List.length_pos_iff.mpr hne
        refine both (fun k hk => (hops k).mpr (.inr hk)) (h u r₁ took hne)
          (fun v r₂ took₂ stuck => ?_) fun ks ks' hks hks' => ⟨ks, ks', rfl, hks, hks'⟩
        have hle := took₂.length_le
        refine ih took₂.settled (by omega) (fun k hk => stuck.not_mem hk) fun w r₃ took₃ hw => ?_
        exact h _ r₃ ((took.trans took₂).trans took₃) (by simp [hw])
      rw [chain_operator hk hmem]
      refine terminal hk (if_pos ((hops k).mpr (.inl hmem))) hrest ?_
      rintro _ ⟨v, w, rfl, hv, hw⟩
      exact hcons k v w hmem hv hw
    · have hover : ∀ k, r.ahead = some k → k ∉ operators := fun k hk' hmem =>
        hk ⟨k, hk', hmem⟩
      rw [chain_over hover]
      refine .accepted (.refl hr) hnil rfl fun k hk => if_neg ?_
      rw [hops]
      exact fun hmem => hmem.elim (hover k hk) (hahead k hk)

/-- Where no sign is ahead an operand has none. -/
theorem unsigned (hr : r.Settled) (hk : ∀ k, r.ahead = some k → k ∉ signs)
    (h : Outcome ops ⟨0, .atom⟩ D short r result) : Outcome ops ⟨0, .operand⟩ D short r result := by
  have htook : ∀ {u r'}, Took r u r' → u ≠ [] →
      Outline.run ops ⟨0, .operand⟩ (kindsOf u) = Outline.run ops ⟨0, .atom⟩ (kindsOf u) :=
    fun took hu => run_operand (by simpa [kindsOf] using hu) (took.head?_eq hr hu ▸ hk)
  cases h with
  | exhausted many file => exact .exhausted many file
  | faulty met run last =>
    refine .faulty met ((run_operand ?_ (hr.ahead_eq ▸ hk)).trans run) last
    simpa [kindsOf] using hr.pending_ne_nil met
  | @accepted u _ took sentence run stuck =>
    have hu : u ≠ [] := by rintro rfl; cases run
    exact .accepted took sentence ((htook took hu).trans run) stuck
  | @rejected u _ _ took run ne stuck =>
    by_cases hu : u = []
    · subst hu
      cases run
      refine .rejected took rfl (by decide) fun k hk' => ?_
      exact (if_neg (hk k (took.ahead_eq hr ▸ hk'))).trans (stuck k hk')
    · exact .rejected took ((htook took hu).trans run) ne stuck

/-- The rest of a group. -/
theorem group (h : Outcome infixes s D₁ short r (first r))
    (hD : ∀ ks, D₁ ks → D (ks ++ [.rparen])) :
    Outcome [] s.inside D short r (Recognition.both first (Recognition.terminal .rparen) r) := by
  cases hf : first r with
  | error fault r' =>
    rw [hf] at h
    rw [both_error hf]
    cases h with
    | faulty met run last => exact .faulty met (run_inside run) last
    | exhausted many file => exact .exhausted many file
  | ok b r' =>
    rw [hf] at h
    cases h with
    | rejected took run ne stuck =>
      rw [both_false hf]
      refine .rejected took (run_inside run) inside_ne_done fun k hk => ?_
      rw [step_inside (.inl ne), stuck k hk]
      rfl
    | accepted took sentence run stuck =>
      rw [both_true hf]
      by_cases hk : r'.ahead = some .rparen
      · refine prepend took (run_inside run) (last hk rfl) ?_
        rintro _ rfl
        exact hD _ sentence
      · rw [terminal_false hk]
        refine .rejected took (run_inside run) inside_ne_done fun k hk' => ?_
        have hr : k ≠ .rparen := fun h => hk (h ▸ hk')
        rw [step_inside (.inr hr), stuck k hk']
        rfl

end Outcome

end Recognition

end ArithCheck
