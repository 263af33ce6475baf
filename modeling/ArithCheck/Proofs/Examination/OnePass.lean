import ArithCheck.Proofs.Examination.OnTape

/-!
# Reading in one pass

Whether tokens are an expression can be told in one pass that knows no precedence: it counts the
open groups and remembers what may come next, which is what an outline is, and stops in front of
the first token that may not come.

* `Outcome.followsPass`: a recognition over a tape stops where the pass does;
* `verdict_eq_onePass`: the verdict is that of the pass, over every sequence of tokens and over
  every byte string.
-/

namespace ArithCheck

open Token Outline Recognition Examination

/-- Where a pass has stopped: the outline of what it has read, and the tokens left. -/
structure Pass where
  outline : Outline
  rest : List Token
  deriving DecidableEq, Repr

namespace Pass

/-- Reads on from an outline, up to the first token that may not come next. -/
def onward (s : Outline) : List Token → Pass
  | [] => ⟨s, []⟩
  | t :: ts =>
    match step infixes s t.kind with
    | some s' => onward s' ts
    | none => ⟨s, t :: ts⟩

/-- The pass over tokens. At their start an operand is due and no group is open. -/
def ofTokens (ts : List Token) : Pass := onward ⟨0, .operand⟩ ts

/-- Nothing is left, no group is open and the last operand is complete. -/
def accepts (p : Pass) : Bool := p.rest.isEmpty && p.outline = done

theorem onward_append {s s' : Outline} {u : List Token} (h : run infixes s (kindsOf u) = some s')
    (v : List Token) : onward s (u ++ v) = onward s' v := by
  induction u generalizing s with
  | nil =>
    obtain rfl : s = s' := Option.some.inj h
    rfl
  | cons t u ih =>
    obtain ⟨s₁, hstep, hrun⟩ := Option.bind_eq_some_iff.mp h
    rw [List.cons_append, onward, hstep]
    exact ih hrun

theorem onward_of_stuck {s : Outline} {ts : List Token}
    (h : ∀ k, (kindsOf ts).head? = some k → step infixes s k = none) : onward s ts = ⟨s, ts⟩ := by
  cases ts with
  | nil => rfl
  | cons t ts => rw [onward, h t.kind rfl]

end Pass

namespace Recognition

variable {q q' : Recognition Tape} {s : Outline} {u : List Token}

theorem Settled.tokens_eq (h : q.Settled) : q.source.tokens = q.pending.tail := by
  cases hq : q.lookahead with
  | none => rw [pending, hq, (h hq).1]; rfl
  | some t => rw [pending_of_ahead hq]; rfl

/-- Where a recognition from the start of a tape can take no more, the pass can read no more. -/
theorem Took.onePass (hq : q.lookahead = none) (took : Took q u q')
    (run : Outline.run infixes ⟨0, .operand⟩ (kindsOf u) = some s) (stuck : Stuck infixes s q') :
    Pass.ofTokens q.source.tokens = ⟨s, q'.pending⟩ := by
  have htokens : q.source.tokens = u ++ q'.pending := by
    have hpending := took.pending
    rwa [Recognition.pending, hq] at hpending
  rw [Pass.ofTokens, htokens, Pass.onward_append run]
  refine Pass.onward_of_stuck fun k hk => stuck k ?_
  rw [took.settled.ahead_eq, hk]

/-- A recognition over a tape ends as the pass over its tokens does, with the same token ahead,
unless too many rules are in progress. -/
inductive FollowsPass (short : Prop) (q : Recognition Tape) :
    EStateM.Result Fault (Recognition Tape) Bool → Prop
  | stopped {complete : Bool} {q' : Recognition Tape}
    (verdict : (complete && q'.lookahead.isNone) = (Pass.ofTokens q.source.tokens).accepts)
    (ahead : q'.lookahead = (Pass.ofTokens q.source.tokens).rest.head?)
    (tape : q'.source = { q.source with tokens := (Pass.ofTokens q.source.tokens).rest.tail }) :
    FollowsPass short q (.ok complete q')
  | nested {q' : Recognition Tape} (many : short) (file : q'.source.file = q.source.file) :
    FollowsPass short q (.error .exhausted q')

theorem Took.followsPass {short : Prop} {complete : Bool} (hq : q.lookahead = none)
    (took : Took q u q') (run : Outline.run infixes ⟨0, .operand⟩ (kindsOf u) = some s)
    (stuck : Stuck infixes s q') (hcomplete : complete = decide (s = done)) :
    FollowsPass short q (.ok complete q') := by
  have hpass := took.onePass hq run stuck
  have hahead := took.settled.lookahead_eq
  refine .stopped ?_ ?_ ?_
  · rw [hpass, hcomplete, Pass.accepts, hahead, Bool.and_comm]
    cases q'.pending <;> rfl
  · rw [hpass, hahead]
  · rw [hpass, took.tape, took.settled.tokens_eq]

theorem Outcome.followsPass {D : List Kind → Prop} {short : Prop}
    {result : EStateM.Result Fault (Recognition Tape) Bool} (hq : q.lookahead = none)
    (h : Outcome infixes ⟨0, .operand⟩ D short q result)
    (hfault : (Pass.ofTokens q.source.tokens).rest ≠ [] ∨ q.source.fault = none) :
    FollowsPass short q result := by
  cases h with
  | accepted took _ run stuck => exact took.followsPass hq run stuck rfl
  | rejected took run ne stuck => exact took.followsPass hq run stuck (by simp [ne])
  | @faulty fault q' s met run =>
    -- Behind a fault there would be tokens that the pass has read, all of them.
    have hpending : q.pending = q.source.tokens := by rw [pending, hq]; rfl
    have hall := Pass.onward_append (hpending ▸ run) []
    rw [List.append_nil] at hall
    rw [Pass.ofTokens, hall, met] at hfault
    simp [Pass.onward] at hfault
  | exhausted many file => exact .nested many file

/-- Chains have room for all the tokens of a tape. -/
theorem length_lt_width (h : advance q = .ok () q') : q.source.tokens.length < q'.width := by
  have hdrawn := length_tokens_le_of_advance h
  show _ < q'.source.tokens.length + 2
  omega

/-- The end of a recognition is that of its rule. -/
theorem FollowsPass.recognize {limit : Nat} {short : Prop} {first : Recognition Tape}
    (hfirst : advance q = .ok () first)
    (h : FollowsPass short q (rule first.width limit 0 .e first)) :
    (∃ r, Recognition.recognize limit q = .ok (Pass.ofTokens q.source.tokens).accepts r ∧
      r.lookahead = (Pass.ofTokens q.source.tokens).rest.head? ∧
      r.source = { q.source with tokens := (Pass.ofTokens q.source.tokens).rest.tail }) ∨
    (short ∧ ∃ position r,
      Recognition.recognize limit q = .error (.nesting position q.source.file) r) := by
  generalize hrule : rule first.width limit 0 .e first = result at h
  cases h with
  | stopped verdict ahead tape =>
    have hrec := recognize_of_ok hfirst hrule
    rw [verdict] at hrec
    exact .inl ⟨_, hrec, ahead, tape⟩
  | @nested q' many file =>
    refine .inr ⟨many, q'.lookahead.map (·.position), q', ?_⟩
    rw [recognize_of_exhausted hfirst hrule, ← file]
    rfl

/-- A recognition from the start of a tape without a fault ends as the pass does. -/
theorem recognize_atStart (limit : Nat) (settings : Settings) {tape : Tape}
    (hfault : tape.fault = none) :
    (∃ r, Recognition.recognize limit (atStart settings tape) =
        .ok (Pass.ofTokens tape.tokens).accepts r ∧
      r.lookahead = (Pass.ofTokens tape.tokens).rest.head? ∧
      r.source = { tape with tokens := (Pass.ofTokens tape.tokens).rest.tail }) ∨
    (limit < 5 + 5 * tape.tokens.length ∧ ∃ position r,
      Recognition.recognize limit (atStart settings tape) =
        .error (.nesting position tape.file) r) := by
  rcases advance_cases (atStart settings tape) with ⟨first, hadv, -⟩ | ⟨fault, met, -⟩
  · have hfollows := (outcome_onTape (q := atStart settings tape) rfl (length_lt_width hadv)
      limit).followsPass rfl (.inr hfault)
    rw [onTape_of_ok hadv] at hfollows
    exact hfollows.recognize hadv
  · exact absurd (hfault.symm.trans met) nofun

end Recognition

/-- The recognizer has the verdict of the pass, stops at the same token and leaves what is behind
it, unless its rules in progress are too many; five rules for each token and five more are enough.
This holds over every sequence of tokens, and over every byte string whose tokens come without a
fault or stop the pass before it. -/
theorem verdict_eq_onePass (limit : Nat) (settings : Settings) :
    (∀ tape : Tape, tape.fault = none →
      (∃ r, Recognition.recognize limit (atStart settings tape) =
          .ok (Pass.ofTokens tape.tokens).accepts r ∧
        r.lookahead = (Pass.ofTokens tape.tokens).rest.head? ∧
        r.source = { tape with tokens := (Pass.ofTokens tape.tokens).rest.tail }) ∨
      (limit < 5 + 5 * tape.tokens.length ∧ ∃ position r,
        Recognition.recognize limit (atStart settings tape) =
          .error (.nesting position tape.file) r)) ∧
    ∀ (bytes : List UInt8) (file : Option String),
      let tape := freshTape settings bytes file
      let e := Examination.ofStream limit settings (.ofBytes bytes) file
      (Pass.ofTokens tape.tokens).rest ≠ [] ∨ tape.fault = none →
        (e.verdict = .ok (Pass.ofTokens tape.tokens).accepts ∧
          e.lookahead = (Pass.ofTokens tape.tokens).rest.head? ∧
          e.scanner.tape = { tape with tokens := (Pass.ofTokens tape.tokens).rest.tail }) ∨
        (limit < 5 + 5 * tape.tokens.length ∧
          ∃ position, e.verdict = .error (.nesting position file)) := by
  refine ⟨fun tape hfault => recognize_atStart limit settings hfault, fun bytes file => ?_⟩
  intro tape e hfault
  obtain ⟨width, hw, hreflects⟩ := ofStream_reflects limit settings bytes file
  have hfollows := (outcome_onTape (q := atStart settings tape) rfl hw limit).followsPass rfl
    hfault
  generalize onTape width limit (atStart settings tape) = result at hfollows hreflects
  cases hfollows with
  | stopped verdict ahead htape =>
    cases hreflects with
    | verdict everdict elookahead etape =>
      exact .inl ⟨by rw [everdict, verdict]; rfl, elookahead.trans ahead, etape.trans htape⟩
  | nested many hfile =>
    cases hreflects with
    | fault ne => exact absurd rfl ne
    | nesting verdict =>
      have hq : _ = file := hfile.trans (freshTape_file settings bytes file)
      exact .inr ⟨many, hq ▸ verdict⟩

end ArithCheck
