import ArithCheck.Proofs.Examination.OnTape

/-!
# The course of an examination

The five ways in which the examination of a byte string may go (`Course`), told by the outline of
the tokens on the tape of its fresh scanner; `ofStream_course` says that there is no other.
-/

namespace ArithCheck.Examination

open Token Outline Recognition

/-- How an examination of the given bytes goes if its fresh scanner has the given tape. -/
inductive Course (limit : Nat) (bytes : List UInt8) (tape : Tape) (e : Examination) : Prop
  /-- The tokens are a sentence. -/
  | accepted (fault : tape.fault = none) (sentence : Derives .e (kindsOf tape.tokens))
    (verdict : e.verdict = .ok true) (whole : e.scanner.atEnd = true ∧ e.read = bytes.length)
  /-- A token cannot follow those before it. -/
  | refused {u : List Token} {t : Token} {v : List Token} {s : Outline}
    (split : tape.tokens = u ++ t :: v) (run : run infixes ⟨0, .operand⟩ (kindsOf u) = some s)
    (stuck : step infixes s t.kind = none) (verdict : e.verdict = .ok false)
    (lookahead : e.lookahead = some t) (rest : e.scanner.tape = { tape with tokens := v })
  /-- The tokens could go on, but do not. -/
  | unfinished {s : Outline} (fault : tape.fault = none)
    (run : run infixes ⟨0, .operand⟩ (kindsOf tape.tokens) = some s) (ne : s ≠ done)
    (verdict : e.verdict = .ok false) (lookahead : e.lookahead = none)
  /-- The fault of the tape comes up. -/
  | faulty {f : Fault} {s : Outline} (fault : tape.fault = some f)
    (run : run infixes ⟨0, .operand⟩ (kindsOf tape.tokens) = some s)
    (verdict : e.verdict = .error f) (lookahead : e.lookahead = tape.tokens.getLast?)
  /-- Too many rules are in progress. -/
  | nested (many : limit < 5 + 5 * tape.tokens.length)
    (verdict : ∃ position, e.verdict = .error (.nesting position tape.file))

variable {limit : Nat} {bytes : List UInt8} {q q' : Recognition Tape} {e : Examination}
  {u : List Token} {s : Outline}

/-- A rule has come to its end with a token ahead that cannot come next. -/
theorem Course.of_ahead {t : Token} (hq : q.lookahead = none) (took : Took q u q')
    (run : run infixes ⟨0, .operand⟩ (kindsOf u) = some s) (stuck : Stuck infixes s q')
    (ht : q'.lookahead = some t) (verdict : e.verdict = .ok false)
    (lookahead : e.lookahead = q'.lookahead) (tape : e.scanner.tape = q'.source) :
    Course limit bytes q.source e := by
  refine .refused (v := q'.source.tokens) ?_ run (stuck t.kind ?_) verdict (lookahead.trans ht) ?_
  · have hpending := took.pending
    rw [pending, hq, pending_of_ahead ht] at hpending
    exact hpending
  · rw [ahead, ht]
    rfl
  · rw [tape, took.tape]

/-- The course of an examination by the end of the recognition over its tape. -/
theorem Reflects.course {result : EStateM.Result Fault (Recognition Tape) Bool}
    (hq : q.lookahead = none) (hfault : ∀ f, q.source.fault = some f → f ≠ .exhausted)
    (hreflects : Reflects bytes e result)
    (houtcome : Outcome infixes ⟨0, .operand⟩ (Derives .e) (limit < 5 + 5 * q.source.tokens.length)
      q result) : Course limit bytes q.source e := by
  cases houtcome with
  | @accepted u q' took sentence run stuck =>
    cases hreflects with
    | verdict verdict lookahead tape whole =>
      cases ht : q'.lookahead with
      | some t =>
        rw [ht] at verdict
        exact .of_ahead hq took run stuck ht verdict lookahead tape
      | none =>
        rw [ht] at verdict
        obtain ⟨rfl, hfault⟩ := took.eq_tokens hq ht
        exact .accepted hfault sentence verdict (whole ht)
  | @rejected u q' s took run ne stuck =>
    cases hreflects with
    | verdict verdict lookahead tape =>
      cases ht : q'.lookahead with
      | some t => exact .of_ahead hq took run stuck ht verdict lookahead tape
      | none =>
        obtain ⟨rfl, hfault⟩ := took.eq_tokens hq ht
        exact .unfinished hfault run ne verdict (lookahead.trans ht)
  | @faulty f q' s met run last =>
    have hpending : q.pending = q.source.tokens := by rw [pending, hq]; rfl
    rw [hpending] at run last
    cases hreflects with
    | nesting => exact absurd rfl (hfault _ met)
    | fault _ verdict lookahead => exact .faulty met run verdict (lookahead.trans last)
  | @exhausted q' many file =>
    cases hreflects with
    | fault ne => exact absurd rfl ne
    | nesting verdict => exact .nested many (file ▸ verdict)

/-- Of an accepted examination the tokens are a sentence. -/
theorem Course.sentence_of_accepts {tape : Tape} (h : Course limit bytes tape e)
    (haccept : e.verdict = .ok true) : tape.fault = none ∧ Derives .e (kindsOf tape.tokens) := by
  cases h with
  | accepted hfault sentence => exact ⟨hfault, sentence⟩
  | refused _ _ _ verdict | unfinished _ _ _ verdict | faulty _ _ verdict =>
    rw [haccept] at verdict
    cases verdict
  | nested _ verdict =>
    obtain ⟨position, verdict⟩ := verdict
    rw [haccept] at verdict
    cases verdict

theorem ofStream_course (limit : Nat) (settings : Settings) (bytes : List UInt8)
    (file : Option String) :
    Course limit bytes (freshTape settings bytes file)
      (ofStream limit settings (.ofBytes bytes) file) := by
  obtain ⟨width, hw, hreflects⟩ := ofStream_reflects limit settings bytes file
  refine hreflects.course rfl (fun f hf => ?_) (outcome_onTape rfl hw limit)
  obtain ⟨cause, place, rfl⟩ := freshTape_fault hf
  exact nofun

end ArithCheck.Examination
