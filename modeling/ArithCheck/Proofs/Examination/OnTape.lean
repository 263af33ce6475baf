import ArithCheck.Examination
import ArithCheck.Proofs.Recognition.Descent
import ArithCheck.Proofs.Recognition.Scanning
import ArithCheck.Proofs.Scanner.Draw

/-!
# Examinations as recognitions over a tape

The examination of a byte string goes in step with a recognition over the tape of the fresh scanner,
and ends as that does.

* `mirroring`: the scanner keeps in step with its tape;
* `ofStream_reflects`: how the examination ends, by how the recognition over the tape ends;
* `outcome_onTape`: the outcome of the recognition over the tape;
* `Mirrors.fault_of_rule`: the faults that a rule may end in.
-/

namespace ArithCheck

open Token Outline Recognition Arithmetic

namespace Examination

variable {bytes : List UInt8} {r : Recognition Scanner} {q : Recognition Tape}

/-- A recognition over a scanner of the given bytes, and the same one over the tape. -/
structure Mirrors (bytes : List UInt8) (r : Recognition Scanner) (q : Recognition Tape) : Prop where
  ready : r.source.Ready
  bytes : r.source.stream.bytes = bytes
  beyond : r.source.stream.beyond = 0
  tape : r.source.tape = q.source
  recognizer : r.toRecognizer = q.toRecognizer
  log : r.log = q.log

/-- They mirror each other, and no token is ahead only where the end has been met. -/
def Holds (bytes : List UInt8) (r : Recognition Scanner) (q : Recognition Tape) : Prop :=
  Mirrors bytes r q ∧ (r.lookahead = none → r.source.atEnd = true)

theorem Mirrors.scanning (h : Mirrors bytes r q) : Scanning r q :=
  ⟨h.ready.start_not_final, h.tape, h.recognizer, h.log⟩

theorem Mirrors.lookahead (h : Mirrors bytes r q) : r.lookahead = q.lookahead :=
  h.scanning.lookahead

/-- Drawing from the scanner is drawing from its tape. -/
theorem Mirrors.advance (h : Mirrors bytes r q) :
    Agree (Holds bytes) Ended (advance r) (advance q) := by
  have hsame := h.scanning.advance
  have hdraw : r.source.Draw (TokenSource.pull r.source) := h.ready.draw
  cases hn : TokenSource.pull r.source with
  | error fault s =>
    rw [advance_error hn] at hsame ⊢
    generalize Recognition.advance q = result at hsame ⊢
    cases hsame with
    | error hended => exact .error hended
  | ok token s =>
    rw [hn] at hdraw
    rw [advance_eq hn] at hsame ⊢
    generalize Recognition.advance q = result at hsame ⊢
    cases hsame with
    | ok hs =>
      have hmirrors (ready : s.Ready) (same : r.source.Continues s) : Mirrors bytes _ _ :=
        ⟨ready, same.bytes.trans h.bytes, same.beyond.trans h.beyond, hs.tape, hs.recognizer,
          hs.log⟩
      cases hdraw with
      | token ready same => exact .ok ⟨hmirrors ready same, nofun⟩
      | complete ready same atEnd => exact .ok ⟨hmirrors ready same, fun _ => atEnd⟩

/-- Entering a rule changes nothing but the logs. -/
theorem Holds.enter (h : Holds bytes r q) (n : Nonterminal) (active : Nat) :
    Agree (Holds bytes) Ended (enter n active r) (enter n active q) := by
  rw [enter_eq, enter_eq]
  exact .ok ⟨⟨h.1.ready, h.1.bytes, h.1.beyond, h.1.tape, h.1.recognizer,
    by rw [h.1.log, h.1.recognizer]⟩, h.2⟩

/-- A scanner keeps in step with its tape. -/
def mirroring (bytes : List UInt8) : Lockstep Scanner Tape where
  holds := Holds bytes
  ended := Ended
  kindAhead r q h := by
    show Agree _ _ (.ok r.ahead r) (.ok q.ahead q)
    rw [ahead, h.1.lookahead]
    exact .ok h
  enter n active _ _ h := h.enter n active
  advance _ _ h := h.1.advance
  throw _ _ _ h := .error h.1.scanning.ended

/-! ## The end of an examination -/

/-- The end of an examination of the given bytes, told by the end of a rule over the tape. -/
inductive Reflects (bytes : List UInt8) (e : Examination) :
    EStateM.Result Fault (Recognition Tape) Bool → Prop
  /-- The rule has come to its end. -/
  | verdict {complete : Bool} {q : Recognition Tape}
    (verdict : e.verdict = .ok (complete && q.lookahead.isNone))
    (lookahead : e.lookahead = q.lookahead) (tape : e.scanner.tape = q.source)
    (whole : q.lookahead = none → e.scanner.atEnd = true ∧ e.read = bytes.length)
    (log : e.log = q.log ++ concluding complete q.lookahead) : Reflects bytes e (.ok complete q)
  /-- Too many rules were in progress. -/
  | nesting {q : Recognition Tape}
    (verdict : ∃ position, e.verdict = .error (.nesting position q.source.file))
    (log : e.log = q.log) : Reflects bytes e (.error .exhausted q)
  /-- The tape has a fault. -/
  | fault {fault : Fault} {q : Recognition Tape} (ne : fault ≠ .exhausted)
    (verdict : e.verdict = .error fault) (lookahead : e.lookahead = q.lookahead)
    (log : e.log = q.log) : Reflects bytes e (.error fault q)

/-- The first drawing from a tape and the rule of expressions after it. -/
def onTape (width limit : Nat) : Recognize Tape Bool := do
  advance
  rule width limit 0 .e

/-- Where the end has been met everything is read. -/
theorem Mirrors.read_eq (h : Mirrors bytes r q) (hend : r.source.atEnd = true) :
    r.source.stream.position = bytes.length := by
  rw [Stream.position, h.beyond, ← h.bytes, Stream.bytes, h.ready.ended hend, List.append_nil,
    List.length_reverse, Nat.add_zero]

theorem onTape_of_ok {width limit : Nat} {q' : Recognition Tape}
    (h : Recognition.advance q = .ok () q') :
    onTape width limit q = rule width limit 0 .e q' := by
  simp only [onTape, bind, EStateM.bind, h]

theorem onTape_of_error {width limit : Nat} {fault : Fault} {q' : Recognition Tape}
    (h : Recognition.advance q = .error fault q') : onTape width limit q = .error fault q' := by
  simp only [onTape, bind, EStateM.bind, h]

/-- The tokens of a tape are those to be taken after the first drawing. -/
theorem tokens_of_advance {q' : Recognition Tape} (h : Recognition.advance q = .ok () q') :
    q'.pending = q.source.tokens := by
  rcases advance_cases q with ⟨q'', hadv, took⟩ | ⟨fault, -, -, hadv⟩
  · obtain rfl : q'' = q' := by rw [h] at hadv; cases hadv; rfl
    exact (List.append_cancel_left took.pending).symm
  · simp [h] at hadv

/-- A tape has no fault that stands for a budget. -/
theorem Mirrors.ne_exhausted {fault : Fault} {q' : Recognition Tape} (h : Mirrors bytes r q)
    (hq : Recognition.advance q = .error fault q') : fault ≠ .exhausted := by
  rintro rfl
  rcases advance_cases q with ⟨q'', hadv, -⟩ | ⟨fault, met, -, hadv⟩
  · simp [hq] at hadv
  · rw [hq] at hadv
    cases hadv
    obtain ⟨cause, place, hfault⟩ := h.ready.tape_fault_lexical (h.tape ▸ met)
    simp at hfault

/-- A drawing takes one token at most. -/
theorem length_tokens_le_of_advance {q' : Recognition Tape}
    (h : Recognition.advance q = .ok () q') :
    q.source.tokens.length ≤ q'.source.tokens.length + 1 := by
  have hpending := congrArg List.length (tokens_of_advance h)
  have hahead : q'.lookahead.toList.length ≤ 1 := by cases q'.lookahead <;> simp
  rw [pending, List.length_append] at hpending
  omega

/-- Chains have room for all the tokens. -/
theorem Holds.length_lt_width {q' : Recognition Tape} (hs : Holds bytes r q')
    (hq : Recognition.advance q = .ok () q') : q.source.tokens.length < r.width := by
  have hready := hs.1.ready
  have hle := Scanner.length_tokens_le hready.start_not_final
  have hdrawn := length_tokens_le_of_advance hq
  rw [hs.1.tape] at hle
  show _ < r.source.input.length + 2
  omega

/-- An examination ends as the recognition over its tape. -/
theorem reflects_recognize (h : Mirrors bytes r q) (limit : Nat) :
    ∃ width, q.source.tokens.length < width ∧
      Reflects bytes (ofResult (Recognition.recognize limit r)) (onTape width limit q) := by
  have hfirst := h.advance
  generalize hr : Recognition.advance r = x, hq : Recognition.advance q = y at hfirst
  cases hfirst with
  | @error fault s q' hended =>
    refine ⟨q.source.tokens.length + 1, by omega, ?_⟩
    rw [recognize_of_advance_error hr, onTape_of_error hq]
    exact .fault (h.ne_exhausted hq) rfl hended.lookahead hended.log
  | @ok _ s q' hs =>
    refine ⟨s.width, hs.length_lt_width hq, ?_⟩
    have hrule := (mirroring bytes).rule s.width limit 0 .e s q' hs
    rw [onTape_of_ok hq]
    generalize hrs : rule s.width limit 0 .e s = x, rule s.width limit 0 .e q' = y at hrule
    cases hrule with
    | @ok complete s' q'' hs' =>
      rw [recognize_of_ok hr hrs]
      refine .verdict ?_ hs'.1.lookahead hs'.1.tape (fun hnone => ?_) ?_
      · show Except.ok (complete && s'.lookahead.isNone) = _
        rw [hs'.1.lookahead]
      · have hend := hs'.2 (hs'.1.lookahead.trans hnone)
        exact ⟨hend, hs'.1.read_eq hend⟩
      · show s'.log ++ concluding complete s'.lookahead = _
        rw [hs'.1.log, hs'.1.lookahead]
    | @error fault s' q'' hended =>
      by_cases hexhausted : fault = .exhausted
      · subst hexhausted
        rw [recognize_of_exhausted hr hrs]
        exact .nesting ⟨s'.lookahead.map (·.position), by rw [← hended.file]; rfl⟩ hended.log
      · rw [recognize_of_error hr hexhausted hrs]
        exact .fault hexhausted rfl hended.lookahead hended.log

theorem complete_eq_ok_iff {tape : Tape} {ts : List Token} :
    tape.complete = .ok ts ↔ tape.fault = none ∧ tape.tokens = ts := by
  obtain ⟨us, fault, file, tracing⟩ := tape
  cases fault <;> simp [Tape.complete]

theorem complete_eq_error_iff {tape : Tape} {fault : Fault} :
    tape.complete = .error fault ↔ tape.fault = some fault := by
  obtain ⟨us, fault', file, tracing⟩ := tape
  cases fault' <;> simp [Tape.complete]

/-- The tape of a fresh scanner of a byte string. -/
def freshTape (settings : Settings) (bytes : List UInt8) (file : Option String) : Tape :=
  (Scanner.ofBytes arithmetic bytes file settings.traceTokens.isOn).tape

theorem complete_freshTape (settings : Settings) (bytes : List UInt8) (file : Option String) :
    (freshTape settings bytes file).complete = tokens bytes file := by
  obtain ⟨ps, z, fault, hcuts, hend⟩ := exists_cuts_ending file .start bytes
  rw [freshTape, tokens, (Scanner.ready_ofBytes bytes file _).tape_of_cuts hcuts hend,
    (Scanner.ready_ofBytes bytes file _).tape_of_cuts hcuts hend]
  rfl

theorem freshTape_file (settings : Settings) (bytes : List UInt8) (file : Option String) :
    (freshTape settings bytes file).file = file :=
  Scanner.tape_file _

theorem freshTape_fault {settings : Settings} {bytes : List UInt8} {file : Option String}
    {fault : Fault} (h : (freshTape settings bytes file).fault = some fault) :
    ∃ cause place, fault = .lexical cause place file :=
  (Scanner.ready_ofBytes bytes file _).tape_fault_lexical h

/-- A recognition at the start of a tape. -/
def atStart (settings : Settings) (tape : Tape) : Recognition Tape :=
  { settings.recognizer with
    source := tape
    log := #[] }

/-- A recognition at the start of a byte string. -/
def fresh (settings : Settings) (bytes : List UInt8) (file : Option String) :
    Recognition Scanner :=
  { settings.recognizer with
    source := Scanner.ofBytes arithmetic bytes file settings.traceTokens.isOn
    log := #[] }

theorem mirrors_fresh (settings : Settings) (bytes : List UInt8) (file : Option String) :
    Mirrors bytes (fresh settings bytes file)
      (atStart settings (freshTape settings bytes file)) :=
  ⟨Scanner.ready_ofBytes bytes file _, Stream.bytes_ofBytes bytes, rfl, rfl, rfl, rfl⟩

theorem ofStream_reflects (limit : Nat) (settings : Settings) (bytes : List UInt8)
    (file : Option String) :
    ∃ width, (freshTape settings bytes file).tokens.length < width ∧
      Reflects bytes (ofStream limit settings (.ofBytes bytes) file)
        (onTape width limit (atStart settings (freshTape settings bytes file))) :=
  reflects_recognize (mirrors_fresh settings bytes file) limit

/-- The outcome of a recognition over a tape from its start. -/
theorem outcome_onTape (hq : q.lookahead = none) {width : Nat}
    (hw : q.source.tokens.length < width) (limit : Nat) :
    Outcome infixes ⟨0, .operand⟩ (Derives .e) (limit < 5 + 5 * q.source.tokens.length) q
      (onTape width limit q) := by
  rcases advance_cases q with ⟨q', hadv, took⟩ | ⟨fault, met, hall, hadv⟩
  · rw [onTape_of_ok hadv]
    have hpending := tokens_of_advance hadv
    rw [hq] at took
    have hrule := rule_meets width limit 0 .e q' took.settled (by rw [hpending]; exact hw)
      (fresh_of_reserved_nil rfl)
    rw [hpending] at hrule
    exact hrule.prepend took rfl fun _ => id
  · rw [onTape_of_error hadv]
    rw [hq] at hall
    exact .faulty met (by rw [hall]; rfl) (by rw [hq, hall]; rfl)

/-! ## Faults -/

variable {fault : Fault} {r₁ r₂ : Recognition Scanner}

/-- The first drawing fails only with the fault of the tape. -/
theorem Mirrors.fault_of_advance (h : Mirrors bytes r q)
    (hadvance : Recognition.advance r = .error fault r₁) : q.source.fault = some fault := by
  have hfirst := h.advance
  rw [hadvance] at hfirst
  generalize htape : Recognition.advance q = y at hfirst
  cases hfirst with
  | error =>
    rcases advance_cases q with ⟨q', hadv, -⟩ | ⟨_, met, -, hadv⟩
    · rw [htape] at hadv
      cases hadv
    · rw [htape] at hadv
      cases hadv
      exact met

/-- What is drawn from the scanner is drawn from the tape. -/
theorem Mirrors.advance_ok (h : Mirrors bytes r q)
    (hadvance : Recognition.advance r = .ok () r₁) :
    ∃ q₁, Recognition.advance q = .ok () q₁ ∧ Holds bytes r₁ q₁ := by
  have hfirst := h.advance
  rw [hadvance] at hfirst
  generalize Recognition.advance q = y at hfirst
  cases hfirst with
  | ok hs => exact ⟨_, rfl, hs⟩

/-- The rule of expressions fails only with the fault of the tape, or because too many rules are in
progress. -/
theorem Mirrors.fault_of_rule (h : Mirrors bytes r q) (hq : q.lookahead = none)
    (hadvance : Recognition.advance r = .ok () r₁) {limit : Nat}
    (hrule : rule r₁.width limit 0 .e r₁ = .error fault r₂) :
    q.source.fault = some fault ∨ fault = .exhausted ∧ limit < 5 * r₁.width := by
  obtain ⟨q₁, htape, hs⟩ := h.advance_ok hadvance
  have hwidth := hs.length_lt_width htape
  have hstep := (mirroring bytes).rule r₁.width limit 0 .e r₁ q₁ hs
  have houtcome := outcome_onTape hq hwidth limit
  rw [hrule] at hstep
  rw [onTape_of_ok htape] at houtcome
  generalize rule r₁.width limit 0 .e q₁ = result at hstep houtcome
  cases hstep
  cases houtcome with
  | faulty met => exact .inl met
  | exhausted many => exact .inr ⟨rfl, by omega⟩

theorem Mirrors.ne_of_fault (h : Mirrors bytes r q) (hfault : q.source.fault = some fault) :
    fault ≠ .exhausted ∧ fault ≠ .stalled ∧ ∀ position file, fault ≠ .nesting position file := by
  obtain ⟨cause, place, rfl⟩ := h.ready.tape_fault_lexical (h.tape ▸ hfault)
  exact ⟨nofun, nofun, nofun⟩

end Examination

end ArithCheck
