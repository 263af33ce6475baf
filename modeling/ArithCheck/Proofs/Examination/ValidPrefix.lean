import ArithCheck.Proofs.Examination.Course
import ArithCheck.Proofs.Grammar.Viable

/-!
# The valid-prefix property

Where an examination stops is where the tokens of its input stop being viable, or where the input
has a lexical fault and everything before it is viable.

* `Course.exists_refused`: of tokens that are not viable one is the first that cannot follow;
* `valid_prefix`: which of the three outcomes a byte string that is no expression has, and what is
  left of the scanner and the token ahead then.
-/

namespace ArithCheck

open Token Outline Recognition Arithmetic Examination

variable {ks ks' : List Kind} {s : Outline}

theorem viable_iff_exists_run :
    Viable .e ks ↔ ∃ s, run infixes ⟨0, .operand⟩ ks = some s :=
  viable_iff_run.trans (and_iff_left fun _ _ => List.not_mem_nil)

namespace Examination

variable {limit : Nat} {bytes : List UInt8} {tape : Tape} {e : Examination}

theorem Course.not_nested (h : Course limit bytes tape e)
    (hlexical : ∀ f, tape.fault = some f → ∃ cause place file, f = .lexical cause place file)
    (hlimit : 5 + 5 * tape.tokens.length ≤ limit) (position : Option Position)
    (file : Option String) : e.verdict ≠ .error (.nesting position file) := by
  cases h with
  | accepted _ _ verdict | refused _ _ _ verdict | unfinished _ _ _ verdict =>
    rw [verdict]
    exact nofun
  | faulty fault _ verdict =>
    obtain ⟨cause, place, file, rfl⟩ := hlexical _ fault
    rw [verdict]
    exact nofun
  | nested many => omega

/-- Where a part of the tokens is not viable the first token that cannot follow is refused. -/
theorem Course.exists_refused (h : Course limit bytes tape e)
    (hn : ∀ position, e.verdict ≠ .error (.nesting position tape.file))
    (hviable : ¬ Viable .e (kindsOf tape.tokens)) :
    ∃ u t v, tape.tokens = u ++ t :: v ∧ Viable .e (kindsOf u) ∧
      ¬ Viable .e (kindsOf (u ++ [t])) ∧ e.verdict = .ok false ∧ e.lookahead = some t ∧
      e.scanner.tape = { tape with tokens := v } := by
  cases h with
  | accepted _ sentence => exact absurd ⟨[], by rwa [List.append_nil]⟩ hviable
  | unfinished _ run | faulty _ run => exact absurd (viable_iff_exists_run.mpr ⟨_, run⟩) hviable
  | nested _ verdict => exact absurd verdict.choose_spec (hn _)
  | refused split run stuck verdict lookahead rest =>
    refine ⟨_, _, _, split, viable_iff_exists_run.mpr ⟨_, run⟩, ?_, verdict, lookahead, rest⟩
    rw [kindsOf_append]
    exact not_viable_of_stuck (n := .e) run stuck []

/-- Where the tokens are viable but no sentence the end of the input comes too early. -/
theorem Course.unfinished_of_viable (h : Course limit bytes tape e)
    (hn : ∀ position, e.verdict ≠ .error (.nesting position tape.file))
    (hfault : tape.fault = none) (hviable : Viable .e (kindsOf tape.tokens))
    (hderives : ¬ Derives .e (kindsOf tape.tokens)) :
    e.verdict = .ok false ∧ e.lookahead = none := by
  cases h with
  | accepted _ sentence => exact absurd sentence hderives
  | unfinished _ _ _ verdict lookahead => exact ⟨verdict, lookahead⟩
  | faulty fault => simp [hfault] at fault
  | nested _ verdict => exact absurd verdict.choose_spec (hn _)
  | refused split run stuck =>
    rw [split, kindsOf_append] at hviable
    exact absurd hviable (not_viable_of_stuck (n := .e) run stuck _)

/-- The fault of the tape comes up where all tokens are viable. -/
theorem Course.faulty_of_viable (h : Course limit bytes tape e)
    (hn : ∀ position, e.verdict ≠ .error (.nesting position tape.file)) {f : Fault}
    (hfault : tape.fault = some f) (hviable : Viable .e (kindsOf tape.tokens)) :
    e.verdict = .error f := by
  cases h with
  | accepted fault | unfinished fault => simp [hfault] at fault
  | faulty fault _ verdict =>
    obtain rfl := Option.some.inj (hfault.symm.trans fault)
    exact verdict
  | nested _ verdict => exact absurd verdict.choose_spec (hn _)
  | refused split run stuck =>
    rw [split, kindsOf_append] at hviable
    exact absurd hviable (not_viable_of_stuck (n := .e) run stuck _)

/-- A lexical fault is that of the tape, and the last token before it is still ahead. -/
theorem Course.of_lexical (h : Course limit bytes tape e) {cause : LexicalCause} {place : Position}
    {file : Option String} (hverdict : e.verdict = .error (.lexical cause place file)) :
    tape.fault = some (.lexical cause place file) ∧ Viable .e (kindsOf tape.tokens) ∧
      e.lookahead = tape.tokens.getLast? := by
  cases h with
  | accepted _ _ verdict | refused _ _ _ verdict | unfinished _ _ _ verdict =>
    simp [hverdict] at verdict
  | nested _ verdict =>
    obtain ⟨position, verdict⟩ := verdict
    simp [hverdict] at verdict
  | faulty fault run verdict lookahead =>
    obtain rfl := Except.error.inj (hverdict.symm.trans verdict)
    exact ⟨fault, viable_iff_exists_run.mpr ⟨_, run⟩, lookahead⟩

end Examination

/-- The valid-prefix property. Let the limit not be exceeded, as none is that allows five rules for
each token and five more. An examination ends in a lexical fault if and only if its scanner has one
and all tokens before it are viable; it is this fault, and the last of the tokens is still ahead.
Otherwise, if a part of the tokens is not viable, the byte string is rejected with the first token
ahead that makes it so, and nothing behind this token has been drawn. If all tokens are viable and
followed by the end of the input, but are no sentence, the byte string is rejected with no token
ahead. -/
theorem valid_prefix (limit : Nat) (settings : Settings) (bytes : List UInt8)
    (file : Option String) :
    let tape := freshTape settings bytes file
    let e := Examination.ofStream limit settings (.ofBytes bytes) file
    (5 + 5 * tape.tokens.length ≤ limit →
      ∀ position, e.verdict ≠ .error (.nesting position file)) ∧
    ((∀ position, e.verdict ≠ .error (.nesting position file)) →
      ((∃ cause place, e.verdict = .error (.lexical cause place file)) ↔
        (∃ fault, tokens bytes file = .error fault) ∧ Viable .e (kindsOf tape.tokens)) ∧
      (∀ cause place, e.verdict = .error (.lexical cause place file) →
        tokens bytes file = .error (.lexical cause place file) ∧
          e.lookahead = tape.tokens.getLast?) ∧
      ((∃ u, u <+: tape.tokens ∧ ¬ Viable .e (kindsOf u)) →
        ∃ u t v, tape.tokens = u ++ t :: v ∧ Viable .e (kindsOf u) ∧
          ¬ Viable .e (kindsOf (u ++ [t])) ∧ e.verdict = .ok false ∧ e.lookahead = some t ∧
          e.scanner.tape = { tape with tokens := v }) ∧
      ((∃ ts, tokens bytes file = .ok ts) → Viable .e (kindsOf tape.tokens) →
        ¬ Derives .e (kindsOf tape.tokens) → e.verdict = .ok false ∧ e.lookahead = none)) := by
  intro tape e
  have hcourse : Course limit bytes tape e := ofStream_course limit settings bytes file
  have hfile : tape.file = file := freshTape_file settings bytes file
  have hcomplete : tape.complete = tokens bytes file := complete_freshTape settings bytes file
  have hlexical : ∀ f, tape.fault = some f → ∃ cause place, f = .lexical cause place file :=
    fun f hf => freshTape_fault hf
  refine ⟨fun hlimit position => hcourse.not_nested (fun f hf => ?_) hlimit position file,
    fun hn => ?_⟩
  · obtain ⟨cause, place, h⟩ := hlexical f hf
    exact ⟨cause, place, file, h⟩
  rw [← hcomplete]
  replace hn : ∀ position, e.verdict ≠ .error (.nesting position tape.file) := by rwa [hfile]
  refine ⟨⟨?_, ?_⟩, fun cause place h => ?_, ?_, ?_⟩
  · rintro ⟨cause, place, h⟩
    obtain ⟨hfault, hviable, -⟩ := hcourse.of_lexical h
    exact ⟨⟨_, complete_eq_error_iff.mpr hfault⟩, hviable⟩
  · rintro ⟨⟨f, hf⟩, hviable⟩
    have hfault := complete_eq_error_iff.mp hf
    obtain ⟨cause, place, rfl⟩ := hlexical f hfault
    exact ⟨cause, place, hcourse.faulty_of_viable hn hfault hviable⟩
  · obtain ⟨hfault, -, hlookahead⟩ := hcourse.of_lexical h
    exact ⟨complete_eq_error_iff.mpr hfault, hlookahead⟩
  · rintro ⟨u, hu, hnot⟩
    refine hcourse.exists_refused hn fun hviable => hnot (hviable.mono ?_)
    obtain ⟨v, hv⟩ := hu
    exact ⟨kindsOf v, by rw [← kindsOf_append, hv]⟩
  · rintro ⟨ts, hts⟩ hviable hderives
    exact hcourse.unfinished_of_viable hn (complete_eq_ok_iff.mp hts).1 hviable hderives

end ArithCheck
