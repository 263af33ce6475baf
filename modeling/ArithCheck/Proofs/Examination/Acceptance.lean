import ArithCheck.Proofs.Examination.OnePass
import ArithCheck.Proofs.Examination.Course
import ArithCheck.Proofs.Grammar.Viable

/-!
# Accepted tokens

The recognizer's verdict on tokens that nothing but the end of the input follows. A limit on the
rules in progress may keep it from a verdict, but not change the verdict.

* `Accepted`, `Rejected`: the verdict under some limit, which is then that under every limit that is
  not exceeded (`verdictOn_of_exists`);
* `accepted_iff_run`, `accepted_iff_derives`: the accepted tokens by their outline, and as the
  sentences of the grammar;
* `accepted_iff_ofStream`: byte strings are accepted by their tokens.
-/

namespace ArithCheck

open Token Outline Recognition Examination

/-- The verdict or the fault in which a recognition ends. -/
def Recognition.verdict : EStateM.Result Fault (Recognition Tape) Bool → Except Fault Bool
  | .ok accepted _ => .ok accepted
  | .error fault _ => .error fault

/-- The verdict on tokens, with at most `limit` rules in progress. -/
def verdictOn (limit : Nat) (ts : List Token) : Except Fault Bool :=
  Recognition.verdict (Recognition.recognize limit (atStart .default ⟨ts, none, none, false⟩))

/-- The tokens are accepted under some limit. -/
def Accepted (ts : List Token) : Prop := ∃ limit, verdictOn limit ts = .ok true

/-- The tokens are rejected under some limit. -/
def Rejected (ts : List Token) : Prop := ∃ limit, verdictOn limit ts = .ok false

variable {ts : List Token} {limit : Nat}

namespace Pass

/-- A pass accepts what leads to the end of an operand outside all groups. -/
theorem accepts_onward_iff {s : Outline} {ts : List Token} :
    (onward s ts).accepts = true ↔ run infixes s (kindsOf ts) = some done := by
  induction ts generalizing s with
  | nil =>
    rw [kindsOf_nil, run_nil, Option.some_inj]
    exact decide_eq_true_iff
  | cons t ts ih =>
    rw [onward, kindsOf_cons, run_cons]
    cases step infixes s t.kind with
    | none => simp [accepts]
    | some s' => exact ih

end Pass

/-- Under every limit there is the verdict of the pass, unless the limit is exceeded. -/
theorem verdictOn_cases (limit : Nat) (ts : List Token) :
    verdictOn limit ts = .ok (Pass.ofTokens ts).accepts ∨
      limit < 5 + 5 * ts.length ∧
        ∃ position, verdictOn limit ts = .error (.nesting position none) := by
  have hfault : (Tape.mk ts none none false).fault = none := rfl
  rcases recognize_atStart limit .default hfault with ⟨r, hrec, -⟩ | ⟨many, position, r, hrec⟩
  · exact .inl (by rw [verdictOn, hrec]; rfl)
  · exact .inr ⟨many, position, by rw [verdictOn, hrec]; rfl⟩

/-- A limit that allows five rules for each token and five more is not exceeded. -/
theorem verdictOn_of_le (h : 5 + 5 * ts.length ≤ limit) :
    verdictOn limit ts = .ok (Pass.ofTokens ts).accepts :=
  (verdictOn_cases limit ts).resolve_right fun ⟨hlt, _⟩ => by omega

theorem exists_verdictOn_iff {accepted : Bool} :
    (∃ limit, verdictOn limit ts = .ok accepted) ↔ (Pass.ofTokens ts).accepts = accepted := by
  constructor
  · rintro ⟨limit, h⟩
    rcases verdictOn_cases limit ts with hverdict | ⟨-, position, hnested⟩
    · exact Except.ok.inj (hverdict.symm.trans h)
    · rw [hnested] at h
      cases h
  · rintro rfl
    exact ⟨_, verdictOn_of_le (Nat.le_refl _)⟩

/-- A verdict under one limit is the verdict under every other one that is not exceeded. -/
theorem verdictOn_of_exists {accepted : Bool} (h : ∃ limit, verdictOn limit ts = .ok accepted)
    (limit : Nat) : verdictOn limit ts = .ok accepted ∨
      limit < 5 + 5 * ts.length ∧
        ∃ position, verdictOn limit ts = .error (.nesting position none) := by
  rw [← exists_verdictOn_iff.mp h]
  exact verdictOn_cases limit ts

/-- Of acceptance and rejection there is always one, and never both. -/
theorem rejected_iff_not_accepted : Rejected ts ↔ ¬ Accepted ts := by
  rw [Rejected, Accepted, exists_verdictOn_iff, exists_verdictOn_iff, Bool.not_eq_true]

theorem accepted_iff_run :
    Accepted ts ↔ run infixes ⟨0, .operand⟩ (kindsOf ts) = some done :=
  exists_verdictOn_iff.trans Pass.accepts_onward_iff

instance (ts : List Token) : Decidable (Accepted ts) := decidable_of_iff' _ accepted_iff_run

theorem accepted_iff_derives : Accepted ts ↔ Derives .e (kindsOf ts) := by
  rw [accepted_iff_run, derives_iff_run]
  exact (and_iff_left fun _ _ => List.not_mem_nil).symm

/-- A byte string is accepted, if the limit allows it, if and only if it scans without a fault and
its tokens are accepted. -/
theorem accepted_iff_ofStream (settings : Settings) (bytes : List UInt8) (file : Option String) :
    (∃ limit, (ofStream limit settings (.ofBytes bytes) file).verdict = .ok true) ↔
      ∃ ts, tokens bytes file = .ok ts ∧ Accepted ts := by
  have htape := complete_freshTape settings bytes file
  constructor
  · rintro ⟨limit, haccept⟩
    obtain ⟨hfault, hsentence⟩ :=
      (ofStream_course limit settings bytes file).sentence_of_accepts haccept
    exact ⟨_, htape.symm.trans (complete_eq_ok_iff.mpr ⟨hfault, rfl⟩),
      accepted_iff_derives.mpr hsentence⟩
  · rintro ⟨ts, hts, haccepted⟩
    obtain ⟨hfault, rfl⟩ := complete_eq_ok_iff.mp (htape.trans hts)
    have hrun := accepted_iff_run.mp haccepted
    refine ⟨5 + 5 * (freshTape settings bytes file).tokens.length, ?_⟩
    cases ofStream_course (5 + 5 * (freshTape settings bytes file).tokens.length) settings bytes
      file with
    | accepted _ _ verdict => exact verdict
    | unfinished _ hrun' ne => exact absurd (Option.some.inj (hrun'.symm.trans hrun)) ne
    | faulty fault => rw [hfault] at fault; cases fault
    | nested many => omega
    | refused split hrun' stuck =>
      rw [split, kindsOf_append] at hrun
      simp [run_append, hrun', stuck] at hrun

end ArithCheck
