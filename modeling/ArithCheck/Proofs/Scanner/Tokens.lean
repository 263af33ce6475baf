import ArithCheck.Examination
import ArithCheck.Proofs.Lexicon.LongestMatch
import ArithCheck.Proofs.Scanner.Tape

/-!
# The tokens of a byte string

`tokens_of_cuts` gives the answer of `tokens` to an input that is cut into lexemes. Together with
the longest matches of the lexicon it becomes `tokens_longestMatch`: a byte string scans without a
fault if and only if it is a sequence of longest lexemes, and its tokens are those of the lexemes.
-/

namespace ArithCheck.Arithmetic

open Token (Kind)

/-- The answer of `tokens` that belongs to an ending. -/
def answerOf (ts : List Token) : Option Fault → Except Fault (List Token)
  | none => .ok ts
  | some fault => .error fault

theorem tokens_of_cuts {bytes z : List UInt8} {file : Option String} {ps : List Piece}
    {fault : Option Fault} (hcuts : Cuts bytes ps z)
    (hend : Ending file (Position.start.advance (bytesOf ps)) z fault) :
    tokens bytes file = answerOf (tokensOf file .start ps) fault := by
  have htape := (Scanner.ready_ofBytes bytes file false).tape_of_cuts hcuts hend
  rw [tokens, htape]
  cases fault <;> rfl

theorem Ending.eq_nil {file : Option String} {p : Position} {z : List UInt8}
    (h : Ending file p z none) : z = [] := by
  cases h; rfl

/-- The tokens of a whole longest match. -/
theorem LongestMatch.tokens_eq {bytes : List UInt8} {ps : List Piece}
    (h : LongestMatch bytes ps []) (file : Option String) :
    tokens bytes file = .ok (tokensOf file .start ps) :=
  tokens_of_cuts ((longestMatch_iff_cuts (by simp)).mp h) .complete

/-- A byte string scans without a fault only if it is a longest match. -/
theorem longestMatch_of_tokens {bytes : List UInt8} {file : Option String} {ts : List Token}
    (h : tokens bytes file = .ok ts) : ∃ ps, LongestMatch bytes ps [] := by
  obtain ⟨ps, z, fault, hcuts, hend⟩ := exists_cuts_ending file .start bytes
  rw [tokens_of_cuts hcuts hend] at h
  cases fault with
  | some fault => cases h
  | none => exact ⟨ps, hend.eq_nil ▸ hcuts.longestMatch⟩

/-- Every fault of a byte string is a lexical one. -/
theorem lexical_of_tokens {bytes : List UInt8} {file : Option String} {fault : Fault}
    (h : tokens bytes file = .error fault) : ∃ cause place, fault = .lexical cause place file := by
  obtain ⟨ps, z, ending, hcuts, hend⟩ := exists_cuts_ending file .start bytes
  rw [tokens_of_cuts hcuts hend] at h
  cases ending with
  | none => cases h
  | some f => cases h; exact hend.fault_lexical

theorem exists_error_of_no_match {bytes : List UInt8} {file : Option String}
    (h : ¬ ∃ ps, LongestMatch bytes ps []) :
    ∃ cause place, tokens bytes file = .error (.lexical cause place file) := by
  cases ht : tokens bytes file with
  | ok ts => exact absurd (longestMatch_of_tokens ht) h
  | error fault =>
    obtain ⟨cause, place, rfl⟩ := lexical_of_tokens ht
    exact ⟨cause, place, rfl⟩

/-- The tokens hold the kinds and the bytes of the lexemes. -/
theorem contents_tokensOf {bytes z : List UInt8} {ps : List Piece} (h : Cuts bytes ps z)
    (file : Option String) (p : Position) :
    (tokensOf file p ps).map (fun t => (t.kind, Text.Utf8.encode t.value)) =
      ps.filterMap fun piece => piece.kind.map (·, piece.bytes) := by
  induction h generalizing p with
  | done => rfl
  | @piece w rest z q ps hq _ _ _ ih =>
    have hw := Text.Utf8.encode_ascii (State.ascii_of_reach hq)
    cases hk : q.kind? <;> simp [tokensOf, ih, hw]

/-- Scanning is longest match: a byte string has tokens if and only if it is a sequence of lexemes
each of which is the longest one at its place; this sequence is unique, and the tokens have the
kinds and the bytes of those of its lexemes that are no blanks. Every other byte string is a
lexical fault. A search that tries all lengths at each place finds the same lexemes. -/
theorem tokens_longestMatch (bytes : List UInt8) (file : Option String) :
    ((∃ ts, tokens bytes file = .ok ts) ↔ ∃ ps, LongestMatch bytes ps []) ∧
    (∀ ps qs, LongestMatch bytes ps [] → LongestMatch bytes qs [] → ps = qs) ∧
    (∀ ps ts, LongestMatch bytes ps [] → tokens bytes file = .ok ts →
      ts.map (fun t => (t.kind, Text.Utf8.encode t.value)) =
        ps.filterMap fun p => p.kind.map (·, p.bytes)) ∧
    ((¬ ∃ ps, LongestMatch bytes ps []) →
      ∃ cause place, tokens bytes file = .error (.lexical cause place file)) ∧
    (match backtrack bytes with
      | some ps => tokens bytes file = .ok (tokensOf file .start ps)
      | none => ∃ cause place, tokens bytes file = .error (.lexical cause place file)) := by
  refine ⟨⟨fun ⟨_, h⟩ => longestMatch_of_tokens h, fun ⟨_, h⟩ => ⟨_, h.tokens_eq file⟩⟩,
    fun _ _ h h' => h.unique h', fun ps ts h ht => ?_, exists_error_of_no_match, ?_⟩
  · obtain rfl := Except.ok.inj ((h.tokens_eq file).symm.trans ht)
    exact contents_tokensOf (h.cuts (by simp)) file .start
  · cases hb : backtrack bytes with
    | some ps => exact (backtrack_eq_some_iff.mp hb).tokens_eq file
    | none =>
      refine exists_error_of_no_match fun ⟨ps, h⟩ => ?_
      simp [backtrack_eq_some_iff.mpr h] at hb

end ArithCheck.Arithmetic
