import ArithCheck.Proofs.Scanner.Munch

/-!
# Maximal munch, whatever the lexicon

One lexeme of a scanner with any lawful automaton is the longest part of the remaining input that
the automaton can follow, final or not: the scanner does not go back to a shorter part.

* `Leaves`: how a lexeme leaves a scanner;
* `maximal_munch`: which of the three outcomes it has, and when it is the longest lexeme.
-/

namespace ArithCheck.Scanner

open Automaton (Accepts Lawful Table)

variable {s s' : Scanner} {states : Set Int}

/-- A scanner after the bytes `w` are taken from it into the lexeme, with `rest` behind them: the
lexeme is `w` and nothing else, the position counts `w`, and what is still to be scanned is
`rest`, of which no more is read than the symbol held back, if there is one. -/
structure Leaves (s : Scanner) (w : List UInt8) (pending : Option Symbol) (rest : List UInt8)
    (s' : Scanner) : Prop where
  automaton : s'.automaton = s.automaton
  same : s.Continues s'
  buffer : s'.buffer = w
  position : s'.position = s.position.advance w
  pending : s'.pending = pending
  input : s'.input = rest

theorem leaves_beyond (ho : s.stream.closed = false) : s.Leaves s.trail.lexeme
    (some (.front s.trail.rest)) s.trail.rest (s.beyond s.trail) :=
  ⟨rfl, s.continues_beyond _, rfl, rfl, rfl, input_beyond ho s.trail_append⟩

theorem leaves_after (ho : s.stream.closed = false) (hend : ¬ s.atEnd = true) :
    s.Leaves s.trail.lexeme none (s.trail.rest.drop 1) (s.after s.trail) :=
  ⟨rfl, s.continues_after _, rfl, rfl, rfl, input_after ho (absurd · hend) s.trail_append⟩

/-- All that is accepted of the input is part of the trail. -/
theorem prefix_trail {v : List UInt8} (hv : v <+: s.input) (h : s.automaton.Accepts v) :
    v <+: s.trail.lexeme := by
  obtain ⟨q, hq, -⟩ := h
  exact Automaton.prefix_follow hv hq

/-- Maximal munch. Let `w` be the longest part of the remaining input along which the automaton
runs, which it does up to the state `q`. One lexeme takes exactly `w`. If `q` is final its tag is
the answer, and the symbol behind `w` is held back. If it is not, and the input ends in the state in
which lexemes start, there is no lexeme, and the end is held back. Otherwise there is a fault behind
`w`; nothing is held back, and the byte at fault is lost, if it is one. So the answer is a tag only
for the longest part of the input that is accepted; and there is one whenever a part is accepted
that is not empty, if all states are final that bytes lead to from the start. -/
theorem maximal_munch (ha : s.automaton.Lawful states) (ho : s.stream.closed = false) :
    ∃ w q rest, s.input = w ++ rest ∧ s.automaton.run s.automaton.start w = some q ∧
      (∀ v, v <+: s.input → (s.automaton.run s.automaton.start v).isSome = true → v <+: w) ∧
      (s.automaton.isFinal q = true → ∃ tag s', s.automaton.tag q = .ok tag ∧
        s.munch = .ok (some tag) s' ∧ s.Leaves w (some (.front rest)) rest s') ∧
      (s.automaton.isFinal q = false → rest = [] → q = s.automaton.start →
        ∃ s', s.munch = .ok none s' ∧ s.Leaves w (some .endOfStream) [] s') ∧
      (s.automaton.isFinal q = false → rest ≠ [] ∨ q ≠ s.automaton.start →
        ∃ cause s', s.munch = .error (.lexical cause (s.position.advance w) s.file) s' ∧
          s.Leaves w none (rest.drop 1) s') ∧
      (∀ tag s', s.munch = .ok (some tag) s' →
        s.automaton.Accepts w ∧ ∀ v, v <+: s.input → s.automaton.Accepts v → v <+: w) ∧
      ((∀ v p, v ≠ [] → s.automaton.run s.automaton.start v = some p →
          s.automaton.isFinal p = true) →
        (∃ v, v ≠ [] ∧ v <+: s.input ∧ s.automaton.Accepts v) →
        ∃ tag s', s.munch = .ok (some tag) s' ∧ s.Leaves w (some (.front rest)) rest s') := by
  have hrun : s.automaton.run s.automaton.start s.trail.lexeme = some s.trail.state :=
    s.automaton.run_follow s.automaton.start s.input
  refine ⟨s.trail.lexeme, s.trail.state, s.trail.rest, s.trail_append.symm, hrun,
    fun v hv hsome => ?_, fun hf => ?_, fun hf hrest hstart => ?_, fun hf hgo => ?_,
    fun tag s' hmunch => ?_, fun hfinal hsome => ?_⟩
  · obtain ⟨p, hp⟩ := Option.isSome_iff_exists.mp hsome
    exact Automaton.prefix_follow hv hp
  · obtain ⟨tag, htag, hmunch⟩ := munch_tag ha ho hf
    exact ⟨tag, _, htag, hmunch, leaves_beyond ho⟩
  · have hleaves := leaves_beyond ho
    rw [hrest] at hleaves
    exact ⟨_, munch_end ha ho hf hrest hstart, hleaves⟩
  · exact ⟨_, _, munch_stuck ha ho hf hgo, leaves_after ho (not_atEnd_of_trail hgo)⟩
  · obtain ⟨-, hf, -⟩ := munch_ok hmunch
    exact ⟨⟨_, hrun, hf⟩, fun v hv hv' => prefix_trail hv hv'⟩
  · obtain ⟨v, hne, hv, hv'⟩ := hsome
    have hw : s.trail.lexeme ≠ [] := fun hnil => by
      have hpart := prefix_trail hv hv'
      rw [hnil] at hpart
      exact hne (List.prefix_nil.mp hpart)
    obtain ⟨tag, -, hmunch⟩ := munch_tag ha ho (hfinal _ _ hw hrun)
    exact ⟨tag, _, hmunch, leaves_beyond ho⟩

/-- The lexicon of runs of the letter `a`, which are variables. -/
def runsOfA : Table where
  start := 1
  final := [2]
  edges := [⟨1, 0x61, 0x61, 2⟩, ⟨2, 0x61, 0x61, 2⟩]
  tags := [(2, 2)]
  exhausted := []

/-- With that lexicon every state but the start is final; of `aab` both letters `a` are taken. -/
theorem maximal_munch_runsOfA :
    let s := Scanner.ofBytes runsOfA.automaton [0x61, 0x61, 0x62] none false
    s.automaton.Lawful runsOfA.declared ∧ s.stream.closed = false ∧
      (∀ v p, v ≠ [] → s.automaton.run s.automaton.start v = some p →
        s.automaton.isFinal p = true) ∧
      ∃ tag s', s.munch = .ok (some tag) s' ∧ [0x61, 0x61] <+: s'.buffer := by
  intro s
  have ha : s.automaton.Lawful runsOfA.declared := Table.lawful (by decide) rfl
  have hfinal : ∀ v p, v ≠ [] → s.automaton.run s.automaton.start v = some p →
      s.automaton.isFinal p = true := by
    intro v p hv hp
    have hedges : ∀ e ∈ runsOfA.edges, runsOfA.automaton.isFinal e.target = true := by decide
    obtain ⟨e, he, rfl⟩ := Table.edge_of_run hv hp
    exact hedges e he
  have haccepts : s.automaton.Accepts [0x61] := ⟨2, by decide, by decide⟩
  obtain ⟨w, q, rest, -, -, hlongest, -, -, -, -, hsome⟩ := maximal_munch ha rfl
  obtain ⟨tag, s', hmunch, hleaves⟩ :=
    hsome hfinal ⟨[0x61], by decide, by decide, haccepts⟩
  refine ⟨ha, rfl, hfinal, tag, s', hmunch, ?_⟩
  rw [hleaves.buffer]
  exact hlongest [0x61, 0x61] (by decide) (by decide)

end ArithCheck.Scanner
