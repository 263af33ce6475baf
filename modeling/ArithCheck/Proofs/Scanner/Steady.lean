import ArithCheck.Tape

/-!
# What scanning leaves alone

Whatever the automaton and the stream of a scanner are, taking lexemes and handing out tokens never
changes them for others, nor the name of the file, nor whether tokens are traced.

* `Steady`: the scanner differs in what it has read and in where it stands, and in nothing else;
* `steady_munch`, `steady_nextToken`, `steady_wind`: so it is after a lexeme, a token or all of
  them, also when that has failed.
-/

namespace ArithCheck

/-- The state in which a computation ends. -/
def finalState {ε σ α : Type} : EStateM.Result ε σ α → σ
  | .ok _ s => s
  | .error _ s => s

/-- The value or the fault in which a computation ends. -/
def outcome {ε σ α : Type} : EStateM.Result ε σ α → Except ε α
  | .ok a _ => .ok a
  | .error fault _ => .error fault

namespace Scanner

variable {s s' : Scanner}

/-- Two scanners with the same automaton, names and settings over streams that are both open or
both closed. -/
structure Steady (s s' : Scanner) : Prop where
  automaton : s'.automaton = s.automaton
  file : s'.file = s.file
  tracing : s'.tracing = s.tracing
  closed : s'.stream.closed = s.stream.closed

theorem Steady.refl (s : Scanner) : s.Steady s := ⟨rfl, rfl, rfl, rfl⟩

theorem Steady.opened (h : s.Steady s') (ho : s.stream.closed = false) : s'.stream.closed = false :=
  h.closed.trans ho

theorem Steady.start_not_final (h : s.Steady s')
    (hstart : s.automaton.isFinal s.automaton.start = false) :
    s'.automaton.isFinal s'.automaton.start = false := by
  rw [h.automaton]
  exact hstart

theorem Steady.trans {s'' : Scanner} (h : s.Steady s') (h' : s'.Steady s'') : s.Steady s'' where
  automaton := h'.automaton.trans h.automaton
  file := h'.file.trans h.file
  tracing := h'.tracing.trans h.tracing
  closed := h'.closed.trans h.closed

theorem steady_after (s : Scanner) (t : Automaton.Trail) (pending : Option Symbol) :
    s.Steady { s.after t with pending := pending } := ⟨rfl, rfl, rfl, rfl⟩

/-- A lexeme. -/
theorem steady_munch (s : Scanner) : s.Steady (finalState s.munch) := by
  have htaken : s.Steady (s.after s.trail) := s.steady_after s.trail none
  have hheld := s.steady_after s.trail
  simp only [munch]
  cases s.symbolAfter s.trail with
  | error fault => exact htaken
  | ok symbol =>
    dsimp only
    cases s.automaton.step s.trail.state symbol with
    | error fault => exact htaken
    | ok _ =>
      dsimp only
      split
      · cases s.automaton.tag s.trail.state <;> exact hheld (some symbol)
      split
      · exact hheld (some symbol)
      · exact htaken

theorem steady_of_munch {tag : Option Int} (h : s.munch = .ok tag s') : s.Steady s' := by
  have hmunch := s.steady_munch
  rwa [h] at hmunch

theorem steady_nextTokenWithin (bound : List UInt8) (s : Scanner) :
    s.Steady (finalState (s.nextTokenWithin bound)) := by
  induction bound generalizing s with
  | nil => exact .refl s
  | cons c bound ih =>
    have hmunch := s.steady_munch
    rw [nextTokenWithin]
    split
    · exact .refl s
    cases hm : s.munch with
    | error fault s' => rwa [hm] at hmunch
    | ok tag s' =>
      rw [hm] at hmunch
      cases tag with
      | none => exact hmunch
      | some tag =>
        dsimp only
        split
        · exact hmunch.trans (ih s')
        · cases s'.tokenOf s.position tag <;> exact hmunch

/-- A token. -/
theorem steady_nextToken (s : Scanner) : s.Steady (finalState s.nextToken) :=
  steady_nextTokenWithin s.bound s

theorem steady_of_nextToken {token : Option Token} (h : s.nextToken = .ok token s') :
    s.Steady s' := by
  have hnext := s.steady_nextToken
  rwa [h] at hnext

/-- All tokens, and their tape is of the same file and is traced if the scanner is. -/
theorem steady_windWithin (bound : List UInt8) (s : Scanner) :
    s.Steady (s.windWithin bound).2 ∧ (s.windWithin bound).1.file = s.file ∧
      (s.windWithin bound).1.tracing = s.tracing := by
  induction bound generalizing s with
  | nil => exact ⟨.refl s, rfl, rfl⟩
  | cons c bound ih =>
    have hnext := s.steady_nextToken
    rw [windWithin]
    cases hn : s.nextToken with
    | error fault s' =>
      rw [hn] at hnext
      exact ⟨hnext, hnext.file, hnext.tracing⟩
    | ok token s' =>
      rw [hn] at hnext
      cases token with
      | none => exact ⟨hnext, hnext.file, hnext.tracing⟩
      | some t =>
        obtain ⟨hrest, hfile, htracing⟩ := ih s'
        exact ⟨hnext.trans hrest, hfile.trans hnext.file, htracing.trans hnext.tracing⟩

theorem steady_wind (s : Scanner) : s.Steady s.wind.2 := (steady_windWithin s.bound s).1

theorem tape_file (s : Scanner) : s.tape.file = s.file := (steady_windWithin s.bound s).2.1

theorem tape_tracing (s : Scanner) : s.tape.tracing = s.tracing :=
  (steady_windWithin s.bound s).2.2

end Scanner

end ArithCheck
