import ArithCheck.Proofs.Lexicon.Lexeme

/-!
# Walks of the lexicon

The transitions of arithmetic, put in terms of the bytes that they let through.

* `walk_cons`: a walk goes on through the states that the transitions lead to;
* `zero_mem_walk`, `getLast?_walk`: it meets 0 where nothing may follow, and ends in the state that
  the bytes lead to otherwise;
* `exists_spells_iff`, `State.Spells.isFinal_iff`: what the states spell, and what the final ones
  do;
* `walk_start`: all of it for walks from the start.
-/

namespace ArithCheck.Arithmetic

open Token (Kind)

variable {s q : State} {w : List UInt8}

/-! ## The states of a walk -/

/-- A walk goes on where the transitions of its state lead, or meets 0. -/
theorem walk_cons (s : State) (b : UInt8) (rest : List UInt8) :
    walk s.code (b :: rest) = match s.next? b with
      | none => [s.code, 0]
      | some t => s.code :: walk t.code rest := by
  simp only [walk, successor_code]
  cases s.next? b with
  | none => rfl
  | some t => simp [State.code_ne_zero]

/-- But for 0, a walk meets nothing but numbers of states. -/
theorem mem_walk {n : Int} (h : n ∈ walk s.code w) : n = 0 ∨ n ∈ State.all.map State.code := by
  have hcode : ∀ t : State, t.code ∈ State.all.map State.code := fun t =>
    List.mem_map_of_mem t.mem_all
  induction w generalizing s with
  | nil =>
    obtain rfl := List.mem_singleton.mp h
    exact .inr (hcode s)
  | cons b rest ih =>
    rw [walk_cons] at h
    cases hnext : s.next? b with
    | none =>
      simp only [hnext, List.mem_cons, List.not_mem_nil, or_false] at h
      rcases h with rfl | rfl
      · exact .inr (hcode s)
      · exact .inl rfl
    | some t =>
      simp only [hnext, List.mem_cons] at h
      rcases h with rfl | h
      · exact .inr (hcode s)
      · exact ih h

/-- A walk meets 0 if one of the bytes may not follow. -/
theorem zero_mem_walk : 0 ∈ walk s.code w ↔ s.reach w = none := by
  induction w generalizing s with
  | nil => simp [walk, Ne.symm s.code_ne_zero]
  | cons b rest ih =>
    rw [walk_cons, State.reach_cons]
    cases s.next? b with
    | none => simp
    | some t => simpa [Ne.symm s.code_ne_zero] using ih

/-- Otherwise it ends in the state that the bytes lead to. -/
theorem getLast?_walk (h : s.reach w = some q) : (walk s.code w).getLast? = some q.code := by
  induction w generalizing s with
  | nil =>
    obtain rfl : s = q := Option.some.inj h
    rfl
  | cons b rest ih =>
    obtain ⟨t, hnext, hrest⟩ := Option.bind_eq_some_iff.mp h
    rw [walk_cons, hnext]
    simp only [List.getLast?_cons, ih hrest, Option.getD_some]

/-- The successors, one after the other, lead to this state too. -/
theorem foldlM_successor (h : s.reach w = some q) :
    w.foldlM (fun n b => successor n b.toNat) s.code = .ok q.code := by
  induction w generalizing s with
  | nil =>
    obtain rfl : s = q := Option.some.inj h
    rfl
  | cons b rest ih =>
    obtain ⟨t, hnext, hrest⟩ := Option.bind_eq_some_iff.mp h
    rw [List.foldlM_cons, successor_code, hnext]
    exact ih hrest

/-! ## What the states spell -/

/-- Bytes spell one state only. -/
theorem State.Spells.unique {p : State} (hp : p.Spells w) (hq : q.Spells w) : p = q :=
  Option.some.inj ((reach_of_spells hp).symm.trans (reach_of_spells hq))

/-- The bytes that spell a state. -/
theorem exists_spells_iff : (∃ q : State, q.Spells w) ↔
    w = [] ∨ RunOf isDigit w ∨ (∃ ds, RunOf isDigit ds ∧ w = ds ++ [0x2E]) ∨
      (∃ ds es, RunOf isDigit ds ∧ RunOf isDigit es ∧ w = ds ++ 0x2E :: es) ∨
      RunOf isLetter w ∨ (∃ e ∈ punctuation, w = [e.1]) ∨ RunOf isBlank w := by
  constructor
  · rintro ⟨q, hq⟩
    cases q with
    | start => exact .inl hq
    | integer => exact .inr (.inl hq)
    | point => exact .inr (.inr (.inl hq))
    | fraction => exact .inr (.inr (.inr (.inl hq)))
    | identifier => exact .inr (.inr (.inr (.inr (.inl hq))))
    | blank => exact .inr (.inr (.inr (.inr (.inr (.inr hq)))))
    | _ =>
      subst hq
      exact .inr (.inr (.inr (.inr (.inr (.inl (by simp [punctuation]))))))
  · rintro (h | h | h | h | h | ⟨⟨b, k⟩, hb, rfl⟩ | h)
    · exact ⟨.start, h⟩
    · exact ⟨.integer, h⟩
    · exact ⟨.point, h⟩
    · exact ⟨.fraction, h⟩
    · exact ⟨.identifier, h⟩
    · obtain ⟨q, hq, -, -⟩ := lexeme_iff.mp (.punctuation hb)
      exact ⟨q, State.spells_of_reach hq⟩
    · exact ⟨.blank, h⟩

/-- The final states are those that spell something other than digits and a point. -/
theorem State.Spells.isFinal_iff (hq : q.Spells w) :
    q.isFinal = true ↔ w ≠ [] ∧ ¬ ∃ ds, RunOf isDigit ds ∧ w = ds ++ [0x2E] := by
  have hstart : w = [] ↔ q = .start :=
    ⟨fun h => hq.unique (p := q) (q := .start) h, by rintro rfl; exact hq⟩
  have hpoint : (∃ ds, RunOf isDigit ds ∧ w = ds ++ [0x2E]) ↔ q = .point :=
    ⟨fun h => hq.unique (p := q) (q := .point) h, by rintro rfl; exact hq⟩
  rw [ne_eq, hstart, hpoint]
  cases q <;> decide

/-- The tag of a final state is that of its kind, and 0 if its lexemes make no tokens. -/
theorem State.tag_eq_of_isFinal (h : q.isFinal = true) : q.tag = q.kind?.elim 0 Kind.tag := by
  cases q with
  | start | point => cases h
  | _ => rfl

theorem finals_contains (q : State) : finals.contains q.code = q.isFinal :=
  arithmetic_isFinal q

/-! ## Walks from the start -/

/-- A walk from the start does not meet 0 just if the bytes are none, digits, digits and a point,
digits, a point and digits, letters, an operator or a bracket, or blanks, and it never meets
anything else that is not the number of a state. If it does not meet 0 the successors lead to the
state that it ends in, which spells the bytes and is the only one that does. It is final unless
there are no bytes or digits and a point, and then its value is the tag of the token that the bytes
make, and 0 for blanks. -/
theorem walk_start (w : List UInt8) :
    (0 ∉ walk State.start.code w ↔
      w = [] ∨ RunOf isDigit w ∨ (∃ ds, RunOf isDigit ds ∧ w = ds ++ [0x2E]) ∨
        (∃ ds es, RunOf isDigit ds ∧ RunOf isDigit es ∧ w = ds ++ 0x2E :: es) ∨
        RunOf isLetter w ∨ (∃ e ∈ punctuation, w = [e.1]) ∨ RunOf isBlank w) ∧
    (∀ n ∈ walk State.start.code w, n = 0 ∨ n ∈ State.all.map State.code) ∧
    (0 ∉ walk State.start.code w → ∃ q : State,
      (walk State.start.code w).getLast? = some q.code ∧
      w.foldlM (fun n b => successor n b.toNat) State.start.code = .ok q.code ∧
      q.code ∈ State.all.map State.code ∧ (∀ p : State, p.Spells w ↔ p = q) ∧
      (finals.contains q.code = true ↔
        w ≠ [] ∧ ¬ ∃ ds, RunOf isDigit ds ∧ w = ds ++ [0x2E]) ∧
      (finals.contains q.code = true →
        ∃ k, Lexeme w k ∧ value q.code = .ok (k.elim 0 Kind.tag))) := by
  have hzero : 0 ∉ walk State.start.code w ↔ ∃ q : State, q.Spells w := by
    rw [zero_mem_walk, ← ne_eq, Option.ne_none_iff_exists']
    exact exists_congr fun q => State.reach_start_iff
  refine ⟨hzero.trans exists_spells_iff, fun n => mem_walk, fun h => ?_⟩
  obtain ⟨q, hq⟩ := hzero.mp h
  have hreach : State.start.reach w = some q := State.reach_start_iff.mpr hq
  refine ⟨q, getLast?_walk hreach, foldlM_successor hreach, List.mem_map_of_mem q.mem_all,
    fun p => ⟨fun hp => hp.unique hq, fun hp => hp ▸ hq⟩, ?_, fun hf => ⟨q.kind?, ?_, ?_⟩⟩
  · rw [finals_contains, hq.isFinal_iff]
  · exact lexeme_iff.mpr ⟨q, hreach, finals_contains q ▸ hf, rfl⟩
  · rw [value_code, State.tag_eq_of_isFinal (finals_contains q ▸ hf)]

/-- The walk of `3.1` goes through four states to a final one, whose value is that of numbers. -/
theorem walk_start_decimal : 0 ∉ walk State.start.code [0x33, 0x2E, 0x31] ∧ ∃ q : State,
    (walk State.start.code [0x33, 0x2E, 0x31]).getLast? = some q.code ∧
      finals.contains q.code = true ∧ q = .fraction ∧ value q.code = .ok Kind.float.tag := by
  have hzero : 0 ∉ walk State.start.code [0x33, 0x2E, 0x31] := by decide
  have hthree : RunOf isDigit [0x33] := runOf_singleton rfl
  have hone : RunOf isDigit [0x31] := runOf_singleton rfl
  obtain ⟨q, hlast, -, -, hspells, -, hvalue⟩ := (walk_start [0x33, 0x2E, 0x31]).2.2 hzero
  obtain rfl : State.fraction = q := (hspells .fraction).mp ⟨[0x33], [0x31], hthree, hone, rfl⟩
  obtain ⟨k, hk, hv⟩ := hvalue (by decide)
  obtain rfl : k = some .float := hk.kind_unique (.fraction hthree hone)
  exact ⟨hzero, .fraction, hlast, by decide, rfl, hv⟩

end ArithCheck.Arithmetic
