import ArithCheck.Proofs.Scanner.Munch

/-!
# The tape of a scanner

A scanner that is ready hands out the tokens of its input one after the other, and what it hands
out from then on is the rest of its tape: `tape_token`, `tape_none` and `tape_fault` say what
each call of `nextToken` does to the tape. `tape_of_cuts` gives the whole tape of an input that is
cut into lexemes: the tokens of the lexemes at their positions, and the fault of the ending.
-/

namespace ArithCheck.Scanner

open Arithmetic (arithmetic State Piece Cuts Ending tokensOf bytesOf)

variable {s s' : Scanner}

/-! ## Any automaton -/

/-- A token takes a byte. -/
theorem nextTokenWithin_input_lt {bound : List UInt8} {t : Token}
    (hstart : s.automaton.isFinal s.automaton.start = false)
    (h : s.nextTokenWithin bound = .ok (some t) s') : s'.input.length < s.input.length := by
  induction bound generalizing s with
  | nil => cases h
  | cons c bound ih =>
    rw [nextTokenWithin] at h
    split at h
    · simp at h
    cases hm : s.munch with
    | error fault s₁ => simp [hm] at h
    | ok tag s₁ =>
      cases tag with
      | none => simp [hm] at h
      | some tag =>
        have hsteady := steady_of_munch hm
        have hlt := munch_input_lt hstart hm
        simp only [hm] at h
        split at h
        · have hrest := ih (hsteady.start_not_final hstart) h
          omega
        · split at h
          · simp at h
          · cases h
            exact hlt

/-- Where there is no token the end has been met. -/
theorem atEnd_of_nextTokenWithin {bound : List UInt8}
    (h : s.nextTokenWithin bound = .ok none s') : s'.atEnd = true := by
  induction bound generalizing s with
  | nil => cases h
  | cons c bound ih =>
    rw [nextTokenWithin] at h
    split at h
    · cases h
      assumption
    cases hm : s.munch with
    | error fault s₁ => simp [hm] at h
    | ok tag s₁ =>
      cases tag with
      | none =>
        simp only [hm] at h
        cases h
        exact atEnd_of_munch_none hm
      | some tag =>
        simp only [hm] at h
        split at h
        · exact ih h
        · split at h <;> simp at h

theorem input_lt_bound (s : Scanner) : s.input.length < s.bound.length := by
  have hheld := s.length_held_le
  have havail : s.available.length ≤ s.stream.unread.length := by
    simp only [available]; split <;> simp
  simp only [input, bound, List.length_append, List.length_cons]
  omega

/-- A lexeme with the tag 0 is passed over. -/
theorem nextToken_dropped (hstart : s.automaton.isFinal s.automaton.start = false)
    (hend : ¬ s.atEnd = true) (h : s.munch = .ok (some 0) s') : s.nextToken = s'.nextToken := by
  have hsteady := steady_of_munch h
  have hlt := munch_input_lt hstart h
  have hlong := s.input_lt_bound
  rw [nextToken, nextToken, bound, nextTokenWithin, if_neg hend, h]
  dsimp only
  rw [if_pos rfl]
  refine nextTokenWithin_congr (hsteady.start_not_final hstart) ?_ s'.input_lt_bound
  simp only [bound, List.length_cons] at hlong ⊢
  omega

/-- A lexeme with another tag is the next token, if it makes one. -/
theorem nextToken_kept {tag : Int} (hend : ¬ s.atEnd = true) (htag : ¬ tag = 0)
    (h : s.munch = .ok (some tag) s') :
    s.nextToken = match s'.tokenOf s.position tag with
      | .error fault => .error fault s'
      | .ok token => .ok (some token) s' := by
  rw [nextToken, bound, nextTokenWithin, if_neg hend, h]
  exact if_neg htag

theorem nextToken_of_munch_none (hend : ¬ s.atEnd = true) (h : s.munch = .ok none s') :
    s.nextToken = .ok none s' := by
  rw [nextToken, bound, nextTokenWithin, if_neg hend, h]

theorem nextToken_of_munch_error {fault : Fault} (hend : ¬ s.atEnd = true)
    (h : s.munch = .error fault s') : s.nextToken = .error fault s' := by
  rw [nextToken, bound, nextTokenWithin, if_neg hend, h]

theorem nextToken_of_atEnd (hend : s.atEnd = true) : s.nextToken = .ok none s := by
  rw [nextToken, bound, nextTokenWithin, if_pos hend]

/-- A bound that is longer than the input does not matter. -/
theorem windWithin_congr {bound bound' : List UInt8}
    (hstart : s.automaton.isFinal s.automaton.start = false)
    (hb : s.input.length < bound.length) (hb' : s.input.length < bound'.length) :
    s.windWithin bound = s.windWithin bound' := by
  induction bound generalizing s bound' with
  | nil => simp at hb
  | cons c bound ih =>
    cases bound' with
    | nil => simp at hb'
    | cons c' bound' =>
      simp only [windWithin]
      cases hn : s.nextToken with
      | error fault s' => rfl
      | ok t s' =>
        cases t with
        | none => rfl
        | some t =>
          have hsteady := steady_of_nextToken hn
          have hlt := nextTokenWithin_input_lt hstart hn
          simp only [List.length_cons] at hb hb'
          have hrest : s'.windWithin bound = s'.windWithin bound' :=
            ih (hsteady.start_not_final hstart) (by omega) (by omega)
          dsimp only
          rw [hrest]

/-- What is handed out after a token is the rest of the tape. -/
theorem tape_token {t : Token} (hstart : s.automaton.isFinal s.automaton.start = false)
    (h : s.nextToken = .ok (some t) s') :
    s.tape = { s'.tape with tokens := t :: s'.tape.tokens } := by
  have hsteady := steady_of_nextToken h
  have hlt := nextTokenWithin_input_lt hstart h
  have hb : s'.input.length < (0 :: s.stream.unread).length := by
    have := s.input_lt_bound
    simp only [bound, List.length_cons] at this ⊢
    omega
  have hw : s'.windWithin (0 :: s.stream.unread) = s'.wind :=
    windWithin_congr (hsteady.start_not_final hstart) hb s'.input_lt_bound
  rw [tape, tape, wind, bound, windWithin, h]
  dsimp only
  rw [hw]

theorem tape_of_atEnd (h : s.atEnd = true) : s.tape = ⟨[], none, s.file, s.tracing⟩ := by
  rw [tape, wind, bound, windWithin, nextToken_of_atEnd h]

theorem tape_none (h : s.nextToken = .ok none s') : s.tape = ⟨[], none, s'.file, s'.tracing⟩ := by
  rw [tape, wind, bound, windWithin, h]

theorem tape_fault {fault : Fault} (h : s.nextToken = .error fault s') :
    s.tape = ⟨[], some fault, s'.file, s'.tracing⟩ := by
  rw [tape, wind, bound, windWithin, h]

/-- There are no more tokens than bytes, as each of them takes one. -/
theorem length_tokens_le (hstart : s.automaton.isFinal s.automaton.start = false) :
    s.tape.tokens.length ≤ s.input.length := by
  induction hlength : s.input.length using Nat.strongRecOn generalizing s with
  | ind n ih =>
  cases hn : s.nextToken with
  | error fault s' =>
    rw [tape_fault hn]
    exact Nat.zero_le n
  | ok token s' =>
    cases token with
    | none =>
      rw [tape_none hn]
      exact Nat.zero_le n
    | some t =>
      have hsteady := steady_of_nextToken hn
      have hlt := nextTokenWithin_input_lt hstart hn
      have hle : s'.tape.tokens.length ≤ s'.input.length :=
        ih _ (hlength ▸ hlt) (hsteady.start_not_final hstart) rfl
      rw [tape_token hstart hn, List.length_cons]
      omega

/-- Scanners from which the same is drawn have the same tape. -/
theorem tape_congr (hstart : s'.automaton.isFinal s'.automaton.start = false)
    (h : s.nextToken = s'.nextToken) (hlt : s'.input.length ≤ s.input.length) :
    s.tape = s'.tape := by
  have hw : s.windWithin s.bound = s'.windWithin s.bound := by
    simp only [bound, windWithin, h]
  have hbound := s.input_lt_bound
  have hb : s'.input.length < s.bound.length := by omega
  rw [tape, tape, wind, wind, hw, windWithin_congr hstart hb s'.input_lt_bound]

/-! ## The arithmetic lexicon -/

namespace Ready

variable {w rest z : List UInt8} {q : State}

/-- The token of a lexeme of a kind. -/
theorem tokenOf_beyond (s : Scanner) (p : Position) (hq : State.start.reach w = some q)
    {k : Token.Kind} (hk : q.kind? = some k) (rest : List UInt8) :
    (s.beyond ⟨w, q.code, rest⟩).tokenOf p q.tag = .ok ⟨k, Text.ascii w, p, s.file⟩ := by
  have htag : Token.Kind.ofTag q.tag = .ok k := by simp [State.tag, hk]
  rw [tokenOf, htag, beyond_buffer, Text.Utf8.decode_ascii (State.ascii_of_reach hq)]
  rfl

theorem tag_eq_zero_iff (hf : q.isFinal = true) : q.tag = 0 ↔ q.kind? = none := by
  cases q <;> simp_all [State.tag, State.kind?, State.isFinal, Token.Kind.tag]

/-- Blanks are passed over. -/
theorem nextToken_blank (hs : s.Ready) (hi : s.input = w ++ rest)
    (hq : State.start.reach w = some q) (hstop : q.Stops rest) (hf : q.isFinal = true)
    (hk : q.kind? = none) : s.nextToken = (s.beyond ⟨w, q.code, rest⟩).nextToken := by
  have hw : w ≠ [] := State.ne_nil_of_reach hq (by rintro rfl; cases hf)
  have hend : ¬ s.atEnd = true := fun h =>
    hw (List.append_eq_nil_iff.mp (hi.symm.trans (input_of_atEnd h))).1
  have hm := hs.munch_final hi hq hstop hf
  rw [(tag_eq_zero_iff hf).mpr hk] at hm
  exact nextToken_dropped hs.start_not_final hend hm

theorem nextToken_token (hs : s.Ready) (hi : s.input = w ++ rest)
    (hq : State.start.reach w = some q) (hstop : q.Stops rest) (hf : q.isFinal = true)
    {k : Token.Kind} (hk : q.kind? = some k) :
    s.nextToken =
      .ok (some ⟨k, Text.ascii w, s.position, s.file⟩) (s.beyond ⟨w, q.code, rest⟩) := by
  have hw : w ≠ [] := State.ne_nil_of_reach hq (by rintro rfl; cases hf)
  have hend : ¬ s.atEnd = true := fun h =>
    hw (List.append_eq_nil_iff.mp (hi.symm.trans (input_of_atEnd h))).1
  have htag : ¬ q.tag = 0 := fun h => by
    simp [(tag_eq_zero_iff hf).mp h] at hk
  rw [nextToken_kept hend htag (hs.munch_final hi hq hstop hf), tokenOf_beyond s s.position hq hk]

/-- At the end of the input there is no token, and the end stays where it is. -/
theorem nextToken_complete (hs : s.Ready) (hi : s.input = []) :
    ∃ s', s.nextToken = .ok none s' ∧ s'.Ready ∧ s'.atEnd = true ∧ s.Continues s' := by
  by_cases hend : s.atEnd = true
  · exact ⟨s, nextToken_of_atEnd hend, hs, hend, .refl s⟩
  · have hi' : s.input = [] ++ [] := hi
    have hr := hs.beyond hi' State.start.code
    exact ⟨_, nextToken_of_munch_none hend (hs.munch_complete hi), hr, rfl, s.continues_beyond _⟩

theorem nextToken_fault (hs : s.Ready) (hi : s.input = w ++ rest)
    (hq : State.start.reach w = some q) (hstop : q.Stops rest) (hf : q.isFinal = false)
    (hne : rest ≠ [] ∨ q = .point) :
    s.nextToken = .error ((s.after ⟨w, q.code, rest⟩).unexpected (.front rest))
      (s.after ⟨w, q.code, rest⟩) := by
  have hend : ¬ s.atEnd = true := fun h => by
    obtain ⟨rfl, rfl⟩ := List.append_eq_nil_iff.mp (hi.symm.trans (input_of_atEnd h))
    rcases hne with hne | rfl
    · exact hne rfl
    · simp at hq
  exact nextToken_of_munch_error hend (hs.munch_fault hi hq hstop hf hne)

/-- The tape of an input is made of the tokens of its lexemes and of its ending. -/
theorem tape_of_cuts {ps : List Piece} {fault : Option Fault} (hs : s.Ready)
    (hcuts : Cuts s.input ps z) (hend : Ending s.file (s.position.advance (bytesOf ps)) z fault) :
    s.tape = ⟨tokensOf s.file s.position ps, fault, s.file, s.tracing⟩ := by
  generalize hi : s.input = input at hcuts
  induction hcuts generalizing s with
  | done =>
    cases hend with
    | complete =>
      obtain ⟨s', hn, -, -, hsame⟩ := hs.nextToken_complete hi
      rw [tape_none hn, hsame.file, hsame.tracing]
      rfl
    | byte hq hf hb =>
      have hn := hs.nextToken_fault hi hq (State.stops_cons.mpr hb) hf (.inl (by simp))
      rw [tape_fault hn]
      rfl
    | cutOff hq =>
      have hn := hs.nextToken_fault (hi.trans (List.append_nil _).symm) hq (State.stops_nil _) rfl
        (.inr rfl)
      rw [tape_fault hn]
      rfl
  | @piece w rest z q ps hq hf hstop hcuts ih =>
    have hr := hs.beyond hi q.code
    have hi' : (s.beyond ⟨w, q.code, rest⟩).input = rest := input_beyond hs.opened hi.symm
    have htape := ih hr (by simpa using hend) hi'
    cases hk : q.kind? with
    | none =>
      have hn := hs.nextToken_blank hi hq hstop hf hk
      have hle : rest.length ≤ s.input.length := by simp [hi]
      rw [tape_congr hr.start_not_final hn (by rw [hi']; exact hle), htape]
      rfl
    | some k =>
      have hn := hs.nextToken_token hi hq hstop hf hk
      rw [tape_token hs.start_not_final hn, htape]
      rfl

end Ready

end ArithCheck.Scanner
