import ArithCheck.Proofs.Lexicon.Cut
import ArithCheck.Proofs.Lexicon.Lawful
import ArithCheck.Proofs.Scanner.Steady

/-!
# Taking one lexeme

What `munch` does over an open stream, in terms of the bytes that are still to be scanned: behind
a complete lexeme they are the rest of its trail (`input_beyond`), and behind a fault the first of
them is lost as well (`input_after`). While the end is held back there are none
(`input_of_atEnd`), whatever the stream is.

* `munch_ok`: a lexeme is taken along a trail that ends in a final state, whatever the automaton;
* `munch_tag`, `munch_end`, `munch_stuck`: the three outcomes with a lawful automaton;
* `munch_final`, `munch_complete`, `munch_fault`: the same with the arithmetic lexicon.

With an automaton that does not accept the empty lexeme every lexeme takes a byte, so that the
bound in `nextTokenWithin` does not matter if it is long enough (`nextTokenWithin_congr`).
-/

namespace ArithCheck

open Arithmetic (arithmetic State)

/-- The symbol at the front of an input. -/
def Symbol.front : List UInt8 → Symbol
  | [] => .endOfStream
  | b :: _ => .byte b

theorem Automaton.follow_state_of_nil {a : Automaton} {state : Int} {input : List UInt8}
    (h : (a.follow state input).lexeme = []) : (a.follow state input).state = state := by
  cases input with
  | nil => rfl
  | cons b input =>
    rw [follow] at h ⊢
    split
    · rename_i next hn
      simp [hn] at h
    · rfl

namespace Scanner

variable {s s' : Scanner}

/-! ## The bytes still to be scanned -/

/-- The scanner behind a complete lexeme: the symbol after it is held back. -/
def beyond (s : Scanner) (t : Automaton.Trail) : Scanner :=
  { s.after t with pending := some (.front t.rest) }

@[simp] theorem beyond_file (s : Scanner) (t : Automaton.Trail) : (s.beyond t).file = s.file := rfl
@[simp] theorem beyond_position (s : Scanner) (t : Automaton.Trail) :
    (s.beyond t).position = s.position.advance t.lexeme := rfl
@[simp] theorem beyond_buffer (s : Scanner) (t : Automaton.Trail) :
    (s.beyond t).buffer = t.lexeme := rfl

/-- What scanning leaves as it is: the names and settings, the bytes of the stream, and those of
them that have been read. -/
structure Continues (s s' : Scanner) : Prop where
  file : s'.file = s.file
  tracing : s'.tracing = s.tracing
  bytes : s'.stream.bytes = s.stream.bytes
  beyond : s'.stream.beyond = s.stream.beyond
  past : s.stream.past <:+ s'.stream.past

theorem Continues.refl (s : Scanner) : s.Continues s := ⟨rfl, rfl, rfl, rfl, List.suffix_refl _⟩

theorem Continues.trans {s'' : Scanner} (h : s.Continues s') (h' : s'.Continues s'') :
    s.Continues s'' where
  file := h'.file.trans h.file
  tracing := h'.tracing.trans h.tracing
  bytes := h'.bytes.trans h.bytes
  beyond := h'.beyond.trans h.beyond
  past := h.past.trans h'.past

theorem continues_after (s : Scanner) (t : Automaton.Trail) : s.Continues (s.after t) :=
  ⟨rfl, rfl, Stream.bytes_advance _ _, rfl, List.suffix_append _ _⟩

theorem continues_beyond (s : Scanner) (t : Automaton.Trail) : s.Continues (s.beyond t) :=
  ⟨rfl, rfl, Stream.bytes_advance _ _, rfl, List.suffix_append _ _⟩

theorem length_held_le (s : Scanner) : s.held.length ≤ 1 := by
  simp only [held]; split <;> simp

/-- Where the end is held back there is no input left. -/
theorem input_of_atEnd (h : s.atEnd = true) : s.input = [] := by
  have hp : s.pending = some .endOfStream := by simpa [Reader.atEnd] using h
  simp [input, available, h, held, hp]

theorem not_atEnd_of_input (h : s.input ≠ []) : ¬ s.atEnd = true := fun hend =>
  h (input_of_atEnd hend)

/-- Where the end is held back the trail is empty. -/
theorem not_atEnd_of_trail (h : s.trail.rest ≠ [] ∨ s.trail.state ≠ s.automaton.start) :
    ¬ s.atEnd = true := by
  intro hend
  have htrail : s.trail = ⟨[], s.automaton.start, []⟩ := by rw [trail, input_of_atEnd hend]; rfl
  rw [htrail] at h
  simp at h

/-- The input is all that is not read yet, unless the end is held back while there is more. -/
theorem input_eq (ho : s.stream.closed = false) (hended : s.atEnd = true → s.stream.unread = []) :
    s.input = s.held ++ s.stream.unread := by
  cases hend : s.atEnd with
  | false => simp [input, available, ho, hend]
  | true =>
    have hp : s.pending = some .endOfStream := by simpa [Reader.atEnd] using hend
    rw [input_of_atEnd hend, hended hend, held, hp]
    rfl

/-- Behind a trail all is read but the rest after its first byte. -/
theorem unread_after {t : Automaton.Trail} (ho : s.stream.closed = false)
    (hended : s.atEnd = true → s.stream.unread = []) (ht : t.lexeme ++ t.rest = s.input) :
    (s.after t).stream.unread = t.rest.drop 1 := by
  rw [input_eq ho hended] at ht
  have hheld := s.length_held_le
  have hlen : s.held.length ≤ t.lexeme.length + (t.rest.take 1).length := by
    have := congrArg List.length ht
    simp only [List.length_append] at this
    simp only [List.length_take]
    omega
  show s.stream.unread.drop (t.lexeme.length + (t.rest.take 1).length - s.held.length) = _
  have hdrop : (s.held ++ s.stream.unread).drop (t.lexeme.length + (t.rest.take 1).length) =
      s.stream.unread.drop (t.lexeme.length + (t.rest.take 1).length - s.held.length) := by
    rw [List.drop_append, List.drop_eq_nil_of_le hlen, List.nil_append]
  rw [← hdrop, ← ht, List.drop_length_add_append]
  cases t.rest <;> rfl

theorem input_after {t : Automaton.Trail} (ho : s.stream.closed = false)
    (hended : s.atEnd = true → s.stream.unread = []) (ht : t.lexeme ++ t.rest = s.input) :
    (s.after t).input = t.rest.drop 1 := by
  have hclosed : (s.after t).stream.closed = false := ho
  rw [input_eq hclosed (fun h => by cases h), unread_after ho hended ht]
  rfl

theorem input_beyond {t : Automaton.Trail} (ho : s.stream.closed = false)
    (ht : t.lexeme ++ t.rest = s.input) : (s.beyond t).input = t.rest := by
  have hpending : (s.beyond t).pending = some (.front t.rest) := rfl
  cases hrest : t.rest with
  | nil =>
    rw [hrest] at hpending
    exact input_of_atEnd (by rw [Reader.atEnd, hpending]; rfl)
  | cons b rest =>
    rw [hrest] at hpending
    have hne : s.input ≠ [] := by rw [← ht, hrest]; simp
    have hclosed : (s.beyond t).stream.closed = false := ho
    have hunread : (s.beyond t).stream.unread = t.rest.drop 1 :=
      unread_after ho (absurd · (not_atEnd_of_input hne)) ht
    have hend : (s.beyond t).atEnd = false := by rw [Reader.atEnd, hpending]; rfl
    rw [input_eq hclosed (by simp [hend]), hunread, held, hpending, hrest]
    rfl

theorem trail_append (s : Scanner) : s.trail.lexeme ++ s.trail.rest = s.input :=
  s.automaton.lexeme_append_rest s.automaton.start s.input

theorem symbolAfter_of_open (ho : s.stream.closed = false) (t : Automaton.Trail) :
    s.symbolAfter t = .ok (.front t.rest) := by
  rw [symbolAfter]
  split
  · simp [Symbol.front, *]
  · simp [Symbol.front, *]

/-- Behind a trail is the first byte of the rest or the end, if it can be read. -/
theorem symbolAfter_cases (s : Scanner) (t : Automaton.Trail) :
    s.symbolAfter t = .ok (.front t.rest) ∨ s.symbolAfter t = .error .closedStream := by
  rw [symbolAfter]
  cases t.rest with
  | cons b rest => exact .inl rfl
  | nil =>
    cases s.stream.closed && !s.atEnd with
    | true => exact .inr rfl
    | false => exact .inl rfl

/-! ## Any automaton -/

/-- A lexeme is taken along a trail that ends in a final state. -/
theorem munch_ok {tag : Int} (h : s.munch = .ok (some tag) s') :
    s' = s.beyond s.trail ∧ s.automaton.isFinal s.trail.state = true ∧
      s.automaton.tag s.trail.state = .ok tag := by
  rcases s.symbolAfter_cases s.trail with hsymbol | hsymbol
  · simp only [munch, hsymbol] at h
    split at h
    · simp at h
    · split at h
      · rename_i hf
        split at h
        · simp at h
        · rename_i ht
          cases h
          exact ⟨rfl, hf, ht⟩
      · split at h <;> simp at h
  · simp [munch, hsymbol] at h

/-- Where there is no lexeme the end has been met. -/
theorem atEnd_of_munch_none (h : s.munch = .ok none s') : s'.atEnd = true := by
  simp only [munch] at h
  split at h
  · simp at h
  split at h
  · simp at h
  split at h
  · split at h <;> simp at h
  split at h
  · rename_i hlast
    cases h
    simp only [Bool.and_eq_true, decide_eq_true_eq] at hlast
    simp [Reader.atEnd, hlast.1]
  · simp at h

/-- Over a closed stream there is a fault instead of a lexeme unless the end is held back, as the
symbol behind the byte that is held back cannot be read. -/
theorem munch_of_closed (hstart : s.automaton.isFinal s.automaton.start = false)
    (hc : s.stream.closed = true) (hend : ¬ s.atEnd = true) :
    ∃ fault s', s.munch = .error fault s' := by
  have hinput : s.input.length ≤ 1 := by
    simpa [input, available, hc] using s.length_held_le
  cases hrest : s.trail.rest with
  | nil => exact ⟨.closedStream, s.after s.trail, by simp [munch, symbolAfter, hrest, hc, hend]⟩
  | cons b rest =>
    have hnil : s.trail.lexeme = [] := by
      have hlength := congrArg List.length s.trail_append
      rw [hrest, List.length_append, List.length_cons] at hlength
      exact List.length_eq_zero_iff.mp (by omega)
    have hf : s.automaton.isFinal s.trail.state = false := by
      rw [trail, Automaton.follow_state_of_nil hnil]
      exact hstart
    have hsymbol : s.symbolAfter s.trail = .ok (.byte b) := by simp [symbolAfter, hrest]
    cases hstep : s.automaton.step s.trail.state (.byte b) with
    | error fault => exact ⟨fault, s.after s.trail, by simp [munch, hsymbol, hstep]⟩
    | ok _ =>
      refine ⟨(s.after s.trail).unexpected (.byte b), s.after s.trail, ?_⟩
      simp [munch, hsymbol, hstep, hf]

theorem opened_of_munch {tag : Option Int}
    (hstart : s.automaton.isFinal s.automaton.start = false) (hend : ¬ s.atEnd = true)
    (h : s.munch = .ok tag s') : s.stream.closed = false := by
  cases hc : s.stream.closed with
  | false => rfl
  | true =>
    obtain ⟨fault, s', hm⟩ := munch_of_closed hstart hc hend
    rw [h] at hm
    cases hm

/-- A lexeme takes a byte, unless lexemes may be empty. -/
theorem munch_input_lt {tag : Int} (hstart : s.automaton.isFinal s.automaton.start = false)
    (h : s.munch = .ok (some tag) s') : s'.input.length < s.input.length := by
  obtain ⟨rfl, hf, -⟩ := munch_ok h
  have hne : s.trail.lexeme ≠ [] := fun hnil => by
    simp [trail, Automaton.follow_state_of_nil hnil, hstart] at hf
  have hend : ¬ s.atEnd = true := not_atEnd_of_input (by simp [← s.trail_append, hne])
  have ho := opened_of_munch hstart hend h
  have := List.length_pos_iff.mpr hne
  rw [input_beyond ho s.trail_append, ← s.trail_append, List.length_append]
  omega

/-- A bound that is longer than the input does not matter. -/
theorem nextTokenWithin_congr {bound bound' : List UInt8}
    (hstart : s.automaton.isFinal s.automaton.start = false)
    (hb : s.input.length < bound.length) (hb' : s.input.length < bound'.length) :
    s.nextTokenWithin bound = s.nextTokenWithin bound' := by
  induction bound generalizing s bound' with
  | nil => simp at hb
  | cons c bound ih =>
    cases bound' with
    | nil => simp at hb'
    | cons c' bound' =>
      simp only [nextTokenWithin]
      split
      · rfl
      cases hm : s.munch with
      | error fault s' => rfl
      | ok tag s' =>
        cases tag with
        | none => rfl
        | some tag =>
          have hsteady := steady_of_munch hm
          have hlt := munch_input_lt hstart hm
          simp only [List.length_cons] at hb hb'
          have hrest : s'.nextTokenWithin bound = s'.nextTokenWithin bound' :=
            ih (hsteady.start_not_final hstart) (by omega) (by omega)
          dsimp only
          rw [hrest]

/-! ## Lawful automata -/

section Lawful

variable {states : Set Int}

theorem Steady.lawful (h : s.Steady s') (ha : s.automaton.Lawful states) :
    s'.automaton.Lawful states :=
  h.automaton ▸ ha

/-- The automaton has nothing to go on with at the end of a trail. -/
theorem step_trail (ha : s.automaton.Lawful states) :
    s.automaton.step s.trail.state (.front s.trail.rest) = .ok none := by
  have hmem : s.trail.state ∈ states := ha.follow_mem s.input
  cases hrest : s.trail.rest with
  | nil =>
    show (s.automaton.finish s.trail.state).map _ = _
    rw [ha.finish hmem]
    rfl
  | cons b rest => exact ha.next_follow ha.start hrest

/-- Where the trail ends in a final state its tag is the answer. -/
theorem munch_tag (ha : s.automaton.Lawful states) (ho : s.stream.closed = false)
    (hf : s.automaton.isFinal s.trail.state = true) :
    ∃ tag, s.automaton.tag s.trail.state = .ok tag ∧
      s.munch = .ok (some tag) (s.beyond s.trail) := by
  obtain ⟨tag, htag⟩ := ha.tag (ha.follow_mem s.input) hf
  have htag' : s.automaton.tag s.trail.state = .ok tag := htag
  refine ⟨tag, htag', ?_⟩
  simp only [munch, symbolAfter_of_open ho, step_trail ha, hf, if_true, htag']
  rfl

/-- At the end of the input, in the state in which lexemes start, there is no lexeme. -/
theorem munch_end (ha : s.automaton.Lawful states) (ho : s.stream.closed = false)
    (hf : s.automaton.isFinal s.trail.state = false) (hrest : s.trail.rest = [])
    (hstart : s.trail.state = s.automaton.start) : s.munch = .ok none (s.beyond s.trail) := by
  have hfront : Symbol.front s.trail.rest = .endOfStream := by rw [hrest]; rfl
  have hlast : (decide (Symbol.front s.trail.rest = .endOfStream) &&
      decide (s.trail.state = s.automaton.start)) = true := by simp [hfront, hstart]
  simp only [munch, symbolAfter_of_open ho, step_trail ha, hf, hlast, Bool.false_eq_true, if_false,
    if_true]
  rfl

/-- Any other trail is a fault. -/
theorem munch_stuck (ha : s.automaton.Lawful states) (ho : s.stream.closed = false)
    (hf : s.automaton.isFinal s.trail.state = false)
    (hgo : s.trail.rest ≠ [] ∨ s.trail.state ≠ s.automaton.start) :
    s.munch = .error ((s.after s.trail).unexpected (.front s.trail.rest)) (s.after s.trail) := by
  have hlast : (decide (Symbol.front s.trail.rest = .endOfStream) &&
      decide (s.trail.state = s.automaton.start)) = false := by
    rcases hgo with hrest | hstart
    · obtain ⟨b, rest, hcons⟩ := List.exists_cons_of_ne_nil hrest
      simp [hcons, Symbol.front]
    · simp [hstart]
  simp only [munch, symbolAfter_of_open ho, step_trail ha, hf, hlast, Bool.false_eq_true, if_false]

end Lawful

/-! ## The arithmetic lexicon -/

/-- A scanner with the arithmetic lexicon over an open stream, of which nothing is left where the
end has been met. -/
structure Ready (s : Scanner) : Prop where
  automaton : s.automaton = arithmetic
  opened : s.stream.closed = false
  ended : s.atEnd = true → s.stream.unread = []

theorem ready_ofBytes (bytes : List UInt8) (file : Option String) (tracing : Bool) :
    (ofBytes arithmetic bytes file tracing).Ready :=
  ⟨rfl, rfl, fun h => by cases h⟩

namespace Ready

variable {w rest : List UInt8} {q : State}

theorem start_not_final (hs : s.Ready) : s.automaton.isFinal s.automaton.start = false := by
  rw [hs.automaton]; rfl

theorem input_eq (hs : s.Ready) : s.input = s.held ++ s.stream.unread :=
  Scanner.input_eq hs.opened hs.ended

theorem input_after (hs : s.Ready) {t : Automaton.Trail} (ht : t.lexeme ++ t.rest = s.input) :
    (s.after t).input = t.rest.drop 1 :=
  Scanner.input_after hs.opened hs.ended ht

theorem trail_eq (hs : s.Ready) (hi : s.input = w ++ rest) (hq : State.start.reach w = some q)
    (hstop : q.Stops rest) : s.trail = ⟨w, q.code, rest⟩ := by
  rw [trail, hs.automaton, hi]
  exact State.follow_code hq hstop

theorem beyond (hs : s.Ready) (hi : s.input = w ++ rest) (n : Int) :
    (s.beyond ⟨w, n, rest⟩).Ready where
  automaton := hs.automaton
  opened := hs.opened
  ended h := by
    cases rest with
    | nil => exact unread_after hs.opened hs.ended (t := ⟨w, n, []⟩) hi.symm
    | cons b rest => cases h

theorem after (hs : s.Ready) (t : Automaton.Trail) : (s.after t).Ready where
  automaton := hs.automaton
  opened := hs.opened
  ended h := by cases h

/-- The automaton is a lawful one. -/
theorem lawful (hs : s.Ready) : s.automaton.Lawful Arithmetic.declared :=
  hs.automaton ▸ Arithmetic.arithmetic_lawful

theorem isFinal_trail (hs : s.Ready) (ht : s.trail = ⟨w, q.code, rest⟩) :
    s.automaton.isFinal s.trail.state = q.isFinal := by
  rw [hs.automaton, ht, Arithmetic.arithmetic_isFinal]

theorem munch_final (hs : s.Ready) (hi : s.input = w ++ rest)
    (hq : State.start.reach w = some q) (hstop : q.Stops rest) (hf : q.isFinal = true) :
    s.munch = .ok (some q.tag) (s.beyond ⟨w, q.code, rest⟩) := by
  have ht := hs.trail_eq hi hq hstop
  obtain ⟨tag, htag, hmunch⟩ := munch_tag hs.lawful hs.opened ((hs.isFinal_trail ht).trans hf)
  rw [hs.automaton, ht, Arithmetic.arithmetic_tag] at htag
  rw [hmunch, ht, Except.ok.inj htag]

/-- At the end of the input no lexeme is left. -/
theorem munch_complete (hs : s.Ready) (hi : s.input = []) :
    s.munch = .ok none (s.beyond ⟨[], State.start.code, []⟩) := by
  have ht : s.trail = ⟨[], State.start.code, []⟩ := hs.trail_eq hi rfl (State.stops_nil _)
  rw [munch_end hs.lawful hs.opened (hs.isFinal_trail ht) (by rw [ht])
    (by rw [ht, hs.automaton]; rfl), ht]

/-- A trail that ends in no final state is a fault, unless it is empty and nothing follows. -/
theorem munch_fault (hs : s.Ready) (hi : s.input = w ++ rest)
    (hq : State.start.reach w = some q) (hstop : q.Stops rest) (hf : q.isFinal = false)
    (hne : rest ≠ [] ∨ q = .point) :
    s.munch = .error ((s.after ⟨w, q.code, rest⟩).unexpected (.front rest))
      (s.after ⟨w, q.code, rest⟩) := by
  have ht := hs.trail_eq hi hq hstop
  have hgo : s.trail.rest ≠ [] ∨ s.trail.state ≠ s.automaton.start := by
    rw [ht, hs.automaton]
    refine hne.imp_right ?_
    rintro rfl
    show State.point.code ≠ arithmetic.start
    decide
  rw [munch_stuck hs.lawful hs.opened ((hs.isFinal_trail ht).trans hf) hgo, ht]

end Ready

end Scanner

end ArithCheck
