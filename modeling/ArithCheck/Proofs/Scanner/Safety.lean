import ArithCheck.Proofs.Scanner.Munch

/-!
# What an automaton is asked

While a scanner takes a lexeme it asks the automaton for one successor after the other, and at the
end perhaps for a value. The lexicon of arithmetic refuses the numbers that stand for no state and
for no symbol, but a scanner never asks about them.

* `Automaton.asked`: the questions along a trail;
* `Safe`: none of the answers is a fault, and what comes of them is a lexeme that can be read;
* `Ready.safe_of_mem_stops`: so it is whenever a call of `nextToken` takes a lexeme.
-/

namespace ArithCheck

open Arithmetic (State declared successor value)

/-- The number of a symbol is that of a byte or -1. -/
theorem Symbol.code_cases (x : Symbol) :
    x.code = -1 ∨ 0 ≤ x.code ∧ x.code < 256 := by
  cases x with
  | endOfStream => exact .inl rfl
  | byte b =>
    have hb : b.toNat < 256 := b.toNat_lt
    right
    show 0 ≤ (b.toNat : Int) ∧ (b.toNat : Int) < 256
    omega

namespace Automaton

/-- What an automaton is asked along the trail of an input: each state that the trail goes through,
and the symbol that it meets there. -/
def asked (a : Automaton) (state : Int) : List UInt8 → List (Int × Symbol)
  | [] => [(state, .endOfStream)]
  | b :: rest =>
    (state, .byte b) ::
      match a.next state b with
      | .ok (some next) => a.asked next rest
      | _ => []

/-- The symbols of the questions are the bytes of the trail and the symbol behind it. -/
theorem map_snd_asked (a : Automaton) (state : Int) (input : List UInt8) :
    (a.asked state input).map (·.2) =
      (a.follow state input).lexeme.map .byte ++ [.front (a.follow state input).rest] := by
  induction input generalizing state with
  | nil => rfl
  | cons b rest ih =>
    simp only [asked, follow]
    cases a.next state b with
    | error fault => rfl
    | ok target =>
      cases target with
      | none => rfl
      | some next => exact congrArg (.byte b :: ·) (ih next)

/-- A lawful automaton is asked about its states only. -/
theorem Lawful.asked_mem {a : Automaton} {states : Set Int} (ha : a.Lawful states) {state : Int}
    (hs : state ∈ states) {input : List UInt8} {question : Int × Symbol}
    (h : question ∈ a.asked state input) : question.1 ∈ states := by
  induction input generalizing state with
  | nil =>
    obtain rfl := List.mem_singleton.mp h
    exact hs
  | cons b rest ih =>
    rw [asked] at h
    rcases List.mem_cons.mp h with rfl | h
    · exact hs
    · obtain ⟨target, htarget, hmem⟩ := ha.next hs b
      cases target with
      | none => simp [htarget] at h
      | some next =>
        rw [htarget] at h
        exact ih (hmem next rfl) h

end Automaton

namespace Arithmetic

/-- The tag of a final state is that of blanks or of a kind of token. -/
theorem State.tag_of_isFinal {s : State} (h : s.isFinal = true) :
    s.tag = 0 ∨ 1 ≤ s.tag ∧ s.tag ≤ 9 ∧ ∃ k, Token.Kind.ofTag s.tag = .ok k := by
  cases hk : s.kind? with
  | some k =>
    have htag : s.tag = k.tag := by simp [tag, hk]
    have hbounds : 1 ≤ k.tag ∧ k.tag ≤ 9 := by cases k <;> decide
    exact .inr ⟨htag ▸ hbounds.1, htag ▸ hbounds.2, k, htag ▸ Token.Kind.ofTag_tag k⟩
  | none =>
    left
    cases s <;> simp_all [kind?, isFinal, tag]

end Arithmetic

namespace Scanner

variable {s s' m : Scanner}

/-- Nothing but the input can be at fault while a lexeme is taken. The automaton is asked about
states and symbols that exist, and what it answers is a state or 0, which it is at the end of the
stream. All symbols asked about are bytes that go into the lexeme, but for the last one. At the end
of the lexeme it is asked for a value only in a final state, and this is the tag 0 or that of a
kind. The lexeme is UTF-8, and taking it fails only with a lexical fault. -/
structure Safe (s : Scanner) : Prop where
  asked : ∀ q ∈ s.automaton.asked s.automaton.start s.input, q.1 ∈ declared ∧
    (q.2.code = -1 ∨ 0 ≤ q.2.code ∧ q.2.code < 256) ∧
      ∃ n, successor q.1 q.2.code = .ok n ∧ (n ≠ 0 → n ∈ declared ∧ q.2.code ≠ -1)
  appended : (s.automaton.asked s.automaton.start s.input).map (·.2) =
    s.trail.lexeme.map .byte ++ [.front s.trail.rest]
  value : s.automaton.isFinal s.trail.state = true → s.trail.state ∈ declared ∧
    ∃ tag, value s.trail.state = .ok tag ∧
      (tag = 0 ∨ 1 ≤ tag ∧ tag ≤ 9 ∧ ∃ k, Token.Kind.ofTag tag = .ok k)
  decodes : ∃ text, Text.Utf8.decode s.trail.lexeme = .ok text
  munch : (∃ tag s', s.munch = .ok tag s' ∧ s'.buffer = s.trail.lexeme) ∨
    ∃ cause place s', s.munch = .error (.lexical cause place s.file) s' ∧
      s'.buffer = s.trail.lexeme

/-- What the automaton of arithmetic is asked along a trail. -/
theorem Ready.asked_safe (hs : s.Ready) {question : Int × Symbol}
    (h : question ∈ s.automaton.asked s.automaton.start s.input) :
    question.1 ∈ declared ∧ ∃ n, successor question.1 question.2.code = .ok n ∧
      (n ≠ 0 → n ∈ declared ∧ question.2.code ≠ -1) := by
  have hmem : question.1 ∈ declared := hs.lawful.asked_mem hs.lawful.start h
  obtain ⟨state, symbol⟩ := question
  obtain ⟨q, rfl⟩ := hmem
  refine ⟨⟨q, rfl⟩, ?_⟩
  cases symbol with
  | endOfStream => exact ⟨0, rfl, fun hne => absurd rfl hne⟩
  | byte b =>
    refine ⟨_, Arithmetic.successor_code q b, fun hne => ⟨?_, ?_⟩⟩
    · cases hnext : q.next? b with
      | none => simp [hnext] at hne
      | some t => exact ⟨t, rfl⟩
    · show (b.toNat : Int) ≠ -1
      omega

/-- Taking a lexeme fails with a lexical fault only. -/
theorem Ready.munch_safe (hs : s.Ready) :
    (∃ tag s', s.munch = .ok tag s' ∧ s'.buffer = s.trail.lexeme) ∨
      ∃ cause place s', s.munch = .error (.lexical cause place s.file) s' ∧
        s'.buffer = s.trail.lexeme := by
  cases hf : s.automaton.isFinal s.trail.state with
  | true =>
    obtain ⟨tag, -, hmunch⟩ := munch_tag hs.lawful hs.opened hf
    exact .inl ⟨some tag, _, hmunch, rfl⟩
  | false =>
    by_cases hend : s.trail.rest = [] ∧ s.trail.state = s.automaton.start
    · exact .inl ⟨none, _, munch_end hs.lawful hs.opened hf hend.1 hend.2, rfl⟩
    · have hgo : s.trail.rest ≠ [] ∨ s.trail.state ≠ s.automaton.start := by
        rw [← not_and_or]
        exact hend
      exact .inr ⟨_, _, _, munch_stuck hs.lawful hs.opened hf hgo, rfl⟩

theorem Ready.safe (hs : s.Ready) : s.Safe := by
  obtain ⟨w, q, rest, hi, hq, hstop⟩ := State.start.exists_trail s.input
  have ht := hs.trail_eq hi hq hstop
  refine ⟨fun question h => ?_, s.automaton.map_snd_asked _ _, fun hf => ?_, ?_, hs.munch_safe⟩
  · obtain ⟨hstate, hanswer⟩ := hs.asked_safe h
    exact ⟨hstate, question.2.code_cases, hanswer⟩
  · rw [hs.isFinal_trail ht] at hf
    rw [ht]
    exact ⟨⟨q, rfl⟩, q.tag, Arithmetic.value_code q, State.tag_of_isFinal hf⟩
  · rw [ht]
    exact ⟨_, Text.Utf8.decode_ascii (State.ascii_of_reach hq)⟩

/-! ## The lexemes of a call -/

/-- The scanner as it is whenever `nextTokenWithin` goes on to take a lexeme. -/
def stopsWithin : (bound : List UInt8) → Scanner → List Scanner
  | [], _ => []
  | _ :: bound, s =>
    if s.atEnd then []
    else s :: match munch s with
      | .ok (some tag) s' => if tag = 0 then stopsWithin bound s' else []
      | _ => []

/-- The scanner as it is whenever the next call of `nextToken` goes on to take a lexeme. -/
def stops (s : Scanner) : List Scanner := s.stopsWithin s.bound

theorem Ready.ready_of_munch (hs : s.Ready) {tag : Int} (h : s.munch = .ok (some tag) s') :
    s'.Ready := by
  obtain ⟨w, q, rest, hi, hq, hstop⟩ := State.start.exists_trail s.input
  obtain ⟨rfl, -, -⟩ := munch_ok h
  rw [hs.trail_eq hi hq hstop]
  exact hs.beyond hi q.code

theorem Ready.ready_of_mem_stops {bound : List UInt8} (hs : s.Ready)
    (h : m ∈ s.stopsWithin bound) : m.Ready := by
  induction bound generalizing s with
  | nil => cases h
  | cons c bound ih =>
    rw [stopsWithin] at h
    split at h
    · cases h
    rcases List.mem_cons.mp h with rfl | h
    · exact hs
    · cases hmunch : s.munch with
      | error fault s' => simp [hmunch] at h
      | ok tag s' =>
        cases tag with
        | none => simp [hmunch] at h
        | some tag =>
          simp only [hmunch] at h
          split at h
          · exact ih (hs.ready_of_munch hmunch) h
          · cases h

/-- Whenever a call takes a lexeme nothing but the input can be at fault. -/
theorem Ready.safe_of_mem_stops (hs : s.Ready) (h : m ∈ s.stops) : m.Safe :=
  (hs.ready_of_mem_stops h).safe

end Scanner

end ArithCheck
