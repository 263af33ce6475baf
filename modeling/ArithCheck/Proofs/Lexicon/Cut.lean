import ArithCheck.Proofs.Lexicon.Lexeme
import ArithCheck.Proofs.Text.Ascii
import ArithCheck.Token

/-!
# Cutting an input into lexemes

Along the states of the automaton every input has one trail: the part `w` that can be followed from
the start, the state `q` in which it ends, and a rest at whose first byte it `Stops`. `Cuts`
repeats this for as long as the trail ends in a final state, and `Ending` says what stands behind
the last lexeme: nothing, or the fault of a trail that ends in another state.

* `follow_code`: the automaton follows this trail;
* `prefix_of_reach`: no other bytes that the automaton can follow reach behind it;
* `exists_cuts_ending`: every input is cut up to an ending;
* `Cuts.replace`: what is behind the last lexeme matters by its first byte only.
-/

namespace ArithCheck.Arithmetic

open Token (Kind)

namespace State

/-- A lexeme in the state `q` does not go on into the rest of the input. -/
def Stops (q : State) (rest : List UInt8) : Prop :=
  ∀ b ∈ rest.head?, q.next? b = none

theorem stops_nil (q : State) : q.Stops [] := by simp [Stops]

theorem stops_cons {q : State} {b : UInt8} {rest : List UInt8} :
    q.Stops (b :: rest) ↔ q.next? b = none := by
  simp [Stops]

/-- Every input has a trail from every state. -/
theorem exists_trail (s : State) (input : List UInt8) :
    ∃ w q rest, input = w ++ rest ∧ s.reach w = some q ∧ q.Stops rest := by
  induction input generalizing s with
  | nil => exact ⟨[], s, [], rfl, rfl, stops_nil s⟩
  | cons b input ih =>
    cases hb : s.next? b with
    | none => exact ⟨[], s, b :: input, rfl, rfl, stops_cons.mpr hb⟩
    | some t =>
      obtain ⟨w, q, rest, rfl, hq, hstop⟩ := ih t
      refine ⟨b :: w, q, rest, rfl, ?_, hstop⟩
      rw [reach_cons, hb]
      exact hq

/-- The automaton of the lexicon follows the trail. -/
theorem follow_code {s q : State} {w rest : List UInt8} (hq : s.reach w = some q)
    (hstop : q.Stops rest) : arithmetic.follow s.code (w ++ rest) = ⟨w, q.code, rest⟩ := by
  induction w generalizing s with
  | nil =>
    cases hq
    cases rest with
    | nil => rfl
    | cons b rest => simp [Automaton.follow, arithmetic_next, stops_cons.mp hstop]
  | cons b w ih =>
    rw [reach_cons, Option.bind_eq_some_iff] at hq
    obtain ⟨t, ht, hq⟩ := hq
    simp only [List.cons_append, Automaton.follow, arithmetic_next, ht, Option.map_some, ih hq]

/-- Bytes at the front of an input that can be followed do not go beyond the trail. -/
theorem prefix_of_reach {s p q : State} {v w rest : List UInt8} (hq : s.reach w = some q)
    (hstop : q.Stops rest) (hp : s.reach v = some p) (hv : v <+: w ++ rest) : v <+: w := by
  rcases List.prefix_or_prefix_of_prefix hv (List.prefix_append w rest) with h | ⟨t, rfl⟩
  · exact h
  cases t with
  | nil => simp
  | cons b t =>
    have hb : q.next? b = none := by
      obtain ⟨u, hu⟩ := (List.prefix_append_right_inj w).mp hv
      exact hstop b (by simp [← hu])
    simp [reach_append, hq, reach_cons, hb] at hp

/-- The bytes that the automaton can follow are ASCII. -/
theorem ascii_of_reach {q : State} {w : List UInt8} (h : start.reach w = some q) :
    ∀ b ∈ w, b < 0x80 := by
  have hd : ∀ b, isDigit b = true → b < 0x80 := fun b hb => by simp only [isDigit] at hb; grind
  have hl : ∀ b, isLetter b = true → b < 0x80 := fun b hb => by simp only [isLetter] at hb; grind
  have hk : ∀ b, isBlank b = true → b < 0x80 := fun b hb => by simp only [isBlank] at hb; grind
  have hs := spells_of_reach h
  cases q with
  | start => obtain rfl : w = [] := hs; simp
  | integer => exact fun b hb => hd b (hs.2 b hb)
  | point =>
    obtain ⟨ds, hds, rfl⟩ := hs
    intro b hb
    rcases List.mem_append.mp hb with hb | hb
    · exact hd b (hds.2 b hb)
    · obtain rfl := List.mem_singleton.mp hb; decide
  | fraction =>
    obtain ⟨ds, es, hds, hes, rfl⟩ := hs
    intro b hb
    rcases List.mem_append.mp hb with hb | hb
    · exact hd b (hds.2 b hb)
    · rcases List.mem_cons.mp hb with rfl | hb
      · decide
      · exact hd b (hes.2 b hb)
  | identifier => exact fun b hb => hl b (hs.2 b hb)
  | blank => exact fun b hb => hk b (hs.2 b hb)
  | _ => subst hs; simp

/-- The states in which no lexeme ends are the start and the one behind a point. -/
theorem eq_start_or_point {q : State} (h : q.isFinal = false) : q = .start ∨ q = .point := by
  cases q <;> simp_all [isFinal]

/-- Where no lexeme ends something is at fault, unless nothing was left at all. -/
theorem fault_or_nothing {w : List UInt8} {q : State} (rest : List UInt8)
    (hq : State.start.reach w = some q) (hf : q.isFinal = false) :
    (rest ≠ [] ∨ q = .point) ∨ w = [] ∧ rest = [] ∧ q = .start := by
  rcases eq_start_or_point hf with rfl | rfl
  · have hw : w = [] := spells_of_reach hq
    rcases Decidable.em (rest = []) with hrest | hrest
    · exact .inr ⟨hw, hrest, rfl⟩
    · exact .inl (.inl hrest)
  · exact .inl (.inr rfl)

end State

/-! ## Pieces -/

/-- A lexeme of an input, and the kind of the token that it makes, if it makes one. -/
structure Piece where
  bytes : List UInt8
  kind : Option Kind
  deriving DecidableEq, Repr

/-- The bytes of pieces. -/
def bytesOf (ps : List Piece) : List UInt8 := ps.flatMap Piece.bytes

@[simp] theorem bytesOf_nil : bytesOf [] = [] := rfl

@[simp] theorem bytesOf_cons (p : Piece) (ps : List Piece) :
    bytesOf (p :: ps) = p.bytes ++ bytesOf ps := rfl

/-- The tokens of pieces of which the first one is at a given position. -/
def tokensOf (file : Option String) (position : Position) : List Piece → List Token
  | [] => []
  | p :: ps =>
    let rest := tokensOf file (position.advance p.bytes) ps
    match p.kind with
    | none => rest
    | some k => ⟨k, Text.ascii p.bytes, position, file⟩ :: rest

/-- Lexemes are cut off an input one after the other, each at the end of its trail. -/
inductive Cuts : List UInt8 → List Piece → List UInt8 → Prop
  | done {rest : List UInt8} : Cuts rest [] rest
  | piece {w rest z : List UInt8} {q : State} {ps : List Piece} :
    State.start.reach w = some q → q.isFinal = true → q.Stops rest → Cuts rest ps z →
    Cuts (w ++ rest) (⟨w, q.kind?⟩ :: ps) z

/-- What comes up behind the last lexeme, at a given position: nothing at the end of the input, or
the fault of a byte that cannot follow or of an end inside a lexeme. -/
inductive Ending (file : Option String) (position : Position) : List UInt8 → Option Fault → Prop
  | complete : Ending file position [] none
  | byte {w rest : List UInt8} {q : State} {b : UInt8} :
    State.start.reach w = some q → q.isFinal = false → q.next? b = none →
    Ending file position (w ++ b :: rest)
      (some (.lexical (.unexpectedByte b) (position.advance w) file))
  | cutOff {w : List UInt8} :
    State.start.reach w = some .point →
    Ending file position w (some (.lexical (.unexpectedEnd w) (position.advance w) file))

theorem Ending.fault_lexical {file : Option String} {p : Position} {z : List UInt8} {fault : Fault}
    (h : Ending file p z (some fault)) : ∃ cause place, fault = .lexical cause place file := by
  cases h <;> exact ⟨_, _, rfl⟩

theorem Cuts.bytes_append {input rest : List UInt8} {ps : List Piece} (h : Cuts input ps rest) :
    bytesOf ps ++ rest = input := by
  induction h with
  | done => rfl
  | piece _ _ _ _ ih => simp [ih]

/-- What is behind the last lexeme matters by its first byte only. -/
theorem Cuts.replace {input z : List UInt8} {ps : List Piece} (h : Cuts input ps z)
    {z' : List UInt8} (hz : ∀ b ∈ z'.head?, b ∈ z.head?) : Cuts (bytesOf ps ++ z') ps z' := by
  induction h with
  | done => exact .done
  | @piece w rest z q ps hq hf hstop hcuts ih =>
    rw [bytesOf_cons, List.append_assoc]
    refine .piece hq hf (fun b hb => ?_) (ih hz)
    -- The byte behind the lexeme is one of the other lexemes, or the first one behind all of them.
    rw [← hcuts.bytes_append] at hstop
    apply hstop b
    cases hps : bytesOf ps with
    | nil => rw [hps] at hb; exact hz b hb
    | cons c cs => rw [hps] at hb; exact hb

/-- An input without a lexeme at its front is an ending. -/
theorem exists_ending {w rest : List UInt8} {q : State} (file : Option String) (p : Position)
    (hq : State.start.reach w = some q) (hf : q.isFinal = false) (hstop : q.Stops rest) :
    ∃ fault, Ending file p (w ++ rest) fault := by
  cases rest with
  | cons b rest => exact ⟨_, .byte hq hf (State.stops_cons.mp hstop)⟩
  | nil =>
    rw [List.append_nil]
    rcases State.eq_start_or_point hf with rfl | rfl
    · obtain rfl : w = [] := State.spells_of_reach hq
      exact ⟨_, .complete⟩
    · exact ⟨_, .cutOff hq⟩

/-- Every input is cut into lexemes up to an ending. -/
theorem exists_cuts_ending (file : Option String) (p : Position) (input : List UInt8) :
    ∃ ps z fault, Cuts input ps z ∧ Ending file (p.advance (bytesOf ps)) z fault := by
  induction h : input.length using Nat.strongRecOn generalizing input p with
  | ind n ih =>
    obtain ⟨w, q, rest, rfl, hq, hstop⟩ := State.start.exists_trail input
    cases hf : q.isFinal with
    | false =>
      obtain ⟨fault, hend⟩ := exists_ending file p hq hf hstop
      exact ⟨[], _, fault, .done, hend⟩
    | true =>
      have hw : w ≠ [] := State.ne_nil_of_reach hq (by rintro rfl; cases hf)
      have hlt : rest.length < n := by
        have := List.length_pos_iff.mpr hw
        simp only [List.length_append] at h
        omega
      obtain ⟨ps, z, fault, hcuts, hend⟩ := ih _ hlt (p.advance w) rest rfl
      exact ⟨⟨w, q.kind?⟩ :: ps, z, fault, .piece hq hf hstop hcuts, by simpa using hend⟩

end ArithCheck.Arithmetic
