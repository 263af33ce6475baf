import ArithCheck.Proofs.Scanner.Tape

/-!
# Bytes that a scanner has not read

Two scanners that are alike in everything but the bytes that they have not read hand out the same,
for as long as they read nothing in which they differ. Neither of them notices the end of its input
before it has met it.

* `Past`: a scanner has met the end, or read more bytes than it should; it stays past them
  (`Past.nextToken`);
* `Alike`: two scanners in the same state, over bytes of which the first `n` are the same; they stay
  alike, unless a call takes the first one past these (`Alike.nextToken`).
-/

namespace ArithCheck

open Arithmetic (State)

theorem Stream.position_le_advance (s : Stream) (n : Nat) :
    s.position ≤ (s.advance n).position := by
  simp only [Stream.position, Stream.advance, List.length_append]
  omega

theorem Stream.take_bytes (s : Stream) (k : Nat) :
    s.bytes.take (s.past.length + k) = s.past.reverse ++ s.unread.take k := by
  rw [Stream.bytes, ← List.length_reverse, List.take_length_add_append]

/-- Whether a fault is about the end of the input. -/
def Fault.isAtEnd : Fault → Bool
  | .lexical (.unexpectedEnd _) .. => true
  | _ => false

/-! ## The same up to some point -/

section SameUntil

variable {ρ α : Type} {past : ρ → Prop} {alike : ρ → ρ → Prop}

/-- A result past some point: its state is past it, or it is a fault about the end. -/
inductive EndsPast (past : ρ → Prop) : EStateM.Result Fault ρ α → Prop
  | ok {a : α} {r : ρ} : past r → EndsPast past (.ok a r)
  | error {fault : Fault} {r : ρ} : past r ∨ fault.isAtEnd = true →
    EndsPast past (.error fault r)

/-- The same result, in states that are alike. -/
inductive SameResult (alike : ρ → ρ → Prop) :
    EStateM.Result Fault ρ α → EStateM.Result Fault ρ α → Prop
  | ok {a : α} {r s : ρ} : alike r s → SameResult alike (.ok a r) (.ok a s)
  | error {fault : Fault} {r s : ρ} : alike r s →
    SameResult alike (.error fault r) (.error fault s)

/-- From states that are alike two computations come to the same result, unless the first one gets
past some point, from where it does not come back. -/
structure SameUntil (past : ρ → Prop) (alike : ρ → ρ → Prop) (c d : EStateM Fault ρ α) :
    Prop where
  stays {r : ρ} : past r → EndsPast past (c r)
  same {r s : ρ} : alike r s → EndsPast past (c r) ∨ SameResult alike (c r) (d s)

end SameUntil

namespace Scanner

variable {n : Nat} {s s' : Scanner}

/-- A scanner has met the end of its input, or has read more than `n` bytes. -/
def Past (n : Nat) (s : Scanner) : Prop := s.atEnd = true ∨ n < s.stream.position

/-! ## Past the bytes -/

theorem endsPast_munch (h : n < s.stream.position) : EndsPast (Past n) s.munch := by
  have hafter : n < (s.after s.trail).stream.position :=
    Nat.lt_of_lt_of_le h (Stream.position_le_advance _ _)
  rw [Scanner.munch]
  split
  · exact .error (.inl (.inr hafter))
  split
  · exact .error (.inl (.inr hafter))
  dsimp only
  split
  · split
    · exact .error (.inl (.inr hafter))
    · exact .ok (.inr hafter)
  · split
    · exact .ok (.inr hafter)
    · exact .error (.inl (.inr hafter))

/-- A scanner that is past the bytes stays there. -/
theorem Past.nextTokenWithin (h : s.Past n) (bound : List UInt8) :
    EndsPast (Past n) (s.nextTokenWithin bound) := by
  induction bound generalizing s with
  | nil => exact .error (.inl h)
  | cons c bound ih =>
    rw [Scanner.nextTokenWithin]
    by_cases hend : s.atEnd = true
    · rw [if_pos hend]
      exact .ok h
    · rw [if_neg hend]
      have hmunch : EndsPast (Past n) s.munch := endsPast_munch (h.resolve_left hend)
      generalize s.munch = result at hmunch
      cases hmunch with
      | error h' => exact .error h'
      | @ok tag s' h' =>
        cases tag with
        | none => exact .ok h'
        | some tag =>
          dsimp only
          split
          · exact ih h'
          · split
            · exact .error (.inl h')
            · exact .ok h'

theorem Past.nextToken (h : s.Past n) : EndsPast (Past n) s.nextToken := h.nextTokenWithin _

/-- A trail that ends past the bytes takes a call past them. -/
theorem Ready.endsPast {w rest : List UInt8} {q : State} (hs : s.Ready)
    (hi : s.input = w ++ rest) (hq : State.start.reach w = some q) (hstop : q.Stops rest)
    (hpast : rest = [] ∨ n < (s.after ⟨w, q.code, rest⟩).stream.position) :
    EndsPast (Past n) s.nextToken := by
  have hbeyond : (s.beyond ⟨w, q.code, rest⟩).Past n :=
    hpast.imp_left fun hnil => by rw [hnil]; rfl
  cases hf : q.isFinal with
  | true =>
    cases hk : q.kind? with
    | some k =>
      rw [hs.nextToken_token hi hq hstop hf hk]
      exact .ok hbeyond
    | none =>
      rw [hs.nextToken_blank hi hq hstop hf hk]
      exact hbeyond.nextToken
  | false =>
    rcases State.fault_or_nothing rest hq hf with hne | ⟨rfl, rfl, rfl⟩
    · rw [hs.nextToken_fault hi hq hstop hf hne]
      rcases hpast with rfl | hlt
      · exact .error (.inr rfl)
      · exact .error (.inl (.inr hlt))
    · obtain ⟨s', hn, -, hend, -⟩ := hs.nextToken_complete hi
      rw [hn]
      exact .ok (.inl hend)

/-! ## Alike up to there -/

/-- Two scanners in the same state, over bytes of which the first `n` are the same. -/
structure Alike (n : Nat) (s s' : Scanner) : Prop where
  left : s.Ready
  right : s'.Ready
  reader : s.toReader = s'.toReader
  past : s.stream.past = s'.stream.past
  beyond_left : s.stream.beyond = 0
  beyond_right : s'.stream.beyond = 0
  bytes : s.stream.bytes.take n = s'.stream.bytes.take n

namespace Alike

variable {w rest rest' : List UInt8} {b : UInt8} {code : Int}

theorem held_eq (h : Alike n s s') : s.held = s'.held := by
  have hpending : s.pending = s'.pending := congrArg Reader.pending h.reader
  rw [held, held, hpending]

theorem position_eq (h : Alike n s s') : s.stream.position = s'.stream.position := by
  rw [Stream.position, Stream.position, h.past, h.beyond_left, h.beyond_right]

/-- Of the unread bytes those within the first `n` are the same. -/
theorem take_unread (h : Alike n s s') {k : Nat} (hk : s.stream.past.length + k ≤ n) :
    s.stream.unread.take k = s'.stream.unread.take k := by
  have hbytes := congrArg (List.take (s.stream.past.length + k)) h.bytes
  rw [List.take_take, List.take_take, Nat.min_eq_left hk, Stream.take_bytes, h.past,
    Stream.take_bytes] at hbytes
  exact List.append_cancel_left hbytes

/-- A lexeme and the byte behind it take from the stream what is not held back of them. -/
theorem length_le_unread (h : Alike n s s') (hi : s.input = w ++ b :: rest) :
    s.held.length ≤ w.length + 1 ∧ w.length + 1 ≤ s.held.length + s.stream.unread.length := by
  have hheld := s.length_held_le
  have hlength := congrArg List.length hi
  rw [h.left.input_eq, List.length_append, List.length_append, List.length_cons] at hlength
  omega

theorem position_after (h : Alike n s s') (hi : s.input = w ++ b :: rest) :
    (s.after ⟨w, code, b :: rest⟩).stream.position =
      s.stream.past.length + (w.length + 1 - s.held.length) := by
  have hle := h.length_le_unread hi
  have hbeyond := h.beyond_left
  simp only [Stream.position, after, Stream.advance, List.length_append, List.length_reverse,
    List.length_take, List.length_cons, hbeyond]
  omega

/-- The input of the second scanner begins as that of the first one does. -/
theorem exists_input (h : Alike n s s') (hi : s.input = w ++ b :: rest)
    (hn : s.stream.past.length + (w.length + 1 - s.held.length) ≤ n) :
    ∃ rest', s'.input = w ++ b :: rest' := by
  have hle := h.length_le_unread hi
  have hsplit : w.length + 1 = s.held.length + (w.length + 1 - s.held.length) := by omega
  have htake : s.input.take (w.length + 1) = s'.input.take (w.length + 1) := by
    rw [h.left.input_eq, h.right.input_eq, ← h.held_eq, hsplit,
      List.take_length_add_append, List.take_length_add_append, h.take_unread hn]
  refine ⟨s'.input.drop (w.length + 1), ?_⟩
  have hfront : s'.input.take (w.length + 1) = w ++ [b] := by
    rw [← htake, hi, List.take_length_add_append]
    rfl
  rw [List.append_cons, ← hfront, List.take_append_drop]

/-- Behind a lexeme and the byte after it, both within the first `n` bytes, they are still alike. -/
theorem after (h : Alike n s s')
    (hn : s.stream.past.length + (w.length + 1 - s.held.length) ≤ n) :
    Alike n (s.after ⟨w, code, b :: rest⟩) (s'.after ⟨w, code, b :: rest'⟩) where
  left := h.left.after _
  right := h.right.after _
  reader := congrArg (fun r : Reader =>
    { r with pending := none, buffer := w, position := r.position.advance w }) h.reader
  past := by
    show (s.stream.unread.take (w.length + 1 - s.held.length)).reverse ++ s.stream.past =
      (s'.stream.unread.take (w.length + 1 - s'.held.length)).reverse ++ s'.stream.past
    rw [h.take_unread hn, h.past, h.held_eq]
  beyond_left := h.beyond_left
  beyond_right := h.beyond_right
  bytes := by
    rw [(s.continues_after _).bytes, (s'.continues_after _).bytes]
    exact h.bytes

theorem beyond (h : Alike n s s') (hi : s.input = w ++ b :: rest)
    (hi' : s'.input = w ++ b :: rest')
    (hn : s.stream.past.length + (w.length + 1 - s.held.length) ≤ n) :
    Alike n (s.beyond ⟨w, code, b :: rest⟩) (s'.beyond ⟨w, code, b :: rest'⟩) := by
  have hafter : Alike n (s.after ⟨w, code, b :: rest⟩) (s'.after ⟨w, code, b :: rest'⟩) :=
    h.after hn
  exact
    { hafter with
      left := h.left.beyond hi code
      right := h.right.beyond hi' code
      reader := congrArg (fun r : Reader => { r with pending := some (.byte b) }) hafter.reader }

/-- Scanners that are alike hand out the same and stay alike, unless the call takes the first one
past the bytes that are the same. -/
theorem nextToken (h : Alike n s s') :
    EndsPast (Past n) s.nextToken ∨ SameResult (Alike n) s.nextToken s'.nextToken := by
  induction hlength : s.input.length using Nat.strongRecOn generalizing s s' with
  | ind m ih =>
    obtain ⟨w, q, rest, hi, hq, hstop⟩ := State.start.exists_trail s.input
    by_cases hpast : rest = [] ∨ n < (s.after ⟨w, q.code, rest⟩).stream.position
    · exact .inl (h.left.endsPast hi hq hstop hpast)
    obtain ⟨hne, hwithin⟩ := not_or.mp hpast
    obtain ⟨b, rest, rfl⟩ := List.exists_cons_of_ne_nil hne
    rw [h.position_after hi, Nat.not_lt] at hwithin
    obtain ⟨rest', hi'⟩ := h.exists_input hi hwithin
    have hposition : s.position = s'.position := congrArg Reader.position h.reader
    have hfile : s.file = s'.file := congrArg Reader.file h.reader
    have hstop' : q.Stops (b :: rest') := State.stops_cons.mpr (State.stops_cons.mp hstop)
    cases hf : q.isFinal with
    | true =>
      have hbeyond : Alike n (s.beyond ⟨w, q.code, b :: rest⟩)
          (s'.beyond ⟨w, q.code, b :: rest'⟩) := h.beyond hi hi' hwithin
      cases hk : q.kind? with
      | some k =>
        rw [h.left.nextToken_token hi hq hstop hf hk, h.right.nextToken_token hi' hq hstop' hf hk,
          hposition, hfile]
        exact .inr (.ok hbeyond)
      | none =>
        rw [h.left.nextToken_blank hi hq hstop hf hk, h.right.nextToken_blank hi' hq hstop' hf hk]
        refine ih _ ?_ hbeyond rfl
        have hw : w ≠ [] := State.ne_nil_of_reach hq (by rintro rfl; cases hf)
        have hpos := List.length_pos_iff.mpr hw
        have hinput : (s.beyond ⟨w, q.code, b :: rest⟩).input = b :: rest :=
          input_beyond h.left.opened hi.symm
        rw [hinput, ← hlength, hi, List.length_append]
        omega
    | false =>
      rw [h.left.nextToken_fault hi hq hstop hf (.inl hne),
        h.right.nextToken_fault hi' hq hstop' hf (.inl (List.cons_ne_nil _ _))]
      have hfault : (s.after ⟨w, q.code, b :: rest⟩).unexpected (.front (b :: rest)) =
          (s'.after ⟨w, q.code, b :: rest'⟩).unexpected (.front (b :: rest')) := by
        show Fault.lexical (.unexpectedByte b) (s.position.advance w) s.file =
          .lexical (.unexpectedByte b) (s'.position.advance w) s'.file
        rw [hposition, hfile]
      rw [hfault]
      exact .inr (.error (h.after hwithin))

end Alike

/-- Drawing a token does the same for scanners that are alike, as long as it reads no other bytes
than the first `n`. -/
theorem nextToken_sameUntil (n : Nat) : SameUntil (Past n) (Alike n) nextToken nextToken :=
  ⟨Past.nextToken, Alike.nextToken⟩

end Scanner

end ArithCheck
