import ArithCheck.Proofs.Position
import ArithCheck.Proofs.Scanner.Tokens

/-!
# The place of a lexical fault

Bytes are `Hopeful` if a byte string that starts with them scans without a fault. In a byte string
that does not, the fault is where hope ends: its offset is the length of the longest hopeful part
at the front (`FaultOffset`). It lies behind the whole string where that ends in a number whose
point no digit follows (`Unfinished`), and otherwise in front of a byte that nothing before it can
be followed by.

* `hopeful_of_cuts`, `not_hopeful_of_byte`: both sides of the offset, from the cut of the input;
* `lexical_fault_place`: the offset is unique, and the fault has its position and its message.
-/

namespace ArithCheck

/-- A printable byte is named by its character and any other by its code. -/
theorem LexicalCause.message_unexpectedByte (b : UInt8) :
    (LexicalCause.unexpectedByte b).message = if 0x20 ≤ b ∧ b ≤ 0x7E
      then "Invalid character " ++ Text.quoted (String.singleton (Char.ofNat b.toNat))
      else "Invalid byte 0x" ++ String.ofList (Text.hex 2 b.toNat) := by
  have hle : (0x20 ≤ b && b < 0x7F) = true ↔ 0x20 ≤ b ∧ b ≤ 0x7E := by
    simp only [Bool.and_eq_true, decide_eq_true_eq, UInt8.lt_iff_toNat_lt, UInt8.le_iff_toNat_le,
      UInt8.reduceToNat]
    omega
  unfold message
  dsimp only [toString]
  exact if_congr hle rfl rfl

namespace Arithmetic

/-- Bytes that a byte string which scans without a fault can start with. -/
def Hopeful (u : List UInt8) : Prop := ∃ v ts, tokens (u ++ v) none = .ok ts

/-- The offset up to which a byte string is hopeful. -/
def FaultOffset (bytes : List UInt8) (k : Nat) : Prop :=
  k ≤ bytes.length ∧ Hopeful (bytes.take k) ∧
    (k < bytes.length ∧ ¬ Hopeful (bytes.take (k + 1)) ∨ k = bytes.length)

/-- A byte string that ends in the lexeme `w` that a digit has to follow: behind longest lexemes
stand digits and a point. -/
def Unfinished (bytes w : List UInt8) : Prop :=
  ∃ ps ds, LongestMatch bytes ps w ∧ RunOf isDigit ds ∧ w = ds ++ [0x2E]

theorem Hopeful.mono {u v : List UInt8} (h : Hopeful v) (huv : u <+: v) : Hopeful u := by
  obtain ⟨x, rfl⟩ := huv
  obtain ⟨y, ts, hts⟩ := h
  exact ⟨x ++ y, ts, by rw [← List.append_assoc]; exact hts⟩

theorem FaultOffset.unique {bytes : List UInt8} {k k' : Nat} (h : FaultOffset bytes k)
    (h' : FaultOffset bytes k') : k = k' := by
  -- Of two offsets the smaller one would be followed by a byte that is hopeful after all.
  have hle : ∀ {i j}, FaultOffset bytes i → FaultOffset bytes j → i ≤ j := by
    intro i j hi hj
    obtain ⟨hjl, -, hj | rfl⟩ := hj
    · refine Nat.le_of_not_lt fun hlt => hj.2 (hi.2.1.mono ?_)
      exact List.take_prefix_take_left (by omega)
    · exact hi.1
  have hij := hle h h'
  have hji := hle h' h
  omega

theorem Cuts.append {input y z : List UInt8} {ps qs : List Piece} (h : Cuts input ps y)
    (h' : Cuts y qs z) : Cuts input (ps ++ qs) z := by
  induction h with
  | done => exact h'
  | piece hq hf hstop _ ih => exact .piece hq hf hstop (ih h')

theorem Cuts.tokens_eq {bytes : List UInt8} {ps : List Piece} (h : Cuts bytes ps []) :
    tokens bytes none = .ok (tokensOf none .start ps) :=
  tokens_of_cuts h .complete

/-- Behind lexemes, a lexeme that is not complete leaves hope. -/
theorem hopeful_of_cuts {ps : List Piece} {w rest : List UInt8} {q : State}
    (hcuts : Cuts (bytesOf ps ++ (w ++ rest)) ps (w ++ rest))
    (hq : State.start.reach w = some q) (hf : q.isFinal = false) : Hopeful (bytesOf ps ++ w) := by
  rcases State.eq_start_or_point hf with rfl | rfl
  · obtain rfl : w = [] := State.reach_start_iff.mp hq
    exact ⟨[], _, by simpa using (hcuts.replace (by simp)).tokens_eq⟩
  · -- A digit completes the number.
    have hw : w ≠ [] := State.ne_nil_of_reach hq (by simp)
    obtain ⟨b, w, rfl⟩ := List.exists_cons_of_ne_nil hw
    have hdigit : State.start.reach ((b :: w) ++ [0x30]) = some .fraction := by
      rw [State.reach_append, hq]; rfl
    have hlast : Cuts ((b :: w) ++ [0x30] ++ []) [⟨(b :: w) ++ [0x30], some .float⟩] [] :=
      .piece hdigit rfl (State.stops_nil _) .done
    rw [List.append_nil] at hlast
    have hts := ((hcuts.replace (by simp)).append hlast).tokens_eq
    exact ⟨[0x30], _, by rw [List.append_assoc]; exact hts⟩

/-- There is no hope behind a byte that cannot follow. -/
theorem not_hopeful_of_byte {ps : List Piece} {w rest : List UInt8} {q : State} {b : UInt8}
    (hcuts : Cuts (bytesOf ps ++ (w ++ b :: rest)) ps (w ++ b :: rest))
    (hq : State.start.reach w = some q) (hf : q.isFinal = false) (hb : q.next? b = none) :
    ¬ Hopeful (bytesOf ps ++ w ++ [b]) := by
  rintro ⟨v, ts, hts⟩
  have hsame : Cuts (bytesOf ps ++ (w ++ b :: v)) ps (w ++ b :: v) :=
    hcuts.replace fun c hc => by
      cases w with
      | nil => simpa using hc
      | cons d w => simpa using hc
  have herror : tokens _ none = _ := tokens_of_cuts hsame (.byte hq hf hb)
  simp only [List.append_assoc, List.singleton_append] at hts
  rw [hts] at herror
  cases herror

/-! ## The offset -/

/-- The offset of a byte that cannot follow. -/
theorem faultOffset_byte {bytes w rest : List UInt8} {ps : List Piece} {q : State} {b : UInt8}
    (hcuts : Cuts bytes ps (w ++ b :: rest)) (hq : State.start.reach w = some q)
    (hf : q.isFinal = false) (hb : q.next? b = none) :
    FaultOffset bytes (bytesOf ps ++ w).length ∧
      bytes.take (bytesOf ps ++ w).length = bytesOf ps ++ w ∧
      bytes[(bytesOf ps ++ w).length]? = some b := by
  obtain rfl := hcuts.bytes_append
  have hsplit : bytesOf ps ++ (w ++ b :: rest) = (bytesOf ps ++ w) ++ b :: rest := by simp
  have htake : (bytesOf ps ++ (w ++ b :: rest)).take (bytesOf ps ++ w).length =
      bytesOf ps ++ w := by
    rw [hsplit, List.take_left]
  have htake' : (bytesOf ps ++ (w ++ b :: rest)).take ((bytesOf ps ++ w).length + 1) =
      bytesOf ps ++ w ++ [b] := by
    rw [hsplit, List.take_length_add_append, List.take_succ_cons, List.take_zero]
  refine ⟨⟨?_, ?_, .inl ⟨?_, ?_⟩⟩, htake, ?_⟩
  · simp
  · rw [htake]; exact hopeful_of_cuts hcuts hq hf
  · simp
  · rw [htake']; exact not_hopeful_of_byte hcuts hq hf hb
  · rw [hsplit, List.getElem?_append_right (Nat.le_refl _), Nat.sub_self, List.getElem?_cons_zero]

/-- The offset of an end inside a lexeme. -/
theorem faultOffset_cutOff {bytes w : List UInt8} {ps : List Piece} (hcuts : Cuts bytes ps w)
    (hq : State.start.reach w = some .point) : FaultOffset bytes bytes.length := by
  obtain rfl := hcuts.bytes_append
  refine ⟨Nat.le_refl _, ?_, .inr rfl⟩
  rw [List.take_length]
  exact hopeful_of_cuts ((List.append_nil w).symm ▸ hcuts) hq rfl

/-- An unfinished byte string has the fault of its unfinished lexeme. -/
theorem Unfinished.tokens_eq {bytes w : List UInt8} {file : Option String}
    (h : Unfinished bytes w) : FaultOffset bytes bytes.length ∧
      ∃ place, tokens bytes file = .error (.lexical (.unexpectedEnd w) place file) := by
  obtain ⟨ps, ds, hmatch, hds, rfl⟩ := h
  have hq := State.reach_point hds
  obtain ⟨b, rest, rfl, hb, -⟩ := hds.exists_cons
  have hcuts : Cuts bytes ps (b :: rest ++ [0x2E]) := hmatch.cuts fun hpoint => by
    obtain rfl : b = 0x2E := by simpa using hpoint
    cases hb
  exact ⟨faultOffset_cutOff hcuts hq, _, tokens_of_cuts hcuts (.cutOff hq)⟩

/-- A lexical fault is where hope ends: there is one offset up to which the bytes are hopeful, and
the fault has its line and its column. In front of a byte the message names this byte. At the end
of the bytes, and only if they end in digits and a point with nothing behind it, the message shows
this unfinished lexeme. -/
theorem lexical_fault_place {bytes : List UInt8} {file : Option String} {fault : Fault}
    (h : tokens bytes file = .error fault) :
    (∃! k, FaultOffset bytes k) ∧ ∀ k, FaultOffset bytes k →
      ∃ cause, fault = .lexical cause
          ⟨1 + ((bytes.take k).count 0x0A : Nat),
            1 + ((Position.lastLine (bytes.take k)).length : Nat)⟩ file ∧
        (∀ hk : k < bytes.length, cause = .unexpectedByte bytes[k] ∧
          fault.text = if 0x20 ≤ bytes[k] ∧ bytes[k] ≤ 0x7E
            then "Invalid character " ++
              Text.quoted (String.singleton (Char.ofNat bytes[k].toNat))
            else "Invalid byte 0x" ++ String.ofList (Text.hex 2 bytes[k].toNat)) ∧
        (k = bytes.length ↔ ∃ w, Unfinished bytes w) ∧
        ∀ w, Unfinished bytes w → cause = .unexpectedEnd w ∧
          fault.text = "Unexpected end of input after " ++ Text.quoted (Text.ascii w) := by
  obtain ⟨ps, z, ending, hcuts, hend⟩ := exists_cuts_ending file .start bytes
  rw [tokens_of_cuts hcuts hend] at h
  cases hend with
  | complete => cases h
  | @byte w rest q b hq hf hb =>
    cases h
    obtain ⟨hoff, htake, hget⟩ := faultOffset_byte hcuts hq hf hb
    refine ⟨⟨_, hoff, fun k hk => hk.unique hoff⟩, fun k hk => ?_⟩
    obtain rfl := hk.unique hoff
    obtain ⟨hlt, hbyte⟩ := List.getElem?_eq_some_iff.mp hget
    -- An unfinished byte string would have another fault.
    have hfin : ∀ v, ¬ Unfinished bytes v := fun v hv => by
      obtain ⟨-, place, hv⟩ := @Unfinished.tokens_eq _ _ file hv
      rw [tokens_of_cuts hcuts (.byte hq hf hb)] at hv
      cases hv
    refine ⟨.unexpectedByte b, ?_, fun _ => ⟨by rw [hbyte], ?_⟩, ?_, fun v hv => ?_⟩
    · rw [htake, ← Position.advance_append, Position.advance_start]
    · rw [hbyte]
      exact LexicalCause.message_unexpectedByte b
    · exact ⟨fun heq => by omega, fun ⟨v, hv⟩ => absurd hv (hfin v)⟩
    · exact absurd hv (hfin v)
  | cutOff hq =>
    cases h
    have hoff := faultOffset_cutOff hcuts hq
    refine ⟨⟨_, hoff, fun k hk => hk.unique hoff⟩, fun k hk => ?_⟩
    obtain rfl := hk.unique hoff
    obtain ⟨ds, hds, hz⟩ := State.reach_start_iff.mp hq
    refine ⟨.unexpectedEnd z, ?_, fun hlt => by omega, ?_, fun v hv => ?_⟩
    · rw [List.take_length, ← Position.advance_append, hcuts.bytes_append, Position.advance_start]
    · exact ⟨fun _ => ⟨z, ps, ds, hcuts.longestMatch, hds, hz⟩, fun _ => rfl⟩
    · obtain ⟨-, place, hv⟩ := @Unfinished.tokens_eq _ _ file hv
      rw [tokens_of_cuts hcuts (.cutOff hq)] at hv
      cases hv
      exact ⟨rfl, rfl⟩

/-- The number at the end of the second line lacks a digit. -/
theorem lexical_fault_place_second_line :
    tokens [0x31, 0x0A, 0x32, 0x2E] none =
        .error (.lexical (.unexpectedEnd [0x32, 0x2E]) ⟨2, 3⟩ none) ∧
      (∃! k, FaultOffset [0x31, 0x0A, 0x32, 0x2E] k) ∧
      ∀ k, FaultOffset [0x31, 0x0A, 0x32, 0x2E] k →
        (k = 4 ↔ ∃ w, Unfinished [0x31, 0x0A, 0x32, 0x2E] w) := by
  have h : tokens [0x31, 0x0A, 0x32, 0x2E] none =
      .error (.lexical (.unexpectedEnd [0x32, 0x2E]) ⟨2, 3⟩ none) := rfl
  refine ⟨h, (lexical_fault_place h).1, fun k hk => ?_⟩
  obtain ⟨cause, -, -, hlast, -⟩ := (lexical_fault_place h).2 k hk
  exact hlast

end Arithmetic

end ArithCheck
