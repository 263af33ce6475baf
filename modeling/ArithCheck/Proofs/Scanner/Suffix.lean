import ArithCheck.Proofs.Scanner.Account

/-!
# Scanning what is left

A scanner remembers nothing of what it has done but where it is. Whatever calls and faults came
before, it hands out from then on what a fresh scanner of the rest of its input does, at positions
that start from its own.

* `Resumes`: a scanner goes on as another one does; one call keeps this (`Resumes.nextToken`), and
  so does any number of calls (`Resumes.calls`);
* `Ready.of_unexpectedByte`: where a byte that is at fault leaves a scanner;
* `suffix_law`: the scanner of a byte string after any number of calls.
-/

namespace ArithCheck

open Arithmetic (arithmetic State)

/-! ## Moving what is handed out -/

def Token.shift (base : Position) (t : Token) : Token :=
  { t with position := base.shift t.position }

def Fault.shift (base : Position) : Fault → Fault
  | .lexical cause position file => .lexical cause (base.shift position) file
  | .nesting position file => .nesting (position.map base.shift) file
  | fault => fault

/-- What is handed out by a scanner that starts at `base` instead. -/
def Answer.shift (base : Position) : Answer → Answer
  | .ok t => .ok (t.map (Token.shift base))
  | .error fault => .error (fault.shift base)

namespace Scanner

variable {base : Position} {f s s' : Scanner} {w rest : List UInt8} {q : State}

/-- The scanner `s` has the same input left as `f`, whose positions count from `base`. -/
structure Resumes (base : Position) (f s : Scanner) : Prop where
  left : f.Ready
  right : s.Ready
  file : s.file = f.file
  input : s.input = f.input
  position : s.position = base.shift f.position
  line : 1 ≤ f.position.line

/-- What the two hand out, the second one at its own positions. -/
inductive Shifted (base : Position) :
    EStateM.Result Fault Scanner (Option Token) → EStateM.Result Fault Scanner (Option Token) → Prop
  | ok {t : Option Token} {f s : Scanner} : Resumes base f s →
    Shifted base (.ok t f) (.ok (t.map (Token.shift base)) s)
  | error {fault : Fault} {f s : Scanner} : Resumes base f s →
    Shifted base (.error fault f) (.error (fault.shift base) s)

namespace Resumes

theorem position_advance (h : Resumes base f s) (w : List UInt8) :
    s.position.advance w = base.shift (f.position.advance w) := by
  rw [h.position, Position.advance_shift base h.line]

theorem beyond (h : Resumes base f s) (hi : f.input = w ++ rest) :
    Resumes base (f.beyond ⟨w, q.code, rest⟩) (s.beyond ⟨w, q.code, rest⟩) where
  left := h.left.beyond hi _
  right := h.right.beyond (h.input.trans hi) _
  file := h.file
  input := by
    rw [input_beyond h.right.opened (h.input.trans hi).symm, input_beyond h.left.opened hi.symm]
  position := h.position_advance w
  line := Position.le_line_advance h.line w

theorem after (h : Resumes base f s) (hi : f.input = w ++ rest) :
    Resumes base (f.after ⟨w, q.code, rest⟩) (s.after ⟨w, q.code, rest⟩) where
  left := h.left.after _
  right := h.right.after _
  file := h.file
  input := by
    rw [h.right.input_after (h.input.trans hi).symm, h.left.input_after hi.symm]
  position := h.position_advance w
  line := Position.le_line_advance h.line w

end Resumes

/-- At the end of the input a call changes neither the input nor the position. -/
theorem Ready.nextToken_end (hs : s.Ready) (hi : s.input = []) :
    ∃ s', s.nextToken = .ok none s' ∧ s'.Ready ∧ s'.file = s.file ∧ s'.input = [] ∧
      s'.position = s.position := by
  obtain ⟨s', hn, hr, hend, hsame⟩ := hs.nextToken_complete hi
  have hbooked : Booked s s.entries s.nextToken := hs.booked s.input_lt_bound
  rw [hn] at hbooked
  generalize s.entries = es at hbooked
  cases hbooked with
  | complete _ blanks moved _ =>
    have hspent := moved.input
    rw [hi] at hspent
    have htaken : taken es = [] := by
      rw [← spent_eq_taken blanks]
      exact (List.append_eq_nil_iff.mp hspent.symm).1
    refine ⟨s', hn, hr, hsame.file, input_of_atEnd hend, ?_⟩
    rw [moved.position, htaken, Position.advance_nil]

/-- One call hands out the same, at the other positions. -/
theorem Resumes.nextToken (h : Resumes base f s) : Shifted base f.nextToken s.nextToken := by
  -- By induction on the input, as blanks are passed over.
  induction hlength : f.input.length using Nat.strongRecOn generalizing f s with
  | ind m ih =>
    obtain ⟨w, q, rest, hi, hq, hstop⟩ := State.start.exists_trail f.input
    have hi' : s.input = w ++ rest := h.input.trans hi
    cases hf : q.isFinal with
    | true =>
      have hbeyond : Resumes base (f.beyond ⟨w, q.code, rest⟩) (s.beyond ⟨w, q.code, rest⟩) :=
        h.beyond hi
      cases hk : q.kind? with
      | some k =>
        rw [h.left.nextToken_token hi hq hstop hf hk, h.right.nextToken_token hi' hq hstop hf hk,
          h.position, h.file]
        exact .ok hbeyond
      | none =>
        have hlt := munch_input_lt h.left.start_not_final
          (h.left.munch_final hi hq hstop hf)
        rw [h.left.nextToken_blank hi hq hstop hf hk, h.right.nextToken_blank hi' hq hstop hf hk]
        exact ih _ (hlength ▸ hlt) hbeyond rfl
    | false =>
      rcases State.fault_or_nothing rest hq hf with hne | ⟨rfl, rfl, rfl⟩
      · have hafter : Resumes base (f.after ⟨w, q.code, rest⟩) (s.after ⟨w, q.code, rest⟩) :=
          h.after hi
        have hfault : (s.after ⟨w, q.code, rest⟩).unexpected (.front rest) =
            ((f.after ⟨w, q.code, rest⟩).unexpected (.front rest)).shift base := by
          show Fault.lexical _ (s.position.advance w) s.file =
            .lexical _ (base.shift (f.position.advance w)) f.file
          rw [h.position_advance, h.file]
          rfl
        rw [h.left.nextToken_fault hi hq hstop hf hne, h.right.nextToken_fault hi' hq hstop hf hne,
          hfault]
        exact .error hafter
      · obtain ⟨f', hn, hr, hfile, hinput, hposition⟩ := h.left.nextToken_end hi
        obtain ⟨s', hn', hr', hfile', hinput', hposition'⟩ := h.right.nextToken_end hi'
        rw [hn, hn']
        refine .ok ⟨hr, hr', ?_, hinput'.trans hinput.symm, ?_, ?_⟩
        · rw [hfile', hfile, h.file]
        · rw [hposition', hposition, h.position]
        · rw [hposition]
          exact h.line

/-- So does any number of calls. -/
theorem Resumes.calls (h : Resumes base f s) (n : Nat) :
    ((Account.opened s).calls n).answers =
        ((Account.opened f).calls n).answers.map (Answer.shift base) ∧
      Resumes base ((Account.opened f).calls n).scanner ((Account.opened s).calls n).scanner := by
  induction n with
  | zero => exact ⟨rfl, h⟩
  | succ n ih =>
    obtain ⟨hanswers, hscanner⟩ := ih
    have hcall := hscanner.nextToken
    rw [Account.calls, Account.calls, Account.call, Account.call]
    generalize ((Account.opened f).calls n).scanner.nextToken = x,
      ((Account.opened s).calls n).scanner.nextToken = y at hcall
    cases hcall with
    | ok h' => exact ⟨by simp [hanswers, Answer.shift], h'⟩
    | error h' => exact ⟨by simp [hanswers, Answer.shift], h'⟩

/-- A byte that is at fault is the last thing that has been read, and its place is the position. -/
theorem Ready.of_unexpectedByte {b : UInt8} {place : Position} {file : Option String}
    (hs : s.Ready) (h : s.nextToken = .error (.lexical (.unexpectedByte b) place file) s') :
    s'.position = place ∧ s'.held = [] ∧ ∃ u, s.input = u ++ b :: s'.input := by
  induction hlength : s.input.length using Nat.strongRecOn generalizing s with
  | ind m ih =>
    obtain ⟨w, q, rest, hi, hq, hstop⟩ := State.start.exists_trail s.input
    cases hf : q.isFinal with
    | true =>
      cases hk : q.kind? with
      | some k =>
        rw [hs.nextToken_token hi hq hstop hf hk] at h
        cases h
      | none =>
        have hlt := munch_input_lt hs.start_not_final (hs.munch_final hi hq hstop hf)
        rw [hs.nextToken_blank hi hq hstop hf hk] at h
        obtain ⟨hplace, hheld, u, hu⟩ := ih _ (hlength ▸ hlt) (hs.beyond hi _) h rfl
        refine ⟨hplace, hheld, w ++ u, ?_⟩
        have hinput : (s.beyond ⟨w, q.code, rest⟩).input = rest := input_beyond hs.opened hi.symm
        rw [hi, ← hinput, hu, List.append_assoc]
    | false =>
      rcases State.fault_or_nothing rest hq hf with hne | ⟨rfl, rfl, rfl⟩
      · rw [hs.nextToken_fault hi hq hstop hf hne] at h
        cases rest with
        | nil => cases h
        | cons c rest =>
          cases h
          have hinput := hs.input_after (t := ⟨w, q.code, b :: rest⟩) hi.symm
          exact ⟨rfl, rfl, w, by rw [hinput, hi]; rfl⟩
      · obtain ⟨s', hn, -⟩ := hs.nextToken_complete hi
        rw [hn] at h
        cases h

end Scanner

theorem Stream.drop_bytes (s : Stream) (h : s.beyond = 0) : s.bytes.drop s.position = s.unread := by
  rw [Stream.bytes, Stream.position, h, Nat.add_zero, ← List.length_reverse, List.drop_left]

namespace Account

variable {a : Account} {s : Scanner}

/-- The last answer is the one of the last call. -/
theorem nextToken_of_getLast? {fault : Fault}
    (h : a.call.answers.getLast? = some (.error fault)) :
    a.scanner.nextToken = .error fault a.call.scanner := by
  rw [call] at h ⊢
  cases hn : a.scanner.nextToken with
  | ok t s => simp [hn] at h
  | error fault' s =>
    obtain rfl : fault' = fault := by simpa [hn] using h
    rfl

/-- After a fault that is about a byte the input is what comes behind this byte. -/
theorem of_unexpectedByte {b : UInt8} {place : Position} {file : Option String} (hs : s.Ready)
    (n : Nat) (hlast : ((opened s).calls n).answers.getLast? =
      some (.error (.lexical (.unexpectedByte b) place file))) :
    ((opened s).calls n).scanner.position = place ∧ ((opened s).calls n).scanner.held = [] ∧
      ∃ u, s.input = u ++ [b] ++ ((opened s).calls n).scanner.input := by
  cases n with
  | zero => cases hlast
  | succ n =>
    have hmoved := (balanced_calls hs n).moved
    obtain ⟨hplace, hheld, u, hu⟩ := hmoved.ready.of_unexpectedByte (nextToken_of_getLast? hlast)
    refine ⟨hplace, hheld, spent ((opened s).calls n).ledger ++ u, ?_⟩
    rw [hmoved.input, hu, calls]
    simp

end Account

open Account in
/-- The suffix law. After any number of calls on the scanner of a byte string, faults or not, all
later calls hand out what those on a fresh scanner of the remaining bytes do, at positions that
start from the scanner's own. The remaining bytes are the one held back, if it is one, and those not
read yet; after a fault that is about a byte they are the bytes behind this byte, and the position
is the one of the fault. -/
theorem suffix_law (bytes : List UInt8) (file : Option String) (tracing : Bool) (n : Nat) :
    let a := (opened (Scanner.ofBytes arithmetic bytes file tracing)).calls n
    let s := a.scanner
    let read := s.stream.position
    let remaining := s.held ++ bytes.drop read
    (∀ m, ((opened s).calls m).answers =
      ((opened (Scanner.ofBytes arithmetic remaining file tracing)).calls m).answers.map
        (Answer.shift s.position)) ∧
    ∀ b place name, a.answers.getLast? = some (.error (.lexical (.unexpectedByte b) place name)) →
      remaining = bytes.drop read ∧ (bytes.take read).getLast? = some b ∧ s.position = place := by
  intro a s read remaining
  have hbalanced : Balanced (Scanner.ofBytes arithmetic bytes file tracing) a :=
    balanced_calls (Scanner.ready_ofBytes bytes file tracing) n
  have hbytes : (Scanner.ofBytes arithmetic bytes file tracing).input = bytes := by
    rw [(Scanner.ready_ofBytes bytes file tracing).input_eq]
    rfl
  have hmoved := hbalanced.moved
  have hunread : bytes.drop read = s.stream.unread := by
    rw [← s.stream.drop_bytes hmoved.same.beyond, hmoved.same.bytes]
    exact congrArg (List.drop read) (Stream.bytes_ofBytes bytes).symm
  have hinput : s.input = remaining := by
    rw [hmoved.ready.input_eq, ← hunread]
  refine ⟨fun m => ?_, fun b place name hlast => ?_⟩
  · have hfresh := Scanner.ready_ofBytes remaining file tracing
    have hresumes : Scanner.Resumes s.position
        (Scanner.ofBytes arithmetic remaining file tracing) s :=
      ⟨hfresh, hmoved.ready, hmoved.same.file, hinput.trans (hfresh.input_eq).symm,
        (Position.shift_start _).symm, Int.le_refl 1⟩
    exact (hresumes.calls m).1
  · obtain ⟨hplace, hheld, u, hu⟩ : s.position = place ∧ s.held = [] ∧
        ∃ u, (Scanner.ofBytes arithmetic bytes file tracing).input = u ++ [b] ++ s.input :=
      of_unexpectedByte (Scanner.ready_ofBytes bytes file tracing) n hlast
    have hremaining : remaining = bytes.drop read := by
      show s.held ++ bytes.drop read = _
      rw [hheld, List.nil_append]
    have hsplit : bytes.take read ++ bytes.drop read = u ++ [b] ++ bytes.drop read := by
      rw [List.take_append_drop, ← hremaining, ← hinput, ← hu, hbytes]
    rw [List.append_cancel_right hsplit]
    exact ⟨hremaining, List.getLast?_concat, hplace⟩

end ArithCheck
