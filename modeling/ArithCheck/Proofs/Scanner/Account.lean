import ArithCheck.Proofs.Position
import ArithCheck.Proofs.Scanner.Ledger

/-!
# Accounts of scanners

An account is kept while one scanner is called again and again, also after faults: what the calls
have handed out, the ledger of the bytes that they have put away, and the scanner as it is now.

* `Balanced`: what holds of every account of a byte string; a call keeps it (`Balanced.call`), and
  so do any number of calls (`balanced_calls`);
* `byte_accounting`: each byte that has been read is in one place of the ledger or is the one held
  back, and the position counts those that were taken into lexemes.
-/

namespace ArithCheck

open Arithmetic (arithmetic)

/-! ## Parts of a byte string -/

/-- Where the part `j` of parts that follow each other starts. -/
def startOf (parts : List (List UInt8)) (j : Nat) : Nat := (parts.take j).flatten.length

theorem startOf_succ (p : List UInt8) (ps : List (List UInt8)) (j : Nat) :
    startOf (p :: ps) (j + 1) = p.length + startOf ps j := by
  simp [startOf]

/-- Every offset is in exactly one part. -/
theorem existsUnique_part {parts : List (List UInt8)} {i : Nat} (hi : i < parts.flatten.length) :
    ∃! j, startOf parts j ≤ i ∧ i < startOf parts (j + 1) := by
  induction parts generalizing i with
  | nil => simp at hi
  | cons p ps ih =>
    have hzero : startOf (p :: ps) 0 = 0 := rfl
    have hone : startOf ps 0 = 0 := rfl
    by_cases hp : i < p.length
    · refine ⟨0, ⟨Nat.zero_le _, by rw [startOf_succ]; omega⟩, fun j hj => ?_⟩
      cases j with
      | zero => rfl
      | succ j =>
        rw [startOf_succ] at hj
        omega
    · have hrest : i - p.length < ps.flatten.length := by
        rw [List.flatten_cons, List.length_append] at hi
        omega
      obtain ⟨j, ⟨hle, hlt⟩, hunique⟩ := ih hrest
      refine ⟨j + 1, ⟨by rw [startOf_succ]; omega, by rw [startOf_succ]; omega⟩, fun j' hj' => ?_⟩
      cases j' with
      | zero =>
        rw [startOf_succ] at hj'
        omega
      | succ j' =>
        rw [startOf_succ, startOf_succ] at hj'
        rw [hunique j' ⟨by omega, by omega⟩]

/-! ## Accounts -/

/-- What a call has handed out. -/
abbrev Answer := Except Fault (Option Token)

namespace Answer

def token? : Answer → Option Token
  | .ok t => t
  | .error _ => none

def fault? : Answer → Option Fault
  | .ok _ => none
  | .error fault => some fault

end Answer

namespace Scanner

/-- What the next call of `nextToken` hands out. -/
def answer (s : Scanner) : Answer := outcome s.nextToken

/-- The scanner after the next call of `nextToken`. -/
def drawn (s : Scanner) : Scanner := finalState s.nextToken

end Scanner

structure Account where
  answers : List Answer
  ledger : List Entry
  scanner : Scanner

namespace Account

/-- Before the first call. -/
def opened (s : Scanner) : Account := ⟨[], [], s⟩

/-- After one more call. -/
def call (a : Account) : Account :=
  match a.scanner.nextToken with
  | .ok t s => ⟨a.answers ++ [.ok t], a.ledger ++ a.scanner.entries, s⟩
  | .error fault s => ⟨a.answers ++ [.error fault], a.ledger ++ a.scanner.entries, s⟩

/-- After `n` more calls. -/
def calls (a : Account) : Nat → Account
  | 0 => a
  | n + 1 => (a.calls n).call

/-- The tokens handed out. -/
def tokens (a : Account) : List Token := a.answers.filterMap Answer.token?

/-- The faults handed out. -/
def faults (a : Account) : List Fault := a.answers.filterMap Answer.fault?

/-- The parts into which the bytes that have been read fall: those of the ledger, and what is held
back. -/
def parts (a : Account) : List (List UInt8) := a.ledger.map Entry.bytes ++ [a.scanner.held]

variable {s s' : Scanner} {a : Account}

/-! ## Calls from somewhere on -/

theorem call_eq (a : Account) :
    a.call = ⟨a.answers ++ [a.scanner.answer], a.ledger ++ a.scanner.entries, a.scanner.drawn⟩ := by
  rw [call, Scanner.answer, Scanner.drawn]
  cases a.scanner.nextToken <;> rfl

theorem calls_add (a : Account) (m n : Nat) : a.calls (m + n) = (a.calls m).calls n := by
  induction n with
  | zero => rfl
  | succ n ih => exact congrArg call ih

/-- What calls hand out does not depend on what was handed out before. -/
theorem calls_eq (a : Account) (n : Nat) :
    (a.calls n).answers = a.answers ++ ((opened a.scanner).calls n).answers ∧
      (a.calls n).scanner = ((opened a.scanner).calls n).scanner := by
  induction n with
  | zero => exact ⟨(List.append_nil _).symm, rfl⟩
  | succ n ih =>
    obtain ⟨hanswers, hscanner⟩ := ih
    rw [calls, calls, call_eq, call_eq, hanswers, hscanner]
    exact ⟨List.append_assoc _ _ _, rfl⟩

/-! ## The balance -/

/-- What holds of the account of a scanner that was ready when the account was opened. -/
structure Balanced (s : Scanner) (a : Account) : Prop where
  moved : s.Moved a.ledger a.scanner
  tokens : a.ledger.filterMap Entry.token? = a.tokens
  abandoned : a.ledger.filterMap Entry.abandoned? = a.faults
  offending : a.ledger.filterMap Entry.offending? = a.faults.filter (·.byte?.isSome)
  lexemes : a.faults = [] → ∀ e ∈ a.ledger, e.isLexeme = true
  ended : a.faults = [] → a.answers ≠ [] → a.scanner.input = [] → a.scanner.atEnd = true
  complete : a.answers.getLast? = some (.ok none) → a.scanner.atEnd = true

theorem balanced_opened (hs : s.Ready) : Balanced s (opened s) where
  moved := .refl hs
  tokens := rfl
  abandoned := rfl
  offending := rfl
  lexemes _ := List.forall_mem_nil _
  ended _ h := absurd rfl h
  complete := nofun

/-- An account stays balanced with one more answer and the entries that belong to it. -/
theorem Balanced.extend (h : Balanced s a) {o : Answer} {es : List Entry}
    (moved : a.scanner.Moved es s') (tokens : es.filterMap Entry.token? = o.token?.toList)
    (abandoned : es.filterMap Entry.abandoned? = o.fault?.toList)
    (offending : es.filterMap Entry.offending? = o.fault?.toList.filter (·.byte?.isSome))
    (lexemes : o.fault? = none → ∀ e ∈ es, e.isLexeme = true)
    (ended : o.fault? = none → s'.input = [] → s'.atEnd = true)
    (complete : o = .ok none → s'.atEnd = true) :
    Balanced s ⟨a.answers ++ [o], a.ledger ++ es, s'⟩ := by
  have htokens : (Account.mk (a.answers ++ [o]) (a.ledger ++ es) s').tokens =
      a.tokens ++ o.token?.toList := by
    cases ho : o.token? <;> simp [Account.tokens, ho]
  have hfaults : (Account.mk (a.answers ++ [o]) (a.ledger ++ es) s').faults =
      a.faults ++ o.fault?.toList := by
    cases ho : o.fault? <;> simp [Account.faults, ho]
  have hnone : a.faults ++ o.fault?.toList = [] → a.faults = [] ∧ o.fault? = none := by
    simp
  refine ⟨h.moved.trans moved, ?_, ?_, ?_, ?_, ?_, ?_⟩
  · rw [htokens, List.filterMap_append, h.tokens, tokens]
  · rw [hfaults, List.filterMap_append, h.abandoned, abandoned]
  · rw [hfaults, List.filterMap_append, h.offending, offending, List.filter_append]
  · intro hno e he
    rw [hfaults] at hno
    exact (List.mem_append.mp he).elim (h.lexemes (hnone hno).1 e) (lexemes (hnone hno).2 e)
  · intro hno _
    rw [hfaults] at hno
    exact ended (hnone hno).2
  · intro hlast
    exact complete (by simpa using hlast)

theorem filterMap_blanks {β : Type} {f : Entry → Option β} {es : List Entry}
    (hes : ∀ e ∈ es, ∃ w, e = .blank w) (hf : ∀ w, f (.blank w) = none) : es.filterMap f = [] := by
  refine List.filterMap_eq_nil_iff.mpr fun e he => ?_
  obtain ⟨w, rfl⟩ := hes e he
  exact hf w

theorem isLexeme_of_blanks {es : List Entry} (hes : ∀ e ∈ es, ∃ w, e = .blank w) :
    ∀ e ∈ es, e.isLexeme = true := by
  intro e he
  obtain ⟨w, rfl⟩ := hes e he
  rfl

/-- A call keeps the balance. -/
theorem Balanced.call (h : Balanced s a) : Balanced s a.call := by
  have hbooked : a.scanner.Booked a.scanner.entries a.scanner.nextToken :=
    h.moved.ready.booked a.scanner.input_lt_bound
  rw [Account.call]
  generalize a.scanner.entries = es, a.scanner.nextToken = result at hbooked
  cases hbooked with
  | @token es t w s' blanks moved place pending =>
    refine h.extend moved ?_ ?_ ?_ (fun _ e he => ?_) (fun _ => pending) nofun
    · rw [List.filterMap_append, filterMap_blanks blanks fun _ => rfl]; rfl
    · rw [List.filterMap_append, filterMap_blanks blanks fun _ => rfl]; rfl
    · rw [List.filterMap_append, filterMap_blanks blanks fun _ => rfl]; rfl
    · rcases List.mem_append.mp he with he | he
      · exact isLexeme_of_blanks blanks e he
      · rw [List.mem_singleton.mp he]; rfl
  | complete es blanks moved atEnd =>
    exact h.extend moved (filterMap_blanks blanks fun _ => rfl)
      (filterMap_blanks blanks fun _ => rfl) (filterMap_blanks blanks fun _ => rfl)
      (fun _ => isLexeme_of_blanks blanks) (fun _ _ => atEnd) fun _ => atEnd
  | @fault es f w s' blanks moved =>
    refine h.extend moved ?_ ?_ ?_ nofun nofun nofun
    · rw [List.filterMap_append, filterMap_blanks blanks fun _ => rfl, Entry.ofFault]
      cases f.byte? <;> rfl
    · rw [List.filterMap_append, filterMap_blanks blanks fun _ => rfl, Entry.ofFault]
      cases f.byte? <;> rfl
    · rw [List.filterMap_append, filterMap_blanks blanks fun _ => rfl, Entry.ofFault]
      show _ = [f].filter (·.byte?.isSome)
      cases hb : f.byte? <;> simp only [List.filter_cons, hb] <;> rfl

theorem balanced_calls (hs : s.Ready) (n : Nat) : Balanced s ((opened s).calls n) := by
  induction n with
  | zero => exact balanced_opened hs
  | succ n ih => exact ih.call

/-- At the end of the input a call changes nothing. -/
theorem call_of_atEnd (h : a.scanner.atEnd = true) :
    a.call = ⟨a.answers ++ [.ok none], a.ledger, a.scanner⟩ := by
  have hn : a.scanner.nextToken = .ok none a.scanner := Scanner.nextToken_of_atEnd h
  have he : a.scanner.entries = [] := by
    rw [Scanner.entries, Scanner.bound, Scanner.entriesWithin, if_pos h]
  rw [call, hn, he]
  simp

theorem calls_of_atEnd (h : a.scanner.atEnd = true) (n : Nat) :
    a.calls n = ⟨a.answers ++ List.replicate n (.ok none), a.ledger, a.scanner⟩ := by
  induction n with
  | zero => simp [calls]
  | succ n ih =>
    have hcall : (a.calls n).scanner.atEnd = true := by rw [ih]; exact h
    rw [calls, call_of_atEnd hcall, ih, List.replicate_succ', List.append_assoc]

theorem length_answers (s : Scanner) (n : Nat) : ((opened s).calls n).answers.length = n := by
  induction n with
  | zero => rfl
  | succ n ih =>
    rw [calls, call]
    split <;> simp [ih]

theorem flatten_parts (a : Account) : a.parts.flatten = spent a.ledger ++ a.scanner.held := by
  simp [parts, spent, List.flatMap_def]

/-- The parts are all that has been read. -/
theorem Balanced.flatten_parts (h : Balanced s a) (hs : s.input = s.stream.bytes) :
    a.parts.flatten = a.scanner.stream.past.reverse := by
  have hall : a.parts.flatten ++ a.scanner.stream.unread =
      a.scanner.stream.past.reverse ++ a.scanner.stream.unread := by
    rw [Account.flatten_parts, List.append_assoc, ← h.moved.ready.input_eq,
      ← h.moved.input, hs, ← h.moved.same.bytes]
    rfl
  exact List.append_cancel_right hall

/-- Without a fault the end has been met where the lexemes are all of the bytes. -/
theorem Balanced.atEnd_iff (h : Balanced s a) (hfaults : a.faults = [])
    (hcalled : a.answers ≠ []) :
    a.scanner.atEnd = true ↔ spent (a.ledger.filter Entry.isLexeme) = s.input := by
  rw [List.filter_eq_self.mpr (h.lexemes hfaults), h.moved.input, List.self_eq_append_right]
  exact ⟨Scanner.input_of_atEnd, h.ended hfaults hcalled⟩

end Account

open Account in
/-- Byte accounting. After any number of calls on the scanner of a byte string, faults or not, every
offset up to the one that is read next is in exactly one part: in the lexeme of a token that was
handed out, in a lexeme that was dropped, in a part of a lexeme that was given up with a fault, in
the byte at fault, or in the byte held back, which is the one read last. The line and the column
count the bytes of the first three. As long as there was no fault, the end has been met if and only
if the first two are all of the byte string; and after a call that hands out nothing all others do,
and leave everything as it is. -/
theorem byte_accounting (bytes : List UInt8) (file : Option String) (tracing : Bool) (n : Nat) :
    let a := (opened (Scanner.ofBytes arithmetic bytes file tracing)).calls n
    let read := a.scanner.stream.position
    (a.parts.flatten = bytes.take read ∧
      ∀ i < read, ∃! j, startOf a.parts j ≤ i ∧ i < startOf a.parts (j + 1)) ∧
    (∀ e ∈ a.ledger, e.Sound) ∧
    a.ledger.filterMap Entry.token? = a.tokens ∧
    a.ledger.filterMap Entry.abandoned? = a.faults ∧
    a.ledger.filterMap Entry.offending? = a.faults.filter (·.byte?.isSome) ∧
    (a.scanner.held = [] ∨ a.scanner.held = (bytes.take read).getLast?.toList) ∧
    a.scanner.position = ⟨1 + ((taken a.ledger).count 0x0A : Nat),
      1 + ((Position.lastLine (taken a.ledger)).length : Nat)⟩ ∧
    (a.faults = [] → n ≠ 0 →
      (a.scanner.atEnd = true ↔ spent (a.ledger.filter Entry.isLexeme) = bytes)) ∧
    (a.answers.getLast? = some (.ok none) → ∀ m, a.calls m =
      ⟨a.answers ++ List.replicate m (.ok none), a.ledger, a.scanner⟩) := by
  intro a read
  have hready := Scanner.ready_ofBytes bytes file tracing
  have hbalanced : Balanced (Scanner.ofBytes arithmetic bytes file tracing) a :=
    balanced_calls hready n
  have hparts : a.parts.flatten = a.scanner.stream.past.reverse :=
    hbalanced.flatten_parts (by simp [hready.input_eq]; rfl)
  have hread : read = a.parts.flatten.length := by
    rw [hparts, List.length_reverse]
    exact congrArg (a.scanner.stream.past.length + ·) hbalanced.moved.same.beyond
  have hbytes : a.scanner.stream.bytes = bytes :=
    hbalanced.moved.same.bytes.trans (Stream.bytes_ofBytes bytes)
  have htake : a.parts.flatten = bytes.take read := by
    rw [hread, hparts, ← hbytes, Stream.bytes, List.take_left]
  refine ⟨⟨htake, fun i hi => existsUnique_part (hread ▸ hi)⟩, hbalanced.moved.sound,
    hbalanced.tokens, hbalanced.abandoned, hbalanced.offending, ?_, ?_, fun hfaults hn => ?_,
    fun hlast => calls_of_atEnd (hbalanced.complete hlast)⟩
  · rw [← htake, flatten_parts]
    rw [Scanner.held]
    split
    · exact .inr (by simp)
    · exact .inl rfl
  · rw [hbalanced.moved.position]
    exact Position.advance_start _
  · have hcalled : a.answers ≠ [] := fun hnil => by
      have hlength := congrArg List.length hnil
      exact hn ((length_answers _ n).symm.trans hlength)
    exact hbalanced.atEnd_iff hfaults hcalled

end ArithCheck
