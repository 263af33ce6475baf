import ArithCheck.Proofs.Examination.OnTape
import ArithCheck.Proofs.Recognition.OnAccount
import ArithCheck.Proofs.Scanner.Safety

/-!
# Faults of a scanner in use

A scanner may be used again and again, by drawing tokens from it and by recognizing expressions, and
also after a fault. Nothing but its input is ever at fault.

* `Use`: the uses, and `useAll` a sequence of them;
* `fault_of_recognize`: the faults of a recognition, whatever token is ahead at its start;
* `Drawn.use`: a use calls `nextToken` some times, and ends well or in a fault of the input;
* `only_input_at_fault`: so does any sequence of uses of the scanner of a byte string.
-/

namespace ArithCheck

open Account Recognition Arithmetic

/-- A fault that is about the input of a file. -/
def Fault.OfInput (file : Option String) (fault : Fault) : Prop :=
  (∃ cause place, fault = .lexical cause place file) ∨ ∃ place, fault = .nesting place file

/-- What a scanner is used for. -/
inductive Use
  /-- To draw a token. -/
  | token
  /-- To recognize an expression, with a limit on the rules in progress. -/
  | recognition (recognizer : Recognizer) (limit : Nat)

/-- A recognition over a scanner. -/
def Recognizer.over (recognizer : Recognizer) (s : Scanner) : Recognition Scanner :=
  { recognizer with
    source := s
    log := #[] }

namespace Use

/-- The fault of a use, if it ends in one, and the scanner after it. -/
def on (s : Scanner) : Use → Option Fault × Scanner
  | .token =>
    match s.nextToken with
    | .ok _ s' => (none, s')
    | .error fault s' => (some fault, s')
  | .recognition recognizer limit =>
    match Recognition.recognize limit (recognizer.over s) with
    | .ok _ r => (none, r.source)
    | .error fault r => (some fault, r.source)

end Use

/-- The faults of a sequence of uses, and the scanner after them. -/
def useAll : List Use → Scanner → List Fault × Scanner
  | [], s => ([], s)
  | use :: uses, s =>
    let (fault, s') := use.on s
    let (faults, s'') := useAll uses s'
    (fault.toList ++ faults, s'')

namespace Examination

variable {r r' : Recognition Scanner} {fault : Fault} {limit : Nat}

/-- What was ahead before the first drawing does not matter to a fault. -/
theorem recognize_error_of_ahead (h : Recognition.recognize limit r = .error fault r') :
    ∃ r'', Recognition.recognize limit { r with lookahead := none } = .error fault r'' ∧
      r''.source = r'.source := by
  cases hpull : TokenSource.pull r.source with
  | ok token s =>
    have hpull' : TokenSource.pull { r with lookahead := none }.source = .ok token s := hpull
    rw [recognize_of_advance (advance_eq hpull)] at h
    rw [recognize_of_advance (advance_eq hpull')]
    exact ⟨r', h, rfl⟩
  | error fault' s =>
    have hpull' : TokenSource.pull { r with lookahead := none }.source = .error fault' s := hpull
    rw [recognize_of_advance_error (advance_error hpull)] at h
    cases h
    exact ⟨_, recognize_of_advance_error (advance_error hpull'), rfl⟩

/-- A recognition that starts with no token ahead fails because of the input only. -/
theorem Mirrors.ofInput_of_recognize {bytes : List UInt8} {q : Recognition Tape}
    (hmirrors : Mirrors bytes r q) (hq : q.lookahead = none)
    (hfile : r'.source.file = r.source.file)
    (h : Recognition.recognize limit r = .error fault r') : fault.OfInput r.source.file := by
  have hlexical {fault : Fault} (hfault : q.source.fault = some fault) :
      fault.OfInput r.source.file := by
    rw [← hmirrors.tape] at hfault
    exact .inl (hmirrors.ready.tape_fault_lexical hfault)
  cases hadvance : Recognition.advance r with
  | error fault' r₁ =>
    rw [recognize_of_advance_error hadvance] at h
    cases h
    exact hlexical (hmirrors.fault_of_advance hadvance)
  | ok _ r₁ =>
    cases hrule : rule r₁.width limit 0 .e r₁ with
    | ok complete r₂ =>
      rw [recognize_of_ok hadvance hrule] at h
      cases h
    | error fault' r₂ =>
      by_cases hexhausted : fault' = .exhausted
      · subst hexhausted
        rw [recognize_of_exhausted hadvance hrule] at h
        cases h
        show Fault.OfInput _ (.nesting _ r'.source.file)
        rw [hfile]
        exact .inr ⟨_, rfl⟩
      · rw [recognize_of_error hadvance hexhausted hrule] at h
        cases h
        refine hlexical ((hmirrors.fault_of_rule hq hadvance hrule).resolve_right ?_)
        exact fun hfault => hexhausted hfault.1

theorem fault_of_recognize (hs : r.source.Ready) (hbeyond : r.source.stream.beyond = 0)
    (hfile : r'.source.file = r.source.file)
    (h : Recognition.recognize limit r = .error fault r') : fault.OfInput r.source.file := by
  obtain ⟨r'', h, hsource⟩ := recognize_error_of_ahead h
  let tape : Recognition Tape := ⟨⟨r.tracing, none⟩, r.source.tape, r.log⟩
  have hmirrors : Mirrors r.source.stream.bytes { r with lookahead := none } tape :=
    ⟨hs, rfl, hbeyond, rfl, rfl, rfl⟩
  exact hmirrors.ofInput_of_recognize rfl ((congrArg (·.file) hsource).trans hfile) h

end Examination

/-! ## Uses of a scanner -/

variable {s₀ s : Scanner}

/-- The scanner `s` is as some calls of `nextToken` have left the scanner `s₀`. -/
def Drawn (s₀ s : Scanner) : Prop := ∃ n, s = ((opened s₀).calls n).scanner

theorem Drawn.moved (hs₀ : s₀.Ready) (h : Drawn s₀ s) : s.Ready ∧ s₀.Continues s := by
  obtain ⟨n, rfl⟩ := h
  have hbalanced := balanced_calls hs₀ n
  exact ⟨hbalanced.moved.ready, hbalanced.moved.same⟩

/-- A use calls `nextToken` some more times. -/
theorem Drawn.on (h : Drawn s₀ s) (use : Use) : Drawn s₀ (use.on s).2 := by
  obtain ⟨n, rfl⟩ := h
  cases use with
  | token =>
    refine ⟨n + 1, ?_⟩
    rw [Use.on, calls, call]
    cases ((opened s₀).calls n).scanner.nextToken <;> rfl
  | recognition recognizer limit =>
    have hstep := (accounting_whole ((opened s₀).calls n)).recognize limit
    rw [Use.on]
    cases hr : Recognition.recognize limit (recognizer.over ((opened s₀).calls n).scanner) with
    | ok accepted r =>
      obtain ⟨m, hm⟩ := calls_of_ok hstep rfl hr
      exact ⟨n + m, hm.trans (by rw [calls_add])⟩
    | error fault r =>
      obtain ⟨m, hm⟩ := calls_of_error hstep rfl hr
      exact ⟨n + m, hm.trans (by rw [calls_add])⟩

/-- A use ends well or in a fault of the input. -/
theorem Drawn.fault_on (hs₀ : s₀.Ready) (hbeyond : s₀.stream.beyond = 0) (h : Drawn s₀ s)
    (use : Use) : ∀ fault ∈ (use.on s).1, fault.OfInput s₀.file := by
  obtain ⟨hs, hsame⟩ := h.moved hs₀
  obtain ⟨-, hsame'⟩ := (h.on use).moved hs₀
  rw [← hsame.file]
  cases use with
  | token =>
    intro fault hfault
    have hdraw := hs.draw
    rw [Use.on] at hfault
    generalize s.nextToken = result at hdraw hfault
    cases hdraw with
    | token | complete => cases hfault
    | fault _ _ _ tape =>
      obtain rfl := Option.some.inj hfault
      exact .inl (hs.tape_fault_lexical (by rw [tape]))
  | recognition recognizer limit =>
    intro fault hfault
    have hfile := hsame'.file.trans hsame.file.symm
    rw [Use.on] at hfault hfile
    cases hr : Recognition.recognize limit (recognizer.over s) with
    | ok accepted r => simp [hr] at hfault
    | error fault' r =>
      rw [hr] at hfault hfile
      obtain rfl := Option.some.inj hfault
      exact Examination.fault_of_recognize (r := recognizer.over s) hs
        (hsame.beyond.trans hbeyond) hfile hr

/-- Uses end well or in faults of the input. -/
theorem Drawn.uses (hs₀ : s₀.Ready) (hbeyond : s₀.stream.beyond = 0) (h : Drawn s₀ s)
    (uses : List Use) :
    (∀ fault ∈ (useAll uses s).1, fault.OfInput s₀.file) ∧ Drawn s₀ (useAll uses s).2 := by
  induction uses generalizing s with
  | nil => exact ⟨List.forall_mem_nil _, h⟩
  | cons use uses ih =>
    obtain ⟨hfaults, hdrawn⟩ := ih (h.on use)
    refine ⟨fun fault hfault => ?_, hdrawn⟩
    rcases List.mem_append.mp hfault with hfault | hfault
    · exact h.fault_on hs₀ hbeyond use fault (Option.mem_toList.mp hfault)
    · exact hfaults fault hfault

/-- Only the input is ever at fault. Let tokens be drawn from the scanner of a byte string and
expressions be recognized over it, in any order, as often as one likes and also after faults. Every
fault is a lexical one or one of nesting; and whenever one of the calls of `nextToken`, in which all
of this consists, takes a lexeme, the automaton is asked about states and symbols only that exist,
and for values only that are tags, and the lexeme is made of bytes and can be read as UTF-8. -/
theorem only_input_at_fault (bytes : List UInt8) (file : Option String) (tracing : Bool)
    (uses : List Use) :
    let s := Scanner.ofBytes arithmetic bytes file tracing
    (∀ fault ∈ (useAll uses s).1, (∃ cause place, fault = .lexical cause place file) ∨
      ∃ place, fault = .nesting place file) ∧
    (∃ n, (useAll uses s).2 = ((opened s).calls n).scanner) ∧
    ∀ n, ∀ m ∈ ((opened s).calls n).scanner.stops, m.Safe := by
  intro s
  have hs : s.Ready := Scanner.ready_ofBytes bytes file tracing
  have hstart : Drawn s s := ⟨0, rfl⟩
  obtain ⟨hfaults, hdrawn⟩ := hstart.uses hs rfl uses
  refine ⟨hfaults, hdrawn, fun n m hm => ?_⟩
  exact (balanced_calls hs n).moved.ready.safe_of_mem_stops hm

end ArithCheck
