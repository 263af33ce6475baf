import ArithCheck.Proofs.Recognition.OnAccount
import ArithCheck.Proofs.Scanner.Draw
import ArithCheck.Session

/-!
# What a scanner of a session hands out

Everything in a session that refers to a scanner may call `nextToken` on it: steps of the session
themselves, iterators and recognizers. `handoutsAll` lists what the calls that steps make on one
scanner are answered, with whom the answers go to, in the order of time.

* `Hands`: a list is what a scanner hands out while it goes from one state to another;
* `hands_wind`, `hands_call`: draining a scanner and calling a recognizer hand out such lists.
-/

namespace ArithCheck

open Account Recognition

/-- What winding off a tape hands out: its tokens, and the fault or the end behind them. -/
def Tape.answers (tape : Tape) : List Answer :=
  tape.tokens.map (fun t => .ok (some t)) ++
    [match tape.fault with
      | none => .ok none
      | some fault => .error fault]

namespace Session

/-- Who a scanner hands something out to. -/
inductive Consumer
  /-- A step of the session itself. -/
  | step
  /-- The iterator with a number. -/
  | iterator (id : Nat)
  /-- The recognizer with a number. -/
  | recognizer (id : Nat)
  deriving DecidableEq

structure Handout where
  consumer : Consumer
  answer : ArithCheck.Answer

/-- What a call of a recognizer makes its scanner hand out, told by an account of the scanner. -/
def Call.answers (limit : Nat) (call : Call) (recognizer : Recognizer) (scanner : Scanner) :
    List ArithCheck.Answer :=
  let start : Recognition Account :=
    { recognizer with
      source := opened scanner
      log := #[] }
  (finalState (call.run limit start)).source.answers

/-- What an action makes the scanner with the number `id` hand out. -/
def handed (id : Nat) (scanner : Scanner) (s : Session) : Action → List Handout
  | .nextToken name =>
    if (s.scanners.find? name).map (·.1) = some id then [⟨.step, scanner.answer⟩] else []
  | .drain name =>
    if (s.scanners.find? name).map (·.1) = some id then scanner.tape.answers.map (⟨.step, ·⟩)
    else []
  | .iterate name =>
    match s.iterators.find? name with
    | some (i, iterator) =>
      if iterator.scanner = id ∧ iterator.finished = false then [⟨.iterator i, scanner.answer⟩]
      else []
    | none => []
  | .call name call =>
    match s.recognizers.find? name with
    | some (i, entry) =>
      if entry.scanner = id then
        (call.answers s.limit entry.recognizer scanner).map (⟨.recognizer i, ·⟩)
      else []
    | none => []
  | _ => []

mutual

/-- What a step makes the scanner with the number `id` hand out. -/
def handouts (id : Nat) : Step → Session → List Handout
  | .act action, s =>
    match s.scannerAt? id with
    | some scanner => handed id scanner s action
    | none => []
  | .within config steps _, s =>
    match Settings.ofValue config with
    | .error _ => []
    | .ok settings => handoutsAll id steps { s with settings := settings }
  | .fresh steps, s => handoutsAll id steps { s with settings := .default }
  | .copied steps, s => handoutsAll id steps s

/-- What a sequence of steps makes the scanner with the number `id` hand out. -/
def handoutsAll (id : Nat) : List Step → Session → List Handout
  | [], _ => []
  | step :: rest, s => handouts id step s ++ handoutsAll id rest (Session.answer step s).2

end

/-- While it goes from `s` to `s'` a scanner hands out what the list says. -/
structure Hands (s : Scanner) (hs : List Handout) (s' : Scanner) : Prop where
  answers : ((opened s).calls hs.length).answers = hs.map (·.answer)
  scanner : ((opened s).calls hs.length).scanner = s'

end Session

namespace Session

variable {s s' s'' : Scanner} {hs hs' : List Handout}

theorem Hands.refl (s : Scanner) : Hands s [] s := ⟨rfl, rfl⟩

theorem Hands.trans (h : Hands s hs s') (h' : Hands s' hs' s'') : Hands s (hs ++ hs') s'' := by
  obtain ⟨hanswers, hscanner⟩ := calls_eq ((opened s).calls hs.length) hs'.length
  rw [h.scanner] at hanswers hscanner
  constructor
  · rw [List.length_append, calls_add, hanswers, h.answers, h'.answers, List.map_append]
  · rw [List.length_append, calls_add, hscanner, h'.scanner]

/-- One call of `nextToken`. -/
theorem hands_one (s : Scanner) (consumer : Consumer) :
    Hands s [⟨consumer, s.answer⟩] s.drawn := by
  constructor
  · show ((opened s).call).answers = _
    rw [call_eq]
    rfl
  · show ((opened s).call).scanner = _
    rw [call_eq]
    rfl

theorem Hands.ready (h : Hands s hs s') (hs : s.Ready) : s'.Ready := by
  rw [← h.scanner]
  exact (balanced_calls hs _).moved.ready

/-- Any number of calls of `nextToken`, all by the same consumer. -/
theorem hands_calls (s : Scanner) (consumer : Consumer) (n : Nat) :
    Hands s (((opened s).calls n).answers.map (⟨consumer, ·⟩)) ((opened s).calls n).scanner := by
  have hlength : (((opened s).calls n).answers.map (Handout.mk consumer ·)).length = n := by
    rw [List.length_map, length_answers]
  constructor
  · rw [hlength, List.map_map]
    exact (List.map_id _).symm
  · rw [hlength]

/-! ## Winding off -/

theorem hands_windWithin {bound : List UInt8} (hs : s.Ready) (hb : s.input.length < bound.length)
    (consumer : Consumer) :
    Hands s ((s.windWithin bound).1.answers.map (⟨consumer, ·⟩)) (s.windWithin bound).2 := by
  induction bound generalizing s with
  | nil => exact absurd hb (Nat.not_lt_zero _)
  | cons c bound ih =>
    have hone := hands_one s consumer
    have hdraw := hs.draw
    rw [Scanner.answer, Scanner.drawn] at hone
    rw [Scanner.windWithin]
    generalize s.nextToken = result at hone hdraw
    cases hdraw with
    | @token t s' ready same shorter =>
      have hlt : s'.input.length < bound.length := by
        simp only [List.length_cons] at hb
        omega
      exact hone.trans (ih ready hlt)
    | complete => exact hone
    | fault => exact hone

/-- Winding a scanner off hands out all that is on its tape. -/
theorem hands_wind (hs : s.Ready) (consumer : Consumer) :
    Hands s (s.tape.answers.map (⟨consumer, ·⟩)) s.wind.2 :=
  hands_windWithin hs s.input_lt_bound consumer

/-! ## Recognizers -/

/-- Recognitions in step stay so on a call. -/
theorem Call.run_inStep {σ τ : Type} [TokenSource σ] [TokenSource τ] {l : Lockstep σ τ}
    (h : l.Whole) (limit : Nat) (call : Call) :
    InStep l.holds l.ended (call.run limit) (call.run limit) := by
  have hpure {α β : Type} (f : α → β) {c : Recognize σ α} {d : Recognize τ α}
      (h : InStep l.holds l.ended c d) : InStep l.holds l.ended (f <$> c) (f <$> d) :=
    h.bind fun x => .pure (f x)
  cases call with
  | recognize => exact hpure some (h.recognize limit)
  | pull => exact InStep.bind l.advance fun _ => .pure none
  | rule n => exact hpure some (h.start limit n)
  | terminal tag =>
    rw [Call.run, Call.run]
    cases Token.Kind.ofTag? tag with
    | none => exact .pure (some false)
    | some k => exact hpure some (l.simulation.terminal k)

/-- A call of a recognizer hands out what it is answered over an account. -/
theorem hands_call (limit : Nat) (call : Call) (recognizer : Recognizer) (s : Scanner)
    (consumer : Consumer) :
    Hands s ((call.answers limit recognizer s).map (⟨consumer, ·⟩))
      (finalState (call.run limit { recognizer with source := s, log := #[] })).source := by
  let r : Recognition Scanner := { recognizer with source := s, log := #[] }
  have hstart : Accounted (opened s) (r.onAccount (opened s)) r := accounted_onAccount rfl
  have hsame := Call.run_inStep (accounting_whole (opened s)) limit call _ _ hstart
  show Hands s ((finalState (call.run limit (r.onAccount (opened s)))).source.answers.map _)
    (finalState (call.run limit r)).source
  generalize call.run limit (r.onAccount (opened s)) = x, call.run limit r = y at hsame ⊢
  cases hsame with
  | ok hend | error hend =>
    obtain ⟨n, hn⟩ := hend.calls
    have hcalls := hands_calls s consumer n
    rw [← hn, hend.scanner] at hcalls
    exact hcalls

end Session

end ArithCheck
