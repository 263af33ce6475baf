import ArithCheck.Proofs.Session.Handouts

/-!
# The ends of computations in a session

The session in which each of the computations ends that move scanners on, told by the scanner that
has been moved: drawing a token, draining, a call of a recognizer and a step of an iterator; and the
one in which a block of steps ends.

* `holds_after_draw`, `holds_after_recognizing` and others: a property of sessions holds at the end
  if it does after the change that is made;
* `quiet_perform`: all other actions make one of a few small changes (`Quiet`).
-/

namespace ArithCheck.Session

open Recognition

variable {id j : Nat} {scanner scanner' : Scanner} {s s' : Session}

/-- A session with more in its log. -/
def logged (s : Session) (log : Log) : Session := { s with log := s.log ++ log }

/-- A session in which an iterator is finished. -/
def finish (s : Session) (i : Nat) (iterator : IteratorEntry) : Session :=
  { s with iterators := s.iterators.set i { iterator with finished := true } }

theorem log_putScanner (s : Session) (j : Nat) (moved : Scanner) :
    (s.putScanner j moved).log = s.log := by
  rw [putScanner]
  cases s.scanners.get? j <;> rfl

theorem find_eq {β : Type} (registry : Session → Registry β) (name : String) (s : Session) :
    find registry name s =
      match (registry s).find? name with
      | some found => .ok found s
      | none => .error (.unknownName name) s := by
  show (match (registry s).find? name with
    | some found => pure found
    | none => throw (.unknownName name) : Work (Nat × β)) s = _
  cases (registry s).find? name <;> rfl

/-- What is found by a name decides how a computation goes on. -/
theorem find_bind {α β : Type} (registry : Session → Registry β) (name : String)
    (next : Nat × β → Work α) (s : Session) :
    (find registry name >>= next) s =
      match (registry s).find? name with
      | some found => next found s
      | none => .error (.unknownName name) s := by
  show EStateM.bind (find registry name) next s = _
  rw [EStateM.bind, find_eq]
  cases (registry s).find? name <;> rfl

theorem finalState_map {α β : Type} (f : α → β) (c : Work α) (s : Session) :
    finalState ((f <$> c) s) = finalState (c s) := by
  show finalState (EStateM.map f c s) = _
  rw [EStateM.map]
  cases c s <;> rfl

theorem outcome_map {α β : Type} (f : α → β) (c : Work α) (s : Session) :
    outcome ((f <$> c) s) = (outcome (c s)).map f := by
  show outcome (EStateM.map f c s) = _
  rw [EStateM.map]
  cases c s <;> rfl

theorem finalState_ofExcept {α : Type} (x : Except Fault α) (s : Session) :
    finalState ((ofExcept x : Work α) s) = s := by
  cases x <;> rfl

/-- The reader of a scanner is in its entry. -/
theorem entry_of_scannerAt? (h : s.scannerAt? id = some scanner) :
    ∃ k, s.scanners.get? id = some ⟨scanner.toReader, k⟩ := by
  rw [Session.scannerAt?] at h
  cases hget : s.scanners.get? id with
  | none => simp [hget] at h
  | some entry =>
    cases hstream : s.streams.get? entry.stream with
    | none => simp [hget, hstream] at h
    | some stream =>
      simp only [hget, hstream, Option.bind_eq_bind, Option.bind_some, Option.pure_def,
        Option.some.injEq] at h
      subst h
      exact ⟨entry.stream, rfl⟩

theorem scannerAt_eq (j : Nat) (s : Session) :
    scannerAt j s =
      match s.scannerAt? j with
      | some scanner => .ok scanner s
      | none => .error (.unknownName (toString j)) s := by
  show (match s.scannerAt? j with
    | some scanner => pure scanner
    | none => throw (.unknownName (toString j)) : Work Scanner) s = _
  cases s.scannerAt? j <;> rfl

theorem finalState_scannerAt (j : Nat) (s : Session) : finalState (scannerAt j s) = s := by
  rw [scannerAt_eq]
  cases s.scannerAt? j <;> rfl

theorem draw_of_none (h : s.scannerAt? j = none) :
    draw j s = .error (.unknownName (toString j)) s := by
  show EStateM.bind (scannerAt j) _ s = _
  rw [EStateM.bind, scannerAt_eq, h]

theorem draw_of_ok {token : Option Token} (h : s.scannerAt? j = some scanner)
    (hn : scanner.nextToken = .ok token scanner') :
    draw j s = .ok token
      ((s.putScanner j scanner').logged (Log.ofToken scanner.tracing token).toArray) := by
  simp only [draw, scan, bind, EStateM.bind, scannerAt_eq, h, hn]
  rfl

theorem draw_of_error {fault : Fault} (h : s.scannerAt? j = some scanner)
    (hn : scanner.nextToken = .error fault scanner') :
    draw j s = .error fault (s.putScanner j scanner') := by
  simp only [draw, scan, bind, EStateM.bind, scannerAt_eq, h, hn]
  rfl

/-- What is drawn is what the scanner hands out next. -/
theorem outcome_draw (h : s.scannerAt? j = some scanner) :
    outcome (draw j s) = scanner.answer := by
  rw [Scanner.answer]
  cases hn : scanner.nextToken with
  | ok token scanner' => rw [draw_of_ok h hn]; rfl
  | error fault scanner' => rw [draw_of_error h hn]; rfl

/-- After a token is drawn the scanner has moved on by one call. -/
theorem finalState_draw (h : s.scannerAt? j = some scanner) :
    ∃ log, finalState (draw j s) = (s.putScanner j scanner.drawn).logged log := by
  rw [Scanner.drawn]
  cases hn : scanner.nextToken with
  | ok token scanner' => exact ⟨_, congrArg finalState (draw_of_ok h hn)⟩
  | error fault scanner' => exact ⟨#[], by rw [draw_of_error h hn]; simp [finalState, logged]⟩

/-- After a drain the scanner is wound off. -/
theorem finalState_drain (h : s.scannerAt? j = some scanner) :
    ∃ log, finalState (drain j s) = (s.putScanner j scanner.wind.2).logged log := by
  refine ⟨(Log.ofTape scanner.wind.1).toArray, ?_⟩
  simp only [drain, bind, EStateM.bind, scannerAt_eq, h]
  show finalState ((ofExcept scanner.wind.1.complete : Work (List Token))
    ((s.putScanner j scanner.wind.2).logged _)) = _
  cases scanner.wind.1.complete <;> rfl

theorem drain_of_none (h : s.scannerAt? j = none) : finalState (drain j s) = s := by
  simp only [drain, bind, EStateM.bind, scannerAt_eq, h]
  rfl

/-- A session with a recognition put back: the recognizer and the scanner that it has moved on. -/
def putRecognition (s : Session) (j : Nat) (entry : RecognizerEntry) (r : Recognition Scanner) :
    Session :=
  let recognizers := s.recognizers.set j { entry with recognizer := r.toRecognizer }
  { s with recognizers := recognizers }.putScanner entry.scanner r.source

/-- After a call of a recognizer it is where the recognition has left it, and so is its scanner.
What the recognition has written is in the log. -/
theorem finalState_recognizing {α : Type} {entry : RecognizerEntry}
    {body : Recognize Scanner α} (h : s.scannerAt? entry.scanner = some scanner) :
    let r := finalState (body { entry.recognizer with source := scanner, log := #[] })
    finalState (recognizing j entry body s) = (s.putRecognition j entry r).logged r.log := by
  simp only [recognizing, bind, EStateM.bind, scannerAt_eq, h]
  cases body { entry.recognizer with source := scanner, log := #[] } <;> rfl

theorem recognizing_of_none {α : Type} {entry : RecognizerEntry} {body : Recognize Scanner α}
    (h : s.scannerAt? entry.scanner = none) : finalState (recognizing j entry body s) = s := by
  simp only [recognizing, bind, EStateM.bind, scannerAt_eq, h]
  rfl

/-! ## Iterators -/

/-- A computation whose fault is part of its value. -/
theorem attempt_eq {α : Type} (c : Work α) (s : Session) :
    (tryCatch (Except.ok <$> c) fun fault => return .error fault : Work (Except Fault α)) s =
      match c s with
      | .ok a s' => .ok (.ok a) s'
      | .error fault s' => .ok (.error fault) s' := by
  simp only [tryCatch, tryCatchThe, MonadExceptOf.tryCatch, EStateM.tryCatch, Functor.map,
    EStateM.map]
  cases c s <;> rfl

variable {i : Nat} {iterator : IteratorEntry}

/-- An iterator that is finished does nothing. -/
theorem iterate_of_finished (h : iterator.finished = true) :
    iterate i iterator s = .ok none s := by
  rw [iterate, h]
  rfl

/-- An iterator answers with what it draws. -/
theorem outcome_iterate (h : iterator.finished = false) :
    outcome (iterate i iterator s) = outcome (draw iterator.scanner s) := by
  simp only [iterate, h, Bool.false_eq_true, if_false, bind, EStateM.bind, attempt_eq]
  cases draw iterator.scanner s with
  | ok token s' => cases token <;> rfl
  | error fault s' => rfl

/-- It is finished if there is no token. -/
theorem finalState_iterate (h : iterator.finished = false) :
    finalState (iterate i iterator s) =
      match ArithCheck.Answer.token? (outcome (draw iterator.scanner s)) with
      | some _ => finalState (draw iterator.scanner s)
      | none => (finalState (draw iterator.scanner s)).finish i iterator := by
  simp only [iterate, h, Bool.false_eq_true, if_false, bind, EStateM.bind, attempt_eq]
  cases draw iterator.scanner s with
  | ok token s' => cases token <;> rfl
  | error fault s' => rfl

/-! ## Actions and blocks -/

theorem act_eq (action : Action) (s : Session) :
    act action s =
      let result := perform action { s with log := #[] }
      (.act (outcome result) (ahead action (finalState result)) (finalState result).log,
        finalState result) := by
  rw [act]
  cases perform action { s with log := #[] } <;> rfl

theorem blockAnswer_within (settings : Settings) (steps : List Step) (interrupted : Bool)
    (s : Session) : (blockAnswer (Settings.within settings (block (run steps) interrupted) s)).2 =
      { (run steps { s with settings := settings }).2 with settings := s.settings } := by
  cases interrupted <;> rfl

theorem blockAnswer_isolated (steps : List Step) (s : Session) :
    (blockAnswer (Settings.isolated (block (run steps) false) s)).2 =
      { (run steps s).2 with settings := s.settings } := rfl

/-! ## What holds after a computation

A property of sessions holds after a computation if it holds at the start, for the case that the
computation does nothing, and after the change that the computation makes otherwise.
-/

section Holds

variable {P : Session → Prop} {α β : Type}

/-- A computation after one that changes nothing. -/
theorem holds_after_read {c : Work α} {next : α → Work β} (hs : P s) (hc : finalState (c s) = s)
    (hnext : ∀ a, c s = .ok a s → P (finalState (next a s))) :
    P (finalState ((c >>= next) s)) := by
  show P (finalState (EStateM.bind c next s))
  rw [EStateM.bind]
  cases hresult : c s with
  | ok a s' =>
    rw [hresult] at hc
    subst hc
    exact hnext a hresult
  | error fault s' =>
    rw [hresult] at hc
    subst hc
    exact hs

/-- A computation with what is found by a name. -/
theorem holds_after_find {registry : Session → Registry β} {name : String}
    {next : Nat × β → Work α} (hs : P s)
    (hnext : ∀ j b, (registry s).find? name = some (j, b) → P (finalState (next (j, b) s))) :
    P (finalState ((find registry name >>= next) s)) := by
  rw [find_bind]
  cases hfind : (registry s).find? name with
  | none => exact hs
  | some found => exact hnext found.1 found.2 hfind

theorem holds_after_ofExcept (x : Except Fault α) {next : α → Work β} (hs : P s)
    (hnext : ∀ a, P (finalState (next a s))) :
    P (finalState (((ofExcept x : Work α) >>= next) s)) :=
  holds_after_read hs (finalState_ofExcept x s) fun a _ => hnext a

theorem holds_after_draw (hs : P s) (hmoved : ∀ scanner log, s.scannerAt? j = some scanner →
      P ((s.putScanner j scanner.drawn).logged log)) : P (finalState (draw j s)) := by
  cases hat : s.scannerAt? j with
  | none =>
    rw [draw_of_none hat]
    exact hs
  | some scanner =>
    obtain ⟨log, hlog⟩ := finalState_draw hat
    rw [hlog]
    exact hmoved scanner log hat

theorem holds_after_drain (hs : P s) (hmoved : ∀ scanner log, s.scannerAt? j = some scanner →
      P ((s.putScanner j scanner.wind.2).logged log)) : P (finalState (drain j s)) := by
  cases hat : s.scannerAt? j with
  | none =>
    rw [drain_of_none hat]
    exact hs
  | some scanner =>
    obtain ⟨log, hlog⟩ := finalState_drain hat
    rw [hlog]
    exact hmoved scanner log hat

theorem holds_after_recognizing {entry : RecognizerEntry} {body : Recognize Scanner α} (hs : P s)
    (hmoved : ∀ scanner, s.scannerAt? entry.scanner = some scanner →
      let r := finalState (body { entry.recognizer with source := scanner, log := #[] })
      P ((s.putRecognition j entry r).logged r.log)) :
    P (finalState (recognizing j entry body s)) := by
  cases hat : s.scannerAt? entry.scanner with
  | none =>
    rw [recognizing_of_none hat]
    exact hs
  | some scanner =>
    rw [finalState_recognizing hat]
    exact hmoved scanner hat

theorem holds_after_iterate (hs : P s)
    (hdraw : iterator.finished = false → P (finalState (draw iterator.scanner s)))
    (hfinish : ∀ s', P s' → P (s'.finish i iterator)) :
    P (finalState (iterate i iterator s)) := by
  cases hfinished : iterator.finished with
  | true =>
    rw [iterate_of_finished hfinished]
    exact hs
  | false =>
    rw [finalState_iterate hfinished]
    split
    · exact hdraw hfinished
    · exact hfinish _ (hdraw hfinished)

end Holds

/-! ## New scanners -/

/-- The stream that a new scanner reads, and the streams that there are then. -/
def opened? (s : Session) : Input → Option (Nat × Registry Stream)
  | .stream name => (s.streams.find? name).map fun found => (found.1, s.streams)
  | .bytes bytes => some (s.streams.add (.ofBytes bytes))

/-- Opening what a new scanner reads fails and changes nothing, or the scanner is made with it. -/
theorem open_cases {α : Type} (s : Session) (input : Input) (make : Nat → Work α) :
    let opening : Work α := match input with
      | .stream name => (·.1) <$> find streams name >>= make
      | .bytes bytes => (modifyGet fun s =>
          let (id, streams) := s.streams.add (.ofBytes bytes)
          (id, { s with streams := streams })) >>= make
    (∃ fault, opening s = .error fault s) ∨
      ∃ stream streams, s.opened? input = some (stream, streams) ∧
        opening s = make stream { s with streams := streams } := by
  cases input with
  | bytes bytes => exact .inr ⟨_, _, rfl, rfl⟩
  | stream name =>
    dsimp only
    rw [bind_map_left, find_bind, opened?]
    cases s.streams.find? name with
    | none => exact .inl ⟨_, rfl⟩
    | some found => exact .inr ⟨_, _, rfl, rfl⟩

/-- Making a scanner fails and changes nothing, or the scanner is there under its name, made under
the current settings. -/
theorem newScanner_cases (s : Session) (name : String) (input : Input)
    (automaton file : Option String) :
    (∃ fault, newScanner name input automaton file s = .error fault s) ∨
      ∃ lexicon stream streams, s.opened? input = some (stream, streams) ∧
        newScanner name input automaton file s = .ok (.file file) { s with
          streams := streams
          scanners := s.scanners.insert name ⟨s.settings.reader lexicon file, stream⟩ } := by
  have hopen (lexicon : Automaton) := s.open_cases input fun stream => do
    let reader := (← Settings.current).reader lexicon file
    modify fun s => { s with scanners := s.scanners.insert name ⟨reader, stream⟩ }
    return Reply.file file
  unfold newScanner
  cases automaton with
  | none => exact (hopen Arithmetic.arithmetic).imp id fun h => ⟨Arithmetic.arithmetic, h⟩
  | some source =>
    dsimp only
    rw [bind_map_left, find_bind]
    cases s.automata.find? source with
    | none => exact .inl ⟨_, rfl⟩
    | some found => exact (hopen found.2).imp id fun h => ⟨found.2, h⟩

/-! ## Actions that draw nothing -/

/-- Whether an action may draw tokens from a scanner of the session. -/
def Action.draws : Action → Bool
  | .nextToken _ | .drain _ | .iterate _ | .call _ _ => true
  | _ => false

/-- A change of a session by which no scanner, recognizer or iterator is moved on. -/
inductive Quiet (s : Session) : Session → Prop
  /-- A change of the settings, the automata and the log. -/
  | other {s' : Session} (streams : s'.streams = s.streams) (scanners : s'.scanners = s.scanners)
    (recognizers : s'.recognizers = s.recognizers) (iterators : s'.iterators = s.iterators) :
    Quiet s s'
  | newStream (name : String) (stream : Stream) :
    Quiet s { s with streams := s.streams.insert name stream }
  | setStream {name : String} {j : Nat} {old : Stream}
    (found : s.streams.find? name = some (j, old)) (stream : Stream) :
    Quiet s { s with streams := s.streams.set j stream }
  | newScanner {input : Input} {stream : Nat} {streams : Registry Stream}
    (opened : s.opened? input = some (stream, streams)) (name : String) (reader : Reader) :
    Quiet s { s with streams := streams, scanners := s.scanners.insert name ⟨reader, stream⟩ }
  | newRecognizer (name : String) (entry : RecognizerEntry) :
    Quiet s { s with recognizers := s.recognizers.insert name entry }
  | newIterator (name : String) (entry : IteratorEntry) :
    Quiet s { s with iterators := s.iterators.insert name entry }

theorem Quiet.refl (s : Session) : Quiet s s := .other rfl rfl rfl rfl

theorem Quiet.logged (s : Session) (log : Log) : Quiet s (s.logged log) := .other rfl rfl rfl rfl

theorem quiet_newScanner (s : Session) (name : String) (input : Input)
    (automaton file : Option String) :
    Quiet s (finalState (newScanner name input automaton file s)) := by
  rcases s.newScanner_cases name input automaton file with
    ⟨fault, hresult⟩ | ⟨lexicon, stream, streams, hopen, hresult⟩
  · rw [hresult]
    exact .refl s
  · rw [hresult]
    exact .newScanner hopen name _

/-- An action that draws nothing makes one small change. -/
theorem quiet_perform {action : Action} (h : action.draws = false) (s : Session) :
    Quiet s (finalState (perform action s)) := by
  have hfind {α β : Type} {registry : Session → Registry β} {name : String}
      {next : Nat × β → Work α}
      (h : ∀ j b, (registry s).find? name = some (j, b) → Quiet s (finalState (next (j, b) s))) :
      Quiet s (finalState ((find registry name >>= next) s)) := holds_after_find (.refl s) h
  cases action with
  | nextToken name | drain name | iterate name | call name call => cases h
  | scanner name input automaton file => exact quiet_newScanner s name input automaton file
  | recognizer name target => exact hfind fun j entry _ => .newRecognizer name _
  | iterator name target => exact hfind fun j entry _ => .newIterator name _
  | stream name bytes => exact .newStream name _
  | tell name =>
    refine hfind fun j stream _ => ?_
    rw [finalState_map, finalState_ofExcept]
    exact .refl s
  | seek name place =>
    exact hfind fun j stream found => holds_after_ofExcept _ (.refl s) fun moved =>
      .setStream found moved
  | feed name bytes =>
    exact hfind fun j stream found => holds_after_ofExcept _ (.refl s) fun fed =>
      .setStream found fed
  | close name => exact hfind fun j stream found => .setStream found stream.close
  | isClosed name => exact hfind fun j stream _ => .refl s
  | automaton name table => exact .other rfl rfl rfl rfl
  | atEnd name => exact hfind fun j entry _ => .refl s
  | inspect name =>
    exact hfind fun j entry _ => holds_after_read (.refl s) (finalState_scannerAt j s) fun _ _ =>
      holds_after_ofExcept _ (.refl s) fun place => .refl s
  | settings => exact .refl s
  | assign config =>
    exact holds_after_ofExcept _ (.refl s) fun settings => .other rfl rfl rfl rfl
  | reset => exact .other rfl rfl rfl rfl
  | recognize bytes file =>
    let e := Examination.ofBytes s.limit s.settings bytes file
    show Quiet s (finalState ((Reply.flag <$> ofExcept e.verdict : Work Reply) (s.logged e.log)))
    rw [finalState_map, finalState_ofExcept]
    exact .logged s e.log
  | tokens bytes file =>
    let tape := Scanner.tape ⟨s.settings.reader Arithmetic.arithmetic file, .ofBytes bytes⟩
    let log := (Log.ofTape tape).toArray
    show Quiet s (finalState ((Reply.tokens <$> ofExcept tape.complete : Work Reply)
      (s.logged log)))
    rw [finalState_map, finalState_ofExcept]
    exact .logged s log

end ArithCheck.Session
