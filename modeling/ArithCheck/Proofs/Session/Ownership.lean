import ArithCheck.Proofs.Session.Work

/-!
# A scanner with a stream of its own

In a session a scanner is moved on through its number and its stream is moved through names and
through other scanners that read it. `Owns` says that a stream belongs to one scanner alone, and
`Kept` that a change of the session does not touch such a scanner.

* `Kept.setStream`, `Kept.insertScanner`, `Kept.putScanner` and others: each of the small changes
  that sessions are made of keeps the scanner;
* `Kept.draw`, `Kept.recognizing` and others: so does what is done with another scanner, and what
  draws nothing (`Kept.of_quiet`);
* `Owns.putScanner`: moving the scanner on itself leaves the stream its own.
-/

namespace ArithCheck.Session

variable {id k : Nat} {scanner : Scanner} {s s' s'' : Session}

/-- The session has the given scanner under the number `id`, and its stream, which has the number
`k`, can be reached neither by a name nor from another scanner. -/
structure Owns (id k : Nat) (scanner : Scanner) (s : Session) : Prop where
  entry : s.scanners.get? id = some ⟨scanner.toReader, k⟩
  stream : s.streams.get? k = some scanner.stream
  unnamed : ∀ name, s.streams.id? name ≠ some k
  alone : ∀ j entry, s.scanners.get? j = some entry → entry.stream = k → j = id

theorem Owns.scannerAt? (h : Owns id k scanner s) : s.scannerAt? id = some scanner := by
  simp [Session.scannerAt?, h.entry, h.stream]

/-- A stream that is found by a name is another one. -/
theorem Owns.ne_of_find (h : Owns id k scanner s) {name : String} {j : Nat} {stream : Stream}
    (hfind : s.streams.find? name = some (j, stream)) : j ≠ k := by
  rintro rfl
  exact h.unnamed name (Registry.find?_eq_some_iff.mp hfind).1

/-- The iterator with a number is finished. -/
def Finished (i : Nat) (s : Session) : Prop :=
  ∃ iterator, s.iterators.get? i = some iterator ∧ iterator.finished = true

/-- From `s` to `s'` a scanner with a stream of its own is kept as it is, and iterators that are
finished stay so. -/
structure Kept (id k : Nat) (s s' : Session) : Prop where
  owns {scanner : Scanner} : Owns id k scanner s → Owns id k scanner s'
  finished {i : Nat} : Finished i s → Finished i s'

theorem Kept.trans (h : Kept id k s s') (h' : Kept id k s' s'') : Kept id k s s'' :=
  ⟨fun ho => h'.owns (h.owns ho), fun hf => h'.finished (h.finished hf)⟩

/-- It does not matter what is logged, what the settings are, and which recognizers and automata
there are. -/
theorem Kept.of_eq (hstreams : s'.streams = s.streams) (hscanners : s'.scanners = s.scanners)
    (hiterators : s'.iterators = s.iterators) : Kept id k s s' where
  owns h := ⟨hscanners ▸ h.entry, hstreams ▸ h.stream, hstreams ▸ h.unnamed, hscanners ▸ h.alone⟩
  finished := by
    rintro i ⟨iterator, hget, hfinished⟩
    exact ⟨iterator, hiterators ▸ hget, hfinished⟩

theorem Kept.refl (s : Session) : Kept id k s s := .of_eq rfl rfl rfl

/-! ## Streams -/

theorem Kept.insertStream (s : Session) (name : String) (stream : Stream) :
    Kept id k s { s with streams := s.streams.insert name stream } where
  owns h := by
    refine ⟨h.entry, s.streams.get?_insert_of_some name stream h.stream, fun name' => ?_, h.alone⟩
    have hlt : k < s.streams.items.size := (Array.getElem?_eq_some_iff.mp h.stream).1
    show (s.streams.insert name stream).id? name' ≠ _
    rw [Registry.id?_insert]
    split
    · simp only [ne_eq, Option.some.injEq]
      omega
    · exact h.unnamed name'
  finished h := h

theorem Kept.addStream (s : Session) (stream : Stream) :
    Kept id k s { s with streams := (s.streams.add stream).2 } where
  -- Under any name the stream would be in the same place.
  owns h := ⟨h.entry, s.streams.get?_insert_of_some "" stream h.stream, h.unnamed, h.alone⟩
  finished h := h

theorem Kept.setStream (s : Session) {j : Nat} (hj : j ≠ k) (stream : Stream) :
    Kept id k s { s with streams := s.streams.set j stream } where
  owns h := ⟨h.entry, (s.streams.get?_set_ne stream hj).trans h.stream, h.unnamed, h.alone⟩
  finished h := h

/-! ## Scanners -/

/-- A new scanner over another stream. -/
theorem Kept.insertScanner (s : Session) (name : String) {entry : ScannerEntry}
    (hentry : entry.stream ≠ k) :
    Kept id k s { s with scanners := s.scanners.insert name entry } where
  owns h := by
    refine ⟨s.scanners.get?_insert_of_some name entry h.entry, h.stream, h.unnamed, ?_⟩
    intro j entry' hget hstream
    rcases Registry.get?_insert_cases hget with hget | rfl
    · exact h.alone j entry' hget hstream
    · exact absurd hstream hentry
  finished h := h

/-- Moving another scanner on. -/
theorem Kept.putScanner {j : Nat} (hj : j ≠ id) (moved : Scanner) :
    Kept id k s (s.putScanner j moved) := by
  rw [Session.putScanner]
  cases hget : s.scanners.get? j with
  | none => exact .refl s
  | some entry =>
    refine ⟨fun h => ?_, fun h => h⟩
    have hne : entry.stream ≠ k := fun hstream => hj (h.alone j entry hget hstream)
    refine ⟨(s.scanners.get?_set_ne _ hj).trans h.entry,
      (s.streams.get?_set_ne _ hne).trans h.stream, h.unnamed, fun i entry' hi hstream => ?_⟩
    rcases Registry.get?_set_cases hi with hi | ⟨-, rfl⟩
    · exact h.alone i entry' hi hstream
    · exact absurd hstream hne

/-- Moving the scanner itself on. -/
theorem Owns.putScanner (h : Owns id k scanner s) (moved : Scanner) :
    Owns id k moved (s.putScanner id moved) := by
  simp only [Session.putScanner, h.entry]
  refine ⟨Registry.get?_set_self _ h.entry, Registry.get?_set_self _ h.stream, h.unnamed,
    fun j entry hget hstream => ?_⟩
  rcases Registry.get?_set_cases hget with hget | ⟨rfl, -⟩
  · exact h.alone j entry hget hstream
  · rfl

theorem iterators_putScanner (s : Session) (j : Nat) (moved : Scanner) :
    (s.putScanner j moved).iterators = s.iterators := by
  rw [Session.putScanner]
  cases s.scanners.get? j <;> rfl

/-! ## Iterators -/

theorem Kept.insertIterator (s : Session) (name : String) (iterator : IteratorEntry) :
    Kept id k s { s with iterators := s.iterators.insert name iterator } where
  owns h := ⟨h.entry, h.stream, h.unnamed, h.alone⟩
  finished := by
    rintro i ⟨found, hget, hfinished⟩
    exact ⟨found, s.iterators.get?_insert_of_some name iterator hget, hfinished⟩

theorem Kept.finish (s : Session) (i : Nat) (iterator : IteratorEntry) :
    Kept id k s (s.finish i iterator) where
  owns h := ⟨h.entry, h.stream, h.unnamed, h.alone⟩
  finished := by
    rintro j ⟨found, hget, hfinished⟩
    by_cases hj : i = j
    · subst hj
      exact ⟨_, Registry.get?_set_self _ hget, rfl⟩
    · exact ⟨found, (s.iterators.get?_set_ne _ hj).trans hget, hfinished⟩

theorem finished_finish {i : Nat} {iterator : IteratorEntry}
    (h : s.iterators.get? i = some iterator) : Finished i (s.finish i iterator) :=
  ⟨_, Registry.get?_set_self _ h, rfl⟩

/-! ## Computations -/

section Computations

variable {i j : Nat} {iterator : IteratorEntry} {α : Type}

theorem Kept.logged (s : Session) (log : Log) : Kept id k s (s.logged log) := .of_eq rfl rfl rfl

theorem Kept.draw (hj : j ≠ id) : Kept id k s (finalState (draw j s)) :=
  holds_after_draw (.refl s) fun _ log _ => (Kept.putScanner hj _).trans (.logged _ log)

theorem Kept.drain (hj : j ≠ id) : Kept id k s (finalState (drain j s)) :=
  holds_after_drain (.refl s) fun _ log _ => (Kept.putScanner hj _).trans (.logged _ log)

theorem Kept.iterate (hscanner : iterator.scanner ≠ id) :
    Kept id k s (finalState (iterate i iterator s)) :=
  holds_after_iterate (.refl s) (fun _ => .draw hscanner) fun s' h =>
    h.trans (.finish s' i iterator)

theorem Kept.putRecognition {entry : RecognizerEntry} (hj : entry.scanner ≠ id)
    (r : Recognition Scanner) : Kept id k s (s.putRecognition j entry r) := by
  let recognizers := s.recognizers.set j { entry with recognizer := r.toRecognizer }
  have hrecognizers : Kept id k s { s with recognizers := recognizers } := .of_eq rfl rfl rfl
  exact hrecognizers.trans (.putScanner hj r.source)

theorem Kept.recognizing {entry : RecognizerEntry} {body : Recognize Scanner α}
    (hj : entry.scanner ≠ id) : Kept id k s (finalState (recognizing j entry body s)) :=
  holds_after_recognizing (.refl s) fun _ _ => (Kept.putRecognition hj _).trans (.logged _ _)

/-- What a new scanner reads is another stream: one that a name stands for, or a new one. -/
theorem Kept.opened (ho : Owns id k scanner s) {input : Input} {stream : Nat}
    {streams : Registry Stream} (h : s.opened? input = some (stream, streams)) :
    stream ≠ k ∧ Kept id k s { s with streams := streams } := by
  cases input with
  | stream name =>
    obtain ⟨⟨j, found⟩, hfind, heq⟩ := Option.map_eq_some_iff.mp h
    cases heq
    exact ⟨ho.ne_of_find hfind, .refl s⟩
  | bytes bytes =>
    cases h
    have hlt : k < s.streams.items.size := (Array.getElem?_eq_some_iff.mp ho.stream).1
    exact ⟨Nat.ne_of_gt hlt, .addStream s _⟩

/-- Changes that move nothing on keep the scanner. -/
theorem Kept.of_quiet (ho : Owns id k scanner s) (h : Quiet s s') : Kept id k s s' := by
  cases h with
  | other streams scanners _ iterators => exact .of_eq streams scanners iterators
  | newStream name stream => exact .insertStream s name stream
  | setStream found stream => exact .setStream s (ho.ne_of_find found) stream
  | newScanner opened name reader =>
    obtain ⟨hne, hstreams⟩ := Kept.opened ho opened
    exact hstreams.trans (.insertScanner _ name hne)
  | newRecognizer name entry => exact .of_eq rfl rfl rfl
  | newIterator name entry => exact .insertIterator s name entry

end Computations

end ArithCheck.Session
