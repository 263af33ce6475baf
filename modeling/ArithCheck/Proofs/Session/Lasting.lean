import ArithCheck.Proofs.Examination.Tracing
import ArithCheck.Proofs.Session.Work

/-!
# What objects keep for life

A scanner is told whether to trace its tokens when it is made, and a recognizer whether to trace its
rules. No action of a session changes that afterwards, whatever it does to them, to the settings and
to the names that they have.

* `lasting_perform`: after an action everything traces what it has traced before;
* `tracesTokens_iff`, `tracesRules_iff`: what it means for the log that something is traced;
* `made_scanner`, `made_recognizer`: a new scanner and a new recognizer trace what the current
  settings say.
-/

namespace ArithCheck

/-! ## Recognitions -/

namespace Recognition

/-- The settings under which the scanner and the recognizer trace what they do. -/
def settings (r : Recognition Scanner) : Settings := ⟨.bool r.source.tracing, .bool r.tracing⟩

/-- The same recognition, but everything is traced. -/
def traced (r : Recognition Scanner) : Recognition Scanner :=
  { r with
    tracing := true
    source := r.source.traced true }

/-- A call of a recognizer, and the same call with everything traced. -/
theorem masked_call {r : Recognition Scanner} (limit : Nat) (call : Session.Call)
    (hlog : r.log = #[]) : Masked r.settings (finalState (call.run limit r.traced))
      (finalState (call.run limit r)) := by
  have hstart : Masked r.settings r.traced r := by
    refine ⟨rfl, rfl, rfl, rfl, rfl, ?_⟩
    show r.log = r.log.filter _
    rw [hlog, Array.filter_empty]
  have hsame := Session.Call.run_inStep (masking_whole r.settings) limit call r.traced r hstart
  generalize (call.run limit r.traced : EStateM.Result Fault _ _) = x,
    (call.run limit r : EStateM.Result Fault _ _) = y at hsame ⊢
  cases hsame with
  | ok hend | error hend => exact hend

end Recognition

namespace Session

open Recognition

variable {id j : Nat} {on : Bool} {s s' s'' : Session}

/-- Whether the scanner with a number traces its tokens. -/
def tracesTokens? (s : Session) (id : Nat) : Option Bool :=
  (s.scanners.get? id).map (·.reader.tracing)

/-- Whether the recognizer with a number traces its rules. -/
def tracesRules? (s : Session) (id : Nat) : Option Bool :=
  (s.recognizers.get? id).map (·.recognizer.tracing)

/-- From `s` to `s'` all scanners and recognizers stay there, and trace what they have traced. -/
structure Lasting (s s' : Session) : Prop where
  tokens {id : Nat} {on : Bool} : s.tracesTokens? id = some on → s'.tracesTokens? id = some on
  rules {id : Nat} {on : Bool} : s.tracesRules? id = some on → s'.tracesRules? id = some on

theorem Lasting.refl (s : Session) : Lasting s s := ⟨fun h => h, fun h => h⟩

theorem Lasting.trans (h : Lasting s s') (h' : Lasting s' s'') : Lasting s s'' :=
  ⟨fun htokens => h'.tokens (h.tokens htokens), fun hrules => h'.rules (h.rules hrules)⟩

/-- It does not matter what is logged, what the settings are, and what else there is. -/
theorem Lasting.of_eq (hscanners : s'.scanners = s.scanners)
    (hrecognizers : s'.recognizers = s.recognizers) : Lasting s s' where
  tokens h := by rwa [tracesTokens?, hscanners]
  rules h := by rwa [tracesRules?, hrecognizers]

/-! ## Small changes -/

theorem Lasting.insertScanner (s : Session) (name : String) (entry : ScannerEntry) :
    Lasting s { s with scanners := s.scanners.insert name entry } where
  tokens h := by
    obtain ⟨found, hget, htracing⟩ := Option.map_eq_some_iff.mp h
    exact Option.map_eq_some_iff.mpr
      ⟨found, s.scanners.get?_insert_of_some name entry hget, htracing⟩
  rules h := h

theorem Lasting.insertRecognizer (s : Session) (name : String) (entry : RecognizerEntry) :
    Lasting s { s with recognizers := s.recognizers.insert name entry } where
  tokens h := h
  rules h := by
    obtain ⟨found, hget, htracing⟩ := Option.map_eq_some_iff.mp h
    exact Option.map_eq_some_iff.mpr
      ⟨found, s.recognizers.get?_insert_of_some name entry hget, htracing⟩

/-- Moving a scanner on. -/
theorem Lasting.putScanner {scanner moved : Scanner} (hat : s.scannerAt? j = some scanner)
    (htracing : moved.tracing = scanner.tracing) : Lasting s (s.putScanner j moved) := by
  obtain ⟨k, hget⟩ := entry_of_scannerAt? hat
  rw [Session.putScanner, hget]
  exact ⟨fun h => (Registry.map_get?_set hget htracing _).trans h, fun h => h⟩

/-- Moving a recognition on. -/
theorem Lasting.putRecognition {entry : RecognizerEntry} {scanner : Scanner}
    {r : Recognition Scanner} (hget : s.recognizers.get? j = some entry)
    (hat : s.scannerAt? entry.scanner = some scanner)
    (htracing : r.tracing = entry.recognizer.tracing)
    (hsource : r.source.tracing = scanner.tracing) : Lasting s (s.putRecognition j entry r) := by
  let moved : RecognizerEntry := { entry with recognizer := r.toRecognizer }
  have hrecognizers : Lasting s { s with recognizers := s.recognizers.set j moved } :=
    ⟨fun h => h, fun h => (Registry.map_get?_set hget htracing _).trans h⟩
  exact hrecognizers.trans (.putScanner hat hsource)

theorem Lasting.logged (s : Session) (log : Log) : Lasting s (s.logged log) := .of_eq rfl rfl

/-! ## Actions -/

theorem lasting_draw (j : Nat) (s : Session) : Lasting s (finalState (draw j s)) :=
  holds_after_draw (.refl s) fun scanner log hat =>
    (Lasting.putScanner hat scanner.steady_nextToken.tracing).trans (.logged _ log)

theorem lasting_drain (j : Nat) (s : Session) : Lasting s (finalState (drain j s)) :=
  holds_after_drain (.refl s) fun scanner log hat =>
    (Lasting.putScanner hat scanner.steady_wind.tracing).trans (.logged _ log)

theorem lasting_iterate (i : Nat) (iterator : IteratorEntry) (s : Session) :
    Lasting s (finalState (iterate i iterator s)) :=
  holds_after_iterate (.refl s) (fun _ => lasting_draw iterator.scanner s) fun _ h =>
    h.trans (.of_eq rfl rfl)

theorem lasting_recognizing {entry : RecognizerEntry} (h : s.recognizers.get? j = some entry)
    (limit : Nat) (call : Call) :
    Lasting s (finalState (recognizing j entry (call.run limit) s)) := by
  refine holds_after_recognizing (.refl s) fun scanner hat => ?_
  let start : Recognition Scanner := { entry.recognizer with source := scanner, log := #[] }
  have hmasked : Masked start.settings _ (finalState (call.run limit start)) :=
    masked_call limit call rfl
  have hsource : (finalState (call.run limit start)).source.tracing = scanner.tracing :=
    congrArg (·.tracing) hmasked.source
  exact (Lasting.putRecognition h hat hmasked.tracing hsource).trans (.logged _ _)

/-- Changes that move nothing on leave everything as it is. -/
theorem Lasting.of_quiet (h : Quiet s s') : Lasting s s' := by
  cases h with
  | other _ scanners recognizers _ => exact .of_eq scanners recognizers
  | newStream | setStream | newIterator => exact .of_eq rfl rfl
  | @newScanner _ stream streams _ name reader =>
    have hstreams : Lasting s { s with streams := streams } := .of_eq rfl rfl
    exact hstreams.trans (.insertScanner _ name ⟨reader, stream⟩)
  | newRecognizer name entry => exact .insertRecognizer s name entry

/-- After an action everything still traces what it has traced. -/
theorem lasting_perform (action : Action) (s : Session) :
    Lasting s (finalState (perform action s)) := by
  have hfind {α β : Type} {registry : Session → Registry β} {name : String} {c : Nat × β → Work α}
      {reply : α → Reply} (h : ∀ j b, (registry s).find? name = some (j, b) →
        Lasting s (finalState (c (j, b) s))) :
      Lasting s (finalState ((find registry name >>= fun found => reply <$> c found) s)) :=
    holds_after_find (.refl s) fun j b hb => by
      rw [finalState_map]
      exact h j b hb
  cases action with
  | nextToken name =>
    exact @hfind _ _ scanners name (fun found => draw found.1) _ fun j entry _ => lasting_draw j s
  | drain name =>
    exact @hfind _ _ scanners name (fun found => drain found.1) _ fun j entry _ => lasting_drain j s
  | iterate name => exact hfind fun i iterator _ => lasting_iterate i iterator s
  | call name call =>
    exact @hfind _ _ recognizers name
      (fun found s => recognizing found.1 found.2 (call.run s.limit) s) _ fun j entry hentry =>
        lasting_recognizing (Registry.find?_eq_some_iff.mp hentry).2 s.limit call
  | _ => exact .of_quiet (quiet_perform rfl s)

/-! ## The log -/

/-- The scanner with a number traces its tokens, or it does not: those that are drawn from it are
logged, or they are not. -/
structure TracesTokens (s : Session) (id : Nat) (on : Bool) : Prop where
  made : s.tracesTokens? id = some on
  logs {token : Option Token} {s' : Session} (drawn : draw id s = .ok token s') :
    s'.log = s.log ++ (Log.ofToken on token).toArray

/-- All that a call of a recognizer writes if everything is traced. -/
def Call.history (limit : Nat) (call : Call) (recognizer : Recognizer) (scanner : Scanner) : Log :=
  let start : Recognition Scanner := { recognizer with source := scanner, log := #[] }
  (finalState (call.run limit start.traced)).log

/-- The recognizer with a number traces its rules, or it does not: of all that there is to be
written about a call, the rules that are entered are logged, or they are not. -/
structure TracesRules (s : Session) (id : Nat) (on : Bool) : Prop where
  made : s.tracesRules? id = some on
  logs {entry : RecognizerEntry} {scanner : Scanner} (found : s.recognizers.get? id = some entry)
    (source : s.scannerAt? entry.scanner = some scanner) (limit : Nat) (call : Call) :
    (finalState (recognizing id entry (call.run limit) s)).log = s.log ++
      (call.history limit entry.recognizer scanner).filter
        (Settings.keeps ⟨.bool scanner.tracing, .bool on⟩)

theorem tracesTokens_iff : s.TracesTokens id on ↔ s.tracesTokens? id = some on := by
  refine ⟨fun h => h.made, fun h => ⟨h, fun {token s'} hdraw => ?_⟩⟩
  cases hat : s.scannerAt? id with
  | none =>
    rw [draw_of_none hat] at hdraw
    cases hdraw
  | some scanner =>
    obtain ⟨k, hget⟩ := entry_of_scannerAt? hat
    rw [tracesTokens?, hget] at h
    obtain rfl : scanner.tracing = on := Option.some.inj h
    cases hnext : scanner.nextToken with
    | error fault moved =>
      rw [draw_of_error hat hnext] at hdraw
      cases hdraw
    | ok token moved =>
      rw [draw_of_ok hat hnext] at hdraw
      cases hdraw
      exact congrArg (· ++ _) (s.log_putScanner id moved)

theorem tracesRules_iff : s.TracesRules id on ↔ s.tracesRules? id = some on := by
  refine ⟨fun h => h.made, fun h => ⟨h, fun {entry scanner} hget hat limit call => ?_⟩⟩
  rw [tracesRules?, hget] at h
  obtain rfl : entry.recognizer.tracing = on := Option.some.inj h
  let start : Recognition Scanner := { entry.recognizer with source := scanner, log := #[] }
  have hlog : (finalState (call.run limit start)).log =
      (call.history limit entry.recognizer scanner).filter start.settings.keeps :=
    (masked_call limit call rfl).log
  rw [finalState_recognizing hat]
  show (s.putRecognition id entry (finalState (call.run limit start))).log ++
    (finalState (call.run limit start)).log = _
  rw [putRecognition, log_putScanner, hlog]
  rfl

/-! ## New objects -/

/-- A new scanner traces its tokens if the current settings say so. -/
theorem made_scanner {name : String} {input : Input} {automaton file : Option String}
    {reply : Reply} (h : perform (.scanner name input automaton file) s = .ok reply s') :
    ∃ id, s.scanners.get? id = none ∧ s'.scanners.id? name = some id ∧
      s'.tracesTokens? id = some s.settings.traceTokens.isOn := by
  rcases s.newScanner_cases name input automaton file with
    ⟨fault, hresult⟩ | ⟨lexicon, stream, streams, -, hresult⟩
  · cases hresult.symm.trans h
  · cases hresult.symm.trans h
    obtain ⟨hid, hget⟩ := Registry.find?_eq_some_iff.mp (s.scanners.find?_insert_self name _)
    exact ⟨_, s.scanners.get?_size, hid, congrArg (Option.map _) hget⟩

/-- A new recognizer traces its rules if the current settings say so. -/
theorem made_recognizer {name scanner : String} {reply : Reply}
    (h : perform (.recognizer name scanner) s = .ok reply s') :
    ∃ id, s.recognizers.get? id = none ∧ s'.recognizers.id? name = some id ∧
      s'.tracesRules? id = some s.settings.traceRules.isOn := by
  simp only [perform, find_bind] at h
  cases hfind : s.scanners.find? scanner with
  | none =>
    rw [hfind] at h
    cases h
  | some found =>
    rw [hfind] at h
    cases h
    obtain ⟨hid, hget⟩ := Registry.find?_eq_some_iff.mp (s.recognizers.find?_insert_self name _)
    exact ⟨_, s.recognizers.get?_size, hid, congrArg (Option.map _) hget⟩

end Session

end ArithCheck
