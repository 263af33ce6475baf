import ArithCheck.Proofs.Session.Ownership

/-!
# Sharing a scanner

Iterators, recognizers and the steps of a session may all draw from one scanner, in any order. What
they are handed out together is what one caller would be handed out who calls `nextToken` again and
again, each answer to one of them.

* `Tracked`: what has been handed out up to some moment;
* `Tracked.adds`, `tracked_answer`, `tracked_run`: what actions, steps and sequences of steps add;
* `shared_scanner`: any steps of a session in which the scanner of a byte string has been made.
-/

namespace ArithCheck.Session

open Account Recognition Arithmetic

variable {id k j i : Nat} {fresh scanner scanner' : Scanner} {hs new : List Handout}
  {s s' : Session}

/-- The handout is one to the iterator with a number. -/
def Handout.IsTo (h : Handout) (i : Nat) : Prop := h.consumer = .iterator i

/-- What has been handed out up to some moment by the scanner with the number `id`, which was
`fresh` at first. An iterator to which something else than a token was handed out is finished, and
nothing has been handed out to it since then. -/
structure Tracked (id k : Nat) (fresh : Scanner) (hs : List Handout) (scanner : Scanner)
    (s : Session) : Prop where
  ready : fresh.Ready
  hands : Hands fresh hs scanner
  owns : Owns id k scanner s
  ended : ∀ h ∈ hs, ∀ i, h.IsTo i → h.answer.token? = none → Finished i s
  once : hs.Pairwise fun h h' => ∀ i, h.IsTo i → h'.IsTo i → h.answer.token? ≠ none

/-- A change that does not touch the scanner. -/
theorem Tracked.kept (h : Tracked id k fresh hs scanner s) (hk : Kept id k s s') :
    Tracked id k fresh hs scanner s' where
  ready := h.ready
  hands := h.hands
  owns := hk.owns h.owns
  ended h' hmem i hto hnone := hk.finished (h.ended h' hmem i hto hnone)
  once := h.once

/-- More is handed out, while the scanner moves on. -/
theorem Tracked.add (h : Tracked id k fresh hs scanner s) (hnew : Hands scanner new scanner')
    (hk : Kept id k (s.putScanner id scanner') s')
    (hlive : ∀ h ∈ new, ∀ i, h.IsTo i → ¬ Finished i s)
    (hended : ∀ h ∈ new, ∀ i, h.IsTo i → h.answer.token? = none → Finished i s')
    (honce : new.Pairwise fun h h' => ∀ i, h.IsTo i → h'.IsTo i → h.answer.token? ≠ none) :
    Tracked id k fresh (hs ++ new) scanner' s' := by
  have hfinished : ∀ {i}, Finished i s → Finished i s' := fun hf =>
    hk.finished (by rwa [Finished, iterators_putScanner])
  refine ⟨h.ready, h.hands.trans hnew, hk.owns (h.owns.putScanner scanner'), ?_, ?_⟩
  · intro h' hmem i hto hnone
    rcases List.mem_append.mp hmem with hmem | hmem
    · exact hfinished (h.ended h' hmem i hto hnone)
    · exact hended h' hmem i hto hnone
  · refine List.pairwise_append.mpr ⟨h.once, honce, fun h₁ hmem h₂ hmem' i hto hto' hnone => ?_⟩
    exact hlive h₂ hmem' i hto' (h.ended h₁ hmem i hto hnone)

/-- All of it to one consumer, which is not an iterator. -/
theorem Tracked.addAll {consumer : Consumer} {answers : List ArithCheck.Answer}
    (h : Tracked id k fresh hs scanner s) (hconsumer : ∀ i, consumer ≠ .iterator i)
    (hnew : Hands scanner (answers.map (⟨consumer, ·⟩)) scanner')
    (hk : Kept id k (s.putScanner id scanner') s') :
    Tracked id k fresh (hs ++ answers.map (⟨consumer, ·⟩)) scanner' s' := by
  have hnot : ∀ h ∈ answers.map (Handout.mk consumer ·), ∀ i, ¬ h.IsTo i := by
    intro h hmem i hto
    obtain ⟨answer, -, rfl⟩ := List.mem_map.mp hmem
    exact hconsumer i hto
  refine h.add hnew hk (fun h' hmem i hto => absurd hto (hnot h' hmem i))
    (fun h' hmem i hto => absurd hto (hnot h' hmem i)) (List.pairwise_map.mpr ?_)
  exact List.pairwise_of_forall fun _ _ i hto => absurd hto (hconsumer i)

/-- One answer to an iterator that is not finished yet. -/
theorem Tracked.addOne (h : Tracked id k fresh hs scanner s) (hlive : ¬ Finished i s)
    (hk : Kept id k (s.putScanner id scanner.drawn) s')
    (hended : scanner.answer.token? = none → Finished i s') :
    Tracked id k fresh (hs ++ [⟨.iterator i, scanner.answer⟩]) scanner.drawn s' := by
  have hto : ∀ {j}, (Handout.mk (.iterator i) scanner.answer).IsTo j → i = j :=
    Consumer.iterator.inj
  refine h.add (hands_one scanner _) hk ?_ ?_ (List.pairwise_singleton _ _)
  · rintro h' hmem j hj
    obtain rfl := List.mem_singleton.mp hmem
    exact hto hj ▸ hlive
  · rintro h' hmem j hj hnone
    obtain rfl := List.mem_singleton.mp hmem
    exact hto hj ▸ hended hnone

/-! ## Actions -/

/-- An action adds what `handed` says. -/
def Adds (id k : Nat) (fresh : Scanner) (hs : List Handout) (scanner : Scanner) (s : Session)
    (action : Action) : Prop :=
  ∃ scanner', Tracked id k fresh (hs ++ handed id scanner s action) scanner'
    (finalState (perform action s))

theorem handed_of_draws_eq_false {action : Action} (h : action.draws = false) :
    handed id scanner s action = [] := by
  cases action <;> first | rfl | cases h

/-- An action that draws nothing. -/
theorem Tracked.adds_nothing {action : Action} (h : Tracked id k fresh hs scanner s)
    (hdraws : action.draws = false) : Adds id k fresh hs scanner s action := by
  rw [Adds, handed_of_draws_eq_false hdraws, List.append_nil]
  exact ⟨scanner, h.kept (.of_quiet h.owns (quiet_perform hdraws s))⟩

/-- An action that goes on with what it finds by a name. -/
theorem Tracked.adds_of_find {α β : Type} {action : Action} {registry : Session → Registry β}
    {name : String} {c : Nat × β → Work α} {reply : α → Reply}
    (h : Tracked id k fresh hs scanner s)
    (hperform : perform action s = (find registry name >>= fun found => reply <$> c found) s)
    (hnone : (registry s).find? name = none → handed id scanner s action = [])
    (hsome : ∀ found, (registry s).find? name = some found →
      ∃ scanner', Tracked id k fresh (hs ++ handed id scanner s action) scanner'
        (finalState (c found s))) : Adds id k fresh hs scanner s action := by
  rw [find_bind] at hperform
  cases hfind : (registry s).find? name with
  | none =>
    rw [hfind] at hperform
    rw [Adds, hnone hfind, List.append_nil, hperform]
    exact ⟨scanner, h⟩
  | some found =>
    rw [hfind] at hperform
    have hend : finalState (perform action s) = finalState (c found s) := by
      rw [hperform]
      exact finalState_map reply (c found) s
    rw [Adds, hend]
    exact hsome found hfind

/-- An action by which a step draws from a scanner that it names. -/
theorem Tracked.adds_of_named {α : Type} {action : Action} {name : String} {c : Nat → Work α}
    {reply : α → Reply} {answers : List ArithCheck.Answer} {log : Log}
    (h : Tracked id k fresh hs scanner s)
    (hperform : perform action s = (find scanners name >>= fun found => reply <$> c found.1) s)
    (hhanded : handed id scanner s action =
      if (s.scanners.find? name).map (·.1) = some id then answers.map (⟨.step, ·⟩) else [])
    (hother : ∀ j, j ≠ id → Kept id k s (finalState (c j s)))
    (hmoved : finalState (c id s) = (s.putScanner id scanner').logged log)
    (hnew : Hands scanner (answers.map (⟨.step, ·⟩)) scanner') :
    Adds id k fresh hs scanner s action := by
  refine h.adds_of_find hperform (fun hfind => by rw [hhanded, hfind]; rfl) fun found hfind => ?_
  obtain ⟨j, entry⟩ := found
  rw [hhanded, hfind]
  split
  · rename_i hj
    obtain rfl : j = id := Option.some.inj hj
    rw [hmoved]
    exact ⟨scanner', h.addAll nofun hnew (.logged _ log)⟩
  · rename_i hj
    have hne : j ≠ id := fun heq => hj (congrArg some heq)
    rw [List.append_nil]
    exact ⟨scanner, h.kept (hother j hne)⟩

theorem Tracked.adds_nextToken (h : Tracked id k fresh hs scanner s) (name : String) :
    Adds id k fresh hs scanner s (.nextToken name) := by
  obtain ⟨log, hmoved⟩ := finalState_draw h.owns.scannerAt?
  have hnew : Hands scanner ([scanner.answer].map (⟨.step, ·⟩)) scanner.drawn :=
    hands_one scanner .step
  exact h.adds_of_named rfl rfl (fun j hj => .draw hj) hmoved hnew

theorem Tracked.adds_drain (h : Tracked id k fresh hs scanner s) (name : String) :
    Adds id k fresh hs scanner s (.drain name) := by
  obtain ⟨log, hmoved⟩ := finalState_drain h.owns.scannerAt?
  exact h.adds_of_named rfl rfl (fun j hj => .drain hj) hmoved
    (hands_wind (h.hands.ready h.ready) .step)

/-- A step of an iterator that is not finished. -/
theorem Tracked.add_iterate {iterator : IteratorEntry} (h : Tracked id k fresh hs scanner s)
    (hget : s.iterators.get? i = some iterator) (hfinished : iterator.finished = false)
    (hscanner : iterator.scanner = id) :
    Tracked id k fresh (hs ++ [⟨.iterator i, scanner.answer⟩]) scanner.drawn
      (finalState (iterate i iterator s)) := by
  have hlive : ¬ Finished i s := by
    rintro ⟨found, hfound, hf⟩
    obtain rfl := Option.some.inj (hget.symm.trans hfound)
    simp [hfinished] at hf
  obtain ⟨log, hlog⟩ := finalState_draw h.owns.scannerAt?
  rw [finalState_iterate hfinished, hscanner, outcome_draw h.owns.scannerAt?, hlog]
  cases htoken : scanner.answer.token? with
  | some t => exact h.addOne hlive (.logged _ log) fun hnone => by simp [htoken] at hnone
  | none =>
    have hget' : ((s.putScanner id scanner.drawn).logged log).iterators.get? i = some iterator := by
      rw [← hget, ← iterators_putScanner s id scanner.drawn]
      rfl
    exact h.addOne hlive ((Kept.logged _ log).trans (.finish _ i iterator)) fun _ =>
      finished_finish hget'

theorem Tracked.adds_iterate (h : Tracked id k fresh hs scanner s) (name : String) :
    Adds id k fresh hs scanner s (.iterate name) := by
  refine h.adds_of_find (c := fun found => iterate found.1 found.2) rfl
    (fun hfind => by simp only [handed, hfind]) fun found hfind => ?_
  obtain ⟨i, iterator⟩ := found
  simp only [handed, hfind]
  split
  · rename_i hdraws
    have hget := (Registry.find?_eq_some_iff.mp hfind).2
    exact ⟨scanner.drawn, h.add_iterate hget hdraws.2 hdraws.1⟩
  · rename_i hdraws
    rw [List.append_nil]
    refine ⟨scanner, h.kept ?_⟩
    by_cases hscanner : iterator.scanner = id
    · have hfinished : iterator.finished = true := by simpa [hscanner] using hdraws
      rw [iterate_of_finished hfinished]
      exact .refl s
    · exact .iterate hscanner

/-- A call of a recognizer. -/
theorem Tracked.adds_call (h : Tracked id k fresh hs scanner s) (name : String) (call : Call) :
    Adds id k fresh hs scanner s (.call name call) := by
  refine h.adds_of_find
    (c := fun found s => recognizing found.1 found.2 (call.run s.limit) s) rfl
    (fun hfind => by simp only [handed, hfind]) fun found hfind => ?_
  obtain ⟨i, entry⟩ := found
  simp only [handed, hfind]
  split
  · rename_i hscanner
    have hat : s.scannerAt? entry.scanner = some scanner := hscanner ▸ h.owns.scannerAt?
    rw [finalState_recognizing hat, putRecognition, hscanner]
    have hhands := hands_call s.limit call entry.recognizer scanner
    have hrecognizers (recognizers : Registry RecognizerEntry) :
        Tracked id k fresh hs scanner { s with recognizers := recognizers } :=
      h.kept (.of_eq rfl rfl rfl)
    exact ⟨_, (hrecognizers _).addAll nofun (hhands _) (.logged _ _)⟩
  · rename_i hscanner
    rw [List.append_nil]
    exact ⟨scanner, h.kept (.recognizing hscanner)⟩

theorem Tracked.adds (h : Tracked id k fresh hs scanner s) (action : Action) :
    Adds id k fresh hs scanner s action := by
  cases action with
  | nextToken name => exact h.adds_nextToken name
  | drain name => exact h.adds_drain name
  | iterate name => exact h.adds_iterate name
  | call name call => exact h.adds_call name call
  | _ => exact h.adds_nothing rfl

/-! ## Steps -/

theorem Tracked.act (h : Tracked id k fresh hs scanner s) (action : Action) :
    ∃ scanner', Tracked id k fresh (hs ++ handed id scanner s action) scanner'
      (Session.act action s).2 := by
  have hstart : Tracked id k fresh hs scanner { s with log := #[] } := h.kept (.of_eq rfl rfl rfl)
  rw [act_eq]
  exact hstart.adds action

mutual

/-- A step adds what it makes the scanner hand out. -/
theorem tracked_answer : (step : Step) → ∀ {hs : List Handout} {scanner : Scanner} {s : Session},
    Tracked id k fresh hs scanner s →
      ∃ scanner', Tracked id k fresh (hs ++ handouts id step s) scanner' (answer step s).2
  | .act action, _, _, _, h => by
    rw [handouts, h.owns.scannerAt?]
    exact h.act action
  | .within config steps interrupted, hs, scanner, s, h => by
    rw [handouts, answer]
    cases Settings.ofValue config with
    | error fault => exact ⟨scanner, by simpa using h⟩
    | ok settings =>
      have hstart : Tracked id k fresh hs scanner { s with settings := settings } :=
        h.kept (.of_eq rfl rfl rfl)
      obtain ⟨scanner', hrun⟩ := tracked_run steps hstart
      dsimp only
      rw [blockAnswer_within]
      exact ⟨scanner', hrun.kept (.of_eq rfl rfl rfl)⟩
  | .fresh steps, hs, scanner, s, h => by
    have hstart : Tracked id k fresh hs scanner { s with settings := .default } :=
      h.kept (.of_eq rfl rfl rfl)
    obtain ⟨scanner', hrun⟩ := tracked_run steps hstart
    rw [handouts, answer, blockAnswer_within]
    exact ⟨scanner', hrun.kept (.of_eq rfl rfl rfl)⟩
  | .copied steps, _, _, _, h => by
    obtain ⟨scanner', hrun⟩ := tracked_run steps h
    rw [handouts, answer, blockAnswer_isolated]
    exact ⟨scanner', hrun.kept (.of_eq rfl rfl rfl)⟩

/-- So does a sequence of steps. -/
theorem tracked_run : (steps : List Step) → ∀ {hs : List Handout} {scanner : Scanner}
    {s : Session}, Tracked id k fresh hs scanner s →
      ∃ scanner', Tracked id k fresh (hs ++ handoutsAll id steps s) scanner' (run steps s).2
  | [], _, scanner, _, h => ⟨scanner, by simpa [handoutsAll, run] using h⟩
  | step :: rest, _, _, _, h => by
    obtain ⟨_, hstep⟩ := tracked_answer step h
    obtain ⟨scanner', hrest⟩ := tracked_run rest hstep
    rw [handoutsAll, ← List.append_assoc]
    exact ⟨scanner', hrest⟩

end

/-! ## Answers -/

/-- A step that names the scanner is answered with what the scanner hands out next. -/
theorem Owns.act_nextToken (h : Owns id k scanner s) {name : String} {entry : ScannerEntry}
    (hfind : s.scanners.find? name = some (id, entry)) :
    ∃ log, (Session.act (.nextToken name) s).1 = .act (scanner.answer.map .token) none log := by
  have hstart : Owns id k scanner { s with log := #[] } := ⟨h.entry, h.stream, h.unnamed, h.alone⟩
  have hfind' : ({ s with log := #[] } : Session).scanners.find? name = some (id, entry) := hfind
  have hperform : perform (.nextToken name) { s with log := #[] } =
      (find scanners name >>= fun found => Reply.token <$> draw found.1) { s with log := #[] } :=
    rfl
  rw [find_bind, hfind'] at hperform
  rw [act_eq, hperform]
  dsimp only
  rw [outcome_map, outcome_draw hstart.scannerAt?]
  exact ⟨_, rfl⟩

/-- So is a step of an iterator that is not finished. -/
theorem Owns.act_iterate (h : Owns id k scanner s) {name : String} {iterator : IteratorEntry}
    (hfind : s.iterators.find? name = some (i, iterator)) (hscanner : iterator.scanner = id)
    (hfinished : iterator.finished = false) :
    ∃ log, (Session.act (.iterate name) s).1 = .act (scanner.answer.map .iterated) none log := by
  have hstart : Owns id k scanner { s with log := #[] } := ⟨h.entry, h.stream, h.unnamed, h.alone⟩
  have hfind' : ({ s with log := #[] } : Session).iterators.find? name = some (i, iterator) := hfind
  have hperform : perform (.iterate name) { s with log := #[] } =
      (find iterators name >>= fun found => Reply.iterated <$> iterate found.1 found.2)
        { s with log := #[] } := rfl
  rw [find_bind, hfind'] at hperform
  rw [act_eq, hperform]
  dsimp only
  rw [outcome_map, outcome_iterate hfinished, hscanner, outcome_draw hstart.scannerAt?]
  exact ⟨_, rfl⟩

/-- One that is finished does nothing. -/
theorem act_iterate_of_finished {name : String} {iterator : IteratorEntry}
    (hfind : s.iterators.find? name = some (i, iterator)) (hfinished : iterator.finished = true) :
    Session.act (.iterate name) s =
      (.act (.ok (.iterated none)) none #[], { s with log := #[] }) := by
  have hfind' : ({ s with log := #[] } : Session).iterators.find? name = some (i, iterator) := hfind
  have hperform : perform (.iterate name) { s with log := #[] } =
      (find iterators name >>= fun found => Reply.iterated <$> iterate found.1 found.2)
        { s with log := #[] } := rfl
  rw [find_bind, hfind'] at hperform
  have hresult : perform (.iterate name) { s with log := #[] } =
      .ok (.iterated none) { s with log := #[] } := by
    rw [hperform]
    show EStateM.map Reply.iterated (iterate i iterator) _ = _
    rw [EStateM.map, iterate_of_finished hfinished]
  rw [act_eq, hresult]
  rfl

/-! ## Sharing -/

/-- A session in which the first step has made a scanner of a byte string, which has the number 0,
and so has its stream. -/
def withScanner (limit : Nat) (settings : Settings) (name : String) (bytes : List UInt8)
    (file : Option String) : Session :=
  (act (.scanner name (.bytes bytes) none file)
    { initial with
      limit := limit
      settings := settings }).2

theorem tracked_withScanner (limit : Nat) (settings : Settings) (name : String)
    (bytes : List UInt8) (file : Option String) :
    let fresh := Scanner.ofBytes arithmetic bytes file settings.traceTokens.isOn
    Tracked 0 0 fresh [] fresh (withScanner limit settings name bytes file) := by
  intro fresh
  refine ⟨Scanner.ready_ofBytes bytes file _, .refl fresh, ⟨rfl, rfl, fun _ => nofun, ?_⟩,
    List.forall_mem_nil _, .nil⟩
  intro j entry hget _
  have hlt : j < 1 := (Array.getElem?_eq_some_iff.mp hget).1
  omega

/-- Whoever shares a scanner is served in turn, whatever the limit of the recognizers is. Let any
steps be taken in a session in which the scanner of a byte string has been made: by their names they
may call `nextToken` or drain it, and make iterators over it and recognizers, step and call them,
all in any order and with any number of each. What is handed out to all of them together, in the
order of time, is what calls of `nextToken` alone hand out on a fresh scanner of the same bytes, one
for each, and the scanner is left as these leave it; so the answer that comes next is the next one
in this order. An iterator to which something else than a token has been handed out is finished, and
to an iterator that is finished nothing is handed out any more: a step of it does nothing. -/
theorem shared_scanner (limit : Nat) (settings : Settings) (name : String) (bytes : List UInt8)
    (file : Option String) (steps : List Step) :
    let start := withScanner limit settings name bytes file
    let hs := handoutsAll 0 steps start
    let s := (run steps start).2
    let a := (opened (Scanner.ofBytes arithmetic bytes file settings.traceTokens.isOn)).calls
      hs.length
    hs.map (·.answer) = a.answers ∧
    s.scannerAt? 0 = some a.scanner ∧
    (∀ name entry, s.scanners.find? name = some (0, entry) →
      ∃ log, (act (.nextToken name) s).1 = .act (a.scanner.answer.map .token) none log) ∧
    (∀ name i iterator, s.iterators.find? name = some (i, iterator) →
      (iterator.scanner = 0 → iterator.finished = false →
        ∃ log, (act (.iterate name) s).1 = .act (a.scanner.answer.map .iterated) none log) ∧
      (iterator.finished = true →
        act (.iterate name) s = (.act (.ok (.iterated none)) none #[], { s with log := #[] }))) ∧
    ∀ before h after i, hs = before ++ h :: after → h.consumer = .iterator i →
      (∀ t, h.answer ≠ .ok (some t)) →
      Finished i s ∧ ∀ h' ∈ after, h'.consumer ≠ .iterator i := by
  intro start hs s a
  obtain ⟨scanner, htracked⟩ :=
    tracked_run steps (tracked_withScanner limit settings name bytes file)
  have hscanner : a.scanner = scanner := htracked.hands.scanner
  rw [hscanner]
  refine ⟨htracked.hands.answers.symm, htracked.owns.scannerAt?,
    fun name entry hfind => htracked.owns.act_nextToken hfind, fun name i iterator hfind => ?_,
    fun before h after i hsplit hto hnot => ?_⟩
  · exact ⟨htracked.owns.act_iterate hfind, act_iterate_of_finished hfind⟩
  · have hnone : h.answer.token? = none := by
      cases hanswer : h.answer with
      | error fault => rfl
      | ok token =>
        cases token with
        | none => rfl
        | some t => exact absurd hanswer (hnot t)
    have honce := htracked.once
    have hmem : h ∈ hs := hsplit ▸ List.mem_append_right before List.mem_cons_self
    refine ⟨htracked.ended h hmem i hto hnone, fun h' hmem' hto' => ?_⟩
    rw [List.nil_append, show handoutsAll 0 steps start = before ++ h :: after from hsplit] at honce
    have hrest := (List.pairwise_append.mp honce).2.1
    exact List.rel_of_pairwise_cons hrest hmem' i hto hto' hnone

end ArithCheck.Session
