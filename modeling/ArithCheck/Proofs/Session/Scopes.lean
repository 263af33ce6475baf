import ArithCheck.Proofs.Session.Lasting

/-!
# Programs over a session

A program takes the actions of a session one after another and goes on as their replies say. It can
raise faults and catch them at any point, and it can run parts of itself under settings of their
own, one inside another to any depth.

* `Program.run`, `Program.events`: what a program does, and what happens on the way;
* `settings_of_left`: a part under settings of its own leaves those settings that it was entered
  with;
* `Lasts`: whatever a program does, what there is keeps its tracing;
* `settings_restored_and_tracing_kept`: both of this, for everything that happens in a program.
-/

namespace ArithCheck.Session

inductive Program
  | done
  | raise (fault : Fault)
  /-- An action, and what follows on its reply. A fault of the action is raised. -/
  | act (action : Action) (next : Reply → Program)
  | seq (first second : Program)
  /-- A part under settings of its own. -/
  | within (settings : Settings) (body : Program)
  /-- A part whose faults are caught. -/
  | attempt (body : Program) (handler : Fault → Program)

/-- What happens while a program runs. -/
inductive Event
  /-- An action is begun in the given session. -/
  | acted (action : Action) (s : Session)
  /-- A part under settings of its own is left, by its end or by a fault, that has been entered in
  the one session and leaves the other. -/
  | left (entry exit : Session)

/-- The sessions at the time of an event. -/
def Event.sessions : Event → List Session
  | acted action s => [s, finalState (perform action s)]
  | left _ exit => [exit]

/-- The session after an event. -/
def Event.after : Event → Session
  | acted action s => finalState (perform action s)
  | left _ exit => exit

namespace Program

def run : Program → Work Unit
  | done => return ()
  | raise fault => throw fault
  | act action next => do
    let reply ← perform action
    (next reply).run
  | seq first second => do
    first.run
    second.run
  | within settings body => Settings.within settings body.run
  | attempt body handler => tryCatch body.run fun fault => (handler fault).run

/-- What happens while a program runs from a given session, in the order of time. -/
def events : Program → Session → List Event
  | done, _ => []
  | raise _, _ => []
  | act action next, s =>
    .acted action s ::
      match perform action s with
      | .ok reply s' => (next reply).events s'
      | .error _ _ => []
  | seq first second, s =>
    first.events s ++
      match first.run s with
      | .ok _ s' => second.events s'
      | .error _ _ => []
  | within settings body, s =>
    body.events { s with settings := settings } ++
      [.left s (finalState (Settings.within settings body.run s))]
  | attempt body handler, s =>
    body.events s ++
      match body.run s with
      | .ok _ _ => []
      | .error fault s' => (handler fault).events s'

variable {p : Program} {s s' s'' entry exit : Session} {es es' : List Event}

/-! ## Settings -/

theorem finalState_within {α : Type} (settings : Settings) (body : Work α) (s : Session) :
    finalState (Settings.within settings body s) =
      { finalState (body { s with settings := settings }) with settings := s.settings } := by
  have hassigned : (Settings.assign settings >>= fun _ => body) s =
      body { s with settings := settings } := rfl
  rw [Settings.within, Settings.isolated]
  dsimp only
  rw [hassigned]
  cases body { s with settings := settings } <;> rfl

/-- A part under settings of its own leaves those settings that it was entered with. -/
theorem settings_of_left (h : .left entry exit ∈ p.events s) :
    exit.settings = entry.settings := by
  induction p generalizing s with
  | done => cases h
  | raise fault => cases h
  | act action next ih =>
    rw [events] at h
    rcases List.mem_cons.mp h with h | h
    · cases h
    · split at h
      · exact ih _ h
      · cases h
  | seq first second ih ih' =>
    rw [events] at h
    rcases List.mem_append.mp h with h | h
    · exact ih h
    · split at h
      · exact ih' h
      · cases h
  | within settings body ih =>
    rcases List.mem_append.mp h with h | h
    · exact ih h
    · cases List.mem_singleton.mp h
      rw [finalState_within]
  | attempt body handler ih ih' =>
    rw [events] at h
    rcases List.mem_append.mp h with h | h
    · exact ih h
    · split at h
      · cases h
      · exact ih' _ h

/-! ## Tracing -/

/-- While the events happen that lead from `s` to `s'`, what there is keeps its tracing. -/
structure Lasts (s : Session) (es : List Event) (s' : Session) : Prop where
  since : ∀ e ∈ es, ∀ u ∈ e.sessions, Lasting s u
  between : es.Pairwise fun e e' => ∀ u ∈ e'.sessions, Lasting e.after u
  ended : ∀ e ∈ es, Lasting e.after s'
  whole : Lasting s s'

theorem Lasts.nil (h : Lasting s s') : Lasts s [] s' :=
  ⟨List.forall_mem_nil _, .nil, List.forall_mem_nil _, h⟩

theorem Lasts.append (h : Lasts s es s') (h' : Lasts s' es' s'') : Lasts s (es ++ es') s'' where
  since e hmem u hu := by
    rcases List.mem_append.mp hmem with hmem | hmem
    · exact h.since e hmem u hu
    · exact h.whole.trans (h'.since e hmem u hu)
  between := List.pairwise_append.mpr ⟨h.between, h'.between, fun e hmem e' hmem' u hu =>
    (h.ended e hmem).trans (h'.since e' hmem' u hu)⟩
  ended e hmem := by
    rcases List.mem_append.mp hmem with hmem | hmem
    · exact (h.ended e hmem).trans h'.whole
    · exact h'.ended e hmem
  whole := h.whole.trans h'.whole

theorem lasts_acted (action : Action) (s : Session) :
    Lasts s [.acted action s] (finalState (perform action s)) where
  since e hmem u hu := by
    cases List.mem_singleton.mp hmem
    rcases List.mem_pair.mp hu with rfl | rfl
    · exact .refl u
    · exact lasting_perform action s
  between := List.pairwise_singleton _ _
  ended e hmem := by
    cases List.mem_singleton.mp hmem
    exact .refl _
  whole := lasting_perform action s

theorem lasts_left (h : Lasting s exit) : Lasts s [.left entry exit] exit where
  since e hmem u hu := by
    cases List.mem_singleton.mp hmem
    cases List.mem_singleton.mp hu
    exact h
  between := List.pairwise_singleton _ _
  ended e hmem := by
    cases List.mem_singleton.mp hmem
    exact .refl exit
  whole := h

/-- While a program runs, what there is keeps its tracing. -/
theorem lasts_run (p : Program) (s : Session) : Lasts s (p.events s) (finalState (p.run s)) := by
  induction p generalizing s with
  | done => exact .nil (.refl s)
  | raise fault => exact .nil (.refl s)
  | act action next ih =>
    have hacted := lasts_acted action s
    rw [run, events, ← List.singleton_append]
    simp only [bind, EStateM.bind]
    cases hresult : perform action s with
    | ok reply s' =>
      rw [hresult] at hacted
      exact hacted.append (ih reply s')
    | error fault s' =>
      rw [hresult] at hacted
      exact hacted.append (.nil (.refl s'))
  | seq first second ih ih' =>
    have hfirst := ih s
    rw [run, events]
    simp only [bind, EStateM.bind]
    cases hresult : first.run s with
    | ok a s' =>
      rw [hresult] at hfirst
      exact hfirst.append (ih' s')
    | error fault s' =>
      rw [hresult] at hfirst
      exact hfirst.append (.nil (.refl s'))
  | within settings body ih =>
    have hentered : Lasts s [] { s with settings := settings } := .nil (.of_eq rfl rfl)
    have hleft : Lasting (finalState (body.run { s with settings := settings }))
        (finalState (Settings.within settings body.run s)) := by
      rw [finalState_within]
      exact .of_eq rfl rfl
    exact (hentered.append (ih _)).append (lasts_left hleft)
  | attempt body handler ih ih' =>
    have hbody := ih s
    rw [run, events]
    simp only [tryCatch, tryCatchThe, MonadExceptOf.tryCatch, EStateM.tryCatch]
    cases hresult : body.run s with
    | ok a s' =>
      rw [hresult] at hbody
      exact hbody.append (.nil (.refl s'))
    | error fault s' =>
      rw [hresult] at hbody
      exact hbody.append (ih' fault s')

/-- After an event of a program everything keeps the tracing that it has then. -/
theorem lasting_after {e : Event} {earlier later : List Event} {u : Session}
    (h : p.events s = earlier ++ e :: later)
    (hu : u ∈ e.after :: later.flatMap Event.sessions ++ [finalState (p.run s)]) :
    Lasting e.after u := by
  have hrun := p.lasts_run s
  rw [h] at hrun
  rcases List.mem_append.mp hu with hu | hu
  · rcases List.mem_cons.mp hu with rfl | hu
    · exact .refl _
    · obtain ⟨e', hmem, hu⟩ := List.mem_flatMap.mp hu
      have htail := (List.pairwise_append.mp hrun.between).2.1
      exact (List.pairwise_cons.mp htail).1 e' hmem u hu
  · cases List.mem_singleton.mp hu
    exact hrun.ended e (List.mem_append_right earlier List.mem_cons_self)

/-- Whatever program runs, and whatever faults it raises where: each part of it that has settings of
its own leaves those settings that it was entered with, and each scanner and each recognizer that it
makes traces its tokens or its rules from then on, to the end of the program, if and only if the
settings say so that are the current ones when it is made. -/
theorem settings_restored_and_tracing_kept (p : Program) (s : Session) :
    (∀ entry exit, .left entry exit ∈ p.events s → exit.settings = entry.settings) ∧
      ∀ earlier action later t reply t', p.events s = earlier ++ .acted action t :: later →
        perform action t = .ok reply t' →
          let life := t' :: later.flatMap Event.sessions ++ [finalState (p.run s)]
          (∀ name input automaton file, action = .scanner name input automaton file →
            ∃ id, t.scanners.get? id = none ∧ t'.scanners.id? name = some id ∧
              ∀ u ∈ life, u.TracesTokens id t.settings.traceTokens.isOn) ∧
          ∀ name scanner, action = .recognizer name scanner →
            ∃ id, t.recognizers.get? id = none ∧ t'.recognizers.id? name = some id ∧
              ∀ u ∈ life, u.TracesRules id t.settings.traceRules.isOn := by
  refine ⟨fun _ _ => settings_of_left, ?_⟩
  intro earlier action later t reply t' hevents hperform life
  have hafter : Event.after (.acted action t) = t' := congrArg finalState hperform
  have hlife : ∀ u ∈ life, Lasting t' u := fun u hu => by
    rw [← hafter]
    exact lasting_after hevents (hafter ▸ hu)
  constructor
  · rintro name input automaton file rfl
    obtain ⟨id, hnew, hid, htracing⟩ := made_scanner hperform
    exact ⟨id, hnew, hid, fun u hu => tracesTokens_iff.mpr ((hlife u hu).tokens htracing)⟩
  · rintro name scanner rfl
    obtain ⟨id, hnew, hid, htracing⟩ := made_recognizer hperform
    exact ⟨id, hnew, hid, fun u hu => tracesRules_iff.mpr ((hlife u hu).rules htracing)⟩

/-- A scanner is made where everything is traced. Then the settings are reset and a fault is raised
there; it is caught, and a token is drawn. -/
def interrupted : Program :=
  attempt
    (within (.traceAll true)
      (seq (act (.scanner "s" (.bytes []) none none) fun _ => act .reset fun _ => done)
        (raise .stalled)))
    fun _ => act (.nextToken "s") fun _ => done

theorem settings_restored_and_tracing_kept_interrupted :
    (∃ exit, .left initial exit ∈ interrupted.events initial ∧ exit.settings = .default) ∧
      (finalState (interrupted.run initial)).TracesTokens 0 true := by
  obtain ⟨hsettings, htracing⟩ := settings_restored_and_tracing_kept interrupted initial
  constructor
  · have hleft : .left initial _ ∈ interrupted.events initial :=
      .tail _ (.tail _ (.head _))
    exact ⟨_, hleft, hsettings _ _ hleft⟩
  · obtain ⟨id, -, hid, hlife⟩ :=
      (htracing [] _ _ { initial with settings := .traceAll true } _ _ rfl rfl).1 _ _ _ _ rfl
    obtain rfl : 0 = id := Option.some.inj hid
    exact hlife _ (List.mem_append_right _ List.mem_cons_self)

end Program

end ArithCheck.Session
