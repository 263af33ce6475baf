import ArithCheck.Proofs.Examination.Course
import ArithCheck.Proofs.Examination.Uses
import ArithCheck.Proofs.Scanner.Labels

/-!
# Names of files

The name of its file has no influence on what becomes of an input, except that it is part of faults,
tokens and logs.

* `SameButNames`: results that are the same but for the names in them;
* `nextToken_sameButNames`: what a scanner does under one name and under another;
* `anonymity`: what a recognition does, rule by rule;
* `freshTape_named`: the name is put into all that a scanner hands out;
* `recognize_named`: in the end, the name is put into the fault.
-/

namespace ArithCheck

open Token Recognition Arithmetic

/-! ## Names -/

/-- A fault of the input with another name of its file. -/
def Fault.named (file : Option String) : Fault → Fault
  | .lexical cause position _ => .lexical cause position file
  | .nesting position _ => .nesting position file
  | fault => fault

theorem Fault.named_named (file file' : Option String) (fault : Fault) :
    (fault.named file').named file = fault.named file := by
  cases fault <;> rfl

theorem Fault.named_eq_exhausted_iff (file : Option String) {fault : Fault} :
    fault.named file = .exhausted ↔ fault = .exhausted := by
  cases fault <;> simp [Fault.named]

theorem Fault.OfInput.named_eq {file : Option String} {fault : Fault} (h : fault.OfInput file) :
    fault.named file = fault := by
  rcases h with ⟨cause, place, rfl⟩ | ⟨place, rfl⟩ <;> rfl

/-- A token with another name of its file. -/
def Token.named (file : Option String) (t : Token) : Token := { t with file := file }

/-- A record of a log with another name of the file. -/
def Log.Record.named (file : Option String) : Log.Record → Log.Record
  | .token t => .token (t.named file)
  | .enter n active ahead => .enter n active (ahead.map (Token.named file))
  | .trailing l => .trailing { l with file := file }
  | .verdict accepted => .verdict accepted

/-- The scanner with another name of its file. -/
def Scanner.named (file : Option String) (s : Scanner) : Scanner := { s with file := file }

/-- Scanners that are the same without their names differ in these only. -/
theorem Scanner.eq_named {s t : Scanner} (h : s.named none = t.named none) :
    t = s.named t.file := by
  show { t.named none with file := t.file } = s.named t.file
  rw [← h]
  rfl

/-- Results that are the same but for names, if `value` takes the names out of a value and `state`
out of a state. -/
inductive SameButNames {σ α : Type} (value : α → α) (state : σ → σ) :
    EStateM.Result Fault σ α → EStateM.Result Fault σ α → Prop
  | ok {a b : α} {s t : σ} : value a = value b → state s = state t →
    SameButNames value state (.ok a s) (.ok b t)
  | error {fault fault' : Fault} {s t : σ} : fault.named none = fault'.named none →
    state s = state t → SameButNames value state (.error fault s) (.error fault' t)

/-! ## Scanners -/

namespace Scanner

theorem nextToken_sameButNames {s t : Scanner} (h : s.named none = t.named none) :
    SameButNames (Option.map (Token.named none)) (named none) s.nextToken t.nextToken := by
  rw [eq_named h]
  generalize t.file = file
  have hsame : Relabelled ⟨fun _ => file, id⟩ _ s.nextToken (s.named file).nextToken :=
    nextToken_relabelled ⟨fun _ => file, id⟩ s
  generalize s.nextToken = x, (s.named file).nextToken = y at hsame
  cases hsame with
  | ok token s' => exact .ok (by cases token <;> rfl) rfl
  | error fault s' => exact .error rfl rfl
  | lexical cause position s' => exact .error rfl rfl

end Scanner

/-! ## Recognitions -/

namespace Recognition

/-- The recognition without the names of files. -/
def unnamed (r : Recognition Scanner) : Recognition Scanner where
  tracing := r.tracing
  lookahead := r.lookahead.map (Token.named none)
  source := r.source.named none
  log := r.log.map (Log.Record.named none)

variable {r s : Recognition Scanner}

theorem unnamed_eq_iff : r.unnamed = s.unnamed ↔ r.tracing = s.tracing ∧
    r.lookahead.map (Token.named none) = s.lookahead.map (Token.named none) ∧
      r.source.named none = s.source.named none ∧
        r.log.map (Log.Record.named none) = s.log.map (Log.Record.named none) := by
  simp [unnamed, Recognition.mk.injEq, Recognizer.mk.injEq, and_assoc]

/-- Two computations do the same but for names. -/
def Anonymous {α : Type} (c d : Recognize Scanner α) : Prop :=
  ∀ r s, r.unnamed = s.unnamed → SameButNames id unnamed (c r) (d s)

variable {α β : Type}

theorem Anonymous.pure (a : α) : Anonymous (Pure.pure a) (Pure.pure a) :=
  fun _ _ h => .ok rfl h

theorem Anonymous.bind {c d : Recognize Scanner α} {f g : α → Recognize Scanner β}
    (h : Anonymous c d) (hf : ∀ a, Anonymous (f a) (g a)) : Anonymous (c >>= f) (d >>= g) := by
  intro r s hrs
  have hcd := h r s hrs
  show SameButNames id unnamed (EStateM.bind c f r) (EStateM.bind d g s)
  unfold EStateM.bind
  generalize c r = x, d s = y at hcd
  cases hcd with
  | @ok a b r' s' hab h' =>
    obtain rfl : a = b := hab
    exact hf a r' s' h'
  | error hfault h' => exact .error hfault h'

/-- Recognitions stay so if they write records that are the same but for names. -/
theorem unnamed_write (h : r.unnamed = s.unnamed) {records records' : List Log.Record}
    (hrecords : records.map (Log.Record.named none) = records'.map (Log.Record.named none)) :
    unnamed { r with log := r.log ++ records } = unnamed { s with log := s.log ++ records' } := by
  obtain ⟨htracing, hlookahead, hsource, hlog⟩ := unnamed_eq_iff.mp h
  have hlist (log : Log) (records : List Log.Record) :
      (log ++ records).map (Log.Record.named none) =
        log.map (Log.Record.named none) ++ records.map (Log.Record.named none) := by
    apply Array.ext'
    simp
  refine unnamed_eq_iff.mpr ⟨htracing, hlookahead, hsource, ?_⟩
  rw [hlist, hlist, hlog, hrecords]

/-- What is ahead is of the same kind and at the same place under every name. -/
theorem map_lookahead_eq (h : r.unnamed = s.unnamed) (f : Token → α)
    (hf : ∀ t, f (t.named none) = f t) : r.lookahead.map f = s.lookahead.map f := by
  have hlookahead := congrArg (Option.map f) (unnamed_eq_iff.mp h).2.1
  simpa only [Option.map_map, Function.comp_def, hf] using hlookahead

theorem anonymous_kindAhead : Anonymous kindAhead kindAhead := by
  intro r s h
  have hahead : r.ahead = s.ahead := map_lookahead_eq h _ fun _ => rfl
  show SameButNames _ _ (.ok r.ahead r) (.ok s.ahead s)
  exact .ok hahead h

theorem anonymous_enter (n : Nonterminal) (active : Nat) :
    Anonymous (enter n active) (enter n active) := by
  intro r s h
  obtain ⟨htracing, hlookahead, -⟩ := unnamed_eq_iff.mp h
  rw [enter_eq, enter_eq]
  refine .ok rfl (unnamed_write h ?_)
  rw [entering, entering, htracing]
  split
  · simp only [List.map_cons, List.map_nil, Log.Record.named, hlookahead]
  · rfl

theorem named_ofToken {t u : Option Token} (tracing : Bool)
    (h : t.map (Token.named none) = u.map (Token.named none)) :
    (Log.ofToken tracing t).map (Log.Record.named none) =
      (Log.ofToken tracing u).map (Log.Record.named none) := by
  have hmap (t : Option Token) : (Log.ofToken tracing t).map (Log.Record.named none) =
      Log.ofToken tracing (t.map (Token.named none)) := by
    cases t <;> cases tracing <;> rfl
  rw [hmap, hmap, h]

theorem anonymous_advance : Anonymous advance advance := by
  intro r s h
  obtain ⟨htracing, hlookahead, hsource, hlog⟩ := unnamed_eq_iff.mp h
  have hon : TokenSource.tracing r.source = TokenSource.tracing s.source := by
    rw [Scanner.eq_named hsource]; rfl
  have hpull := Scanner.nextToken_sameButNames hsource
  generalize hr : r.source.nextToken = x, hs : s.source.nextToken = y at hpull
  cases hpull with
  | @ok token token' q q' htoken hsource' =>
    rw [advance_eq hr, advance_eq hs, hon]
    have hdrawn : unnamed { r with source := q, lookahead := token } =
        unnamed { s with source := q', lookahead := token' } :=
      unnamed_eq_iff.mpr ⟨htracing, htoken, hsource', hlog⟩
    exact .ok rfl (unnamed_write hdrawn (named_ofToken _ htoken))
  | error hfault hsource' =>
    rw [advance_error hr, advance_error hs]
    exact .error hfault (unnamed_eq_iff.mpr ⟨htracing, hlookahead, hsource', hlog⟩)

/-- The parts of a rule do the same but for names. -/
def anonymity : Simulation Scanner Scanner where
  rel := Anonymous
  pure := .pure
  bind := .bind
  kindAhead := anonymous_kindAhead
  enter := anonymous_enter
  advance := anonymous_advance
  throw _ _ _ h := .error rfl h

theorem anonymous_start (limit : Nat) (n : Nonterminal) :
    Anonymous (start limit n) (start limit n) := by
  intro r s h
  have hwidth : s.width = r.width := by
    rw [width, width, Scanner.eq_named (unnamed_eq_iff.mp h).2.2.1]; rfl
  show SameButNames _ _ (rule r.width limit 0 n r) (rule s.width limit 0 n s)
  rw [hwidth]
  exact anonymity.rule r.width limit 0 n r s h

theorem Anonymous.nested {c d : Recognize Scanner α} (hcd : Anonymous c d) :
    Anonymous (nested c) (nested d) := by
  intro r s h
  have hsame := hcd r s h
  generalize hr : c r = x, hs : d s = y at hsame
  cases hsame with
  | ok ha h' => rw [nested_ok hr, nested_ok hs]; exact .ok ha h'
  | @error fault fault' r' s' hfault h' =>
    by_cases hexhausted : fault = .exhausted
    · obtain rfl : fault' = .exhausted := by
        rw [← Fault.named_eq_exhausted_iff none, ← hfault, hexhausted]; rfl
      subst hexhausted
      have hplace : r'.lookahead.map (·.position) = s'.lookahead.map (·.position) :=
        map_lookahead_eq h' _ fun _ => rfl
      rw [nested_exhausted hr, nested_exhausted hs, hplace]
      exact .error rfl h'
    · have hexhausted' : fault' ≠ .exhausted := by
        rwa [Ne, ← Fault.named_eq_exhausted_iff none, ← hfault, Fault.named_eq_exhausted_iff]
      rw [nested_error hr hexhausted, nested_error hs hexhausted']
      exact .error hfault h'

theorem anonymous_conclude (complete : Bool) :
    Anonymous (conclude complete) (conclude complete) := by
  intro r s h
  have hlookahead := (unnamed_eq_iff.mp h).2.1
  have hmap (rest : Option Token) : (concluding complete rest).map (Log.Record.named none) =
      concluding complete (rest.map (Token.named none)) := by
    cases complete <;> cases rest <;> rfl
  have hrest : r.lookahead.isNone = s.lookahead.isNone := by
    rw [← Option.isNone_map, hlookahead, Option.isNone_map]
  rw [conclude_eq, conclude_eq]
  refine .ok (congrArg (complete && ·) hrest) (unnamed_write h ?_)
  rw [hmap, hmap, hlookahead]

theorem anonymous_recognize (limit : Nat) : Anonymous (recognize limit) (recognize limit) :=
  anonymous_advance.bind fun _ => (anonymous_start limit .e).nested.bind anonymous_conclude

end Recognition

/-! ## Tapes -/

/-- The name of the file is all that it adds to the tokens. -/
theorem tokensOf_named (file : Option String) (p : Position) (ps : List Piece) :
    tokensOf file p ps = (tokensOf none p ps).map (Token.named file) := by
  induction ps generalizing p with
  | nil => rfl
  | cons piece ps ih =>
    simp only [tokensOf, ih]
    cases piece.kind <;> rfl

theorem Arithmetic.Ending.named {p : Position} {z : List UInt8} {fault : Option Fault}
    (h : Ending none p z fault) (file : Option String) :
    Ending file p z (fault.map (Fault.named file)) := by
  cases h with
  | complete => exact .complete
  | byte hq hf hb => exact .byte hq hf hb
  | cutOff hq => exact .cutOff hq

namespace Examination

variable (settings : Settings) (bytes : List UInt8)

/-- Under every name the input is cut into the same pieces. -/
theorem exists_freshTape : ∃ (ps : List Piece) (z : List UInt8) (fault : Option Fault),
    Cuts bytes ps z ∧ ∀ file, freshTape settings bytes file =
      ⟨tokensOf file .start ps, fault.map (Fault.named file), file, settings.traceTokens.isOn⟩ := by
  obtain ⟨ps, z, fault, hcuts, hend⟩ := exists_cuts_ending none .start bytes
  exact ⟨ps, z, fault, hcuts, fun file =>
    (Scanner.ready_ofBytes bytes file _).tape_of_cuts hcuts (hend.named file)⟩

/-- The name is put into the tokens and into the fault. -/
theorem freshTape_named (file : Option String) :
    let tape := freshTape settings bytes none
    freshTape settings bytes file = ⟨tape.tokens.map (Token.named file),
      tape.fault.map (Fault.named file), file, tape.tracing⟩ := by
  obtain ⟨ps, z, fault, hcuts, htape⟩ := exists_freshTape settings bytes
  intro tape
  have hnone : tape = _ := htape none
  rw [hnone, htape, tokensOf_named]
  simp only [Option.map_map, Function.comp_def, Fault.named_named]

end Examination

/-! ## Examinations -/

namespace Examination

/-- The fault of an examination is one of its input. -/
theorem ofInput_of_verdict {limit : Nat} {settings : Settings} {bytes : List UInt8}
    {file : Option String} {fault : Fault}
    (h : (ofStream limit settings (.ofBytes bytes) file).verdict = .error fault) :
    fault.OfInput file := by
  have hcourse := ofStream_course limit settings bytes file
  cases hcourse with
  | accepted _ _ verdict | refused _ _ _ verdict | unfinished _ _ _ verdict =>
    rw [h] at verdict
    cases verdict
  | faulty hfault _ verdict =>
    rw [h] at verdict
    cases verdict
    exact .inl (freshTape_fault hfault)
  | nested _ verdict =>
    obtain ⟨place, verdict⟩ := verdict
    rw [h, freshTape_file] at verdict
    cases verdict
    exact .inr ⟨place, rfl⟩

end Examination

theorem ofInput_of_recognize {limit : Nat} {settings : Settings} {bytes : List UInt8}
    {file : Option String} {fault : Fault}
    (h : recognize limit settings bytes file = .error fault) : fault.OfInput file :=
  Examination.ofInput_of_verdict h

open Examination in
/-- Under another name of the file there is the same verdict, or the same fault with that name. -/
theorem recognize_named (limit : Nat) (settings : Settings) (bytes : List UInt8)
    (file : Option String) : recognize limit settings bytes file =
      (recognize limit settings bytes none).mapError (Fault.named file) := by
  have hstart : unnamed (fresh settings bytes file) = unnamed (fresh settings bytes none) := rfl
  have hsame := anonymous_recognize limit _ _ hstart
  have hnamed : recognize limit settings bytes file =
    (ofResult (Recognition.recognize limit (fresh settings bytes file))).verdict := rfl
  have hunnamed : recognize limit settings bytes none =
    (ofResult (Recognition.recognize limit (fresh settings bytes none))).verdict := rfl
  generalize Recognition.recognize limit (fresh settings bytes file) = x,
    Recognition.recognize limit (fresh settings bytes none) = y at hsame hnamed hunnamed
  rw [hunnamed]
  cases hsame with
  | @ok a b r s ha h =>
    obtain rfl : a = b := ha
    exact hnamed
  | @error fault fault' r s hfault h =>
    have hown : fault.named file = fault := (ofInput_of_recognize hnamed).named_eq
    calc recognize limit settings bytes file = .error fault := hnamed
      _ = .error (fault'.named file) := by
        rw [← hown, ← Fault.named_named file none fault, hfault, Fault.named_named]

end ArithCheck
