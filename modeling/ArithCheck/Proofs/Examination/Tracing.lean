import ArithCheck.Examination
import ArithCheck.Proofs.Recognition.Lockstep
import ArithCheck.Proofs.Scanner.Labels
import ArithCheck.Proofs.Scanner.Unread

/-!
# Tracing

What is traced has no influence on what else an examination does. Under any settings it goes in step
with the one that traces everything, and writes its log with the records left out that the settings
do not ask for.

* `nextToken_untraced`: a scanner draws the same tokens whether it is set to trace them or not;
* `masking`: recognitions that trace less and everything go in step;
* `tracing_transparent`: examinations.
-/

namespace ArithCheck

namespace Scanner

/-- The scanner with the tracing of tokens switched on or off. -/
def traced (on : Bool) (s : Scanner) : Scanner := { s with tracing := on }

/-- A computation that does the same when the tracing is switched. -/
def Untraced {α : Type} (on : Bool) (c : Scan α) : Prop :=
  ∀ s, SameResult (fun s s' => s' = s.traced on) (c s) (c (s.traced on))

theorem nextToken_untraced (on : Bool) : Untraced on nextToken := by
  intro s
  have hsame : Relabelled ⟨id, fun _ => on⟩ _ s.nextToken (s.traced on).nextToken :=
    nextToken_relabelled ⟨id, fun _ => on⟩ s
  generalize s.nextToken = x, (s.traced on).nextToken = y at hsame
  cases hsame with
  | ok token s' =>
    have htoken : token.map (Labels.token ⟨id, fun _ => on⟩) = token := by cases token <;> rfl
    rw [htoken]
    exact .ok rfl
  | error fault s' => exact .error rfl
  | lexical cause position s' => exact .error rfl

end Scanner

/-- Whether the settings let a record into the log. -/
def Settings.keeps (settings : Settings) : Log.Record → Bool
  | .token _ => settings.traceTokens.isOn
  | .enter .. => settings.traceRules.isOn
  | .trailing _ | .verdict _ => true

namespace Recognition

/-- The recognition `s` under the given settings and the recognition `r` that traces everything. -/
structure Masked (settings : Settings) (r s : Recognition Scanner) : Prop where
  source : s.source = r.source.traced settings.traceTokens.isOn
  lookahead : s.lookahead = r.lookahead
  tokens : r.source.tracing = true
  rules : r.tracing = true
  tracing : s.tracing = settings.traceRules.isOn
  log : s.log = r.log.filter settings.keeps

variable {settings : Settings} {r s : Recognition Scanner}

/-- They stay so if they write records of which the settings let those of the first one pass. -/
theorem Masked.write (h : Masked settings r s) {records kept : List Log.Record}
    (hkept : records.filter settings.keeps = kept) :
    Masked settings { r with log := r.log ++ records } { s with log := s.log ++ kept } := by
  refine ⟨h.source, h.lookahead, h.tokens, h.rules, h.tracing, Array.ext' ?_⟩
  simp [h.log, hkept]

theorem filter_ofToken (settings : Settings) (token : Option Token) :
    (Log.ofToken true token).filter settings.keeps =
      Log.ofToken settings.traceTokens.isOn token := by
  cases token with
  | none => cases settings.traceTokens.isOn <;> rfl
  | some t => cases h : settings.traceTokens.isOn <;> simp [Log.ofToken, Settings.keeps, h]

theorem Masked.filter_entering (h : Masked settings r s) (n : Nonterminal) (active : Nat) :
    (entering n active r.toRecognizer).filter settings.keeps =
      entering n active s.toRecognizer := by
  rw [entering, entering, h.rules, h.tracing, h.lookahead]
  cases hrules : settings.traceRules.isOn <;> simp [Settings.keeps, hrules]

/-- The records of a conclusion are always written. -/
theorem filter_concluding (settings : Settings) (complete : Bool) (rest : Option Token) :
    (concluding complete rest).filter settings.keeps = concluding complete rest := by
  cases complete <;> cases rest <;> rfl

theorem Masked.advance (h : Masked settings r s) :
    Agree (Masked settings) (Masked settings) (advance r) (advance s) := by
  have hsame := Scanner.nextToken_untraced settings.traceTokens.isOn r.source
  have htracing := r.source.steady_nextToken.tracing
  rw [← h.source] at hsame
  generalize hr : r.source.nextToken = x, hs : s.source.nextToken = y at hsame htracing
  cases hsame with
  | @ok token q q' hq =>
    have hon : TokenSource.tracing r.source = true := h.tokens
    have hset : TokenSource.tracing s.source = settings.traceTokens.isOn := by rw [h.source]; rfl
    have hdrawn : Masked settings { r with source := q, lookahead := token }
        { s with source := q', lookahead := token } :=
      ⟨hq, rfl, htracing.trans h.tokens, h.rules, h.tracing, h.log⟩
    rw [advance_eq hr, advance_eq hs, hon, hset]
    exact .ok (hdrawn.write (filter_ofToken settings token))
  | @error fault q q' hq =>
    rw [advance_error hr, advance_error hs]
    exact .error ⟨hq, h.lookahead, htracing.trans h.tokens, h.rules, h.tracing, h.log⟩

/-- Recognitions that trace less and everything go in step. -/
def masking (settings : Settings) : Lockstep Scanner Scanner where
  holds := Masked settings
  ended := Masked settings
  kindAhead r s h := by
    show Agree _ _ (.ok r.ahead r) (.ok s.ahead s)
    rw [ahead, ← h.lookahead]
    exact .ok h
  enter n active r s h := by
    rw [enter_eq, enter_eq]
    exact .ok (h.write (h.filter_entering n active))
  advance _ _ h := h.advance
  throw _ _ _ h := .error h

theorem masking_whole (settings : Settings) : (masking settings).Whole where
  width h := by rw [width, width, h.source]; rfl
  lookahead h := h.lookahead.symm
  file h := by rw [h.source]; rfl
  conclude complete r s h := by
    rw [conclude_eq, conclude_eq, h.lookahead]
    exact .ok (h.write (filter_concluding settings complete r.lookahead))

end Recognition

namespace Examination

open Recognition

variable {settings : Settings}

/-- The end of an examination under the given settings and of the one that traces everything. -/
theorem ofResult_masked {x y : EStateM.Result Fault (Recognition Scanner) Bool}
    (h : Agree (Masked settings) (Masked settings) x y) :
    (ofResult y).verdict = (ofResult x).verdict ∧ (ofResult y).lookahead = (ofResult x).lookahead ∧
      (ofResult y).scanner = (ofResult x).scanner.traced settings.traceTokens.isOn ∧
        (ofResult y).log = (ofResult x).log.filter settings.keeps := by
  cases h with
  | ok h => exact ⟨rfl, h.lookahead, h.source, h.log⟩
  | error h => exact ⟨rfl, h.lookahead, h.source, h.log⟩

theorem ofStream_masked (limit : Nat) (settings : Settings) (stream : Stream)
    (file : Option String) :
    let e := ofStream limit settings stream file
    let full := ofStream limit (.traceAll true) stream file
    e.verdict = full.verdict ∧ e.lookahead = full.lookahead ∧
      e.scanner = full.scanner.traced settings.traceTokens.isOn ∧
        e.log = full.log.filter settings.keeps :=
  ofResult_masked ((masking_whole settings).recognize limit _ _ ⟨rfl, rfl, rfl, rfl, rfl, rfl⟩)

end Examination

open Examination in
/-- Tracing changes nothing but the log. Under any two settings, whatever values are stored in them,
the examinations of a stream come to the same verdict or to the same fault, leave the same token
ahead and have read the same bytes; and the log is the one that is written when everything is
traced, without the records of tokens if the settings do not trace these, and without the records of
rules if they do not trace those. -/
theorem tracing_transparent (limit : Nat) (settings settings' : Settings) (stream : Stream)
    (file : Option String) :
    let e := ofStream limit settings stream file
    let e' := ofStream limit settings' stream file
    let full := ofStream limit (.traceAll true) stream file
    e.verdict = e'.verdict ∧ e.lookahead = e'.lookahead ∧ e.read = e'.read ∧
      e.scanner.atEnd = e'.scanner.atEnd ∧ e.log = full.log.filter settings.keeps := by
  intro e e' full
  obtain ⟨hverdict, hlookahead, hscanner, hlog⟩ := ofStream_masked limit settings stream file
  obtain ⟨hverdict', hlookahead', hscanner', -⟩ := ofStream_masked limit settings' stream file
  have hread : e.read = full.read := congrArg (·.stream.position) hscanner
  have hread' : e'.read = full.read := congrArg (·.stream.position) hscanner'
  have hend : e.scanner.atEnd = full.scanner.atEnd := congrArg (·.atEnd) hscanner
  have hend' : e'.scanner.atEnd = full.scanner.atEnd := congrArg (·.atEnd) hscanner'
  exact ⟨hverdict.trans hverdict'.symm, hlookahead.trans hlookahead'.symm,
    hread.trans hread'.symm, hend.trans hend'.symm, hlog⟩

end ArithCheck
