import ArithCheck.Proofs.Recognition.Lockstep
import ArithCheck.Proofs.Scanner.Account

/-!
# Recognitions that keep account

A recognizer moves its scanner on by calls of `nextToken` and in no other way. To tell what the
calls have handed out it is run over an account of the scanner in place of the scanner itself, which
makes no other difference.

* `accounting`: a recognition over an account and the one over its scanner go in step;
* `calls_of_ok`, `calls_of_error`: so a recognition leaves its scanner as some calls leave it.
-/

namespace ArithCheck

namespace Account

/-- Drawing from an account is one more call. -/
instance : TokenSource Account where
  pull a :=
    match a.scanner.nextToken with
    | .ok token _ => .ok token a.call
    | .error fault _ => .error fault a.call
  file a := a.scanner.file
  tracing a := a.scanner.tracing
  size a := a.scanner.input.length

variable {a : Account} {s : Scanner}

theorem scanner_call_of_ok {token : Option Token} (h : a.scanner.nextToken = .ok token s) :
    a.call.scanner = s := by
  rw [call, h]

theorem scanner_call_of_error {fault : Fault} (h : a.scanner.nextToken = .error fault s) :
    a.call.scanner = s := by
  rw [call, h]

theorem pull_of_ok {token : Option Token} (h : a.scanner.nextToken = .ok token s) :
    TokenSource.pull a = .ok token a.call := by
  simp only [TokenSource.pull, h]

theorem pull_of_error {fault : Fault} (h : a.scanner.nextToken = .error fault s) :
    TokenSource.pull a = .error fault a.call := by
  simp only [TokenSource.pull, h]

end Account

namespace Recognition

variable {a : Account} {q : Recognition Account} {r : Recognition Scanner}

/-- A recognition `q` that has moved the account `a` on, and the same one over the scanner. -/
structure Accounted (a : Account) (q : Recognition Account) (r : Recognition Scanner) : Prop where
  calls : ∃ n, q.source = a.calls n
  scanner : q.source.scanner = r.source
  recognizer : q.toRecognizer = r.toRecognizer
  log : q.log = r.log

theorem Accounted.lookahead (h : Accounted a q r) : q.lookahead = r.lookahead :=
  congrArg Recognizer.lookahead h.recognizer

theorem Accounted.advance (h : Accounted a q r) :
    Agree (Accounted a) (Accounted a) (advance q) (advance r) := by
  obtain ⟨n, hn⟩ := h.calls
  have hcalls : ∃ n, q.source.call = a.calls n := ⟨n + 1, congrArg Account.call hn⟩
  have hsource := h.scanner
  cases hdraw : q.source.scanner.nextToken with
  | ok token s =>
    have hpull : TokenSource.pull r.source = .ok token s := by rw [← hsource]; exact hdraw
    have htracing : TokenSource.tracing q.source = TokenSource.tracing r.source :=
      congrArg (·.tracing) hsource
    rw [advance_eq (Account.pull_of_ok hdraw), advance_eq hpull, htracing, h.log]
    refine .ok ⟨hcalls, Account.scanner_call_of_ok hdraw, ?_, rfl⟩
    rw [h.recognizer]
  | error fault s =>
    have hpull : TokenSource.pull r.source = .error fault s := by rw [← hsource]; exact hdraw
    rw [advance_error (Account.pull_of_error hdraw), advance_error hpull]
    exact .error ⟨hcalls, Account.scanner_call_of_error hdraw, h.recognizer, h.log⟩

/-- A recognition over an account goes in step with the one over its scanner. -/
def accounting (a : Account) : Lockstep Account Scanner where
  holds := Accounted a
  ended := Accounted a
  kindAhead q r h := by
    show Agree _ _ (.ok q.ahead q) (.ok r.ahead r)
    rw [ahead, h.lookahead]
    exact .ok h
  enter n active q r h := by
    rw [enter_eq, enter_eq, h.recognizer, h.log]
    exact .ok ⟨h.calls, h.scanner, rfl, rfl⟩
  advance _ _ h := h.advance
  throw _ _ _ h := .error h

theorem accounting_whole (a : Account) : (accounting a).Whole where
  width h := congrArg (·.input.length + 2) h.scanner
  lookahead h := h.lookahead
  file h := congrArg (·.file) h.scanner
  conclude complete q r h := by
    rw [conclude_eq, conclude_eq, h.lookahead, h.log]
    exact .ok ⟨h.calls, h.scanner, h.recognizer, rfl⟩

/-- The recognition of a scanner, over an account of it. -/
def onAccount (r : Recognition Scanner) (a : Account) : Recognition Account :=
  { r with source := a }

theorem accounted_onAccount (h : a.scanner = r.source) : Accounted a (r.onAccount a) r :=
  ⟨⟨0, rfl⟩, h, rfl, rfl⟩

variable {α : Type} {c : Recognize Account α} {d : Recognize Scanner α} {r' : Recognition Scanner}

theorem calls_of_ok {x : α} (hcd : InStep (Accounted a) (Accounted a) c d)
    (ha : a.scanner = r.source) (h : d r = .ok x r') : ∃ n, r'.source = (a.calls n).scanner := by
  have hsame := hcd _ r (accounted_onAccount ha)
  rw [h] at hsame
  generalize c (r.onAccount a) = result at hsame
  cases hsame with
  | ok hend =>
    obtain ⟨n, hn⟩ := hend.calls
    exact ⟨n, by rw [← hn, hend.scanner]⟩

theorem calls_of_error {fault : Fault} (hcd : InStep (Accounted a) (Accounted a) c d)
    (ha : a.scanner = r.source) (h : d r = .error fault r') :
    ∃ n, r'.source = (a.calls n).scanner := by
  have hsame := hcd _ r (accounted_onAccount ha)
  rw [h] at hsame
  generalize c (r.onAccount a) = result at hsame
  cases hsame with
  | error hend =>
    obtain ⟨n, hn⟩ := hend.calls
    exact ⟨n, by rw [← hn, hend.scanner]⟩

end Recognition

end ArithCheck
