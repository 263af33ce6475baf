import ArithCheck.Scanner

/-!
# Labels of a scanner

A scanner carries two labels that it does not go by: the name of its file, which becomes part of
tokens and faults, and whether tokens are traced. Under other labels it does the same.

* `Relabelled`: the results of the same computation under two labels;
* `nextToken_relabelled`: a token drawn under other labels.
-/

namespace ArithCheck

open Token

/-- A change of labels. -/
structure Labels where
  file : Option String → Option String
  tracing : Bool → Bool

/-- The token under other labels. -/
def Labels.token (l : Labels) (t : Token) : Token := { t with file := l.file t.file }

namespace Scanner

/-- The scanner under other labels. -/
def labelled (l : Labels) (s : Scanner) : Scanner :=
  { s with
    file := l.file s.file
    tracing := l.tracing s.tracing }

/-- The results of a computation of a scanner and of the scanner under other labels, if `value` puts
these into a value. A fault is the same, or a lexical one under the name of the file. -/
inductive Relabelled (l : Labels) {α : Type} (value : α → α) :
    EStateM.Result Fault Scanner α → EStateM.Result Fault Scanner α → Prop
  | ok (a : α) (s : Scanner) : Relabelled l value (.ok a s) (.ok (value a) (s.labelled l))
  | error (fault : Fault) (s : Scanner) :
    Relabelled l value (.error fault s) (.error fault (s.labelled l))
  | lexical (cause : LexicalCause) (position : Position) (s : Scanner) :
    Relabelled l value (.error (.lexical cause position s.file) s)
      (.error (.lexical cause position (s.labelled l).file) (s.labelled l))

variable (l : Labels)

theorem munch_relabelled (s : Scanner) : Relabelled l id s.munch (s.labelled l).munch := by
  have hsymbol (t : Automaton.Trail) : (s.labelled l).symbolAfter t = s.symbolAfter t := rfl
  have htrail : (s.labelled l).trail = s.trail := rfl
  have hautomaton : (s.labelled l).automaton = s.automaton := rfl
  unfold munch
  simp only [hsymbol, htrail, hautomaton]
  cases s.symbolAfter s.trail with
  | error fault => exact .error fault _
  | ok symbol =>
    dsimp only
    cases s.automaton.step s.trail.state symbol with
    | error fault => exact .error fault _
    | ok next =>
      dsimp only
      split
      · cases s.automaton.tag s.trail.state with
        | error fault => exact .error fault _
        | ok tag => exact .ok (some tag) _
      · split
        · exact .ok none _
        · exact .lexical _ _ (s.after s.trail)

theorem tokenOf_labelled (s : Scanner) (position : Position) (tag : Int) :
    (s.labelled l).tokenOf position tag = (s.tokenOf position tag).map l.token := by
  unfold tokenOf
  show (Kind.ofTag tag).bind _ = ((Kind.ofTag tag).bind _).map _
  cases Kind.ofTag tag with
  | error fault => rfl
  | ok kind =>
    show ((Text.Utf8.decode s.buffer).mapError _).bind _ =
      (((Text.Utf8.decode s.buffer).mapError _).bind _).map _
    cases Text.Utf8.decode s.buffer <;> rfl

theorem nextTokenWithin_relabelled (bound : List UInt8) (s : Scanner) :
    Relabelled l (Option.map l.token) (s.nextTokenWithin bound)
      ((s.labelled l).nextTokenWithin bound) := by
  induction bound generalizing s with
  | nil => exact .error .stalled s
  | cons c bound ih =>
    have hend : (s.labelled l).atEnd = s.atEnd := rfl
    have hposition : (s.labelled l).position = s.position := rfl
    have hmunch := munch_relabelled l s
    simp only [nextTokenWithin, hend, hposition]
    split
    · exact .ok none s
    generalize s.munch = x, (s.labelled l).munch = y at hmunch
    cases hmunch with
    | error fault s₁ => exact .error fault s₁
    | lexical cause position s₁ => exact .lexical cause position s₁
    | ok tag s₁ =>
      cases tag with
      | none => exact .ok none s₁
      | some tag =>
        dsimp only [id]
        split
        · exact ih s₁
        · rw [tokenOf_labelled]
          cases s₁.tokenOf s.position tag with
          | error fault => exact .error fault s₁
          | ok token => exact .ok (some token) s₁

/-- Under other labels a scanner hands out the same, but for these labels. -/
theorem nextToken_relabelled (s : Scanner) :
    Relabelled l (Option.map l.token) s.nextToken (s.labelled l).nextToken :=
  nextTokenWithin_relabelled l s.bound s

end Scanner

end ArithCheck
