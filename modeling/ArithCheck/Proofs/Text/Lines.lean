import ArithCheck.Proofs.Position
import Mathlib.Data.List.Basic

/-!
# The lines of a text

The lines between the line feeds of a text, and where its bytes stand in them: a byte stands in the
line that counts the line feeds in front of it, behind the bytes since the last of these.

* `lines_getElem?`: the line in which the bytes `x` end and `y` goes on;
* `exists_offset`: the offset at which a byte of the lines stands.
-/

namespace ArithCheck.Text

open Position (lastLine lastLine_concat)

/-- The lines of a text, without the line feeds. -/
def lines (bytes : List UInt8) : List (List UInt8) := bytes.splitOn 0x0A

/-- The byte that stands in a line at a column, both counted from zero. -/
def byteAt (ls : List (List UInt8)) (l c : Nat) : Option UInt8 := ls[l]?.bind (·[c]?)

theorem lines_cons (b : UInt8) (x : List UInt8) : lines (b :: x) =
    if b = 0x0A then [] :: lines x else (lines x).modifyHead (b :: ·) := by
  rw [lines, List.splitOn_cons_eq_if_modifyHead]
  simp only [beq_iff_eq]
  rfl

theorem lastLine_cons (b : UInt8) (x : List UInt8) : lastLine (b :: x) =
    if b ≠ 0x0A ∧ x.count 0x0A = 0 then b :: lastLine x else lastLine x := by
  induction x using List.reverseRecOn with
  | nil => by_cases hb : b = 0x0A <;> simp [lastLine, hb]
  | append_singleton x c ih =>
    rw [← List.cons_append, lastLine_concat, lastLine_concat, ih]
    by_cases hc : c = 0x0A
    · simp [hc]
    · by_cases hx : b ≠ 0x0A ∧ x.count 0x0A = 0 <;> simp [hc, hx]

/-- The line in which `x` ends goes on with what comes up to the next line feed. -/
theorem lines_getElem? (x y : List UInt8) : (lines (x ++ y))[x.count 0x0A]? =
    some (lastLine x ++ y.takeWhile (· ≠ 0x0A)) := by
  induction x with
  | nil =>
    induction y with
    | nil => rfl
    | cons b y ih =>
      have hfirst : (lines y)[0]? = some (y.takeWhile (· ≠ 0x0A)) := ih
      by_cases hb : b = 0x0A
      · simp [lines_cons, hb, lastLine]
      · simp [lines_cons, hb, lastLine, List.getElem?_modifyHead, hfirst]
  | cons b x ih =>
    rw [List.cons_append, lines_cons, lastLine_cons]
    by_cases hb : b = 0x0A
    · simp [hb, ih]
    · have hcount : (b :: x).count 0x0A = x.count 0x0A := List.count_cons_of_ne hb
      rw [if_neg hb, hcount, List.getElem?_modifyHead]
      by_cases hx : x.count 0x0A = 0
      · rw [if_pos hx, if_pos ⟨hb, hx⟩, ih]; rfl
      · rw [if_neg hx, if_neg fun h => hx h.2, ih]

theorem byteAt_cons_lf (x : List UInt8) (l c : Nat) : byteAt (lines (0x0A :: x)) l c =
    if l = 0 then none else byteAt (lines x) (l - 1) c := by
  rw [lines_cons, if_pos rfl]
  cases l <;> rfl

theorem byteAt_cons {b : UInt8} (hb : b ≠ 0x0A) (x : List UInt8) (l c : Nat) :
    byteAt (lines (b :: x)) l c =
      if l = 0 then (if c = 0 then some b else byteAt (lines x) 0 (c - 1))
      else byteAt (lines x) l c := by
  have hfirst : (lines x)[0]? = some (x.takeWhile (· ≠ 0x0A)) := lines_getElem? [] x
  rw [lines_cons, if_neg hb, byteAt, List.getElem?_modifyHead]
  by_cases hl : l = 0
  · subst hl
    rw [if_pos rfl, if_pos rfl, byteAt, hfirst]
    cases c <;> rfl
  · rw [if_neg hl, if_neg hl, byteAt]

/-- The offset of a byte that stands in a line. -/
theorem exists_offset {bytes : List UInt8} {l c : Nat} {b : UInt8}
    (h : byteAt (lines bytes) l c = some b) : b ≠ 0x0A ∧
      ∃ x y, bytes = x ++ b :: y ∧ x.count 0x0A = l ∧ (lastLine x).length = c := by
  induction bytes generalizing l c with
  | nil => cases l <;> simp [byteAt, lines] at h
  | cons a bytes ih =>
    by_cases ha : a = 0x0A
    · subst ha
      rw [byteAt_cons_lf] at h
      split at h
      · cases h
      · rename_i hl
        obtain ⟨hb, x, y, rfl, hcount, hlast⟩ := ih h
        refine ⟨hb, 0x0A :: x, y, rfl, ?_, ?_⟩
        · rw [List.count_cons_self, hcount]; omega
        · rw [lastLine_cons, if_neg fun h => h.1 rfl, hlast]
    · have hcons : ∀ x : List UInt8, (a :: x).count 0x0A = x.count 0x0A := fun x =>
        List.count_cons_of_ne ha
      rw [byteAt_cons ha] at h
      split at h
      · rename_i hl
        split at h
        · obtain rfl : a = b := Option.some.inj h
          rename_i hc
          exact ⟨ha, [], bytes, rfl, hl.symm, hc.symm⟩
        · rename_i hc
          obtain ⟨hb, x, y, rfl, hcount, hlast⟩ := ih h
          refine ⟨hb, a :: x, y, rfl, by rw [hcons, hcount, hl], ?_⟩
          rw [lastLine_cons, if_pos ⟨ha, hcount⟩, List.length_cons, hlast]
          omega
      · rename_i hl
        obtain ⟨hb, x, y, rfl, hcount, hlast⟩ := ih h
        refine ⟨hb, a :: x, y, rfl, by rw [hcons, hcount], ?_⟩
        rw [lastLine_cons, if_neg fun h => hl (hcount.symm.trans h.2), hlast]

end ArithCheck.Text
