import ArithCheck.Position
import Mathlib.Data.List.Induction

/-!
# Positions and line feeds

The position reached from the start of a text by counting: the line is one more than the number of
line feeds, and the column one more than the number of bytes behind the last of them. In a text that
does not start there but at another position, all positions are moved by it (`shift`).
-/

namespace ArithCheck.Position

/-- The bytes behind the last line feed. -/
def lastLine (u : List UInt8) : List UInt8 := (u.reverse.takeWhile (· ≠ 0x0A)).reverse

theorem lastLine_concat (u : List UInt8) (b : UInt8) :
    lastLine (u ++ [b]) = if b = 0x0A then [] else lastLine u ++ [b] := by
  simp only [lastLine, List.reverse_append, List.reverse_cons, List.reverse_nil, List.nil_append,
    List.singleton_append, List.takeWhile_cons]
  split <;> simp_all

/-- The position behind `u`, counted in the text. -/
theorem advance_start (u : List UInt8) :
    start.advance u = ⟨1 + (u.count 0x0A : Nat), 1 + ((lastLine u).length : Nat)⟩ := by
  induction u using List.reverseRecOn with
  | nil => rfl
  | append_singleton u b ih =>
    rw [advance_append, ih, advance_cons, advance_nil, next, lastLine_concat]
    by_cases hb : b = 0x0A
    · have hc : (u ++ [0x0A]).count 0x0A = u.count 0x0A + 1 := by simp
      rw [if_pos hb, if_pos hb, hb, hc]
      exact congrArg₂ Position.mk (by dsimp only; omega) rfl
    · have hc : (u ++ [b]).count 0x0A = u.count 0x0A := by simp [hb]
      rw [if_neg hb, if_neg hb, hc, List.length_append, List.length_singleton]
      exact congrArg₂ Position.mk rfl (by dsimp only; omega)

theorem line_advance (p : Position) (u : List UInt8) :
    (p.advance u).line = p.line + (u.count 0x0A : Nat) := by
  induction u generalizing p with
  | nil => simp
  | cons b u ih =>
    rw [advance_cons, ih, next]
    by_cases hb : b = 0x0A
    · rw [if_pos hb, hb, List.count_cons_self]
      dsimp only
      omega
    · rw [if_neg hb, List.count_cons_of_ne hb]

theorem le_line_advance {p : Position} (hp : 1 ≤ p.line) (u : List UInt8) :
    1 ≤ (p.advance u).line := by
  rw [line_advance]
  omega

/-- Without a line feed a position moves within its line. -/
theorem advance_of_not_mem (p : Position) {u : List UInt8} (h : 0x0A ∉ u) :
    p.advance u = ⟨p.line, p.column + u.length⟩ := by
  induction u generalizing p with
  | nil => simp
  | cons b u ih =>
    have hb : b ≠ 0x0A := (List.ne_of_not_mem_cons h).symm
    rw [advance_cons, next, if_neg hb, ih _ (List.not_mem_of_not_mem_cons h), List.length_cons]
    exact congrArg₂ Position.mk rfl (by dsimp only; omega)

/-! ## Texts inside of texts -/

/-- Where a position is in a text that starts at `base`: on its first line the columns go on from
the one of `base`. -/
def shift (base p : Position) : Position :=
  ⟨base.line + p.line - 1, if p.line = 1 then base.column + p.column - 1 else p.column⟩

theorem shift_start (base : Position) : base.shift start = base := by
  show Position.mk (base.line + 1 - 1) (base.column + 1 - 1) = base
  rw [Int.add_sub_cancel, Int.add_sub_cancel]

theorem next_shift (base : Position) {p : Position} (hp : 1 ≤ p.line) (b : UInt8) :
    (base.shift p).next b = base.shift (p.next b) := by
  by_cases hb : b = 0x0A
  · have hline : ¬ p.line + 1 = 1 := by omega
    rw [next, next, if_pos hb, if_pos hb, shift, shift, if_neg hline]
    exact congrArg₂ Position.mk (by dsimp only; omega) rfl
  · rw [next, next, if_neg hb, if_neg hb, shift, shift]
    refine congrArg₂ Position.mk rfl ?_
    dsimp only
    split <;> omega

theorem le_line_next {p : Position} (hp : 1 ≤ p.line) (b : UInt8) : 1 ≤ (p.next b).line := by
  rw [next]
  split
  · exact Int.le_add_one hp
  · exact hp

theorem advance_shift (base : Position) {p : Position} (hp : 1 ≤ p.line) (u : List UInt8) :
    (base.shift p).advance u = base.shift (p.advance u) := by
  induction u generalizing p with
  | nil => rfl
  | cons b u ih => rw [advance_cons, advance_cons, next_shift base hp, ih (le_line_next hp b)]

end ArithCheck.Position
