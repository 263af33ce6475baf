import ArithCheck.Proofs.Recognition.Within
import ArithCheck.Proofs.Scanner.Ledger

/-!
# Where the token ahead stands

The token ahead of a recognition is the last thing that its scanner has taken, so that no more than
the byte behind it has been read.

* `Keeps`: a computation keeps a property of recognitions, unless it ends in a fault;
* `Placed`: where the token ahead stands. Every part of a recognition keeps this
  (`recognize_keeps_placed`);
* `Placed.read_le`: how far has been read.
-/

namespace ArithCheck.Recognition

open Arithmetic

/-- A computation that keeps a property of recognitions, unless it ends in a fault. -/
def Keeps {α : Type} (I : Recognition Scanner → Prop) (c : Recognize Scanner α) : Prop :=
  ∀ r a r', I r → c r = .ok a r' → I r'

section Keeps

variable {α β : Type} {I : Recognition Scanner → Prop}

theorem Keeps.bind {c : Recognize Scanner α} {f : α → Recognize Scanner β} (h : Keeps I c)
    (hf : ∀ a, Keeps I (f a)) : Keeps I (c >>= f) := by
  intro r b r' hr hcf
  change EStateM.bind c f r = _ at hcf
  unfold EStateM.bind at hcf
  cases hc : c r with
  | error fault r₁ => simp [hc] at hcf
  | ok a r₁ => exact hf a _ _ _ (h _ _ _ hr hc) (by simpa [hc] using hcf)

theorem Keeps.nested {c : Recognize Scanner α} (h : Keeps I c) : Keeps I (nested c) := by
  intro r a r' hr hn
  cases hc : c r with
  | ok a₁ r₁ =>
    rw [nested_ok hc] at hn
    cases hn
    exact h _ _ _ hr hc
  | error fault r₁ =>
    by_cases hexhausted : fault = .exhausted
    · subst hexhausted
      simp [nested_exhausted hc] at hn
    · simp [nested_error hc hexhausted] at hn

end Keeps

/-- The bytes of the scanner are those that it has put away, which its position counts, and its
input. The token ahead is the last thing among the former. -/
structure Placed (bytes : List UInt8) (r : Recognition Scanner) : Prop where
  ready : r.source.Ready
  bytes : r.source.stream.bytes = bytes
  beyond : r.source.stream.beyond = 0
  place : ∃ u, r.source.stream.bytes = u ++ r.source.input ∧
    r.source.position = Position.start.advance u ∧
    ∀ t, r.lookahead = some t → ∃ x w, u = x ++ w ∧ t.position = Position.start.advance x ∧
      Text.Utf8.encode t.value = w

variable {bytes : List UInt8}

theorem Aside.keeps_placed {α : Type} {c : Recognize Scanner α} (h : Aside c) :
    Keeps (Placed bytes) c := by
  intro r a r' hr hc
  obtain ⟨a', log, hlog⟩ := h r
  have hcr : c r = .ok a' { r with log := log } := hlog r.source
  rw [hcr] at hc
  cases hc
  exact ⟨hr.ready, hr.bytes, hr.beyond, hr.place⟩

/-- Drawing a token keeps the token ahead in its place. -/
theorem advance_keeps_placed : Keeps (Placed bytes) advance := by
  intro r a r' hr hadvance
  obtain ⟨u, hu, hposition, -⟩ := hr.place
  have hbooked : r.source.Booked r.source.entries r.source.nextToken :=
    hr.ready.booked r.source.input_lt_bound
  generalize r.source.entries = es, hpull : r.source.nextToken = result at hbooked
  cases hbooked with
  | @token es t w s' blanks moved place pending =>
    rw [advance_eq hpull] at hadvance
    cases hadvance
    have hinput := moved.input
    have hmoved := moved.position
    have hsound := moved.sound (.token t w) (by simp)
    rw [spent_append, spent_eq_taken blanks] at hinput
    rw [taken_append, hposition, ← Position.advance_append] at hmoved
    rw [hposition, ← Position.advance_append] at place
    refine ⟨moved.ready, moved.same.bytes.trans hr.bytes, moved.same.beyond.trans hr.beyond,
      u ++ (taken es ++ w), ?_, ?_, ?_⟩
    · rw [moved.same.bytes, hu, hinput]
      simp [Entry.bytes]
    · rw [hmoved]
      simp [Entry.taken, Entry.bytes]
    · rintro t' ht'
      cases ht'
      exact ⟨u ++ taken es, w, by rw [List.append_assoc], place, hsound.2⟩
  | complete es blanks moved atEnd =>
    rw [advance_eq hpull] at hadvance
    cases hadvance
    have hinput := moved.input
    have hmoved := moved.position
    rw [spent_eq_taken blanks] at hinput
    rw [hposition, ← Position.advance_append] at hmoved
    refine ⟨moved.ready, moved.same.bytes.trans hr.bytes, moved.same.beyond.trans hr.beyond,
      u ++ taken es, ?_, hmoved, fun t ht => by cases ht⟩
    rw [moved.same.bytes, hu, hinput, List.append_assoc]
  | fault =>
    have herror : advance r = _ := advance_error hpull
    simp [herror] at hadvance

/-- Keeping the token ahead in its place is a simulation. -/
def placing (bytes : List UInt8) : Simulation Scanner Scanner where
  rel c _ := Keeps (Placed bytes) c
  pure a := by
    intro r b r' hr hc
    cases hc
    exact hr
  bind h hf := h.bind hf
  kindAhead := aside_kindAhead.keeps_placed
  enter m active := (aside_enter m active).keeps_placed
  advance := advance_keeps_placed
  throw _ _ _ _ _ := nofun

theorem recognize_keeps_placed (limit : Nat) : Keeps (Placed bytes) (recognize limit) := by
  intro r accepted r' hr hrecognize
  cases hadvance : advance r with
  | error fault r₁ => simp [recognize_of_advance_error hadvance] at hrecognize
  | ok _ r₁ =>
    rw [recognize_of_advance hadvance] at hrecognize
    have hrule : Keeps (Placed bytes) (rule r₁.width limit 0 .e) :=
      (placing bytes).rule r₁.width limit 0 .e
    have hrest : Keeps (Placed bytes) (nested (rule r₁.width limit 0 .e) >>= conclude) :=
      hrule.nested.bind fun complete => (aside_conclude complete).keeps_placed
    exact hrest _ _ _ (advance_keeps_placed _ _ _ hr hadvance) hrecognize

theorem Placed.read_le {r : Recognition Scanner} {t : Token} (h : Placed bytes r)
    (ht : r.lookahead = some t) : ∃ x w y, bytes = x ++ w ++ y ∧
      t.position = Position.start.advance x ∧ Text.Utf8.encode t.value = w ∧
        r.source.stream.position ≤ (x ++ w).length + 1 := by
  obtain ⟨u, hu, -, htoken⟩ := h.place
  obtain ⟨x, w, rfl, hposition, hvalue⟩ := htoken t ht
  refine ⟨x, w, r.source.input, h.bytes.symm.trans hu, hposition, hvalue, ?_⟩
  have hheld := r.source.length_held_le
  have hlength := congrArg List.length hu
  have hbeyond := h.beyond
  rw [h.ready.input_eq, Stream.bytes] at hlength
  simp only [List.length_append, List.length_reverse] at hlength
  rw [Stream.position, List.length_append]
  omega

end ArithCheck.Recognition
