import ArithCheck.Automaton.Arithmetic
import ArithCheck.Automaton.Table
import Mathlib.Data.Set.Defs

/-!
# Lawful automata

What scanning takes for granted of an automaton, whatever its lexicon is: 0 is none of its states,
from a state it leads to states only, and it has an answer to everything that it is asked about
them.

* `run`: the state that bytes lead to, if the automaton can follow all of them;
* `run_follow`, `prefix_follow`: a trail is the longest part of an input that can be followed;
* `Lawful`: the contract. Every table keeps it that does not run out of resources
  (`Table.lawful`), and so does the lexicon of arithmetic (`arithmetic_lawful`).
-/

namespace ArithCheck

namespace Automaton

variable {a : Automaton} {states : Set Int} {state q : Int} {v w : List UInt8}

/-- The state that bytes lead to, if each of them may follow. -/
def run (a : Automaton) (state : Int) : List UInt8 → Option Int
  | [] => some state
  | b :: rest =>
    match a.next state b with
    | .ok (some next) => a.run next rest
    | _ => none

/-- Bytes are accepted if a lexeme may end where they lead from the start. -/
def Accepts (a : Automaton) (w : List UInt8) : Prop :=
  ∃ q, a.run a.start w = some q ∧ a.isFinal q = true

theorem run_cons {next : Int} {b : UInt8} (h : a.next state b = .ok (some next))
    (rest : List UInt8) : a.run state (b :: rest) = a.run next rest := by
  simp only [run, h]

theorem next_of_run_cons {b : UInt8} {rest : List UInt8}
    (h : a.run state (b :: rest) = some q) :
    ∃ next, a.next state b = .ok (some next) ∧ a.run next rest = some q := by
  unfold run at h
  split at h
  · rename_i next hnext
    exact ⟨next, hnext, h⟩
  · cases h

/-- A trail leads to its state. -/
theorem run_follow (a : Automaton) (state : Int) (input : List UInt8) :
    a.run state (a.follow state input).lexeme = some (a.follow state input).state := by
  induction input generalizing state with
  | nil => rfl
  | cons b rest ih =>
    unfold follow
    split
    · rename_i next hnext
      rw [run_cons hnext]
      exact ih next
    · rfl

/-- A trail takes all that can be followed. -/
theorem prefix_follow {input : List UInt8} (hv : v <+: input) (h : a.run state v = some q) :
    v <+: (a.follow state input).lexeme := by
  induction input generalizing state v with
  | nil =>
    rw [List.prefix_nil.mp hv]
    exact List.nil_prefix
  | cons b rest ih =>
    cases v with
    | nil => exact List.nil_prefix
    | cons c v =>
      obtain ⟨rfl, hrest⟩ := List.cons_prefix_cons.mp hv
      obtain ⟨next, hnext, hrun⟩ := next_of_run_cons h
      simp only [follow, hnext]
      exact List.cons_prefix_cons.mpr ⟨rfl, ih hrest hrun⟩

/-- Bytes that can all be followed are their own trail. -/
theorem follow_of_run (h : a.run state w = some q) : a.follow state w = ⟨w, q, []⟩ := by
  induction w generalizing state with
  | nil =>
    obtain rfl : state = q := Option.some.inj h
    rfl
  | cons b w ih =>
    obtain ⟨next, hnext, hrun⟩ := next_of_run_cons h
    simp only [follow, hnext, ih hrun]

/-! ## The contract -/

/-- An automaton with the given states that keeps its contract. -/
structure Lawful (a : Automaton) (states : Set Int) : Prop where
  zero : 0 ∉ states
  start : a.start ∈ states
  /-- From a state a byte leads to a state or nowhere. -/
  next {s : Int} (hs : s ∈ states) (b : UInt8) :
    ∃ target, a.next s b = .ok target ∧ ∀ t ∈ target, t ∈ states
  /-- At the end of the stream nothing follows, whatever the state. -/
  finish {s : Int} (hs : s ∈ states) : a.finish s = .ok ()
  /-- There is a tag where a lexeme may end. -/
  tag {s : Int} (hs : s ∈ states) (hf : a.isFinal s = true) : ∃ n, a.tag s = .ok n

namespace Lawful

/-- All that can be followed from a state leads to states. -/
theorem run_mem (ha : a.Lawful states) (hs : state ∈ states) (h : a.run state w = some q) :
    q ∈ states := by
  induction w generalizing state with
  | nil =>
    obtain rfl : state = q := Option.some.inj h
    exact hs
  | cons b w ih =>
    obtain ⟨next, hnext, hrun⟩ := next_of_run_cons h
    obtain ⟨target, htarget, hmem⟩ := ha.next hs b
    obtain rfl : target = some next := Except.ok.inj (htarget.symm.trans hnext)
    exact ih (hmem next rfl) hrun

theorem follow_mem (ha : a.Lawful states) (input : List UInt8) :
    (a.follow a.start input).state ∈ states :=
  ha.run_mem ha.start (a.run_follow a.start input)

/-- The byte behind a trail may not follow. -/
theorem next_follow (ha : a.Lawful states) (hs : state ∈ states) {input rest : List UInt8}
    {b : UInt8} (h : (a.follow state input).rest = b :: rest) :
    a.next (a.follow state input).state b = .ok none := by
  induction input generalizing state with
  | nil => cases h
  | cons c input ih =>
    obtain ⟨target, htarget, hmem⟩ := ha.next hs c
    cases target with
    | none =>
      simp only [follow, htarget] at h ⊢
      obtain ⟨rfl, -⟩ := List.cons.inj h
      exact htarget
    | some next =>
      simp only [follow, htarget] at h ⊢
      exact ih (hmem next rfl) h

end Lawful

/-! ## Automata that keep it -/

namespace Table

/-- The start of a table and all that its edges lead to, without 0. -/
def declared (t : Table) : Set Int :=
  {n | n ≠ 0 ∧ (n = t.start ∨ ∃ e ∈ t.edges, e.target = n)}

theorem target?_edge {t : Table} {b : UInt8} {n : Int} (h : t.target? state b = some n) :
    n ≠ 0 ∧ ∃ e ∈ t.edges, e.target = n ∧ (b.toNat : Int) ≤ e.high := by
  obtain ⟨edge, hfind, h⟩ := Option.bind_eq_some_iff.mp h
  have hfits : edge.source = state ∧ edge.low ≤ (b.toNat : Int) ∧ (b.toNat : Int) ≤ edge.high := by
    simpa [and_assoc] using List.find?_some hfind
  unfold guard at h
  split at h
  · rename_i hzero
    obtain rfl : edge.target = n := Option.some.inj h
    exact ⟨hzero, edge, List.mem_of_find?_eq_some hfind, rfl, hfits.2.2⟩
  · cases h

/-- A table leads on by the target of an edge. -/
theorem target?_of_next {t : Table} {b : UInt8} {n : Int}
    (h : t.automaton.next state b = .ok (some n)) : t.target? state b = some n := by
  have hmap : (t.check state (.byte b)).map (fun _ => t.target? state b) = .ok (some n) := h
  cases hcheck : t.check state (.byte b) with
  | error fault => simp [hcheck, Except.map] at hmap
  | ok _ =>
    rw [hcheck] at hmap
    exact Except.ok.inj hmap

/-- Every byte that is followed is in the range of an edge. -/
theorem edge_of_mem {t : Table} (h : t.automaton.run state w = some q) {b : UInt8} (hb : b ∈ w) :
    ∃ e ∈ t.edges, (b.toNat : Int) ≤ e.high := by
  induction w generalizing state with
  | nil => cases hb
  | cons c w ih =>
    obtain ⟨next, hnext, hrun⟩ := next_of_run_cons h
    rcases List.mem_cons.mp hb with rfl | hb
    · obtain ⟨-, e, he, -, hle⟩ := target?_edge (target?_of_next hnext)
      exact ⟨e, he, hle⟩
    · exact ih hrun hb

/-- What bytes lead to is the target of an edge. -/
theorem edge_of_run {t : Table} (hw : w ≠ []) (h : t.automaton.run state w = some q) :
    ∃ e ∈ t.edges, e.target = q := by
  induction w generalizing state with
  | nil => exact absurd rfl hw
  | cons b w ih =>
    obtain ⟨next, hnext, hrun⟩ := next_of_run_cons h
    by_cases hnil : w = []
    · subst hnil
      obtain rfl : next = q := Option.some.inj hrun
      obtain ⟨-, e, he, htarget, -⟩ := target?_edge (target?_of_next hnext)
      exact ⟨e, he, htarget⟩
    · exact ih hnil hrun

/-- A table keeps the contract if it starts in a state and does not run out of resources. -/
theorem lawful {t : Table} (hstart : t.start ≠ 0) (hexhausted : t.exhausted = []) :
    t.automaton.Lawful t.declared := by
  have hcheck : ∀ n symbol, t.check n symbol = .ok () := by
    intro n symbol
    simp [check, hexhausted]
  refine ⟨fun h => h.1 rfl, ⟨hstart, .inl rfl⟩, fun {n} _ b => ?_, fun {n} _ => hcheck n _,
    fun {n} _ _ => ⟨t.tag n, rfl⟩⟩
  refine ⟨t.target? n b, ?_, fun m hm => ?_⟩
  · show (t.check n (.byte b)).map _ = _
    rw [hcheck]
    rfl
  · obtain ⟨hzero, e, he, htarget, -⟩ := target?_edge hm
    exact ⟨hzero, .inr ⟨e, he, htarget⟩⟩

end Table

end Automaton

namespace Arithmetic

/-- The numbers of the states. -/
def declared : Set Int := {n | ∃ s : State, s.code = n}

theorem arithmetic_lawful : arithmetic.Lawful declared := by
  refine ⟨?_, ⟨.start, rfl⟩, ?_, fun _ => arithmetic_finish _, ?_⟩
  · rintro ⟨s, hs⟩
    exact s.code_ne_zero hs
  · rintro _ ⟨s, rfl⟩ b
    refine ⟨_, arithmetic_next s b, fun n hn => ?_⟩
    obtain ⟨t, -, rfl⟩ := Option.map_eq_some_iff.mp hn
    exact ⟨t, rfl⟩
  · rintro _ ⟨s, rfl⟩ -
    exact ⟨s.tag, arithmetic_tag s⟩

end Arithmetic

end ArithCheck
