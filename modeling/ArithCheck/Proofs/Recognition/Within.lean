import ArithCheck.Proofs.Recognition.Parts
import ArithCheck.Proofs.Recognition.Simulation
import ArithCheck.Proofs.Scanner.Unread

/-!
# Recognitions that read no further than they should

Over scanners that are alike recognitions go the same way, for as long as they read none of the
bytes in which the scanners may differ. `SameWithin` says so of a computation.

* `Aside.sameWithin`, `advance_sameWithin`, `nested_sameWithin`: the parts of a recognition;
* `within`: so it is a simulation;
* `recognizeWithin_sameWithin`: whole recognitions, with the same room for chains.
-/

namespace ArithCheck

open Token

/-! ## Parts that are the same up to some point -/

section SameUntil

variable {ρ α β : Type} {past : ρ → Prop} {alike : ρ → ρ → Prop}

theorem EndsPast.bind {c : EStateM Fault ρ α} {f : α → EStateM Fault ρ β} {r : ρ}
    (h : EndsPast past (c r)) (hf : ∀ a r', past r' → EndsPast past (f a r')) :
    EndsPast past ((c >>= f) r) := by
  show EndsPast past (EStateM.bind c f r)
  unfold EStateM.bind
  generalize c r = result at h
  cases h with
  | ok h => exact hf _ _ h
  | error h => exact .error h

namespace SameUntil

theorem pure (a : α) : SameUntil past alike (Pure.pure a) (Pure.pure a) :=
  ⟨fun h => .ok h, fun h => .inr (.ok h)⟩

theorem throw (fault : Fault) :
    SameUntil past alike (throw fault : EStateM Fault ρ α) (throw fault) :=
  ⟨fun h => .error (.inl h), fun h => .inr (.error h)⟩

theorem bind {c d : EStateM Fault ρ α} {f g : α → EStateM Fault ρ β}
    (h : SameUntil past alike c d) (hf : ∀ a, SameUntil past alike (f a) (g a)) :
    SameUntil past alike (c >>= f) (d >>= g) := by
  refine ⟨fun hr => (h.stays hr).bind fun a r' => (hf a).stays, fun {r s} hrs => ?_⟩
  rcases h.same hrs with hpast | hsame
  · exact .inl (hpast.bind fun a r' => (hf a).stays)
  · show EndsPast past (EStateM.bind c f r) ∨
      SameResult alike (EStateM.bind c f r) (EStateM.bind d g s)
    unfold EStateM.bind
    generalize c r = x, d s = y at hsame
    cases hsame with
    | ok h' => exact (hf _).same h'
    | error h' => exact .inr (.error h')

end SameUntil

end SameUntil

namespace Recognition

variable {n : Nat}

/-- Two recognitions that are the same but for their scanners, which are alike. -/
def Alike (n : Nat) (r s : Recognition Scanner) : Prop :=
  ∃ q, r.source.Alike n q ∧ s = { r with source := q }

/-- Two computations that do the same over scanners that are alike, as long as no other bytes than
the first `n` are read. -/
abbrev SameWithin {α : Type} (n : Nat) (c d : Recognize Scanner α) : Prop :=
  SameUntil (fun r : Recognition Scanner => r.source.Past n) (Alike n) c d

theorem Aside.sameWithin {α : Type} {c : Recognize Scanner α} (h : Aside c) : SameWithin n c c where
  stays {r} hr := by
    obtain ⟨a, log, hc⟩ := h r
    have hcr : c r = .ok a { r with log := log } := hc r.source
    rw [hcr]
    exact .ok hr
  same {r s} hrs := by
    obtain ⟨q, hq, rfl⟩ := hrs
    obtain ⟨a, log, hc⟩ := h r
    have hcr : c r = .ok a { r with log := log } := hc r.source
    rw [hcr, hc q]
    exact .inr (.ok ⟨q, hq, rfl⟩)

theorem endsPast_advance {r : Recognition Scanner}
    (h : EndsPast (Scanner.Past n) (TokenSource.pull r.source)) :
    EndsPast (fun r : Recognition Scanner => r.source.Past n) (advance r) := by
  generalize hpull : TokenSource.pull r.source = result at h
  cases h with
  | ok h => rw [advance_eq hpull]; exact .ok h
  | error h => rw [advance_error hpull]; exact .error h

theorem advance_sameWithin (n : Nat) : SameWithin n advance advance where
  stays hr := endsPast_advance ((Scanner.nextToken_sameUntil n).stays hr)
  same {r s} hrs := by
    obtain ⟨q, hq, rfl⟩ := hrs
    refine ((Scanner.nextToken_sameUntil n).same hq).imp endsPast_advance fun hsame => ?_
    generalize hr : r.source.nextToken = x, hs : q.nextToken = y at hsame
    have htracing : r.source.tracing = q.tracing := congrArg Reader.tracing hq.reader
    cases hsame with
    | @ok token s₁ s₂ h =>
      have hadvance : advance { r with source := q } = _ := advance_eq hs
      rw [advance_eq hr, hadvance]
      refine .ok ⟨s₂, h, ?_⟩
      show Recognition.mk _ _ (r.log ++ Log.ofToken q.tracing token) =
        Recognition.mk _ _ (r.log ++ Log.ofToken r.source.tracing token)
      rw [htracing]
    | @error fault s₁ s₂ h =>
      have hadvance : advance { r with source := q } = _ := advance_error hs
      rw [advance_error hr, hadvance]
      exact .error ⟨s₂, h, rfl⟩

theorem endsPast_nested {α : Type} {c : Recognize Scanner α} {r : Recognition Scanner}
    (h : EndsPast (fun r : Recognition Scanner => r.source.Past n) (c r)) :
    EndsPast (fun r : Recognition Scanner => r.source.Past n) (nested c r) := by
  generalize hc : c r = result at h
  cases h with
  | ok h => rw [nested_ok hc]; exact .ok h
  | @error fault r' h =>
    by_cases hexhausted : fault = .exhausted
    · subst hexhausted
      rw [nested_exhausted hc]
      exact .error (.inl (h.resolve_right Bool.false_ne_true))
    · rw [nested_error hc hexhausted]
      exact .error h

theorem nested_sameWithin {α : Type} {c d : Recognize Scanner α} (h : SameWithin n c d) :
    SameWithin n (nested c) (nested d) where
  stays hr := endsPast_nested (h.stays hr)
  same {r s} hrs := by
    refine (h.same hrs).imp endsPast_nested fun hsame => ?_
    generalize hc : c r = x, hd : d s = y at hsame
    cases hsame with
    | ok h' => rw [nested_ok hc, nested_ok hd]; exact .ok h'
    | @error fault r' s' h' =>
      by_cases hexhausted : fault = .exhausted
      · subst hexhausted
        rw [nested_exhausted hc, nested_exhausted hd]
        obtain ⟨q, hq, rfl⟩ := h'
        have hfile : TokenSource.file r'.source = TokenSource.file q :=
          congrArg Reader.file hq.reader
        rw [hfile]
        exact .error ⟨q, hq, rfl⟩
      · rw [nested_error hc hexhausted, nested_error hd hexhausted]
        exact .error h'

/-- Going the same way within the first `n` bytes is a simulation. -/
def within (n : Nat) : Simulation Scanner Scanner where
  rel := SameWithin n
  pure := .pure
  bind := .bind
  kindAhead := aside_kindAhead.sameWithin
  enter m active := (aside_enter m active).sameWithin
  advance := advance_sameWithin n
  throw := .throw

/-- A recognition with room for a given number of operators in each chain. -/
def recognizeWithin (width limit : Nat) : Recognize Scanner Bool := do
  advance
  let complete ← nested (rule width limit 0 .e)
  conclude complete

theorem recognizeWithin_sameWithin (n width limit : Nat) :
    SameWithin n (recognizeWithin width limit) (recognizeWithin width limit) :=
  (advance_sameWithin n).bind fun _ =>
    (nested_sameWithin ((within n).rule width limit 0 .e)).bind fun complete =>
      (aside_conclude complete).sameWithin

end Recognition

end ArithCheck
