import ArithCheck.Proofs.Examination.OnTape
import ArithCheck.Proofs.Recognition.Placed

/-!
# Input that is not read

An examination depends on nothing but the bytes that it reads, and it reads no further than to the
byte behind the token at which it gives up.

* `exists_width`: the room for chains, which depends on all of the input, does not matter;
* `unread_bytes`: two byte strings that are the same as far as one of them is read.
-/

namespace ArithCheck

open Token Recognition Arithmetic

namespace Examination

variable {bytes : List UInt8} {r : Recognition Scanner} {q : Recognition Tape} {n : Nat}

/-- Whether the end of the input was met: it is held back, or the fault is about it. -/
def metEnd (e : Examination) : Bool :=
  e.scanner.atEnd || match e.verdict with
    | .ok _ => false
    | .error fault => fault.isAtEnd

/-- Chains do not run out of their room. -/
theorem rule_not_stalled {r₁ r₂ : Recognition Scanner} (h : Mirrors bytes r q)
    (hq : q.lookahead = none) (hadvance : advance r = .ok () r₁) (limit : Nat) :
    rule r₁.width limit 0 .e r₁ ≠ .error .stalled r₂ := by
  intro hstalled
  rcases h.fault_of_rule hq hadvance hstalled with hfault | ⟨hexhausted, -⟩
  · exact (h.ne_of_fault hfault).2.1 rfl
  · cases hexhausted

/-- A recognition does not depend on the room for chains, if there is enough. -/
theorem exists_width (h : Mirrors bytes r q) (hq : q.lookahead = none) (limit : Nat) :
    ∃ width, ∀ width', width ≤ width' →
      Recognition.recognize limit r = recognizeWithin width' limit r := by
  cases hadvance : advance r with
  | error fault r₁ =>
    refine ⟨0, fun width' _ => ?_⟩
    rw [recognize_of_advance_error hadvance]
    simp only [recognizeWithin, bind, EStateM.bind, hadvance]
  | ok _ r₁ =>
    refine ⟨r₁.width, fun width' hle => ?_⟩
    have hrule : rule r₁.width limit 0 .e r₁ = rule width' limit 0 .e r₁ :=
      (rule_width hle limit 0 .e r₁).resolve_right fun ⟨_, hstalled⟩ =>
        rule_not_stalled h hq hadvance limit hstalled
    rw [recognize_of_advance hadvance]
    simp only [recognizeWithin, bind, EStateM.bind, hadvance, nested, hrule]

theorem alike_fresh (settings : Settings) (file : Option String) {a b : List UInt8}
    (h : b.take n = a.take n) : Alike n (fresh settings a file) (fresh settings b file) := by
  refine ⟨_, ⟨Scanner.ready_ofBytes a file _, Scanner.ready_ofBytes b file _, rfl, rfl, rfl, rfl,
    ?_⟩, rfl⟩
  show (Stream.ofBytes a).bytes.take n = (Stream.ofBytes b).bytes.take n
  rw [Stream.bytes_ofBytes, Stream.bytes_ofBytes, h]

theorem placed_fresh (settings : Settings) (bytes : List UInt8) (file : Option String) :
    Placed bytes (fresh settings bytes file) := by
  have hready := Scanner.ready_ofBytes bytes file settings.traceTokens.isOn
  refine ⟨hready, Stream.bytes_ofBytes bytes, rfl, [], ?_, rfl, nofun⟩
  show (Stream.ofBytes bytes).bytes =
    (Scanner.ofBytes arithmetic bytes file settings.traceTokens.isOn).input
  rw [hready.input_eq]
  rfl

/-- An examination that ends past the first `n` bytes has met the end or read more than these. -/
theorem metEnd_or_lt_read {result : EStateM.Result Fault (Recognition Scanner) Bool}
    (h : EndsPast (fun r : Recognition Scanner => r.source.Past n) result) :
    (ofResult result).metEnd = true ∨ n < (ofResult result).read := by
  cases h with
  | ok h => exact h.imp_left fun hend => by simp [metEnd, ofResult, hend]
  | error h =>
    rcases h with (hend | hlt) | hfault
    · exact .inl (by simp [metEnd, ofResult, hend])
    · exact .inr hlt
    · exact .inl (by simp [metEnd, ofResult, hfault])

/-- The same result of two recognitions makes the same examination. -/
theorem ofResult_eq {x y : EStateM.Result Fault (Recognition Scanner) Bool}
    (h : SameResult (Alike n) x y) :
    (ofResult y).verdict = (ofResult x).verdict ∧ (ofResult y).lookahead = (ofResult x).lookahead ∧
      (ofResult y).read = (ofResult x).read ∧ (ofResult y).log = (ofResult x).log ∧
        (ofResult y).scanner.toReader = (ofResult x).scanner.toReader := by
  cases h with
  | @ok accepted r s h =>
    obtain ⟨q, hq, rfl⟩ := h
    exact ⟨rfl, rfl, hq.position_eq.symm, rfl, hq.reader.symm⟩
  | @error fault r s h =>
    obtain ⟨q, hq, rfl⟩ := h
    exact ⟨rfl, rfl, hq.position_eq.symm, rfl, hq.reader.symm⟩

/-- Unread input does not matter. If an examination has not met the end of its input, then every
byte string that goes on in another way behind the bytes read, or ends there, has an examination
with the same end. And an examination that gives up at a token has read at most one byte behind
it. -/
theorem unread_bytes (limit : Nat) (settings : Settings) (file : Option String)
    (a : List UInt8) :
    let e := ofStream limit settings (.ofBytes a) file
    (∀ b, e.metEnd = false → b.take e.read = a.take e.read →
      let e' := ofStream limit settings (.ofBytes b) file
      e'.verdict = e.verdict ∧ e'.lookahead = e.lookahead ∧ e'.read = e.read ∧
        e'.log = e.log ∧ e'.scanner.toReader = e.scanner.toReader) ∧
    (e.verdict = .ok false → ∀ t, e.lookahead = some t → ∃ x w y, a = x ++ w ++ y ∧
      t.position = Position.start.advance x ∧ Text.Utf8.encode t.value = w ∧
        e.read ≤ (x ++ w).length + 1) := by
  intro e
  have he : e = ofResult (Recognition.recognize limit (fresh settings a file)) := rfl
  refine ⟨fun b hend htake => ?_, fun hreject t ht => ?_⟩
  · obtain ⟨wa, ha⟩ := exists_width (mirrors_fresh settings a file) rfl limit
    obtain ⟨wb, hb⟩ := exists_width (mirrors_fresh settings b file) rfl limit
    have hsame := (recognizeWithin_sameWithin e.read (max wa wb) limit).same
      (alike_fresh settings file htake)
    rw [← ha _ (Nat.le_max_left wa wb), ← hb _ (Nat.le_max_right wa wb)] at hsame
    rcases hsame with hpast | hsame
    · rcases metEnd_or_lt_read hpast with hmet | hlt
      · rw [he, hmet] at hend
        cases hend
      · exact absurd hlt (Nat.lt_irrefl _)
    · exact ofResult_eq hsame
  · have hplaced : Keeps (Placed a) (Recognition.recognize limit) := recognize_keeps_placed limit
    cases hresult : Recognition.recognize limit (fresh settings a file) with
    | error fault r =>
      rw [he, hresult] at hreject
      cases hreject
    | ok accepted r =>
      have hr := hplaced _ accepted r (placed_fresh settings a file) hresult
      rw [he, hresult] at ht ⊢
      exact hr.read_le ht

/-- What comes behind two closing parentheses does not matter: the first one is rejected when the
second one has been read. -/
theorem unread_bytes_rejected :
    let e := ofStream 10 .default (.ofBytes [0x29, 0x29]) none
    e.metEnd = false ∧ e.read = 2 ∧
      (ofStream 10 .default (.ofBytes [0x29, 0x29, 0xFF]) none).verdict = e.verdict := by
  refine ⟨rfl, rfl, ?_⟩
  exact ((unread_bytes 10 .default none [0x29, 0x29]).1 [0x29, 0x29, 0xFF] rfl rfl).1

end Examination

end ArithCheck
