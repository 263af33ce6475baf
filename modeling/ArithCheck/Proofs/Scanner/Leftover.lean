import ArithCheck.Proofs.Scanner.Tape

/-!
# What is left over at the end of the input

A scanner that meets the end of its input in the state in which lexemes start hands out nothing and
reports no fault, whatever it has read since the last lexeme. With a lexicon that leads from the
start back to it, bytes can get lost like this.

* `lexemes`: the lexemes that a scanner takes up to the end or to a fault;
* `Regular.covers`: without a fault the input is these lexemes and a part that leads from the start
  back to the start;
* `nothing_left_over`: nothing is ever lost if and only if no bytes lead back to the start;
* `left_over_letter`: a lexicon with which a letter is lost.
-/

namespace ArithCheck.Scanner

open Automaton (Lawful Table)

/-- A lexeme and its tag. -/
structure Tagged where
  tag : Int
  bytes : List UInt8
  deriving DecidableEq, Repr

/-- A token is made of a lexeme: it has the kind that the tag names and the text of the bytes. -/
def Tagged.Makes (l : Tagged) (t : Token) : Prop :=
  Token.Kind.ofTag l.tag = .ok t.kind ∧ Text.Utf8.decode l.bytes = .ok t.value

theorem makes_of_tokenOf {s : Scanner} {position : Position} {tag : Int} {t : Token}
    (h : s.tokenOf position tag = .ok t) : Tagged.Makes ⟨tag, s.buffer⟩ t := by
  unfold tokenOf at h
  cases hk : Token.Kind.ofTag tag with
  | error fault => simp [hk, bind, Except.bind] at h
  | ok k =>
    cases hv : Text.Utf8.decode s.buffer with
    | error fault => simp [hk, hv, bind, Except.bind, Except.mapError] at h
    | ok value =>
      simp only [hk, hv, bind, Except.bind, Except.mapError, pure, Except.pure] at h
      cases h
      exact ⟨hk, hv⟩

/-- The lexemes that are taken one after the other up to the end or to a fault. Unless it is empty,
each of them takes a byte, so that `bound` need not be longer than the input, and one more for the
end. -/
def lexemesWithin : (bound : List UInt8) → Scanner → List Tagged
  | [], _ => []
  | _ :: bound, s =>
    if s.atEnd then []
    else match munch s with
      | .ok (some tag) s' => ⟨tag, s'.buffer⟩ :: lexemesWithin bound s'
      | _ => []

/-- The lexemes that a scanner takes from some moment on. -/
def lexemes (s : Scanner) : List Tagged := s.lexemesWithin s.bound

variable {s s' : Scanner} {states : Set Int}

/-- A bound that is longer than the input does not matter. -/
theorem lexemesWithin_congr {bound bound' : List UInt8}
    (hstart : s.automaton.isFinal s.automaton.start = false)
    (hb : s.input.length < bound.length) (hb' : s.input.length < bound'.length) :
    s.lexemesWithin bound = s.lexemesWithin bound' := by
  induction bound generalizing s bound' with
  | nil => simp at hb
  | cons c bound ih =>
    cases bound' with
    | nil => simp at hb'
    | cons c' bound' =>
      simp only [lexemesWithin]
      split
      · rfl
      cases hm : s.munch with
      | error fault s' => rfl
      | ok tag s' =>
        cases tag with
        | none => rfl
        | some tag =>
          have hsteady := steady_of_munch hm
          have hlt := munch_input_lt hstart hm
          simp only [List.length_cons] at hb hb'
          have hrest : s'.lexemesWithin bound = s'.lexemesWithin bound' :=
            ih (hsteady.start_not_final hstart) (by omega) (by omega)
          dsimp only
          rw [hrest]

theorem lexemes_of_munch {tag : Int} (hstart : s.automaton.isFinal s.automaton.start = false)
    (hend : ¬ s.atEnd = true) (h : s.munch = .ok (some tag) s') :
    s.lexemes = ⟨tag, s'.buffer⟩ :: s'.lexemes := by
  have hsteady := steady_of_munch h
  have hlt := munch_input_lt hstart h
  have hbound := s.input_lt_bound
  have hrest : s'.lexemesWithin (0 :: s.stream.unread) = s'.lexemes := by
    refine lexemesWithin_congr (hsteady.start_not_final hstart) ?_ s'.input_lt_bound
    simp only [bound, List.length_cons] at hbound ⊢
    omega
  rw [lexemes, bound, lexemesWithin, if_neg hend, h]
  dsimp only
  rw [hrest]

theorem lexemes_of_munch_none (h : s.munch = .ok none s') : s.lexemes = [] := by
  rw [lexemes, bound, lexemesWithin, h]
  split <;> rfl

theorem lexemes_of_atEnd (h : s.atEnd = true) : s.lexemes = [] := by
  rw [lexemes, bound, lexemesWithin, if_pos h]

/-! ## What the lexemes cover -/

/-- A scanner over an open stream, with an automaton that keeps its contract and accepts no empty
lexeme. -/
structure Regular (states : Set Int) (s : Scanner) : Prop where
  lawful : s.automaton.Lawful states
  start : s.automaton.isFinal s.automaton.start = false
  opened : s.stream.closed = false

namespace Regular

theorem beyond (h : Regular states s) : Regular states (s.beyond s.trail) :=
  ⟨h.lawful, h.start, h.opened⟩

/-- Without a fault the input is the lexemes, and behind them a part along which the automaton runs
from the start back to the start. The tokens are made of the lexemes whose tag is not 0. -/
theorem covers (h : Regular states s) (hfault : s.tape.fault = none) :
    (∃ w, s.automaton.run s.automaton.start w = some s.automaton.start ∧
      s.input = s.lexemes.flatMap (·.bytes) ++ w) ∧
    List.Forall₂ Tagged.Makes (s.lexemes.filter (·.tag ≠ 0)) s.tape.tokens := by
  -- By induction on the input: a lexeme takes a byte, and so does one that is dropped.
  induction hlength : s.input.length using Nat.strongRecOn generalizing s with
  | ind n ih =>
  by_cases hend : s.atEnd = true
  · rw [lexemes_of_atEnd hend, tape_none (nextToken_of_atEnd hend)]
    exact ⟨⟨[], rfl, input_of_atEnd hend⟩, .nil⟩
  have hrun : s.automaton.run s.automaton.start s.trail.lexeme = some s.trail.state :=
    s.automaton.run_follow s.automaton.start s.input
  cases hf : s.automaton.isFinal s.trail.state with
  | false =>
    by_cases hlast : s.trail.rest = [] ∧ s.trail.state = s.automaton.start
    · obtain ⟨hrest, hstart⟩ := hlast
      have hm := munch_end h.lawful h.opened hf hrest hstart
      rw [lexemes_of_munch_none hm, tape_none (nextToken_of_munch_none hend hm)]
      refine ⟨⟨s.trail.lexeme, by rw [hrun, hstart], ?_⟩, .nil⟩
      rw [← s.trail_append, hrest, List.append_nil]
      rfl
    · have hm := munch_stuck h.lawful h.opened hf (by rwa [← not_and_or])
      rw [tape_fault (nextToken_of_munch_error hend hm)] at hfault
      cases hfault
  | true =>
    obtain ⟨tag, -, hm⟩ := munch_tag h.lawful h.opened hf
    have hlt : (s.beyond s.trail).input.length < n := hlength ▸ munch_input_lt h.start hm
    rw [lexemes_of_munch h.start hend hm]
    have hsplit : s.input = s.trail.lexeme ++ (s.beyond s.trail).input := by
      rw [input_beyond h.opened s.trail_append, s.trail_append]
    by_cases htag : tag = 0
    · subst htag
      have htape : s.tape = (s.beyond s.trail).tape :=
        tape_congr h.beyond.start (nextToken_dropped h.start hend hm)
          (Nat.le_of_lt (hlength ▸ hlt))
      rw [htape] at hfault ⊢
      obtain ⟨⟨w, hw, hinput⟩, htokens⟩ := ih _ hlt h.beyond hfault rfl
      exact ⟨⟨w, hw, by rw [hsplit, hinput]; simp⟩, by simpa using htokens⟩
    · have hn := nextToken_kept hend htag hm
      cases ht : (s.beyond s.trail).tokenOf s.position tag with
      | error fault =>
        rw [ht] at hn
        rw [tape_fault hn] at hfault
        cases hfault
      | ok t =>
        rw [ht] at hn
        rw [tape_token h.start hn] at hfault ⊢
        obtain ⟨⟨w, hw, hinput⟩, htokens⟩ := ih _ hlt h.beyond hfault rfl
        refine ⟨⟨w, hw, by rw [hsplit, hinput]; simp⟩, ?_⟩
        rw [List.filter_cons_of_pos (by simpa using htag)]
        exact .cons (makes_of_tokenOf ht) htokens

end Regular

/-- Bytes that lead from the start back to it are all lost. -/
theorem lexemes_of_run {a : Automaton} (ha : a.Lawful states) (hstart : a.isFinal a.start = false)
    {w : List UInt8} (hw : a.run a.start w = some a.start) (file : Option String) (tracing : Bool) :
    (ofBytes a w file tracing).tape.fault = none ∧ (ofBytes a w file tracing).lexemes = [] := by
  have htrail : (ofBytes a w file tracing).trail = ⟨w, a.start, []⟩ := Automaton.follow_of_run hw
  have hm := munch_end (s := ofBytes a w file tracing) ha rfl (by rw [htrail]; exact hstart)
    (by rw [htrail]) (by rw [htrail]; rfl)
  have hend : ¬ (ofBytes a w file tracing).atEnd = true := by
    simp [Reader.atEnd, ofBytes, Reader.new]
  exact ⟨by rw [tape_none (nextToken_of_munch_none hend hm)], lexemes_of_munch_none hm⟩

/-- What may get lost without a fault. With an automaton that keeps its contract and accepts no
empty lexeme, a byte string that is scanned to its end without a fault is the lexemes that were
taken, of which those with a tag other than 0 are the tokens, and behind them bytes along which the
automaton runs from the start back to the start. So the lexemes are the whole of every byte string
that is scanned without a fault if and only if no bytes lead from the start back to it. -/
theorem nothing_left_over {a : Automaton} (ha : a.Lawful states)
    (hstart : a.isFinal a.start = false) (file : Option String) (tracing : Bool) :
    let s (bytes : List UInt8) := ofBytes a bytes file tracing
    (∀ bytes, (s bytes).tape.fault = none →
      (∃ w, a.run a.start w = some a.start ∧
        bytes = (s bytes).lexemes.flatMap (·.bytes) ++ w) ∧
      List.Forall₂ Tagged.Makes ((s bytes).lexemes.filter (·.tag ≠ 0)) (s bytes).tape.tokens) ∧
    ((∀ bytes, (s bytes).tape.fault = none → bytes = (s bytes).lexemes.flatMap (·.bytes)) ↔
      ∀ w, a.run a.start w = some a.start → w = []) := by
  intro s
  have hs : ∀ bytes, Regular states (s bytes) := fun bytes => ⟨ha, hstart, rfl⟩
  refine ⟨fun bytes hfault => (hs bytes).covers hfault, fun hall w hw => ?_,
    fun hno bytes hfault => ?_⟩
  · obtain ⟨hfault, hlexemes⟩ := lexemes_of_run ha hstart hw file tracing
    have hbytes := hall w hfault
    rw [hlexemes] at hbytes
    exact hbytes
  · obtain ⟨⟨w, hw, hbytes⟩, -⟩ := (hs bytes).covers hfault
    rw [hno w hw, List.append_nil] at hbytes
    exact hbytes

/-- The lexicon of the letter `b` behind letters `a`, which all stay in the start. -/
def behindA : Table where
  start := 1
  final := [2]
  edges := [⟨1, 0x61, 0x61, 1⟩, ⟨1, 0x62, 0x62, 2⟩]
  tags := [(2, 2)]
  exhausted := []

/-- With that lexicon the bytes `aba` are scanned without a fault, though the last one is in no
lexeme: the letter `a` leads from the start back to it. -/
theorem nothing_left_over_behindA :
    behindA.automaton.Lawful behindA.declared ∧
      behindA.automaton.isFinal behindA.automaton.start = false ∧
      (ofBytes behindA.automaton [0x61, 0x62, 0x61] none false).tape.fault = none ∧
      ∃ w, [0x61, 0x62, 0x61] = [0x61, 0x62] ++ w ∧
        behindA.automaton.run behindA.automaton.start w = some behindA.automaton.start := by
  have ha : behindA.automaton.Lawful behindA.declared := Table.lawful (by decide) rfl
  have hfault : (ofBytes behindA.automaton [0x61, 0x62, 0x61] none false).tape.fault = none := rfl
  obtain ⟨⟨w, hw, hbytes⟩, -⟩ := (nothing_left_over ha rfl none false).1 _ hfault
  exact ⟨ha, rfl, hfault, w, hbytes, hw⟩

/-- With that lexicon the letter `a` is lost: no lexeme is taken, nothing is handed out, and there
is no fault. -/
theorem left_over_letter :
    let s := ofBytes behindA.automaton [0x61] none false
    s.automaton.Lawful behindA.declared ∧ s.automaton.isFinal s.automaton.start = false ∧
      (∀ w q, s.automaton.run s.automaton.start w = some q → s.automaton.isFinal q = true →
        (∃ k, (s.automaton.tag q).bind Token.Kind.ofTag = .ok k) ∧
        ∃ text, Text.Utf8.decode w = .ok text) ∧
      s.tape.complete = .ok [] ∧ s.lexemes.flatMap (·.bytes) ≠ [0x61] ∧
      ∃ s', s.munch = .ok none s' ∧ s'.buffer = [0x61] := by
  intro s
  refine ⟨Table.lawful (by decide) rfl, rfl, fun w q hw hf => ⟨?_, ?_⟩, rfl, by decide, _, rfl, rfl⟩
  · obtain rfl : q = 2 := List.mem_singleton.mp (List.contains_iff_mem.mp hf)
    exact ⟨.variable, rfl⟩
  · refine ⟨_, Text.Utf8.decode_ascii fun b hb => ?_⟩
    obtain ⟨e, he, hle⟩ := Table.edge_of_mem hw hb
    have hedges : ∀ e ∈ behindA.edges, e.high < 0x80 := by decide
    have hhigh := hedges e he
    rw [UInt8.lt_iff_toNat_lt]
    show b.toNat < 128
    omega

end ArithCheck.Scanner
