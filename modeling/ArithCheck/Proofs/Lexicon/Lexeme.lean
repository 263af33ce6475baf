import ArithCheck.Automaton.Arithmetic
import Mathlib.Data.List.Induction
import Mathlib.Tactic.SplitIfs

/-!
# The lexemes of arithmetic

The lexicon without its automaton, and the automaton without its table:

* `Lexeme w kind`: the bytes `w` are a lexeme that makes a token of kind `kind`, or a run of blanks
  if there is no kind;
* `State.Spells q w`: the bytes `w` are what has been read in the state `q`;
* `reach_start_iff`: the state that bytes lead to from the start is the one that they spell;
* `lexeme_iff`: lexemes are the bytes that lead from the start to a final state.
-/

namespace ArithCheck.Arithmetic

open Token (Kind)

/-- A nonempty run of bytes of a class. -/
def RunOf (p : UInt8 → Bool) (w : List UInt8) : Prop :=
  w ≠ [] ∧ ∀ b ∈ w, p b = true

/-- The operators and brackets. -/
def punctuation : List (UInt8 × Kind) :=
  [(0x2B, .plus), (0x2D, .minus), (0x2A, .times), (0x2F, .divide), (0x5E, .pow), (0x28, .lparen),
    (0x29, .rparen)]

/-- The lexemes, with the kinds of their tokens; a run of blanks makes no token. -/
inductive Lexeme : List UInt8 → Option Kind → Prop
  | integer {ds : List UInt8} : RunOf isDigit ds → Lexeme ds (some .float)
  | fraction {ds es : List UInt8} : RunOf isDigit ds → RunOf isDigit es →
    Lexeme (ds ++ 0x2E :: es) (some .float)
  | letters {ls : List UInt8} : RunOf isLetter ls → Lexeme ls (some .variable)
  | punctuation {b : UInt8} {k : Kind} : (b, k) ∈ punctuation → Lexeme [b] (some k)
  | blank {bs : List UInt8} : RunOf isBlank bs → Lexeme bs none

/-! ## Classes of bytes -/

theorem isDigit_of_isLetter {b : UInt8} (h : isLetter b = true) : isDigit b = false := by
  simp only [isLetter, isDigit] at *; grind

theorem isDigit_of_isBlank {b : UInt8} (h : isBlank b = true) : isDigit b = false := by
  simp only [isBlank, isDigit] at *; grind

theorem isLetter_of_isBlank {b : UInt8} (h : isBlank b = true) : isLetter b = false := by
  simp only [isBlank, isLetter] at *; grind

theorem isLetter_of_isDigit {b : UInt8} (h : isDigit b = true) : isLetter b = false := by
  simp only [isLetter, isDigit] at *; grind

theorem isBlank_of_isDigit {b : UInt8} (h : isDigit b = true) : isBlank b = false := by
  simp only [isBlank, isDigit] at *; grind

theorem isBlank_of_isLetter {b : UInt8} (h : isLetter b = true) : isBlank b = false := by
  simp only [isBlank, isLetter] at *; grind

/-- An operator or a bracket is of no class, and its token neither a number nor a variable. -/
theorem of_mem_punctuation {b : UInt8} {k : Kind} (h : (b, k) ∈ punctuation) :
    isDigit b = false ∧ isLetter b = false ∧ isBlank b = false ∧ k ≠ .float ∧ k ≠ .variable := by
  have hall : ∀ e ∈ punctuation, isDigit e.1 = false ∧ isLetter e.1 = false ∧
      isBlank e.1 = false ∧ e.2 ≠ .float ∧ e.2 ≠ .variable := by decide
  exact hall _ h

theorem runOf_singleton {p : UInt8 → Bool} {b : UInt8} (h : p b = true) : RunOf p [b] :=
  ⟨by simp, by simpa using h⟩

theorem RunOf.append {p : UInt8 → Bool} {u v : List UInt8} (hu : RunOf p u) (hv : RunOf p v) :
    RunOf p (u ++ v) :=
  ⟨by simp [hu.1], fun b hb => (List.mem_append.mp hb).elim (hu.2 b) (hv.2 b)⟩

theorem RunOf.exists_cons {p : UInt8 → Bool} {w : List UInt8} (h : RunOf p w) :
    ∃ b rest, w = b :: rest ∧ p b = true ∧ ∀ c ∈ rest, p c = true := by
  obtain ⟨hne, hall⟩ := h
  cases w with
  | nil => exact absurd rfl hne
  | cons b rest => exact ⟨b, rest, rfl, hall b (by simp), fun c hc => hall c (by simp [hc])⟩

namespace State

/-! ## Transitions -/

theorem next?_start (b : UInt8) : start.next? b =
    if isDigit b then some integer
    else if isLetter b then some identifier
    else if isBlank b then some blank
    else ofPunctuation? b := rfl

theorem next?_integer (b : UInt8) : integer.next? b =
    if isDigit b then some integer else if b = 0x2E then some point else none := rfl

theorem next?_point (b : UInt8) :
    point.next? b = if isDigit b then some fraction else none := rfl

theorem next?_fraction (b : UInt8) :
    fraction.next? b = if isDigit b then some fraction else none := rfl

theorem next?_identifier (b : UInt8) :
    identifier.next? b = if isLetter b then some identifier else none := rfl

theorem next?_blank (b : UInt8) : blank.next? b = if isBlank b then some blank else none := rfl

/-- A lexeme that makes a token goes on with more of a number or with more letters only. -/
theorem next?_of_kind {q p : State} {k : Kind} {b : UInt8} (hk : q.kind? = some k)
    (h : q.next? b = some p) : k = .float ∧ (isDigit b = true ∨ b = 0x2E) ∨
      k = .variable ∧ isLetter b = true := by
  cases q with
  | integer =>
    cases hk
    rw [next?_integer] at h
    split_ifs at h with hd hb
    · exact .inl ⟨rfl, .inl hd⟩
    · exact .inl ⟨rfl, .inr hb⟩
  | fraction =>
    cases hk
    rw [next?_fraction] at h
    split_ifs at h with hd
    exact .inl ⟨rfl, .inl hd⟩
  | identifier =>
    cases hk
    rw [next?_identifier] at h
    split_ifs at h with hl
    exact .inr ⟨rfl, hl⟩
  | start | point | blank => cases hk
  | _ =>
    change none = some p at h
    cases h

/-! ## Reading several bytes -/

/-- The state after several bytes, if they may follow. -/
def reach (s : State) : List UInt8 → Option State
  | [] => some s
  | b :: rest => (s.next? b).bind fun t => t.reach rest

@[simp] theorem reach_nil (s : State) : s.reach [] = some s := rfl

theorem reach_cons (s : State) (b : UInt8) (rest : List UInt8) :
    s.reach (b :: rest) = (s.next? b).bind fun t => t.reach rest := rfl

theorem reach_append (s : State) (u v : List UInt8) :
    s.reach (u ++ v) = (s.reach u).bind fun t => t.reach v := by
  induction u generalizing s with
  | nil => rfl
  | cons b u ih =>
    simp only [List.cons_append, reach_cons]
    cases s.next? b with
    | none => rfl
    | some t => exact ih t

theorem reach_concat {s q : State} {w : List UInt8} {b : UInt8} (h : s.reach (w ++ [b]) = some q) :
    ∃ p, s.reach w = some p ∧ p.next? b = some q := by
  rw [reach_append, Option.bind_eq_some_iff] at h
  obtain ⟨p, hp, hq⟩ := h
  refine ⟨p, hp, ?_⟩
  simpa [reach_cons, Option.bind_eq_some_iff] using hq

/-- A state that bytes of a class lead back to. -/
theorem reach_loop {s : State} {p : UInt8 → Bool} (hs : ∀ b, p b = true → s.next? b = some s)
    {w : List UInt8} (hw : ∀ b ∈ w, p b = true) : s.reach w = some s := by
  induction w with
  | nil => rfl
  | cons b w ih =>
    rw [reach_cons, hs b (hw b (by simp))]
    exact ih fun c hc => hw c (by simp [hc])

/-- A state that a run of bytes of a class leads to and keeps. -/
theorem reach_runOf {s t : State} {p : UInt8 → Bool} (hs : ∀ b, p b = true → s.next? b = some t)
    (ht : ∀ b, p b = true → t.next? b = some t) {w : List UInt8} (hw : RunOf p w) :
    s.reach w = some t := by
  obtain ⟨b, rest, rfl, hb, hrest⟩ := hw.exists_cons
  rw [reach_cons, hs b hb]
  exact reach_loop ht hrest

/-! ## What a state has read -/

/-- The bytes that have been read where a lexeme is in a state. -/
def Spells : State → List UInt8 → Prop
  | .start, w => w = []
  | .integer, w => RunOf isDigit w
  | .point, w => ∃ ds, RunOf isDigit ds ∧ w = ds ++ [0x2E]
  | .fraction, w => ∃ ds es, RunOf isDigit ds ∧ RunOf isDigit es ∧ w = ds ++ 0x2E :: es
  | .identifier, w => RunOf isLetter w
  | .plus, w => w = [0x2B]
  | .minus, w => w = [0x2D]
  | .times, w => w = [0x2A]
  | .divide, w => w = [0x2F]
  | .pow, w => w = [0x5E]
  | .lparen, w => w = [0x28]
  | .rparen, w => w = [0x29]
  | .blank, w => RunOf isBlank w

/-- The start leads to a state by the bytes that the state spells with one byte. -/
theorem spells_of_next_start {q : State} {b : UInt8} (h : State.start.next? b = some q) :
    q.Spells [b] := by
  rw [next?_start] at h
  by_cases hd : isDigit b = true
  · rw [if_pos hd] at h; cases h; exact runOf_singleton hd
  rw [if_neg hd] at h
  by_cases hl : isLetter b = true
  · rw [if_pos hl] at h; cases h; exact runOf_singleton hl
  rw [if_neg hl] at h
  by_cases hk : isBlank b = true
  · rw [if_pos hk] at h; cases h; exact runOf_singleton hk
  rw [if_neg hk, ofPunctuation?] at h
  repeat' split at h
  all_goals cases h
  all_goals subst b; rfl

/-- Reading one more byte keeps a state and what it spells together. -/
theorem Spells.concat {p q : State} {w : List UInt8} {b : UInt8} (hp : p.Spells w)
    (h : p.next? b = some q) : q.Spells (w ++ [b]) := by
  cases p with
  | start =>
    obtain rfl : w = [] := hp
    exact spells_of_next_start h
  | integer =>
    rw [next?_integer] at h
    split_ifs at h with hd hb <;> cases h
    · exact hp.append (runOf_singleton hd)
    · exact ⟨w, hp, by rw [hb]⟩
  | point =>
    obtain ⟨ds, hds, rfl⟩ := hp
    rw [next?_point] at h
    split_ifs at h with hd; cases h
    exact ⟨ds, [b], hds, runOf_singleton hd, by simp⟩
  | fraction =>
    obtain ⟨ds, es, hds, hes, rfl⟩ := hp
    rw [next?_fraction] at h
    split_ifs at h with hd; cases h
    exact ⟨ds, es ++ [b], hds, hes.append (runOf_singleton hd), by simp⟩
  | identifier =>
    rw [next?_identifier] at h
    split_ifs at h with hl; cases h
    exact hp.append (runOf_singleton hl)
  | blank =>
    rw [next?_blank] at h
    split_ifs at h with hb; cases h
    exact hp.append (runOf_singleton hb)
  | _ =>
    -- Nothing may follow an operator or a bracket.
    change none = some q at h
    simp at h

theorem spells_of_reach {q : State} {w : List UInt8} (h : State.start.reach w = some q) :
    q.Spells w := by
  induction w using List.reverseRecOn generalizing q with
  | nil => cases h; rfl
  | append_singleton w b ih =>
    obtain ⟨p, hp, hq⟩ := reach_concat h
    exact (ih hp).concat hq

theorem next?_start_digit {b : UInt8} (h : isDigit b = true) : start.next? b = some integer := by
  simp [next?_start, h]

theorem next?_start_letter {b : UInt8} (h : isLetter b = true) :
    start.next? b = some identifier := by
  simp [next?_start, h, isDigit_of_isLetter h]

theorem next?_start_blank {b : UInt8} (h : isBlank b = true) : start.next? b = some blank := by
  simp [next?_start, h, isDigit_of_isBlank h, isLetter_of_isBlank h]

theorem reach_digits {ds : List UInt8} (h : RunOf isDigit ds) : start.reach ds = some integer :=
  reach_runOf (fun _ => next?_start_digit) (fun b hb => by simp [next?_integer, hb]) h

theorem reach_point {ds : List UInt8} (h : RunOf isDigit ds) :
    start.reach (ds ++ [0x2E]) = some point := by
  rw [reach_append, reach_digits h]; rfl

theorem reach_fraction {ds es : List UInt8} (hd : RunOf isDigit ds) (he : RunOf isDigit es) :
    start.reach (ds ++ 0x2E :: es) = some fraction := by
  rw [show ds ++ 0x2E :: es = (ds ++ [0x2E]) ++ es by simp, reach_append, reach_point hd]
  exact reach_runOf (fun b hb => by simp [next?_point, hb])
    (fun b hb => by simp [next?_fraction, hb]) he

theorem reach_of_spells {q : State} {w : List UInt8} (h : q.Spells w) :
    start.reach w = some q := by
  cases q with
  | start => obtain rfl : w = [] := h; rfl
  | integer => exact reach_digits h
  | point => obtain ⟨ds, hds, rfl⟩ := h; exact reach_point hds
  | fraction => obtain ⟨ds, es, hds, hes, rfl⟩ := h; exact reach_fraction hds hes
  | identifier =>
    exact reach_runOf (fun _ => next?_start_letter) (fun b hb => by simp [next?_identifier, hb]) h
  | blank =>
    exact reach_runOf (fun _ => next?_start_blank) (fun b hb => by simp [next?_blank, hb]) h
  | _ => subst h; decide

/-- The state that bytes lead to from the start is the one that they spell. -/
theorem reach_start_iff {q : State} {w : List UInt8} : start.reach w = some q ↔ q.Spells w :=
  ⟨spells_of_reach, reach_of_spells⟩

/-- Nothing but the start spells nothing. -/
theorem ne_nil_of_reach {q : State} {w : List UInt8} (h : start.reach w = some q)
    (hq : q ≠ .start) : w ≠ [] := by
  rintro rfl
  exact hq (Option.some.inj h).symm

end State

/-! ## Lexemes and final states -/

/-- Lexemes are the bytes that lead from the start to a final state. -/
theorem lexeme_iff {w : List UInt8} {k : Option Kind} :
    Lexeme w k ↔ ∃ q, State.start.reach w = some q ∧ q.isFinal = true ∧ q.kind? = k := by
  constructor
  · intro h
    cases h with
    | integer hd => exact ⟨_, State.reach_digits hd, rfl, rfl⟩
    | fraction hd he => exact ⟨_, State.reach_fraction hd he, rfl, rfl⟩
    | letters hl => exact ⟨.identifier, State.reach_of_spells hl, rfl, rfl⟩
    | blank hb => exact ⟨.blank, State.reach_of_spells hb, rfl, rfl⟩
    | punctuation hb =>
      simp only [punctuation, List.mem_cons, Prod.mk.injEq, List.not_mem_nil, or_false] at hb
      rcases hb with ⟨rfl, rfl⟩ | ⟨rfl, rfl⟩ | ⟨rfl, rfl⟩ | ⟨rfl, rfl⟩ | ⟨rfl, rfl⟩ | ⟨rfl, rfl⟩ |
        ⟨rfl, rfl⟩ <;> exact ⟨_, rfl, rfl, rfl⟩
  · rintro ⟨q, hq, hf, rfl⟩
    have hs := State.spells_of_reach hq
    cases q with
    | start | point => cases hf
    | integer => exact .integer hs
    | fraction => obtain ⟨ds, es, hd, he, rfl⟩ := hs; exact .fraction hd he
    | identifier => exact .letters hs
    | blank => exact .blank hs
    | _ => subst hs; exact .punctuation (by decide)

theorem Lexeme.ne_nil {w : List UInt8} {k : Option Kind} (h : Lexeme w k) : w ≠ [] := by
  obtain ⟨q, hq, hf, -⟩ := lexeme_iff.mp h
  exact State.ne_nil_of_reach hq (by rintro rfl; cases hf)

/-- A lexeme makes tokens of one kind only. -/
theorem Lexeme.kind_unique {w : List UInt8} {k k' : Option Kind} (h : Lexeme w k)
    (h' : Lexeme w k') : k = k' := by
  obtain ⟨q, hq, -, rfl⟩ := lexeme_iff.mp h
  obtain ⟨q', hq', -, rfl⟩ := lexeme_iff.mp h'
  rw [Option.some.inj (hq.symm.trans hq')]

/-- The lexeme of a token holds no blanks. -/
theorem Lexeme.not_blank {w : List UInt8} {k : Token.Kind} (h : Lexeme w (some k)) :
    ∀ b ∈ w, isBlank b = false := by
  cases h with
  | integer hds => exact fun b hb => isBlank_of_isDigit (hds.2 b hb)
  | fraction hds hes =>
    intro b hb
    rcases List.mem_append.mp hb with hb | hb
    · exact isBlank_of_isDigit (hds.2 b hb)
    rcases List.mem_cons.mp hb with rfl | hb
    · rfl
    · exact isBlank_of_isDigit (hes.2 b hb)
  | letters hls => exact fun b hb => isBlank_of_isLetter (hls.2 b hb)
  | punctuation hb =>
    intro b' hb'
    obtain rfl := List.mem_singleton.mp hb'
    exact (of_mem_punctuation hb).2.2.1

theorem Lexeme.blanks {w : List UInt8} (h : Lexeme w none) : RunOf isBlank w := by
  cases h with
  | blank hbs => exact hbs

end ArithCheck.Arithmetic
