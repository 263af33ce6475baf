import ArithCheck.Proofs.Lexicon.Cut

/-!
# Longest match

`LongestMatch input ps rest` says that `input` is the lexemes `ps` and `rest`, and that each of the
lexemes is the longest one at the front of what is there from it on. The word is about lexemes
alone. It describes the cuts at the ends of trails (`longestMatch_iff_cuts`): the automaton passes
from a complete lexeme into the state of an incomplete one only on a point, and no lexeme starts
with a point.

`backtrack` searches for the longest lexeme at each place by trying one length after the other.
It finds the longest match of the whole input wherever there is one (`backtrack_eq_some_iff`).
-/

namespace ArithCheck.Arithmetic

open Token (Kind)

/-- The lexeme `w` is the longest one at the front of an input. -/
def Longest (w input : List UInt8) : Prop :=
  ∀ v k, Lexeme v k → v <+: input → v.length ≤ w.length

/-- Lexemes, each the longest possible one, and what is behind them. -/
inductive LongestMatch : List UInt8 → List Piece → List UInt8 → Prop
  | done {rest : List UInt8} : LongestMatch rest [] rest
  | piece {w rest z : List UInt8} {k : Option Kind} {ps : List Piece} :
    Lexeme w k → Longest w (w ++ rest) → LongestMatch rest ps z →
    LongestMatch (w ++ rest) (⟨w, k⟩ :: ps) z

/-- Two longest lexemes at the front of one input are the same. -/
theorem Longest.eq {v w input : List UInt8} {k k' : Option Kind} (hv : Longest v input)
    (hw : Longest w input) (hkv : Lexeme v k) (hkw : Lexeme w k') (hpv : v <+: input)
    (hpw : w <+: input) : v = w := by
  have hvw := hw v k hkv hpv
  have hwv := hv w k' hkw hpw
  have hl : v.length = w.length := by omega
  exact (List.prefix_of_prefix_length_le hpv hpw hvw).eq_of_length hl

/-- A whole input has one longest match. -/
theorem LongestMatch.unique {input : List UInt8} {ps qs : List Piece}
    (h : LongestMatch input ps []) (h' : LongestMatch input qs []) : ps = qs := by
  induction ps generalizing input qs with
  | nil =>
    cases h
    generalize hi : ([] : List UInt8) = input at h'
    cases h' with
    | done => rfl
    | piece hk => exact absurd (List.append_eq_nil_iff.mp hi.symm).1 hk.ne_nil
  | cons p ps ih =>
    generalize hz : ([] : List UInt8) = z at h
    cases h with
    | @piece w rest _ k _ hk hlong hrest =>
    subst hz
    generalize hi : w ++ rest = input at h' hlong
    cases h' with
    | done => exact absurd (List.append_eq_nil_iff.mp hi).1 hk.ne_nil
    | @piece w' rest' _ k' qs hk' hlong' hrest' =>
      obtain rfl : w = w' := hlong.eq hlong' hk hk' (hi ▸ List.prefix_append w rest)
        (List.prefix_append w' rest')
      obtain rfl : rest = rest' := List.append_cancel_left hi
      rw [hk.kind_unique hk', ih hrest hrest']

/-! ## Longest match and trails -/

/-- A lexeme at the end of its trail is the longest one. -/
theorem longest_of_stops {w rest : List UInt8} {q : State} (hq : State.start.reach w = some q)
    (hstop : q.Stops rest) : Longest w (w ++ rest) := by
  intro v k hv hpre
  obtain ⟨p, hp, -⟩ := lexeme_iff.mp hv
  exact (State.prefix_of_reach hq hstop hp hpre).length_le

theorem Cuts.longestMatch {input rest : List UInt8} {ps : List Piece} (h : Cuts input ps rest) :
    LongestMatch input ps rest := by
  induction h with
  | done => exact .done
  | piece hq hf hstop _ ih =>
    exact .piece (lexeme_iff.mpr ⟨_, hq, hf, rfl⟩) (longest_of_stops hq hstop) ih

/-- A lexeme becomes incomplete by a point only. -/
theorem eq_point_of_reach {p : State} {w : List UInt8} {b : UInt8}
    (h : State.start.reach (w ++ [b]) = some p) (hp : p.isFinal = false) : b = 0x2E := by
  have hs := State.spells_of_reach h
  rcases State.eq_start_or_point hp with rfl | rfl
  · exact absurd hs (by simp [State.Spells])
  · obtain ⟨ds, -, heq⟩ := hs
    exact (List.append_singleton_inj.mp heq).2

/-- No lexeme starts with a point. -/
theorem Lexeme.head_ne_point {w : List UInt8} {k : Option Kind} (h : Lexeme w k) :
    w.head? ≠ some 0x2E := by
  obtain ⟨q, hq, -⟩ := lexeme_iff.mp h
  cases w with
  | nil => simp
  | cons b w =>
    rintro hb
    obtain rfl : b = 0x2E := by simpa using hb
    simp [State.reach_cons, show State.start.next? 0x2E = none by decide] at hq

theorem LongestMatch.head_ne_point {input rest : List UInt8} {ps : List Piece}
    (h : LongestMatch input ps rest) (hrest : rest.head? ≠ some 0x2E) :
    input.head? ≠ some 0x2E := by
  cases h with
  | done => exact hrest
  | piece hk =>
    obtain ⟨b, w, rfl⟩ := List.exists_cons_of_ne_nil hk.ne_nil
    exact hk.head_ne_point

/-- Longest lexemes are cut off at the ends of their trails. If a trail went on behind its lexeme,
it would pass a point, with which the rest of the match cannot start. -/
theorem LongestMatch.cuts {input rest : List UInt8} {ps : List Piece}
    (h : LongestMatch input ps rest) (hrest : rest.head? ≠ some 0x2E) : Cuts input ps rest := by
  induction h with
  | done => exact .done
  | @piece w rest z k ps hk hlong hmatch ih =>
    obtain ⟨q, hq, hf, rfl⟩ := lexeme_iff.mp hk
    refine .piece hq hf (fun b hb => ?_) (ih hrest)
    cases hp : q.next? b with
    | none => rfl
    | some p =>
      obtain ⟨rest, rfl⟩ : ∃ r, rest = b :: r := by
        cases rest with
        | nil => simp at hb
        | cons c rest => exact ⟨rest, by simpa using hb⟩
      have hlonger : State.start.reach (w ++ [b]) = some p := by
        rw [State.reach_append, hq, Option.bind_some, State.reach_cons, hp]; rfl
      cases hpf : p.isFinal with
      | true =>
        have := hlong (w ++ [b]) p.kind? (lexeme_iff.mpr ⟨p, hlonger, hpf, rfl⟩)
          ⟨rest, by simp⟩
        exact absurd this (by simp)
      | false =>
        obtain rfl := eq_point_of_reach hlonger hpf
        exact absurd rfl (hmatch.head_ne_point hrest)

/-- Longest match is what the automaton does, unless it is to stop in front of a point. -/
theorem longestMatch_iff_cuts {input rest : List UInt8} {ps : List Piece}
    (hrest : rest.head? ≠ some 0x2E) : LongestMatch input ps rest ↔ Cuts input ps rest :=
  ⟨fun h => h.cuts hrest, Cuts.longestMatch⟩

/-! ## Searching for the longest lexeme -/

/-- Whether bytes are digits, a point and digits. -/
def isFraction (w : List UInt8) : Bool :=
  match w.dropWhile isDigit with
  | 0x2E :: es => !(w.takeWhile isDigit).isEmpty && !es.isEmpty && es.all isDigit
  | _ => false

/-- The kind of an operator or bracket. -/
def punctuationKind : List UInt8 → Option Kind
  | [b] => punctuation.lookup b
  | _ => none

/-- The kind of the token that a lexeme makes, with nothing inside for blanks, and nothing for
bytes that are no lexeme. -/
def classify (w : List UInt8) : Option (Option Kind) :=
  if w = [] then none
  else if w.all isDigit || isFraction w then some (some .float)
  else if w.all isLetter then some (some .variable)
  else if w.all isBlank then some none
  else (punctuationKind w).map some

/-- The longest lexeme of at most `n` bytes at the front of an input. -/
def longestUpTo (input : List UInt8) : Nat → Option Piece
  | 0 => none
  | n + 1 =>
    match classify (input.take (n + 1)) with
    | some k => some ⟨input.take (n + 1), k⟩
    | none => longestUpTo input n

/-- The lexemes of an input, at most `n` of them, found by trying every length at each place. -/
def backtrackUpTo : (n : Nat) → (input : List UInt8) → Option (List Piece)
  | _, [] => some []
  | 0, _ => none
  | n + 1, input =>
    (longestUpTo input input.length).bind fun p =>
      (backtrackUpTo n (input.drop p.bytes.length)).map (p :: ·)

/-- The lexemes of an input, found by trying every length at each place. -/
def backtrack (input : List UInt8) : Option (List Piece) := backtrackUpTo input.length input

theorem isFraction_iff {w : List UInt8} : isFraction w = true ↔
    ∃ ds es, RunOf isDigit ds ∧ RunOf isDigit es ∧ w = ds ++ 0x2E :: es := by
  constructor
  · intro h
    rw [isFraction] at h
    split at h
    · rename_i es he
      simp only [Bool.and_eq_true, Bool.not_eq_true', List.isEmpty_eq_false_iff,
        List.all_eq_true] at h
      refine ⟨w.takeWhile isDigit, es, ⟨h.1.1, fun b hb => ?_⟩, ⟨h.1.2, h.2⟩, ?_⟩
      · exact List.all_eq_true.mp List.all_takeWhile b hb
      · rw [← he, List.takeWhile_append_dropWhile]
    · simp at h
  · rintro ⟨ds, es, ⟨hd, hds⟩, ⟨he, hes⟩, rfl⟩
    have hpoint : isDigit 0x2E = false := by decide
    rw [isFraction, List.takeWhile_append_of_pos hds, List.dropWhile_append_of_pos hds]
    simp [hpoint, hd, he, List.all_eq_true.mpr hes]

theorem all_iff_runOf {p : UInt8 → Bool} {w : List UInt8} (hw : w ≠ []) :
    w.all p = true ↔ RunOf p w := by
  simp [RunOf, hw]

/-- Bytes that do not start with a digit are no number. -/
theorem not_number {b : UInt8} {rest : List UInt8} (h : isDigit b = false) :
    ((b :: rest).all isDigit || isFraction (b :: rest)) = false := by
  simp only [List.all_cons, h, Bool.false_and, Bool.false_or, isFraction]
  split <;> simp [h]

theorem classify_eq_some_iff {w : List UInt8} {k : Option Kind} :
    classify w = some k ↔ Lexeme w k := by
  constructor
  · intro h
    rw [classify] at h
    split_ifs at h with hne hnum hletters hblank
    · cases h
      rcases Bool.or_eq_true_iff.mp hnum with hd | hf
      · exact .integer ((all_iff_runOf hne).mp hd)
      · obtain ⟨ds, es, hds, hes, rfl⟩ := isFraction_iff.mp hf
        exact .fraction hds hes
    · cases h; exact .letters ((all_iff_runOf hne).mp hletters)
    · cases h; exact .blank ((all_iff_runOf hne).mp hblank)
    · obtain ⟨k, hk, rfl⟩ := Option.map_eq_some_iff.mp h
      rw [punctuationKind.eq_def] at hk
      split at hk
      · obtain ⟨l, r, he, -⟩ := List.lookup_eq_some_iff.mp hk
        exact .punctuation (by simp [he])
      · simp at hk
  · intro h
    cases h with
    | integer hd => simp [classify, hd.1, (all_iff_runOf hd.1).mpr hd]
    | fraction hd he => simp [classify, isFraction_iff.mpr ⟨_, _, hd, he, rfl⟩]
    | letters hl =>
      obtain ⟨b, rest, rfl, hb, -⟩ := hl.exists_cons
      rw [classify, if_neg hl.1, not_number (isDigit_of_isLetter hb), if_neg (by decide),
        if_pos ((all_iff_runOf hl.1).mpr hl)]
    | blank hk =>
      obtain ⟨b, rest, rfl, hb, -⟩ := hk.exists_cons
      have hletters : (b :: rest).all isLetter ≠ true := by simp [isLetter_of_isBlank hb]
      rw [classify, if_neg hk.1, not_number (isDigit_of_isBlank hb), if_neg (by decide),
        if_neg hletters, if_pos ((all_iff_runOf hk.1).mpr hk)]
    | punctuation hb =>
      simp only [punctuation, List.mem_cons, Prod.mk.injEq, List.not_mem_nil, or_false] at hb
      rcases hb with ⟨rfl, rfl⟩ | ⟨rfl, rfl⟩ | ⟨rfl, rfl⟩ | ⟨rfl, rfl⟩ | ⟨rfl, rfl⟩ | ⟨rfl, rfl⟩ |
        ⟨rfl, rfl⟩ <;> rfl

theorem Lexeme.classify_take {v input : List UInt8} {k : Option Kind} (hv : Lexeme v k)
    (hp : v <+: input) : classify (input.take v.length) = some k := by
  rw [← List.prefix_iff_eq_take.mp hp]
  exact classify_eq_some_iff.mpr hv

theorem longestUpTo_eq_some {input : List UInt8} {n : Nat} {p : Piece}
    (h : longestUpTo input n = some p) : Lexeme p.bytes p.kind ∧ p.bytes <+: input ∧
      ∀ v k, Lexeme v k → v <+: input → v.length ≤ n → v.length ≤ p.bytes.length := by
  induction n with
  | zero => cases h
  | succ n ih =>
    rw [longestUpTo] at h
    split at h
    · rename_i k hk
      cases h
      refine ⟨classify_eq_some_iff.mp hk, List.take_prefix _ _, fun v k' _ hv hl => ?_⟩
      have := hv.length_le
      simp only [List.length_take]
      omega
    · rename_i hk
      obtain ⟨hlex, hpre, hmax⟩ := ih h
      refine ⟨hlex, hpre, fun v k' hv hpv hl => ?_⟩
      rcases Nat.lt_or_ge n v.length with hlt | hle
      · have hn : v.length = n + 1 := by omega
        simp [← hn, hv.classify_take hpv] at hk
      · exact hmax v k' hv hpv hle

theorem longestUpTo_ne_none {input v : List UInt8} {n : Nat} {k : Option Kind} (hv : Lexeme v k)
    (hp : v <+: input) (hn : v.length ≤ n) : longestUpTo input n ≠ none := by
  induction n with
  | zero => exact absurd (List.length_eq_zero_iff.mp (Nat.le_zero.mp hn)) hv.ne_nil
  | succ n ih =>
    rw [longestUpTo]
    split
    · simp
    · rename_i hk
      rcases Nat.lt_or_ge n v.length with hlt | hle
      · have hl : v.length = n + 1 := by omega
        simp [← hl, hv.classify_take hp] at hk
      · exact ih hle

/-- The search finds the longest lexeme. -/
theorem longestUpTo_length {w rest : List UInt8} {k : Option Kind} (hk : Lexeme w k)
    (hlong : Longest w (w ++ rest)) :
    longestUpTo (w ++ rest) (w ++ rest).length = some ⟨w, k⟩ := by
  have hw : w <+: w ++ rest := List.prefix_append w rest
  cases hp : longestUpTo (w ++ rest) (w ++ rest).length with
  | none => exact absurd hp (longestUpTo_ne_none hk hw hw.length_le)
  | some p =>
    obtain ⟨v, k'⟩ := p
    obtain ⟨hlex, hpre, hmax⟩ := longestUpTo_eq_some hp
    have hlong' : Longest v (w ++ rest) := fun u k hu hpu => hmax u k hu hpu hpu.length_le
    obtain rfl : v = w := hlong'.eq hlong hlex hk hpre hw
    obtain rfl : k' = k := hlex.kind_unique hk
    rfl

theorem LongestMatch.backtrackUpTo {input : List UInt8} {ps : List Piece} {n : Nat}
    (h : LongestMatch input ps []) (hn : input.length ≤ n) :
    backtrackUpTo n input = some ps := by
  generalize hz : ([] : List UInt8) = z at h
  induction h generalizing n with
  | done => subst hz; rw [Arithmetic.backtrackUpTo.eq_def]
  | @piece w rest z k ps hk hlong _ ih =>
    have hw := List.length_pos_iff.mpr hk.ne_nil
    rw [List.length_append] at hn
    obtain ⟨m, rfl⟩ : ∃ m, n = m + 1 := ⟨n - 1, by omega⟩
    rw [Arithmetic.backtrackUpTo, longestUpTo_length hk hlong, Option.bind_some,
      List.drop_left, ih (by omega) hz, Option.map_some]
    simp [hk.ne_nil]

theorem longestMatch_of_backtrackUpTo {input : List UInt8} {ps : List Piece} {n : Nat}
    (h : backtrackUpTo n input = some ps) : LongestMatch input ps [] := by
  fun_induction backtrackUpTo n input generalizing ps with
  | case1 => cases h; exact .done
  | case2 => simp at h
  | case3 n input hne ih =>
    obtain ⟨p, hp, h⟩ := Option.bind_eq_some_iff.mp h
    obtain ⟨qs, hqs, rfl⟩ := Option.map_eq_some_iff.mp h
    obtain ⟨hlex, ⟨rest, rfl⟩, hmax⟩ := longestUpTo_eq_some hp
    have hrest := ih p hqs
    rw [List.drop_left] at hrest
    exact .piece hlex (fun v k hv hpv => hmax v k hv hpv hpv.length_le) hrest

/-- Backtracking finds the longest match of the whole input wherever there is one. -/
theorem backtrack_eq_some_iff {input : List UInt8} {ps : List Piece} :
    backtrack input = some ps ↔ LongestMatch input ps [] :=
  ⟨longestMatch_of_backtrackUpTo, fun h => h.backtrackUpTo (Nat.le_refl _)⟩

end ArithCheck.Arithmetic
