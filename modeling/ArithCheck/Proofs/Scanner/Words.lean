import ArithCheck.Proofs.Scanner.Concatenation
import Mathlib.Data.List.Chain

/-!
# Words with gaps between them

A text of words, with blanks or nothing behind each of them. It is scanned into these words unless
two of them merge: a number that follows another one at once, or a variable that does.

* `Word.stops_iff`: a word ends where the text goes on behind it, unless it merges with the next;
* `tapeAt_text_iff`: the text at any position, by induction on the words;
* `words_round_trip`: the whole of it.
-/

namespace ArithCheck

open Arithmetic
open Token (Kind)

namespace Arithmetic

variable {b : UInt8} {w rest : List UInt8} {q : State} {k : Kind}

/-- The kind of a token is known from the first byte of its lexeme, if this is a digit or a
letter. -/
theorem Lexeme.kind_of_head (h : Lexeme (b :: w) (some k)) :
    (isDigit b = true ↔ k = .float) ∧ (isLetter b = true ↔ k = .variable) := by
  have hnumber : isDigit b = true → (isDigit b = true ↔ Kind.float = .float) ∧
      (isLetter b = true ↔ Kind.float = .variable) := fun hd => by
    simp [hd, isLetter_of_isDigit hd]
  generalize hv : b :: w = v at h
  cases h with
  | integer hds => exact hnumber (hds.2 b (by simp [← hv]))
  | fraction hds hes =>
    obtain ⟨c, ds, rfl, hc, -⟩ := hds.exists_cons
    obtain rfl : b = c := (List.cons.inj hv).1
    exact hnumber hc
  | letters hls =>
    have hl : isLetter b = true := hls.2 b (by simp [← hv])
    simp [hl, isDigit_of_isLetter hl]
  | punctuation hb =>
    obtain rfl := (List.cons.inj hv).1
    obtain ⟨hd, hl, -, hfloat, hvariable⟩ := of_mem_punctuation hb
    simp [hd, hl, hfloat, hvariable]

/-- A number goes on with a digit, and a variable with a letter. -/
theorem State.not_stops_of_kind (hk : q.kind? = some k)
    (hb : k = .float ∧ isDigit b = true ∨ k = .variable ∧ isLetter b = true) :
    ¬ q.Stops (b :: rest) := by
  rw [State.stops_cons]
  rcases hb with ⟨rfl, hb⟩ | ⟨rfl, hb⟩
  · cases q with
    | integer => simp [State.next?_integer, hb]
    | fraction => simp [State.next?_fraction, hb]
    | _ => cases hk
  · cases q with
    | identifier => simp [State.next?_identifier, hb]
    | _ => cases hk

end Arithmetic

/-- The kind of a token and the bytes of its value. -/
def Token.content (t : Token) : Kind × List UInt8 := (t.kind, Text.Utf8.encode t.value)

/-- Blanks, perhaps none. -/
abbrev Gap := {g : List UInt8 // ∀ b ∈ g, isBlank b = true}

/-- A word of a text: the lexeme of a token, and the blanks behind it. -/
structure Word where
  lexeme : List UInt8
  kind : Kind
  gap : Gap
  isLexeme : Lexeme lexeme (some kind)

namespace Word

/-- A number follows a number, or a variable a variable, with nothing between them. -/
def Merges (v w : Word) : Prop :=
  v.gap.val = [] ∧ v.kind = w.kind ∧ (v.kind = .float ∨ v.kind = .variable)

/-- What the token of a word holds. -/
def content (w : Word) : Kind × List UInt8 := (w.kind, w.lexeme)

/-- The bytes of words and of the gaps behind them. -/
def text (ws : List Word) : List UInt8 := ws.flatMap fun w => w.lexeme ++ w.gap.val

variable {file : Option String} {tracing : Bool} {p : Position} {w : Word} {ws : List Word}
  {q : State}

theorem text_cons (w : Word) (ws : List Word) :
    text (w :: ws) = w.lexeme ++ (w.gap.val ++ text ws) := by
  simp [text]

/-- The lexeme of a word ends behind it, unless the word merges with the next one. -/
theorem stops_iff (hk : q.kind? = some w.kind) :
    q.Stops (w.gap.val ++ text ws) ↔ ∀ v ∈ ws.head?, ¬ w.Merges v := by
  cases hgap : w.gap.val with
  | cons b g =>
    have hblank : ∀ c ∈ (b :: g ++ text ws).head?, isBlank c = true := by
      have := w.gap.property b (by simp [hgap])
      simpa using this
    refine ⟨fun _ v _ hm => ?_, fun _ => State.stops_blank hk hblank⟩
    rw [hm.1] at hgap
    cases hgap
  | nil =>
    cases ws with
    | nil => simp [text, State.stops_nil]
    | cons v ws =>
      obtain ⟨b, u, hu⟩ := List.exists_cons_of_ne_nil v.isLexeme.ne_nil
      have hlexeme := v.isLexeme
      rw [hu] at hlexeme
      obtain ⟨hdigit, hletter⟩ := hlexeme.kind_of_head
      rw [text_cons, hu, List.nil_append, List.cons_append]
      refine ⟨fun hstop v' hv' hm => ?_, fun hno => State.stops_cons.mpr ?_⟩
      · obtain rfl : v = v' := by simpa using hv'
        obtain ⟨-, hsame, hkind⟩ := hm
        rw [hsame] at hk hkind
        rw [← hdigit, ← hletter] at hkind
        refine State.not_stops_of_kind hk ?_ hstop
        exact hkind.imp (fun h => ⟨hdigit.mp h, h⟩) fun h => ⟨hletter.mp h, h⟩
      · cases hnext : q.next? b with
        | none => rfl
        | some t =>
          have hmerges : w.kind = v.kind ∧ (w.kind = .float ∨ w.kind = .variable) := by
            rcases State.next?_of_kind hk hnext with ⟨hw, hb | rfl⟩ | ⟨hw, hb⟩
            · exact ⟨hw.trans (hdigit.mp hb).symm, .inl hw⟩
            · exact absurd rfl hlexeme.head_ne_point
            · exact ⟨hw.trans (hletter.mp hb).symm, .inr hw⟩
          exact absurd ⟨hgap, hmerges⟩ (hno v (by simp))

/-- A lexeme that comes out as the first token has stopped where it ends. -/
theorem stops_of_tapeAt {v rest : List UInt8} {k : Kind} (hq : State.start.reach v = some q)
    (hf : q.isFinal = true) (hk : q.kind? = some k)
    (h : ((tapeAt file tracing p (v ++ rest)).tokens.map Token.content).head? = some (k, v)) :
    q.Stops rest := by
  obtain ⟨v', q', rest', hv, hq', hstop⟩ := State.start.exists_trail (v ++ rest)
  rw [hv] at h
  cases hf' : q'.isFinal with
  | false =>
    -- Something is at fault at once, so there is no token.
    obtain ⟨fault, hend⟩ := exists_ending file p hq' hf' hstop
    rw [tapeAt_of_cuts .done hend] at h
    cases h
  | true =>
    rw [tapeAt_lexeme hq' hf' hstop] at h
    cases hk' : q'.kind? with
    | some k' =>
      have hvalue := Text.Utf8.encode_ascii (State.ascii_of_reach hq')
      obtain ⟨rfl, rfl⟩ : k' = k ∧ v' = v := by
        simpa [hk', tokensOf, Tape.behind, Token.content, hvalue] using h
      obtain rfl := (List.append_right_inj _).mp hv
      obtain rfl := Option.some.inj (hq.symm.trans hq')
      exact hstop
    | none =>
      -- The trail is a run of blanks, but the lexeme at its front holds none.
      have hlexeme : Lexeme v (some k) := lexeme_iff.mpr ⟨q, hq, hf, hk⟩
      have hblank := (lexeme_iff.mpr ⟨q', hq', hf', hk'⟩).blanks
      have hpre : v <+: v' := State.prefix_of_reach hq' hstop hq (hv ▸ List.prefix_append v rest)
      obtain ⟨b, u, rfl⟩ := List.exists_cons_of_ne_nil hlexeme.ne_nil
      have hb := hblank.2 b (hpre.subset (by simp))
      rw [hlexeme.not_blank b (by simp)] at hb
      cases hb

/-- At any position, words are read as they are if and only if none of them merges with the next
one. -/
theorem tapeAt_text_iff (file : Option String) (tracing : Bool) (p : Position) (ws : List Word) :
    ((tapeAt file tracing p (text ws)).fault = none ∧
      (tapeAt file tracing p (text ws)).tokens.map Token.content = ws.map Word.content) ↔
    ws.IsChain fun v w => ¬ v.Merges w := by
  induction ws generalizing p with
  | nil => simp [text, tapeAt_nil]
  | cons w ws ih =>
    obtain ⟨q, hq, hf, hk⟩ := lexeme_iff.mp w.isLexeme
    rw [text_cons, List.isChain_cons, ← stops_iff hk]
    by_cases hstop : q.Stops (w.gap.val ++ text ws)
    · have hvalue := Text.Utf8.encode_ascii (State.ascii_of_reach hq)
      rw [tapeAt_lexeme hq hf hstop, tapeAt_blanks w.gap.property,
        ← ih ((p.advance w.lexeme).advance w.gap.val)]
      simp [hk, hstop, tokensOf, Tape.behind, Token.content, Word.content, hvalue]
    · refine iff_of_false (fun h => hstop ?_) fun h => hstop h.1
      exact stops_of_tapeAt hq hf hk (by rw [h.2]; rfl)

end Word

/-- Words survive the blanks around them, and nothing but a missing blank between two numbers or
between two variables spoils them: a text of words scans without a fault into these words, with
their kinds and bytes, if and only if none of them merges with the next one. -/
theorem words_round_trip (margin : Gap) (ws : List Word) (file : Option String) :
    (∃ ts, tokens (margin.val ++ Word.text ws) file = .ok ts ∧
      ts.map Token.content = ws.map Word.content) ↔
    ws.IsChain fun v w => ¬ v.Merges w := by
  rw [← Word.tapeAt_text_iff file false (Position.start.advance margin.val) ws]
  have htape : (Scanner.ofBytes arithmetic (margin.val ++ Word.text ws) file false).tape =
      tapeAt file false (Position.start.advance margin.val) (Word.text ws) :=
    tapeAt_blanks margin.property (Word.text ws)
  rw [tokens, htape, Tape.complete]
  cases (tapeAt file false (Position.start.advance margin.val) (Word.text ws)).fault with
  | none => simp
  | some fault => simp

end ArithCheck
