import ArithCheck.Proofs.Scanner.Tokens
import ArithCheck.Proofs.Text.Lines

/-!
# The layout of the tokens

The positions of the tokens of a byte string point at their lexemes in its lines: the tokens stand
there in order and apart from each other, with nothing but blanks between them. Written to their
places on an empty page they give the byte string back, apart from its blanks.

* `Cuts.stands`, `Cuts.pairwise_before`, `Cuts.covered`: what this rests on, from the cut of the
  input into lexemes;
* `tokens_layout`: all of it, for every byte string that scans without a fault.
-/

namespace ArithCheck

open Arithmetic Text
open Position (lastLine)

namespace Token

/-- The line of a token, counted from zero. -/
def row (t : Token) : Nat := (t.position.line - 1).toNat

/-- The column in front of a token, counted from zero. -/
def first (t : Token) : Nat := (t.position.column - 1).toNat

/-- The column behind a token, counted from zero. -/
def last (t : Token) : Nat := (t.location.endColumn.getD 0 - 1).toNat

/-- A token stands over a column of a line. -/
def Covers (t : Token) (l c : Nat) : Prop := t.row = l ∧ t.first ≤ c ∧ c < t.last

instance (t : Token) (l c : Nat) : Decidable (t.Covers l c) :=
  inferInstanceAs (Decidable (_ ∧ _ ∧ _))

/-- A token starts behind the end of another one, in its line or in a later one. -/
def Before (t t' : Token) : Prop :=
  t.position.line < t'.position.line ∨
    t.position.line = t'.position.line ∧ t.position.column + t.value.length ≤ t'.position.column

/-- A token stands in a text behind the bytes `x`, with the lexeme `w`. -/
structure Stands (bytes : List UInt8) (t : Token) (x w : List UInt8) : Prop where
  front : x ++ w <+: bytes
  position : t.position = Position.start.advance x
  encode : Utf8.encode t.value = w
  length : t.value.length = w.length
  pos : 0 < w.length
  not_blank : ∀ b ∈ w, isBlank b = false

end Token

/-- What stands at each line and column, both counted from zero. -/
abbrev Page := Nat → Nat → Option UInt8

/-- A page on which a token has been written to its place. -/
def Page.write (page : Page) (t : Token) : Page := fun l c =>
  if t.Covers l c then (Utf8.encode t.value)[c - t.first]? else page l c

/-- A line feed is a blank. -/
theorem lf_not_mem {w : List UInt8} (h : ∀ b ∈ w, isBlank b = false) : 0x0A ∉ w := fun hmem => by
  have hlf := h _ hmem
  cases hlf

theorem length_ascii (w : List UInt8) : (ascii w).length = w.length := by
  simp [ascii]

namespace Token.Stands

variable {bytes x w : List UInt8} {t : Token}

theorem row_eq (h : Stands bytes t x w) : t.row = x.count 0x0A := by
  rw [row, h.position, Position.advance_start]
  dsimp only
  omega

theorem first_eq (h : Stands bytes t x w) : t.first = (lastLine x).length := by
  rw [first, h.position, Position.advance_start]
  dsimp only
  omega

theorem last_eq (h : Stands bytes t x w) : t.last = (lastLine x).length + w.length := by
  have hend : t.location.endColumn = some (t.position.column + t.value.length) := rfl
  rw [last, hend, Option.getD_some, h.length, h.position, Position.advance_start]
  dsimp only
  omega

/-- The line of a token: the token stands in it behind what comes before it in the line. -/
theorem line (h : Stands bytes t x w) :
    ∃ rest, (lines bytes)[t.row]? = some (lastLine x ++ w ++ rest) := by
  obtain ⟨y, hy⟩ := h.front
  have hline := lines_getElem? x (w ++ y)
  rw [List.takeWhile_append_of_pos fun b hb => ?_] at hline
  · refine ⟨y.takeWhile (· ≠ 0x0A), ?_⟩
    rw [h.row_eq, ← hy, List.append_assoc, hline, List.append_assoc]
  · simpa using fun hlf : b = 0x0A => lf_not_mem h.not_blank (hlf ▸ hb)

/-- A token stands in a line of the text, and its value is what the line has there. -/
theorem slice (h : Stands bytes t x w) : 1 ≤ t.position.line ∧
    t.position.line ≤ (lines bytes).length ∧ 1 ≤ t.position.column ∧
    ∃ line, (lines bytes)[t.row]? = some line ∧
      (line.take t.last).drop t.first = Utf8.encode t.value := by
  obtain ⟨rest, hline⟩ := h.line
  have hlt : t.row < (lines bytes).length := (List.getElem?_eq_some_iff.mp hline).1
  rw [h.row_eq] at hlt
  rw [h.position, Position.advance_start]
  refine ⟨?_, ?_, ?_, _, hline, ?_⟩
  · dsimp only; omega
  · dsimp only; omega
  · dsimp only; omega
  · rw [h.last_eq, ← List.length_append, List.take_left, h.first_eq, List.drop_left, h.encode]

/-- Under a token stand the bytes of its lexeme. -/
theorem getElem?_encode {l c : Nat} (h : Stands bytes t x w) (hc : t.Covers l c) :
    ∃ b, (Utf8.encode t.value)[c - t.first]? = some b ∧ byteAt (lines bytes) l c = some b ∧
      isBlank b = false := by
  obtain ⟨rfl, hfirst, hlast⟩ := hc
  rw [h.first_eq] at hfirst
  rw [h.last_eq] at hlast
  obtain ⟨rest, hline⟩ := h.line
  have hlt : c - (lastLine x).length < w.length := by omega
  refine ⟨w[c - (lastLine x).length], ?_, ?_, h.not_blank _ (List.getElem_mem _)⟩
  · rw [h.encode, h.first_eq, List.getElem?_eq_getElem hlt]
  · rw [byteAt, hline, Option.bind_some, List.append_assoc, List.getElem?_append_right hfirst,
      List.getElem?_append_left hlt, List.getElem?_eq_getElem hlt]

/-- A token in front of another one has the smaller position, and it ends in front of it if both are
in one line. -/
theorem apart {x' w' : List UInt8} {t' : Token} (h : Stands bytes t x w)
    (h' : Stands bytes t' x' w') (hbefore : t.Before t') :
    (t.position.line < t'.position.line ∨
      t.position.line = t'.position.line ∧ t.position.column < t'.position.column) ∧
    (t.row = t'.row → t.last ≤ t'.first) := by
  have hpos := h.pos
  have hlength := h.length
  rw [h.row_eq, h'.row_eq, h.last_eq, h'.first_eq]
  rw [Token.Before] at hbefore
  rw [h.position, h'.position, Position.advance_start, Position.advance_start] at hbefore ⊢
  dsimp only at hbefore ⊢
  omega

end Token.Stands

/-- A token stands over the place behind `x` if it starts in the line of this place, not behind it,
and ends behind it. -/
theorem Token.covers_of_position {t : Token} {x : List UInt8}
    (hline : t.position.line = (Position.start.advance x).line)
    (hle : t.position.column ≤ (Position.start.advance x).column)
    (hlt : (Position.start.advance x).column < t.position.column + t.value.length) :
    t.Covers (x.count 0x0A) (lastLine x).length := by
  have hend : t.location.endColumn = some (t.position.column + t.value.length) := rfl
  rw [Position.advance_start] at hline hle hlt
  dsimp only at hline hle hlt
  rw [Token.Covers, Token.row, Token.first, Token.last, hend, Option.getD_some]
  omega

/-! ## Tokens of pieces -/

namespace Arithmetic

variable {input z : List UInt8} {ps : List Piece} {file : Option String} {t : Token}

/-- The tokens of the lexemes behind the bytes `u` stand in the whole text. -/
theorem Cuts.stands (h : Cuts input ps z) (u : List UInt8) :
    ∀ t ∈ tokensOf file (Position.start.advance u) ps,
      ∃ x w, t.Stands (u ++ bytesOf ps) x w := by
  induction h generalizing u with
  | done => exact List.forall_mem_nil _
  | @piece w rest z q ps hq hf _ _ ih =>
    intro t ht
    have hrest : t ∈ tokensOf file (Position.start.advance (u ++ w)) ps →
        ∃ x w', t.Stands (u ++ bytesOf (⟨w, q.kind?⟩ :: ps)) x w' := fun hmem => by
      rw [bytesOf_cons, ← List.append_assoc]
      exact ih (u ++ w) t hmem
    rw [Position.advance_append] at hrest
    cases hk : q.kind? with
    | none =>
      rw [hk] at ht hrest
      exact hrest ht
    | some k =>
      rw [hk] at ht hrest
      rcases List.mem_cons.mp ht with rfl | ht
      · have hlexeme : Lexeme w (some k) := lexeme_iff.mpr ⟨q, hq, hf, hk⟩
        refine ⟨u, w, ?_, rfl, Utf8.encode_ascii (State.ascii_of_reach hq), length_ascii w,
          List.length_pos_iff.mpr hlexeme.ne_nil, hlexeme.not_blank⟩
        rw [bytesOf_cons, ← List.append_assoc]
        exact List.prefix_append _ _
      · exact hrest ht

/-- No token of pieces is in front of them. -/
theorem position_of_mem (p : Position) (ps : List Piece) :
    ∀ t ∈ tokensOf file p ps, ∃ u, t.position = p.advance u := by
  induction ps generalizing p with
  | nil => exact List.forall_mem_nil _
  | cons piece ps ih =>
    intro t ht
    have hrest : t ∈ tokensOf file (p.advance piece.bytes) ps → ∃ u, t.position = p.advance u :=
      fun hmem => by
        obtain ⟨u, hu⟩ := ih _ t hmem
        exact ⟨piece.bytes ++ u, by rw [hu, Position.advance_append]⟩
    rw [tokensOf] at ht
    split at ht
    · exact hrest ht
    · rcases List.mem_cons.mp ht with rfl | ht
      · exact ⟨[], rfl⟩
      · exact hrest ht

/-- Tokens stand one behind the other. -/
theorem Cuts.pairwise_before (h : Cuts input ps z) (p : Position) :
    (tokensOf file p ps).Pairwise Token.Before := by
  induction h generalizing p with
  | done => exact .nil
  | @piece w rest z q ps hq hf _ _ ih =>
    cases hk : q.kind? with
    | none => exact ih _
    | some k =>
      refine .cons (fun t ht => ?_) (ih _)
      have hlexeme : Lexeme w (some k) := lexeme_iff.mpr ⟨q, hq, hf, hk⟩
      have hw : 0x0A ∉ w := lf_not_mem hlexeme.not_blank
      obtain ⟨u, hu⟩ := position_of_mem _ ps t ht
      rw [Position.advance_of_not_mem p hw] at hu
      by_cases hlf : 0x0A ∈ u
      · have hcount := List.count_pos_iff.mpr hlf
        refine .inl ?_
        rw [hu, Position.line_advance]
        dsimp only
        omega
      · refine .inr ?_
        rw [hu, Position.advance_of_not_mem _ hlf]
        dsimp only
        rw [length_ascii]
        omega

/-- A byte of two parts is in the first one or in the second one. -/
theorem exists_part {w rest x y : List UInt8} {b : UInt8} (h : w ++ rest = x ++ b :: y) :
    (∃ w', w = x ++ b :: w') ∨ ∃ x', x = w ++ x' ∧ rest = x' ++ b :: y := by
  rcases List.append_eq_append_iff.mp h with ⟨x', hx, hrest⟩ | ⟨w', hw, hby⟩
  · exact .inr ⟨x', hx, hrest⟩
  · cases w' with
    | nil => exact .inr ⟨[], by rw [hw]; simp, hby.symm⟩
    | cons c w' =>
      obtain rfl : b = c := (List.cons.inj hby).1
      exact .inl ⟨w', hw⟩

/-- Every byte of the lexemes is a blank or under a token. -/
theorem Cuts.covered (h : Cuts input ps z) (file : Option String) (p : Position)
    {x y : List UInt8} {b : UInt8} (hb : bytesOf ps = x ++ b :: y) : isBlank b = true ∨
      ∃ t ∈ tokensOf file p ps, t.position.line = (p.advance x).line ∧
        t.position.column ≤ (p.advance x).column ∧
        (p.advance x).column < t.position.column + t.value.length := by
  induction h generalizing p x with
  | done => simp at hb
  | @piece w rest z q ps hq hf _ _ ih =>
    rcases exists_part hb with ⟨w', rfl⟩ | ⟨x', rfl, hrest⟩
    · have hmem : b ∈ x ++ b :: w' := by simp
      cases hk : q.kind? with
      | none =>
        have hlexeme : Lexeme (x ++ b :: w') none := lexeme_iff.mpr ⟨q, hq, hf, hk⟩
        exact .inl (hlexeme.blanks.2 b hmem)
      | some k =>
        have hlexeme : Lexeme (x ++ b :: w') (some k) := lexeme_iff.mpr ⟨q, hq, hf, hk⟩
        have hx : 0x0A ∉ x := fun hmem =>
          lf_not_mem hlexeme.not_blank (List.mem_append_left _ hmem)
        refine .inr ⟨_, List.mem_cons_self, ?_⟩
        rw [Position.advance_of_not_mem p hx]
        dsimp only
        rw [length_ascii, List.length_append, List.length_cons]
        omega
    · rw [Position.advance_append]
      refine (ih (p.advance w) hrest).imp_right fun ⟨t, ht, hplace⟩ => ⟨t, ?_, hplace⟩
      cases hk : q.kind? with
      | none => exact ht
      | some k => exact List.mem_cons_of_mem _ ht

end Arithmetic

/-- What stands on a page after tokens that agree with `target` have been written to it. -/
theorem Page.foldl_write (target : Page) {ts : List Token}
    (h : ∀ t ∈ ts, ∀ l c, t.Covers l c → (Utf8.encode t.value)[c - t.first]? = target l c)
    (page : Page) : ts.foldl Page.write page = fun l c =>
      if ∃ t ∈ ts, t.Covers l c then target l c else page l c := by
  induction ts generalizing page with
  | nil => simp
  | cons t ts ih =>
    rw [List.foldl_cons, ih fun t' ht' => h t' (List.mem_cons_of_mem _ ht')]
    funext l c
    by_cases hrest : ∃ t ∈ ts, t.Covers l c
    · obtain ⟨t', ht', hc⟩ := hrest
      rw [if_pos ⟨t', ht', hc⟩, if_pos ⟨t', List.mem_cons_of_mem _ ht', hc⟩]
    · rw [if_neg hrest, Page.write]
      by_cases hc : t.Covers l c
      · rw [if_pos hc, if_pos ⟨t, List.mem_cons_self, hc⟩, h t List.mem_cons_self l c hc]
      · rw [if_neg hc, if_neg]
        rintro ⟨t', ht', hc'⟩
        rcases List.mem_cons.mp ht' with rfl | ht'
        · exact hc hc'
        · exact hrest ⟨t', ht', hc'⟩

/-- A page on which spaces stand for the bytes of the lines that are chosen. -/
def Page.erased (ls : List (List UInt8)) (chosen : UInt8 → Bool) : Page := fun l c =>
  (byteAt ls l c).map fun b => if chosen b then 0x20 else b

/-- The layout of the tokens of a byte string that scans without a fault. Every token stands in a
line of it, and its value is what the line has from its column up to its end column. The tokens come
in the order of their positions, and those of one line do not overlap. Every byte that is under no
token is a blank. So the tokens, each written to its place among spaces, are the byte string but for
its blanks. -/
theorem tokens_layout {bytes : List UInt8} {file : Option String} {ts : List Token}
    (h : tokens bytes file = .ok ts) :
    (∀ t ∈ ts, 1 ≤ t.position.line ∧ t.position.line ≤ (lines bytes).length ∧
      1 ≤ t.position.column ∧ ∃ line, (lines bytes)[t.row]? = some line ∧
        (line.take t.last).drop t.first = Utf8.encode t.value) ∧
    ts.Pairwise (fun t t' =>
      (t.position.line < t'.position.line ∨
        t.position.line = t'.position.line ∧ t.position.column < t'.position.column) ∧
      (t.row = t'.row → t.last ≤ t'.first)) ∧
    (∀ x b y, bytes = x ++ b :: y →
      isBlank b = true ∨ ∃ t ∈ ts, t.Covers (x.count 0x0A) (lastLine x).length) ∧
    ts.foldl Page.write (Page.erased (lines bytes) fun _ => true) =
      Page.erased (lines bytes) isBlank := by
  obtain ⟨ps, hmatch⟩ := longestMatch_of_tokens h
  have hcuts : Cuts bytes ps [] := hmatch.cuts (by simp)
  have hbytes : bytesOf ps = bytes := by simpa using hcuts.bytes_append
  obtain rfl : tokensOf file .start ps = ts := Except.ok.inj ((hmatch.tokens_eq file).symm.trans h)
  have hstands : ∀ t ∈ tokensOf file .start ps, ∃ x w, t.Stands bytes x w := fun t ht => by
    rw [← hbytes]
    exact hcuts.stands [] t ht
  have hcovered : ∀ x b y, bytes = x ++ b :: y → isBlank b = true ∨
      ∃ t ∈ tokensOf file .start ps, t.Covers (x.count 0x0A) (lastLine x).length := by
    intro x b y hxy
    refine (hcuts.covered file .start (hbytes.trans hxy)).imp_right ?_
    rintro ⟨t, ht, hline, hle, hlt⟩
    exact ⟨t, ht, Token.covers_of_position hline hle hlt⟩
  refine ⟨fun t ht => ?_, ?_, hcovered, ?_⟩
  · obtain ⟨x, w, hs⟩ := hstands t ht
    exact hs.slice
  · refine (hcuts.pairwise_before .start).imp_of_mem fun ht ht' hbefore => ?_
    obtain ⟨x, w, hs⟩ := hstands _ ht
    obtain ⟨x', w', hs'⟩ := hstands _ ht'
    exact hs.apart hs' hbefore
  · rw [Page.foldl_write (byteAt (lines bytes)) fun t ht l c hc => ?_]
    · funext l c
      split
      · rename_i hc
        obtain ⟨t, ht, hc⟩ := hc
        obtain ⟨x, w, hs⟩ := hstands t ht
        obtain ⟨b, -, hbyte, hblank⟩ := hs.getElem?_encode hc
        rw [Page.erased, hbyte, Option.map_some, hblank]
        rfl
      · rename_i hc
        cases hbyte : byteAt (lines bytes) l c with
        | none => rw [Page.erased, Page.erased, hbyte]; rfl
        | some b =>
          obtain ⟨-, x, y, hxy, rfl, rfl⟩ := exists_offset hbyte
          have hblank : isBlank b = true := (hcovered x b y hxy).resolve_right hc
          rw [Page.erased, Page.erased, hbyte, Option.map_some, Option.map_some, hblank]
    · obtain ⟨x, w, hs⟩ := hstands t ht
      obtain ⟨b, hvalue, hbyte, -⟩ := hs.getElem?_encode hc
      rw [hvalue, hbyte]

/-- The variable stands behind a space in the second line. -/
theorem tokens_layout_second_line :
    tokens [0x31, 0x0A, 0x20, 0x78] none =
        .ok [⟨.float, "1", ⟨1, 1⟩, none⟩, ⟨.variable, "x", ⟨2, 2⟩, none⟩] ∧
      [(⟨.float, "1", ⟨1, 1⟩, none⟩ : Token), ⟨.variable, "x", ⟨2, 2⟩, none⟩].foldl Page.write
          (Page.erased (lines [0x31, 0x0A, 0x20, 0x78]) fun _ => true) =
        Page.erased (lines [0x31, 0x0A, 0x20, 0x78]) isBlank := by
  have h : tokens [0x31, 0x0A, 0x20, 0x78] none =
      .ok [⟨.float, "1", ⟨1, 1⟩, none⟩, ⟨.variable, "x", ⟨2, 2⟩, none⟩] := rfl
  exact ⟨h, (tokens_layout h).2.2.2⟩

end ArithCheck
