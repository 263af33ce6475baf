import ArithCheck.Proofs.Command.EntryPoints
import ArithCheck.Proofs.Scanner.Tokens
import ArithCheck.Proofs.Text.Plain

/-!
# Listings

The listing of the tokens of a file can be read again. A lexeme holds neither blanks nor quotes nor
backslashes. It stands in its line as it is, between quotes, so that the only blanks and line feeds
of a listing are those between its parts.

* `Listed`: what a line shows of a token;
* `readListing_output`: reading a listing gives back what it shows;
* `tokens_listed`: what the command leaves behind when it is asked for a listing.
-/

namespace ArithCheck.Command

open Token (Kind)
open Arithmetic (Lexeme Cuts Piece tokensOf lexeme_iff)
open Examination (freshTape exists_freshTape freshTape_named freshTape_fault complete_freshTape
  complete_eq_ok_iff complete_eq_error_iff)
open Text (isPlain ascii)

/-! ## What lines show -/

/-- What a listing shows of a token. -/
structure Listed where
  position : Position
  kind : Kind
  value : String
  deriving DecidableEq, Repr

/-- What a listing shows of a given token. -/
def Listed.ofToken (t : Token) : Listed := ⟨t.position, t.kind, t.value⟩

/-- The lexeme is made of plain characters. -/
def Listed.Plain (l : Listed) : Prop := ∃ w, l.value = ascii w ∧ ∀ b ∈ w, isPlain b = true

/-- The parts of a line, which are separated by blanks. -/
def Listed.parts (l : Listed) : List (List Char) :=
  [(toString l.position).toList, l.kind.label.toList, '\x27' :: l.value.toList ++ ['\x27']]

/-- The line of a token. -/
def Listed.line (l : Listed) : List Char := [' '].intercalate l.parts

/-- The number that is written with the given digits. -/
def readNatural (digits : List Char) : Option Nat :=
  if digits ≠ [] ∧ digits.all Char.isDigit = true then some (Nat.ofDigitChars 10 digits 0) else none

/-- The number that is written with digits, behind a minus sign if it is negative. -/
def readNumber : List Char → Option Int
  | '-' :: digits => (readNatural digits).map fun n => -(n : Int)
  | digits => (readNatural digits).map Int.ofNat

/-- The position that is written as `row:column`. -/
def readPosition (text : List Char) : Option Position :=
  match text.splitOn ':' with
  | [row, column] => do return ⟨← readNumber row, ← readNumber column⟩
  | _ => none

/-- What a line shows. -/
def readLine (line : List Char) : Option Listed :=
  match line.splitOn ' ' with
  | [position, label, quoted] => do
    let position ← readPosition position
    let kind ← Kind.all.find? (·.label.toList = label)
    return ⟨position, kind, String.ofList quoted.tail.dropLast⟩
  | _ => none

/-- The lines of an output that ends with a line feed. -/
def linesOf (output : String) : List (List Char) := (output.toList.splitOn '\n').dropLast

/-- What the lines of a listing show. -/
def readListing (output : String) : Option (List Listed) := (linesOf output).mapM readLine

/-! ## Numbers and positions -/

theorem toList_repr (n : Nat) : n.repr.toList = Nat.toDigits 10 n := by
  rw [Nat.repr_eq_ofList_toDigits, String.toList_ofList]

theorem isDigit_of_mem_repr {n : Nat} {c : Char} (h : c ∈ n.repr.toList) : c.isDigit = true := by
  rw [toList_repr] at h
  exact Nat.isDigit_of_mem_toDigits (by decide) (by decide) h

theorem toList_repr_negSucc (n : Nat) :
    (Int.negSucc n).repr.toList = '-' :: (n + 1).repr.toList := by
  simp [Int.repr]

theorem readNatural_repr (n : Nat) : readNatural n.repr.toList = some n := by
  have hall : n.repr.toList.all Char.isDigit = true :=
    List.all_eq_true.mpr fun _ hc => isDigit_of_mem_repr hc
  have hne : n.repr.toList ≠ [] := by simp
  rw [readNatural, if_pos ⟨hne, hall⟩, toList_repr, Nat.ofDigitChars_ten_toDigits]

theorem readNumber_repr (n : Int) : readNumber n.repr.toList = some n := by
  cases n with
  | ofNat n =>
    show readNumber n.repr.toList = _
    unfold readNumber
    split
    · rename_i digits heq
      have hminus : '-'.isDigit = true := isDigit_of_mem_repr (heq ▸ List.mem_cons_self)
      exact absurd hminus (by decide)
    · rw [readNatural_repr]
      rfl
  | negSucc n =>
    rw [toList_repr_negSucc, readNumber, readNatural_repr]
    rfl

/-- Numbers are written with digits and a minus sign. -/
theorem mem_repr {n : Int} {c : Char} (h : c ∈ n.repr.toList) : c.isDigit = true ∨ c = '-' := by
  cases n with
  | ofNat n => exact .inl (isDigit_of_mem_repr (n := n) h)
  | negSucc n =>
    rw [toList_repr_negSucc] at h
    rcases List.mem_cons.mp h with rfl | h
    · exact .inr rfl
    · exact .inl (isDigit_of_mem_repr h)

theorem not_mem_repr (n : Int) {c : Char} (hdigit : c.isDigit = false) (hminus : c ≠ '-') :
    c ∉ n.repr.toList := fun hmem => by
  rcases mem_repr hmem with h | h
  · rw [hdigit] at h
    cases h
  · exact hminus h

theorem toList_position (p : Position) :
    (toString p).toList = [':'].intercalate [p.line.repr.toList, p.column.repr.toList] := by
  simp [toString, List.intercalate]

theorem readPosition_position (p : Position) : readPosition (toString p).toList = some p := by
  have hparts : ∀ part ∈ [p.line.repr.toList, p.column.repr.toList], ':' ∉ part := by
    simp [not_mem_repr]
  rw [readPosition, toList_position, List.splitOn_intercalate _ hparts (List.cons_ne_nil _ _)]
  simp [readNumber_repr]

variable {l : Listed} {ls : List Listed}

theorem not_mem_position (p : Position) {c : Char} (hdigit : c.isDigit = false) (hminus : c ≠ '-')
    (hcolon : c ≠ ':') : c ∉ (toString p).toList := by
  simp [toList_position, List.intercalate, not_mem_repr, *]

/-! ## Lines -/

theorem not_mem_label (k : Kind) : ' ' ∉ k.label.toList ∧ '\n' ∉ k.label.toList := by
  cases k <;> decide

theorem find?_label (k : Kind) : Kind.all.find? (·.label.toList = k.label.toList) = some k := by
  cases k <;> decide

theorem Listed.Plain.not_mem_value (h : l.Plain) {c : Char} (hc : c.toNat ≤ 0x20) :
    c ∉ l.value.toList := by
  obtain ⟨w, hvalue, hplain⟩ := h
  rw [hvalue]
  exact Text.not_mem_ascii hplain hc

theorem Listed.Plain.readLine_line (h : l.Plain) : readLine l.line = some l := by
  have hparts : ∀ part ∈ l.parts, ' ' ∉ part := by
    simp [Listed.parts, not_mem_position, not_mem_label, h.not_mem_value]
  rw [readLine, Listed.line, List.splitOn_intercalate _ hparts (List.cons_ne_nil _ _)]
  simp [Listed.parts, readPosition_position, find?_label]

theorem Listed.Plain.lf_not_mem_line (h : l.Plain) : '\n' ∉ l.line := by
  simp [Listed.line, Listed.parts, List.intercalate, not_mem_position, not_mem_label,
    h.not_mem_value]

/-! ## Listings -/

/-- A token with a plain lexeme is listed in its line. -/
theorem toList_listing {t : Token} (h : (Listed.ofToken t).Plain) :
    (listing t).toList = (Listed.ofToken t).line ++ ['\n'] := by
  obtain ⟨w, hvalue, hplain⟩ := h
  have hquoted : (Text.quoted t.value).toList = '\x27' :: t.value.toList ++ ['\x27'] := by
    rw [show t.value = ascii w from hvalue]
    exact Text.quoted_ascii hplain
  have hlisting : (listing t).toList = (toString t.position).toList ++ ' ' :: t.kind.label.toList ++
      ' ' :: (Text.quoted t.value).toList ++ ['\n'] := by
    simp [listing, toString]
  rw [hlisting, hquoted]
  simp [Listed.line, Listed.parts, Listed.ofToken, List.intercalate]

theorem toList_output {ts : List Token} (h : ∀ t ∈ ts, (Listed.ofToken t).Plain) :
    (String.join (ts.map listing)).toList =
      ['\n'].intercalate ((ts.map Listed.ofToken).map Listed.line ++ [[]]) := by
  rw [String.toList_join, List.flatMap_map]
  induction ts with
  | nil => rfl
  | cons t ts ih =>
    obtain ⟨ht, hts⟩ := List.forall_mem_cons.mp h
    rw [List.flatMap_cons, ih hts, toList_listing ht, List.map_cons, List.map_cons,
      List.cons_append, List.intercalate_cons_of_ne_nil (by simp)]

/-- The lines of a listing are those of its tokens. -/
theorem splitOn_output {ts : List Token} (h : ∀ t ∈ ts, (Listed.ofToken t).Plain) :
    (String.join (ts.map listing)).toList.splitOn '\n' =
      (ts.map Listed.ofToken).map Listed.line ++ [[]] := by
  have hlines : ∀ line ∈ (ts.map Listed.ofToken).map Listed.line ++ [[]], '\n' ∉ line := by
    intro line hmem
    rcases List.mem_append.mp hmem with hmem | hmem
    · rw [List.map_map] at hmem
      obtain ⟨t, ht, rfl⟩ := List.mem_map.mp hmem
      exact (h t ht).lf_not_mem_line
    · rw [List.mem_singleton.mp hmem]
      exact List.not_mem_nil
  rw [toList_output h, List.splitOn_intercalate _ hlines (by simp)]

theorem mapM_readLine (h : ∀ l ∈ ls, l.Plain) : (ls.map Listed.line).mapM readLine = some ls := by
  induction ls with
  | nil => rfl
  | cons l ls ih =>
    obtain ⟨hl, hls⟩ := List.forall_mem_cons.mp h
    rw [List.map_cons, List.mapM_cons, hl.readLine_line, ih hls]
    rfl

/-- Reading a listing gives back what it shows. -/
theorem readListing_output {ts : List Token} (h : ∀ t ∈ ts, (Listed.ofToken t).Plain) :
    readListing (String.join (ts.map listing)) = some (ts.map Listed.ofToken) := by
  rw [readListing, linesOf, splitOn_output h, List.dropLast_concat]
  exact mapM_readLine (List.forall_mem_map.mpr h)

/-! ## The tokens of a file -/

theorem isPlain_of_isDigit {b : UInt8} (h : Arithmetic.isDigit b = true) : isPlain b = true := by
  simp only [Arithmetic.isDigit, Bool.and_eq_true, decide_eq_true_eq, UInt8.le_iff_toNat_le,
    UInt8.toNat_ofNat] at h
  exact Text.isPlain_iff.mpr (by omega)

theorem isPlain_of_isLetter {b : UInt8} (h : Arithmetic.isLetter b = true) : isPlain b = true := by
  simp only [Arithmetic.isLetter, Bool.or_eq_true, Bool.and_eq_true, decide_eq_true_eq,
    UInt8.le_iff_toNat_le, UInt8.toNat_ofNat] at h
  exact Text.isPlain_iff.mpr (by omega)

theorem plain_of_lexeme {w : List UInt8} {k : Kind} (h : Lexeme w (some k)) :
    ∀ b ∈ w, isPlain b = true := by
  have hpunctuation : ∀ e ∈ Arithmetic.punctuation, isPlain e.1 = true := by decide
  intro b hb
  cases h with
  | integer hds => exact isPlain_of_isDigit (hds.2 b hb)
  | fraction hds hes =>
    rcases List.mem_append.mp hb with hb | hb
    · exact isPlain_of_isDigit (hds.2 b hb)
    rcases List.mem_cons.mp hb with rfl | hb
    · rfl
    · exact isPlain_of_isDigit (hes.2 b hb)
  | letters hls => exact isPlain_of_isLetter (hls.2 b hb)
  | punctuation hmem =>
    obtain rfl := List.mem_singleton.mp hb
    exact hpunctuation _ hmem

variable {input z : List UInt8} {ps : List Piece}

theorem plain_of_cuts (h : Cuts input ps z) (file : Option String) (p : Position) :
    ∀ t ∈ tokensOf file p ps, (Listed.ofToken t).Plain := by
  induction h generalizing p with
  | done => exact List.forall_mem_nil _
  | @piece w rest z q ps hq hf _ _ ih =>
    rw [tokensOf]
    cases hk : q.kind? with
    | none => exact ih _
    | some k =>
      have hlexeme : Lexeme w (some k) := lexeme_iff.mpr ⟨q, hq, hf, hk⟩
      exact List.forall_mem_cons.mpr ⟨⟨w, rfl, plain_of_lexeme hlexeme⟩, ih _⟩

/-- All that is produced of a byte string. -/
def produced (bytes : List UInt8) : Tape := freshTape .default bytes none

theorem plain_of_produced (bytes : List UInt8) :
    ∀ t ∈ (produced bytes).tokens, (Listed.ofToken t).Plain := by
  obtain ⟨ps, z, fault, hcuts, htape⟩ := exists_freshTape .default bytes
  rw [produced, htape]
  exact plain_of_cuts hcuts none .start

/-! ## Runs -/

/-- What the command leaves behind when it lists the tokens of a file with the given contents. -/
def Outcome.ofTokens (bytes : List UInt8) (file : String) : Outcome where
  output := String.join ((produced bytes).tokens.map listing)
  log := #[]
  complaint := (produced bytes).fault.map fun fault => .fault (fault.named (some file))

theorem parse_tokens {path : String} (hpath : path.toList.head? ≠ some '-') :
    parse [path, "--tokens"] = .ok (.check ⟨path, true, false, false⟩) := by
  have hflag : classifyAll ["--tokens"] = .ok [.flag .tokens "--tokens" none] := by decide
  rw [parse, classifyAll_path hpath hflag]
  rfl

/-- The name of the file is not listed. -/
theorem listTokens_eq (bytes : List UInt8) (file : String) :
    { listTokens .default (.ofBytes bytes) file with log := #[] } =
      Outcome.ofTokens bytes file := by
  have hlist : { listTokens .default (.ofBytes bytes) file with log := #[] } =
      let tape := freshTape .default bytes (some file)
      (⟨String.join (tape.tokens.map listing), #[], tape.fault.map .fault⟩ : Outcome) := rfl
  rw [hlist, freshTape_named]
  simp only [List.map_map, Option.map_map]
  rfl

variable {read : String → Except Fault (List UInt8)} {path : String} {bytes : List UInt8}

theorem run_tokens (limit : Nat) (hpath : path.toList.head? ≠ some '-')
    (hread : read (Path.normalize path) = .ok bytes) (settings : Settings) :
    run limit read [path, "--tokens"] settings =
      .ok (.ofTokens bytes (Path.normalize path)) settings := by
  rw [run_of_parse limit (parse_tokens hpath)]
  show perform limit _ (read (Path.normalize path)) settings = _
  rw [hread, ← listTokens_eq]
  rfl

/-- The one thing that the command complains about is the fault of the scan. -/
theorem complaint_ofTokens {file : String} {complaint : Complaint} :
    (Outcome.ofTokens bytes file).complaint = some complaint ↔ ∃ cause place,
      tokens bytes none = .error (.lexical cause place none) ∧
        complaint = .fault (.lexical cause place (some file)) := by
  rw [← complete_freshTape .default]
  simp only [complete_eq_error_iff]
  constructor
  · intro h
    obtain ⟨fault, hfault, rfl⟩ := Option.map_eq_some_iff.mp h
    obtain ⟨cause, place, rfl⟩ := freshTape_fault hfault
    exact ⟨cause, place, hfault, rfl⟩
  · rintro ⟨cause, place, hfault, rfl⟩
    exact Option.map_eq_some_iff.mpr ⟨_, hfault, rfl⟩

/-- The exit code tells whether the scan comes to the end. -/
theorem code_ofTokens (bytes : List UInt8) (file : String) :
    ((Outcome.ofTokens bytes file).code = 0 ↔ ∃ ts, tokens bytes none = .ok ts) ∧
      ((Outcome.ofTokens bytes file).code = 1 ↔ ∃ fault, tokens bytes none = .error fault) := by
  cases hcomplaint : (Outcome.ofTokens bytes file).complaint with
  | none =>
    have hcode : (Outcome.ofTokens bytes file).code = 0 := by rw [Outcome.code, hcomplaint]
    have hfault : (produced bytes).fault = none := Option.map_eq_none_iff.mp hcomplaint
    have hok : tokens bytes none = .ok (produced bytes).tokens := by
      rw [← complete_freshTape .default]
      exact complete_eq_ok_iff.mpr ⟨hfault, rfl⟩
    simp [hcode, hok]
  | some complaint =>
    obtain ⟨cause, place, herror, rfl⟩ := complaint_ofTokens.mp hcomplaint
    have hcode : (Outcome.ofTokens bytes file).code = 1 := by
      rw [Outcome.code, hcomplaint]
      rfl
    simp [hcode, herror]

/-- Outputs are the same if and only if they show the same. -/
theorem output_eq_iff {bytes' : List UInt8} {file file' : String} :
    (Outcome.ofTokens bytes file).output = (Outcome.ofTokens bytes' file').output ↔
      (produced bytes).tokens.map Listed.ofToken = (produced bytes').tokens.map Listed.ofToken := by
  constructor
  · intro h
    have hread := congrArg readListing h
    rw [Outcome.ofTokens, Outcome.ofTokens, readListing_output (plain_of_produced _),
      readListing_output (plain_of_produced _)] at hread
    exact Option.some.inj hread
  · intro h
    apply String.toList_inj.mp
    rw [Outcome.ofTokens, Outcome.ofTokens, toList_output (plain_of_produced _),
      toList_output (plain_of_produced _), h]

theorem readListing_verdictText (accepted : Bool) : readListing (verdictText accepted) = none := by
  cases accepted <;> decide

/-- Asked for a listing, the command prints the tokens that come before the end or before the
first fault, a line each and in order, and nothing else: what the lines show can be read again, so
that different tokens make different outputs, and no output is a verdict. It exits with the code 0
if and only if the contents scan without a fault, and then it lists all their tokens. Otherwise it
exits with the code 1, and all that it complains about is that fault. All this is so under any
limit, as nothing nests. -/
theorem tokens_listed (limit : Nat) (read : String → Except Fault (List UInt8)) (path : String)
    (bytes : List UInt8) (settings : Settings) (hpath : path.toList.head? ≠ some '-')
    (hread : read (Path.normalize path) = .ok bytes) :
    let shown := (produced bytes).tokens.map Listed.ofToken
    ∃ o, run limit read [path, "--tokens"] settings = .ok o settings ∧
      o.output.toList.splitOn '\n' = shown.map Listed.line ++ [[]] ∧
      readListing o.output = some shown ∧
      (∀ accepted, o.output ≠ verdictText accepted) ∧
      (o.code = 0 ↔ ∃ ts, tokens bytes none = .ok ts) ∧
      (o.code = 1 ↔ ∃ fault, tokens bytes none = .error fault) ∧
      (∀ ts, tokens bytes none = .ok ts → shown = ts.map Listed.ofToken) ∧
      (∀ complaint, o.complaint = some complaint → ∃ cause place,
        tokens bytes none = .error (.lexical cause place none) ∧
          complaint = .fault (.lexical cause place (some (Path.normalize path)))) ∧
      ∀ limit' read' path' bytes' settings' o', path'.toList.head? ≠ some '-' →
        read' (Path.normalize path') = .ok bytes' →
        run limit' read' [path', "--tokens"] settings' = .ok o' settings' →
        (o.output = o'.output ↔ shown = (produced bytes').tokens.map Listed.ofToken) := by
  intro shown
  have hplain := plain_of_produced bytes
  have hreading : readListing (Outcome.ofTokens bytes (Path.normalize path)).output = some shown :=
    readListing_output hplain
  refine ⟨_, run_tokens limit hpath hread settings, ?_, hreading, fun accepted heq => ?_,
    (code_ofTokens _ _).1, (code_ofTokens _ _).2, fun ts hts => ?_,
    fun complaint => complaint_ofTokens.mp, ?_⟩
  · rw [Outcome.ofTokens, splitOn_output hplain]
  · rw [heq, readListing_verdictText] at hreading
    cases hreading
  · rw [← complete_freshTape .default] at hts
    rw [← (complete_eq_ok_iff.mp hts).2]
    rfl
  · intro limit' read' path' bytes' settings' o' hpath' hread' hrun'
    rw [run_tokens limit' hpath' hread' settings'] at hrun'
    obtain rfl := (EStateM.Result.ok.inj hrun').1
    exact output_eq_iff

/-- Of a file that holds `x &` the variable is listed before the fault. -/
theorem tokens_listed_fault :
    let read (name : String) : Except Fault (List UInt8) :=
      if name = "f" then .ok [0x78, 0x20, 0x26] else .error (.unreadable name .notFound)
    ∃ o, run Recognition.nestingLimit read ["./f", "--tokens"] .default = .ok o .default ∧
      o.code = 1 ∧ readListing o.output = some [⟨⟨1, 1⟩, .variable, "x"⟩] := by
  intro read
  have hread : read (Path.normalize "./f") = .ok [0x78, 0x20, 0x26] := by decide
  obtain ⟨o, hrun, -, hshown, -, -, hcode, -⟩ :=
    tokens_listed Recognition.nestingLimit read "./f" _ .default (by decide) hread
  exact ⟨o, hrun, hcode.mpr ⟨_, rfl⟩, hshown⟩

end ArithCheck.Command
