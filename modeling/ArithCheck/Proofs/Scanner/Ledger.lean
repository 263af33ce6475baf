import ArithCheck.Proofs.Scanner.Tape

/-!
# What a scanner does with the bytes that it reads

A ledger says of every byte that a scanner has read and put away what became of it: each lexeme
that is taken has an entry, and so have the part of a lexeme that is given up with a fault and the
byte at fault. `Scanner.entries` are those that one call of `nextToken` makes.

* `Booked`: how the entries of a call belong to its outcome; every call of a scanner that is ready
  is booked like this (`Ready.booked`).
-/

namespace ArithCheck

open Arithmetic (State Lexeme lexeme_iff)

/-- Whatever can be followed from the start is the front of a lexeme. -/
theorem Arithmetic.State.exists_lexeme_of_reach {w : List UInt8} {q : State}
    (h : State.start.reach w = some q) : ∃ v k, Lexeme (w ++ v) k := by
  cases hf : q.isFinal with
  | true => exact ⟨[], q.kind?, lexeme_iff.mpr ⟨q, by rwa [List.append_nil], hf, rfl⟩⟩
  | false =>
    -- A digit completes a number, or is one.
    rcases State.eq_start_or_point hf with rfl | rfl
    · exact ⟨[0x30], _, lexeme_iff.mpr ⟨.integer, by rw [State.reach_append, h]; rfl, rfl, rfl⟩⟩
    · exact ⟨[0x30], _, lexeme_iff.mpr ⟨.fraction, by rw [State.reach_append, h]; rfl, rfl, rfl⟩⟩

/-- The byte that a fault is about, if it is about one. -/
def Fault.byte? : Fault → Option UInt8
  | .lexical (.unexpectedByte b) .. => some b
  | _ => none

/-- An entry of a ledger. -/
inductive Entry
  /-- The lexeme of a token that is handed out. -/
  | token (t : Token) (lexeme : List UInt8)
  /-- A lexeme that is dropped. -/
  | blank (lexeme : List UInt8)
  /-- The part of a lexeme that is given up with a fault. -/
  | abandoned (fault : Fault) (lexeme : List UInt8)
  /-- The byte at fault. -/
  | offending (fault : Fault) (b : UInt8)
  deriving DecidableEq, Repr

namespace Entry

def bytes : Entry → List UInt8
  | token _ lexeme | blank lexeme | abandoned _ lexeme => lexeme
  | offending _ b => [b]

/-- The bytes that were taken into a lexeme, completed or not. -/
def taken : Entry → List UInt8
  | offending .. => []
  | entry => entry.bytes

/-- Whether the bytes went into a complete lexeme. -/
def isLexeme : Entry → Bool
  | token .. | blank _ => true
  | _ => false

def token? : Entry → Option Token
  | token t _ => some t
  | _ => none

/-- The fault with which part of a lexeme was given up. -/
def abandoned? : Entry → Option Fault
  | abandoned fault _ => some fault
  | _ => none

/-- The fault that a byte caused. -/
def offending? : Entry → Option Fault
  | offending fault _ => some fault
  | _ => none

/-- The bytes of an entry are of the sort that the entry tells. -/
def Sound : Entry → Prop
  | token t w => Lexeme w (some t.kind) ∧ Text.Utf8.encode t.value = w
  | blank w => Lexeme w none
  | abandoned fault w =>
    (∃ v k, Lexeme (w ++ v) k) ∧ ∃ cause place file, fault = .lexical cause place file
  | offending fault b => fault.byte? = some b

/-- The entries of a fault behind a part of a lexeme. -/
def ofFault (fault : Fault) (lexeme : List UInt8) : List Entry :=
  abandoned fault lexeme :: fault.byte?.toList.map (offending fault)

end Entry

/-- All the bytes of entries. -/
def spent (es : List Entry) : List UInt8 := es.flatMap Entry.bytes

/-- The bytes of entries that were taken into lexemes. -/
def taken (es : List Entry) : List UInt8 := es.flatMap Entry.taken

@[simp] theorem spent_nil : spent [] = [] := rfl

@[simp] theorem spent_cons (e : Entry) (es : List Entry) : spent (e :: es) = e.bytes ++ spent es :=
  rfl

@[simp] theorem spent_append (es fs : List Entry) : spent (es ++ fs) = spent es ++ spent fs :=
  List.flatMap_append

@[simp] theorem taken_nil : taken [] = [] := rfl

@[simp] theorem taken_cons (e : Entry) (es : List Entry) : taken (e :: es) = e.taken ++ taken es :=
  rfl

@[simp] theorem taken_append (es fs : List Entry) : taken (es ++ fs) = taken es ++ taken fs :=
  List.flatMap_append

/-- Of blanks all is taken. -/
theorem spent_eq_taken {es : List Entry} (hes : ∀ e ∈ es, ∃ w, e = .blank w) :
    spent es = taken es := by
  induction es with
  | nil => rfl
  | cons e es ih =>
    obtain ⟨⟨w, rfl⟩, hrest⟩ := List.forall_mem_cons.mp hes
    rw [spent_cons, taken_cons, ih hrest]
    rfl

namespace Scanner

/-- The entries that `nextTokenWithin` makes: one for each lexeme, and those of a fault. -/
def entriesWithin : (bound : List UInt8) → Scanner → List Entry
  | [], _ => []
  | _ :: bound, s =>
    if s.atEnd then []
    else match munch s with
      | .error fault s' => Entry.ofFault fault s'.buffer
      | .ok none _ => []
      | .ok (some tag) s' =>
        if tag = 0 then .blank s'.buffer :: entriesWithin bound s'
        else match s'.tokenOf s.position tag with
          | .error fault => Entry.ofFault fault s'.buffer
          | .ok token => [.token token s'.buffer]

/-- The entries that the next call of `nextToken` makes. -/
def entries (s : Scanner) : List Entry := s.entriesWithin s.bound

variable {s s' s'' : Scanner} {es fs : List Entry}

/-- A scanner has moved on by entries: it has put away their bytes and nothing else, and its
position counts those that were taken. -/
structure Moved (s : Scanner) (es : List Entry) (s' : Scanner) : Prop where
  ready : s'.Ready
  same : s.Continues s'
  input : s.input = spent es ++ s'.input
  position : s'.position = s.position.advance (taken es)
  sound : ∀ e ∈ es, e.Sound

theorem Moved.refl (hs : s.Ready) : Moved s [] s :=
  ⟨hs, .refl s, rfl, rfl, List.forall_mem_nil _⟩

theorem Moved.trans (h : Moved s es s') (h' : Moved s' fs s'') : Moved s (es ++ fs) s'' where
  ready := h'.ready
  same := h.same.trans h'.same
  input := by rw [h.input, h'.input, spent_append, List.append_assoc]
  position := by rw [h'.position, h.position, taken_append, Position.advance_append]
  sound e he := (List.mem_append.mp he).elim (h.sound e) (h'.sound e)

/-- How the entries of a call belong to what it hands out. -/
inductive Booked (s : Scanner) :
    List Entry → EStateM.Result Fault Scanner (Option Token) → Prop
  | token (es : List Entry) {t : Token} {w : List UInt8} {s' : Scanner}
    (blanks : ∀ e ∈ es, ∃ w, e = .blank w) (moved : Moved s (es ++ [.token t w]) s')
    (place : t.position = s.position.advance (taken es))
    (pending : s'.input = [] → s'.atEnd = true) :
    Booked s (es ++ [.token t w]) (.ok (some t) s')
  | complete (es : List Entry) {s' : Scanner} (blanks : ∀ e ∈ es, ∃ w, e = .blank w)
    (moved : Moved s es s') (atEnd : s'.atEnd = true) : Booked s es (.ok none s')
  | fault (es : List Entry) {f : Fault} {w : List UInt8} {s' : Scanner}
    (blanks : ∀ e ∈ es, ∃ w, e = .blank w) (moved : Moved s (es ++ Entry.ofFault f w) s') :
    Booked s (es ++ Entry.ofFault f w) (.error f s')

/-- A blank in front of what is booked. -/
theorem Booked.blank {w : List UInt8} {result : EStateM.Result Fault Scanner (Option Token)}
    (hblank : Moved s [.blank w] s') (h : Booked s' es result) :
    Booked s (.blank w :: es) result := by
  have hblanks : ∀ {es : List Entry}, (∀ e ∈ es, ∃ w, e = Entry.blank w) →
      ∀ e ∈ Entry.blank w :: es, ∃ w, e = Entry.blank w := by
    intro es h e he
    rcases List.mem_cons.mp he with rfl | he
    · exact ⟨w, rfl⟩
    · exact h e he
  cases h with
  | @token es t v s'' blanks moved place pending =>
    refine .token (.blank w :: es) (hblanks blanks) (hblank.trans moved) ?_ pending
    rw [place, hblank.position, ← Position.advance_append, ← taken_append]
    rfl
  | complete es blanks moved atEnd =>
    exact .complete (.blank w :: es) (hblanks blanks) (hblank.trans moved) atEnd
  | @fault es f v s'' blanks moved =>
    exact .fault (.blank w :: es) (hblanks blanks) (hblank.trans moved)

/-- A complete lexeme moves a scanner on by its entry. -/
theorem Ready.moved {w rest : List UInt8} {q : State} {e : Entry} (hs : s.Ready)
    (hi : s.input = w ++ rest) (hbytes : e.bytes = w) (htaken : e.taken = w) (hsound : e.Sound) :
    Moved s [e] (s.beyond ⟨w, q.code, rest⟩) where
  ready := hs.beyond hi q.code
  same := s.continues_beyond _
  input := by
    rw [input_beyond hs.opened hi.symm, hi, spent_cons, hbytes, spent_nil, List.append_nil]
  position := by rw [taken_cons, htaken, taken_nil, List.append_nil]; rfl
  sound := by simpa using hsound

/-- A fault moves a scanner on by the entries of the part given up and of the byte at fault. -/
theorem Ready.moved_fault {w rest : List UInt8} {q : State} (hs : s.Ready)
    (hi : s.input = w ++ rest) (hq : State.start.reach w = some q) :
    Moved s (Entry.ofFault ((s.after ⟨w, q.code, rest⟩).unexpected (.front rest)) w)
      (s.after ⟨w, q.code, rest⟩) := by
  have hpart := State.exists_lexeme_of_reach hq
  have hinput := hs.input_after (t := ⟨w, q.code, rest⟩) hi.symm
  refine ⟨hs.after _, s.continues_after _, ?_, ?_, ?_⟩
  · rw [hinput, hi]
    cases rest <;> simp [unexpected, Symbol.front, Entry.ofFault, Fault.byte?, Entry.bytes]
  · show s.position.advance w = _
    cases rest <;>
      simp [unexpected, Symbol.front, Entry.ofFault, Fault.byte?, Entry.taken, Entry.bytes]
  · cases rest <;>
      simpa [unexpected, Symbol.front, Entry.ofFault, Fault.byte?, Entry.Sound] using hpart

/-- Every call is booked. -/
theorem Ready.booked {bound : List UInt8} (hs : s.Ready) (hb : s.input.length < bound.length) :
    Booked s (s.entriesWithin bound) (s.nextTokenWithin bound) := by
  induction bound generalizing s with
  | nil => simp at hb
  | cons c bound ih =>
    by_cases hend : s.atEnd = true
    · rw [entriesWithin, nextTokenWithin, if_pos hend, if_pos hend]
      exact .complete [] (List.forall_mem_nil _) (.refl hs) hend
    rw [entriesWithin, nextTokenWithin, if_neg hend, if_neg hend]
    obtain ⟨w, q, rest, hi, hq, hstop⟩ := State.start.exists_trail s.input
    cases hf : q.isFinal with
    | true =>
      have hw : w ≠ [] := State.ne_nil_of_reach hq (by rintro rfl; cases hf)
      have hinput : (s.beyond ⟨w, q.code, rest⟩).input = rest := input_beyond hs.opened hi.symm
      rw [hs.munch_final hi hq hstop hf]
      dsimp only
      cases hk : q.kind? with
      | none =>
        have hlexeme : Lexeme w none := lexeme_iff.mpr ⟨q, hq, hf, hk⟩
        have hmoved := hs.moved (e := .blank w) (q := q) hi rfl rfl hlexeme
        have hlt : rest.length < bound.length := by
          have := List.length_pos_iff.mpr hw
          simp only [hi, List.length_append, List.length_cons] at hb
          omega
        rw [if_pos ((Ready.tag_eq_zero_iff hf).mpr hk), if_pos ((Ready.tag_eq_zero_iff hf).mpr hk)]
        exact .blank hmoved (ih hmoved.ready (by rw [hinput]; exact hlt))
      | some k =>
        have htag : ¬ q.tag = 0 := fun h => by simp [(Ready.tag_eq_zero_iff hf).mp h] at hk
        have hlexeme : Lexeme w (some k) := lexeme_iff.mpr ⟨q, hq, hf, hk⟩
        have hvalue := Text.Utf8.encode_ascii (State.ascii_of_reach hq)
        rw [if_neg htag, if_neg htag, Ready.tokenOf_beyond s s.position hq hk]
        dsimp only
        have hmoved := hs.moved (e := .token ⟨k, Text.ascii w, s.position, s.file⟩ w) (q := q)
          hi rfl rfl ⟨hlexeme, hvalue⟩
        refine .token [] (List.forall_mem_nil _) hmoved rfl fun hnil => ?_
        rw [hinput] at hnil
        rw [hnil]
        rfl
    | false =>
      rcases State.fault_or_nothing rest hq hf with hne | ⟨rfl, rfl, rfl⟩
      · rw [hs.munch_fault hi hq hstop hf hne]
        exact .fault [] (List.forall_mem_nil _) (hs.moved_fault hi hq)
      · rw [hs.munch_complete hi]
        refine .complete [] (List.forall_mem_nil _)
          ⟨hs.beyond hi _, s.continues_beyond _, ?_, rfl, List.forall_mem_nil _⟩ rfl
        rw [input_beyond hs.opened hi.symm, hi]
        rfl

end Scanner

end ArithCheck
