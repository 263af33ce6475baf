import ArithCheck.Text.Quoted

/-!
# Strict UTF-8

`decode` reads a byte string as UTF-8 and refuses everything that is not: overlong forms,
surrogates, code points above U+10FFFF, stray and missing continuation bytes. A refusal names the
bytes at fault: the lead byte together with the continuation bytes that did fit it.
-/

namespace ArithCheck.Text.Utf8

/-- What is wrong with a sequence of bytes. -/
inductive Reason
  /-- No sequence starts with this byte. -/
  | invalidStart
  /-- A byte that does not fit follows. -/
  | invalidContinuation
  /-- The sequence is cut off by the end of the bytes. -/
  | unexpectedEnd
  deriving DecidableEq, Repr

def Reason.message : Reason → String
  | .invalidStart => "invalid start byte"
  | .invalidContinuation => "invalid continuation byte"
  | .unexpectedEnd => "unexpected end of data"

/-- A refused sequence: its lead byte, the offset of that byte, the number of bytes at fault and
what is wrong with them. -/
structure Fault where
  lead : UInt8
  offset : Nat
  width : Nat
  reason : Reason
  deriving DecidableEq, Repr

def Fault.message (f : Fault) : String :=
  let span :=
    if f.width ≤ 1 then s!"byte 0x{String.ofList (hex 2 f.lead.toNat)} in position {f.offset}"
    else s!"bytes in position {f.offset}-{f.offset + f.width - 1}"
  s!"'utf-8' codec can't decode {span}: {f.reason.message}"

/-- What a lead byte announces: its own bits of the code point, the range of the byte that follows
it and the number of bytes after that one. -/
structure Lead where
  bits : Nat
  low : UInt8
  high : UInt8
  more : Nat

/-- The announcement of a lead byte of a sequence of two to four bytes. The second byte of some
sequences has a narrower range, which shuts out overlong forms, surrogates and code points that
are too large. -/
def lead? (b : UInt8) : Option Lead :=
  if b < 0xC2 then none
  else if b < 0xE0 then some ⟨b.toNat - 0xC0, 0x80, 0xBF, 0⟩
  else if b = 0xE0 then some ⟨0, 0xA0, 0xBF, 1⟩
  else if b = 0xED then some ⟨0xD, 0x80, 0x9F, 1⟩
  else if b < 0xF0 then some ⟨b.toNat - 0xE0, 0x80, 0xBF, 1⟩
  else if b = 0xF0 then some ⟨0, 0x90, 0xBF, 2⟩
  else if b < 0xF4 then some ⟨b.toNat - 0xF0, 0x80, 0xBF, 2⟩
  else if b = 0xF4 then some ⟨4, 0x80, 0x8F, 2⟩
  else none

/-- Where the reading of a byte string stands: between characters, or inside a sequence whose lead
byte was `lead` at `offset`, with `taken` bytes read, `value` the bits so far, and `more` bytes due
after the next one, which has to lie between `low` and `high`. -/
inductive State
  | between
  | inside (lead : UInt8) (offset taken value : Nat) (low high : UInt8) (more : Nat)
  deriving DecidableEq, Repr

/-- One byte, at `offset`: the state after it and the character that it completes. -/
def step (offset : Nat) (b : UInt8) : State → Except Fault (State × Option Char)
  | .between =>
    if b < 0x80 then .ok (.between, some (Char.ofNat b.toNat))
    else match lead? b with
      | none => .error ⟨b, offset, 1, .invalidStart⟩
      | some l => .ok (.inside b offset 1 l.bits l.low l.high l.more, none)
  | .inside lead start taken value low high more =>
    if low ≤ b && b ≤ high then
      let value := value * 64 + (b.toNat - 0x80)
      match more with
      | 0 => .ok (.between, some (Char.ofNat value))
      | n + 1 => .ok (.inside lead start (taken + 1) value 0x80 0xBF n, none)
    else .error ⟨lead, start, taken, .invalidContinuation⟩

/-- The characters of the bytes from `offset` on, read from a state. -/
def decodeFrom (offset : Nat) (state : State) : List UInt8 → Except Fault (List Char)
  | [] => match state with
    | .between => .ok []
    | .inside lead start taken .. => .error ⟨lead, start, taken, .unexpectedEnd⟩
  | b :: rest =>
    match step offset b state with
    | .error e => .error e
    | .ok (next, c?) => (decodeFrom (offset + 1) next rest).map (c?.toList ++ ·)

/-- The text whose UTF-8 encoding is `bytes`. -/
def decode (bytes : List UInt8) : Except Fault String :=
  (decodeFrom 0 .between bytes).map String.ofList

/-- ASCII bytes decode to the characters of the same codes. -/
theorem decodeFrom_ascii (offset : Nat) (bytes : List UInt8) (h : ∀ b ∈ bytes, b < 0x80) :
    decodeFrom offset .between bytes = .ok (bytes.map fun b => Char.ofNat b.toNat) := by
  induction bytes generalizing offset with
  | nil => rfl
  | cons b rest ih =>
    have hr := ih (offset + 1) fun c hc => h c (by simp [hc])
    simp only [decodeFrom, step, h b (by simp), if_true, hr]
    rfl

/-- Inside a sequence there is no character yet, and between two of them there has been one. -/
theorem step_none_ne_between {offset : Nat} {b : UInt8} {state next : State}
    (h : step offset b state = .ok (next, none)) : next ≠ .between := by
  rintro rfl
  cases state with
  | between =>
    simp only [step] at h
    split at h
    · simp at h
    · split at h <;> simp at h
  | inside lead start taken value low high more =>
    simp only [step] at h
    split at h
    · split at h <;> simp at h
    · simp at h

/-- There are no characters only where there are no bytes. -/
theorem eq_nil_of_decodeFrom {offset : Nat} {state : State} {bytes : List UInt8}
    (h : decodeFrom offset state bytes = .ok []) : bytes = [] ∧ state = .between := by
  induction bytes generalizing offset state with
  | nil =>
    cases state with
    | between => exact ⟨rfl, rfl⟩
    | inside => simp [decodeFrom] at h
  | cons b rest ih =>
    rw [decodeFrom] at h
    cases hstep : step offset b state with
    | error e => simp [hstep] at h
    | ok read =>
      obtain ⟨next, c?⟩ := read
      simp only [hstep] at h
      cases hrest : decodeFrom (offset + 1) next rest with
      | error e => simp [hrest, Except.map] at h
      | ok cs =>
        simp only [hrest, Except.map, Except.ok.injEq, List.append_eq_nil_iff] at h
        obtain ⟨hc, rfl⟩ := h
        obtain rfl : c? = none := by simpa using hc
        exact absurd (ih hrest).2 (step_none_ne_between hstep)

theorem eq_nil_of_decode {bytes : List UInt8} (h : decode bytes = .ok "") : bytes = [] := by
  rw [decode] at h
  cases hchars : decodeFrom 0 .between bytes with
  | error e => simp [hchars, Except.map] at h
  | ok cs =>
    simp only [hchars, Except.map, Except.ok.injEq, String.ofList_eq_empty_iff] at h
    exact (eq_nil_of_decodeFrom (h ▸ hchars)).1

/-- The UTF-8 encoding of a text. -/
def encode (text : String) : List UInt8 :=
  text.toUTF8.toList

end ArithCheck.Text.Utf8
