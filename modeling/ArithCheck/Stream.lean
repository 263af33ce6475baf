import ArithCheck.Fault

/-!
# Byte streams

A stream is a byte string with a place from which it is read on. The place may lie past the end,
where there is nothing to read until enough bytes are appended. A closed stream refuses every use.
-/

namespace ArithCheck

/-- The bytes before the place, the last one first; the bytes from the place on; the distance of
the place from the end where it lies past it; whether the stream is closed. -/
structure Stream where
  past : List UInt8
  unread : List UInt8
  beyond : Nat
  closed : Bool
  deriving DecidableEq, Repr, Inhabited

namespace Stream

/-- An open stream at the start of `bytes`. -/
def ofBytes (bytes : List UInt8) : Stream := ⟨[], bytes, 0, false⟩

/-- All the bytes, read or not. -/
def bytes (s : Stream) : List UInt8 :=
  s.past.reverse ++ s.unread

/-- The place from which the stream is read on. -/
def position (s : Stream) : Nat :=
  s.past.length + s.beyond

/-- The stream after `n` of its unread bytes are read. -/
def advance (s : Stream) (n : Nat) : Stream :=
  { s with past := (s.unread.take n).reverse ++ s.past, unread := s.unread.drop n }

/-- The same bytes, read on from `place`. -/
def moveTo (s : Stream) (place : Nat) : Stream :=
  { s with
    past := (s.bytes.take place).reverse
    unread := s.bytes.drop place
    beyond := place - s.bytes.length }

/-- The stream, if it is open. -/
def opened (s : Stream) : Except Fault Stream :=
  if s.closed then .error .closedStream else .ok s

/-- Where an open stream stands. -/
def tell (s : Stream) : Except Fault Nat :=
  s.opened.map position

/-- An open stream, sent to `place`. -/
def seek (s : Stream) (place : Int) : Except Fault Stream := do
  let s ← s.opened
  if place < 0 then throw (.negativeSeek place)
  return s.moveTo place.toNat

/-- An open stream with `more` at its end and its place unchanged. -/
def feed (s : Stream) (more : List UInt8) : Except Fault Stream :=
  s.opened.map fun s => { s with unread := s.unread ++ more }.moveTo s.position

def close (s : Stream) : Stream := { s with closed := true }

@[simp] theorem bytes_ofBytes (bytes : List UInt8) : (ofBytes bytes).bytes = bytes := by
  simp [ofBytes, Stream.bytes]

@[simp] theorem bytes_advance (s : Stream) (n : Nat) : (s.advance n).bytes = s.bytes := by
  simp [advance, Stream.bytes]

@[simp] theorem bytes_moveTo (s : Stream) (place : Nat) : (s.moveTo place).bytes = s.bytes := by
  simp [moveTo, Stream.bytes]

@[simp] theorem position_moveTo (s : Stream) (place : Nat) :
    (s.moveTo place).position = place := by
  simp only [position, moveTo, List.length_reverse, List.length_take]
  omega

end Stream

end ArithCheck
