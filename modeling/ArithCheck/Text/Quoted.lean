import ArithCheck.Text.Unicode

/-!
# Quoted text

Text is shown between single quotes, or between double quotes when it holds a single quote and no
double quote. The quote in use and the backslash get a backslash in front; the newline, the
carriage return and the tab have short escapes; every other unprintable character is written by
its code, with two, four or eight hexadecimal digits, whichever is the first to suffice.

Lowercase hexadecimal of a fixed width (`hex`) also stands in messages about bytes and in dumps of
byte strings.
-/

namespace ArithCheck.Text

/-! ## Hexadecimal digits -/

/-- The lowercase hexadecimal digit of value `n`, for `n < 16`. -/
def hexDigit (n : Nat) : Char :=
  Char.ofNat (if n < 10 then 0x30 + n else 0x57 + n)

/-- The last `width` hexadecimal digits of `n`, most significant first. -/
def hex (width n : Nat) : List Char :=
  match width with
  | 0 => []
  | w + 1 => hex w (n / 16) ++ [hexDigit (n % 16)]

theorem length_hex (width n : Nat) : (hex width n).length = width := by
  induction width generalizing n with
  | zero => rfl
  | succ w ih => simp [hex, ih]

/-- A byte string, two digits a byte. -/
def hexBytes (bytes : List UInt8) : String :=
  String.ofList (bytes.flatMap fun b => hex 2 b.toNat)

/-! ## Quotes and escapes -/

/-- The quote that surrounds a text. -/
def quoteOf (text : List Char) : Char :=
  if text.contains '\x27' && !text.contains '\x22' then '\x22' else '\x27'

/-- The code of a character with as many digits as it needs. -/
def escapeCode (n : Nat) : List Char :=
  if n < 0x100 then '\x5c' :: 'x' :: hex 2 n
  else if n < 0x10000 then '\x5c' :: 'u' :: hex 4 n
  else '\x5c' :: 'U' :: hex 8 n

/-- One character of a text between the quotes `quote`. -/
def escape (quote c : Char) : List Char :=
  if c = quote || c = '\x5c' then ['\x5c', c]
  else if c = '\n' then ['\x5c', 'n']
  else if c = '\r' then ['\x5c', 'r']
  else if c = '\t' then ['\x5c', 't']
  else if isPrintable c then [c]
  else escapeCode c.toNat

/-- A text between quotes, with every character that could mislead the reader escaped. -/
def quoted (text : String) : String :=
  let quote := quoteOf text.toList
  String.ofList (quote :: text.toList.flatMap (escape quote) ++ [quote])

end ArithCheck.Text
