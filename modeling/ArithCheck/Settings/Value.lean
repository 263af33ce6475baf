import ArithCheck.Text.Quoted

/-!
# Stored values

A setting keeps whatever value was stored for it. All values count as on, except for nothing,
false, zero and everything that is empty.
-/

namespace ArithCheck.Settings

inductive Value
  | null
  | bool (b : Bool)
  | int (n : Int)
  | text (s : String)
  | list (items : List Value)
  | record (fields : List (String × Value))
  deriving Repr, Inhabited

namespace Value

/-- Whether a setting with this value is on. -/
def isOn : Value → Bool
  | null => false
  | bool b => b
  | int n => n ≠ 0
  | text s => !s.isEmpty
  | list items => !items.isEmpty
  | record fields => !fields.isEmpty

/-- The name of the type of a value. -/
def typeName : Value → String
  | null => "NoneType"
  | bool _ => "bool"
  | int _ => "int"
  | text _ => "str"
  | list _ => "list"
  | record _ => "dict"

mutual

/-- The written form of a value. -/
def render : Value → String
  | null => "None"
  | bool true => "True"
  | bool false => "False"
  | int n => toString n
  | text s => Text.quoted s
  | list items => "[" ++ String.intercalate ", " (renderItems items) ++ "]"
  | record fields => "\x7b" ++ String.intercalate ", " (renderFields fields) ++ "\x7d"

def renderItems : List Value → List String
  | [] => []
  | item :: rest => item.render :: renderItems rest

def renderFields : List (String × Value) → List String
  | [] => []
  | (key, value) :: rest => (Text.quoted key ++ ": " ++ value.render) :: renderFields rest

end

end Value

end ArithCheck.Settings
