import Reckon.Number.Layout
/-!
# JSON values

Values of JSON and their compact text: no spaces, the fields of an object in the order given. Inside a string the
quote, the backslash and the controls are escaped and nothing else is; a number that is not finite is `null`.
-/

namespace Reckon

/-- A JSON value. -/
inductive Json where
  | null
  | nat (n : Nat)
  | float (x : Float)
  | string (s : String)
  | array (items : List Json)
  | object (fields : List (String × Json))

namespace Json

/-- One character inside a string. -/
def escaped (c : Char) : List Char :=
  if c = '\x22' then ['\x5c', '\x22']
  else if c = '\x5c' then ['\x5c', '\x5c']
  else if c = '\x08' then ['\x5c', 'b']
  else if c = '\x0c' then ['\x5c', 'f']
  else if c = '\n' then ['\x5c', 'n']
  else if c = '\r' then ['\x5c', 'r']
  else if c = '\t' then ['\x5c', 't']
  else if c.toNat < 32 then
    ['\x5c', 'u', '0', '0', Nat.digitChar (c.toNat / 16), Nat.digitChar (c.toNat % 16)]
  else [c]

/-- The text of a string. -/
def quoted (s : String) : String := "\"" ++ String.ofList (s.toList.flatMap escaped) ++ "\""

mutual

/-- The text of a value. -/
def text : Json → String
  | null => "null"
  | nat n => n.repr
  | float x => if Number.isFinite x then Number.Layout.json.text x else "null"
  | string s => quoted s
  | array items => "[" ++ ",".intercalate (texts items) ++ "]"
  | object fields => "\x7b" ++ ",".intercalate (fieldTexts fields) ++ "\x7d"

/-- The texts of the items of an array. -/
def texts : List Json → List String
  | [] => []
  | v :: vs => text v :: texts vs

/-- The texts of the fields of an object. -/
def fieldTexts : List (String × Json) → List String
  | [] => []
  | (key, v) :: fields => (quoted key ++ ":" ++ text v) :: fieldTexts fields

end

/-- The value of an optional part, `null` without it. -/
def ofOption {α : Type} (encode : α → Json) : Option α → Json
  | none => null
  | some a => encode a

end Json

end Reckon
