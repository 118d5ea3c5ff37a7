import AioLM.Text

/-!
JSON values as `serde_json::Value` holds them, with the accessors the modelled
code calls and the compact text form. How a float is printed and how a text is
parsed belong to the JSON package; both enter as parameters where they are used.
-/

set_option autoImplicit false

namespace AioLM

/-- `serde_json::Number`: the two integer forms are one here, since every
accessor tells them apart by the integer alone. -/
inductive Number where
  | int (n : Int)
  | float (x : Float)

/-- Object fields in key order, as the map behind `Value::Object` lists them. -/
inductive Json where
  | null
  | bool (b : Bool)
  | number (n : Number)
  | string (t : Text)
  | array (items : List Json)
  | object (fields : List (Text × Json))

def Number.beq : Number → Number → Bool
  | .int a, .int b => a == b
  | .float a, .float b => a == b
  | _, _ => false

mutual

/-- `PartialEq` of values: floats compare as IEEE doubles. -/
def Json.beq : Json → Json → Bool
  | .null, .null => true
  | .bool a, .bool b => a == b
  | .number a, .number b => a.beq b
  | .string a, .string b => a == b
  | .array as, .array bs => Json.beqItems as bs
  | .object as, .object bs => Json.beqFields as bs
  | _, _ => false

def Json.beqItems : List Json → List Json → Bool
  | [], [] => true
  | a :: as, b :: bs => Json.beq a b && Json.beqItems as bs
  | _, _ => false

def Json.beqFields : List (Text × Json) → List (Text × Json) → Bool
  | [], [] => true
  | (k, a) :: as, (l, b) :: bs => k == l && Json.beq a b && Json.beqFields as bs
  | _, _ => false

end

instance : BEq Json := ⟨Json.beq⟩

namespace Json

def text (s : String) : Json := .string s.toList

def int (n : Int) : Json := .number (.int n)

def lookup (key : Text) : List (Text × Json) → Option Json
  | [] => none
  | (k, v) :: rest => if k = key then some v else lookup key rest

/-- `Value::get` with a string index. -/
def get (key : String) : Json → Option Json
  | .object fields => lookup key.toList fields
  | _ => none

def asStr : Json → Option Text
  | .string t => some t
  | _ => none

def asArray : Json → Option (List Json)
  | .array items => some items
  | _ => none

def asObject : Json → Option (List (Text × Json))
  | .object fields => some fields
  | _ => none

theorem asArray_eq_some {v : Json} {items : List Json} (h : v.asArray = some items) :
    v = .array items := by
  cases v <;> simp_all [asArray]

theorem asObject_eq_some {v : Json} {fields : List (Text × Json)} (h : v.asObject = some fields) :
    v = .object fields := by
  cases v <;> simp_all [asObject]

def asBool : Json → Option Bool
  | .bool b => some b
  | _ => none

def isObject (v : Json) : Bool := v.asObject.isSome
def isArray (v : Json) : Bool := v.asArray.isSome
def isString (v : Json) : Bool := v.asStr.isSome
def isBoolean (v : Json) : Bool := v.asBool.isSome

def isNull : Json → Bool
  | .null => true
  | _ => false

def isNumber : Json → Bool
  | .number _ => true
  | _ => false

def asU64 : Json → Option Nat
  | .number (.int n) => if 0 ≤ n ∧ n < 2 ^ 64 then some n.toNat else none
  | _ => none

def asI64 : Json → Option Int
  | .number (.int n) => if -(2 ^ 63) ≤ n ∧ n < 2 ^ 63 then some n else none
  | _ => none

/-- `n as f64` for the integers a JSON number can hold. -/
def floatOfInt (n : Int) : Float :=
  if 0 ≤ n then n.toNat.toUInt64.toFloat else -((-n).toNat.toUInt64.toFloat)

def asF64 : Json → Option Float
  | .number (.int n) => some (floatOfInt n)
  | .number (.float x) => some x
  | _ => none

/-- Decimal digits of an integer, as `Display` prints it. -/
def intText (n : Int) : Text :=
  if n < 0 then '-' :: Nat.toDigits 10 n.natAbs else Nat.toDigits 10 n.natAbs

def hexDigit (n : Nat) : Char := Nat.digitChar n

def escapeChar (c : Char) : Text :=
  if c = '"' then ['\\', '"']
  else if c = '\\' then ['\\', '\\']
  else if c.toNat = 8 then ['\\', 'b']
  else if c.toNat = 12 then ['\\', 'f']
  else if c = '\n' then ['\\', 'n']
  else if c = '\r' then ['\\', 'r']
  else if c = '\t' then ['\\', 't']
  else if c.toNat < 0x20 then
    ['\\', 'u', '0', '0', hexDigit (c.toNat / 16), hexDigit (c.toNat % 16)]
  else [c]

def quote (t : Text) : Text := '"' :: t.flatMap escapeChar ++ ['"']

mutual

/-- `serde_json::to_string`: the compact form. -/
def compact (floatText : Float → Text) : Json → Text
  | .null => "null".toList
  | .bool true => "true".toList
  | .bool false => "false".toList
  | .number (.int n) => intText n
  | .number (.float x) => floatText x
  | .string t => quote t
  | .array items => '[' :: compactItems floatText items ++ [']']
  | .object fields => '{' :: compactFields floatText fields ++ ['}']

def compactItems (floatText : Float → Text) : List Json → Text
  | [] => []
  | [v] => compact floatText v
  | v :: rest => compact floatText v ++ ',' :: compactItems floatText rest

def compactFields (floatText : Float → Text) : List (Text × Json) → Text
  | [] => []
  | [(k, v)] => quote k ++ ':' :: compact floatText v
  | (k, v) :: rest =>
      quote k ++ ':' :: compact floatText v ++ ',' :: compactFields floatText rest

end

section Compact

variable {floatText : Float → Text}

theorem compact_null : compact floatText .null = "null".toList := rfl

theorem compact_true : compact floatText (.bool true) = "true".toList := rfl

theorem compact_false : compact floatText (.bool false) = "false".toList := rfl

theorem compact_int (n : Int) : compact floatText (.number (.int n)) = intText n := rfl

theorem compact_string (t : Text) : compact floatText (.string t) = quote t := rfl

theorem compact_array (items : List Json) :
    compact floatText (.array items) = '[' :: compactItems floatText items ++ [']'] := rfl

theorem compact_object (fields : List (Text × Json)) :
    compact floatText (.object fields) = '{' :: compactFields floatText fields ++ ['}'] := rfl

end Compact

end Json

end AioLM
