import AioLM.Json

/-!
Derived readers of a value: numbers of a width, lists, absent and null fields, and
the fields of a struct, given by name or in order.
-/

set_option autoImplicit false

namespace AioLM.Json

variable {α : Type}

def asU32 (v : Json) : Option Nat := v.asU64.filter (· < 2 ^ 32)

def asList (read : Json → Option α) : Json → Option (List α)
  | .array items => items.mapM read
  | _ => none

/-- An `Option` field: absent and null both read as `None`. -/
def asOptional (read : Json → Option α) : Option Json → Option (Option α)
  | none | some .null => some none
  | some v => (read v).map some

def asDefaulted (default : α) (read : Json → Option α) : Option Json → Option α
  | none => some default
  | some v => read v

/-- The fields of a struct: an object's by name, where a strict reader refuses others,
or those of an array that has exactly one value for each. -/
def structFields (strict : Bool) (names : List String) : Json → Option (String → Option Json)
  | .object fields =>
    if strict && fields.any fun e => !names.any fun name => name.toList == e.1 then none
    else some fun name => lookup name.toList fields
  | .array items =>
    if items.length = names.length then some fun name => (names.zip items).lookup name else none
  | _ => none

/-- `Value::pointer` with the two names of a path. -/
def pointer (outer inner : String) (v : Json) : Option Json := (v.get outer).bind (get inner)

end AioLM.Json
