import AioLM.LittleEndian
import AioLM.Lockstep
import AioLM.TextBytes
import AioLM.Utf8

/-!
The bounded reader of a GGUF header. A file is the list of its bytes; running
past its end by skipping is noticed by the next read only, so what is left of
the file is all of its position that matters.
-/

set_option autoImplicit false

namespace AioLM.Gguf

def MAX_KEYS : Nat := 4096
def MAX_KEY_BYTES : Nat := 1024
def MAX_ARRAY_LEN : Nat := 2 ^ 24
def MAX_HEADER_SPAN : Nat := 128 * 1024 * 1024
def MAX_STRING_BUDGET : Nat := 2000000
def MAX_STRING_ENTRIES : Nat := 2000000

structure Reader where
  rest : Bytes
  consumed : Nat := 0
  strings : Nat := 0
  stringEntries : Nat := 0

structure StringBudget where
  strings : Nat := 0
  stringEntries : Nat := 0

/-- The reader, and beside it the budget of a scan that collects tensor types,
with the first error met there, which is reported later. -/
structure Scan where
  reader : Reader
  budget : Option StringBudget := none
  typeError : Option Text := none

abbrev Scanner (α : Type) := StateT Scan (Except Text) α

variable {α : Type}

def fail (message : Text) : Scanner α := fun _ => .error message

def outOfSpan : Text := "GGUF header exceeds its bounded metadata span".toList
def outOfEntries : Text := "GGUF header exceeds its string entry budget".toList
def outOfStrings : Text := "GGUF header declares implausible string data".toList
def implausibleArray : Text := "GGUF header declares an implausible array".toList

/-- Overflow of the 64-bit counter and the limit have one message, so the sum is
compared as it is. -/
def Reader.accountStrings (count : Nat) (reader : Reader) : Except Text Reader :=
  if reader.stringEntries + count ≤ MAX_STRING_ENTRIES then
    .ok { reader with stringEntries := reader.stringEntries + count }
  else .error outOfEntries

def Reader.account (bytes : Nat) (reader : Reader) : Except Text Reader :=
  if reader.consumed + bytes ≤ MAX_HEADER_SPAN then
    .ok { reader with consumed := reader.consumed + bytes }
  else .error outOfSpan

def Reader.accountPayload (length : Nat) (reader : Reader) : Except Text Reader :=
  if reader.strings + length ≤ MAX_STRING_BUDGET then
    .ok { reader with strings := reader.strings + length }
  else .error outOfStrings

def onReader (f : Reader → Except Text Reader) : Scanner Unit := fun s =>
  match f s.reader with
  | .ok reader => .ok ((), { s with reader })
  | .error message => .error message

def accountStrings (count : Nat) : Scanner Unit := onReader (Reader.accountStrings count)
def account (bytes : Nat) : Scanner Unit := onReader (Reader.account bytes)
def accountPayload (length : Nat) : Scanner Unit := onReader (Reader.accountPayload length)

def readExact (n : Nat) : Scanner Bytes := fun s =>
  if n ≤ s.reader.rest.length then
    .ok (s.reader.rest.take n, { s with reader := { s.reader with rest := s.reader.rest.drop n } })
  else .error "unreadable GGUF header: failed to fill whole buffer".toList

def bytes (n : Nat) : Scanner Bytes := do
  account n
  readExact n

def u32 : Scanner Nat := do return leValue (← bytes 4)

def u64 : Scanner Nat := do return leValue (← bytes 8)

/-- Seeking past the end of a file succeeds. -/
def seekRelative (count : Nat) : Scanner Unit :=
  onReader fun reader => .ok { reader with rest := reader.rest.drop count }

def skip (count : Nat) : Scanner Unit :=
  if count < 2 ^ 63 then do
    account count
    seekRelative count
  else fail "GGUF header declares an implausible field length".toList

def StringBudget.accountEntries (count : Nat) (budget : StringBudget) :
    Except Text StringBudget :=
  if budget.stringEntries + count ≤ MAX_STRING_ENTRIES then
    .ok { budget with stringEntries := budget.stringEntries + count }
  else .error outOfEntries

def StringBudget.accountPayload (count : Nat) (budget : StringBudget) :
    Except Text StringBudget :=
  if budget.strings + count ≤ MAX_STRING_BUDGET then
    .ok { budget with strings := budget.strings + count }
  else .error outOfStrings

/-- `remember_budget_error` of a charge to the budget, where there is one. -/
def rememberBudgetError (charge : StringBudget → Except Text StringBudget) : Scanner Unit := fun s =>
  match s.budget with
  | none => .ok ((), s)
  | some budget =>
    match charge budget with
    | .ok budget => .ok ((), { s with budget := some budget })
    | .error message => .ok ((), { s with typeError := s.typeError.or (some message) })

/-- A call with `None` for the budget and an error of its own, dropped after. -/
def withoutBudget (x : Scanner α) : Scanner α := fun s =>
  match x { reader := s.reader } with
  | .ok (a, s') => .ok (a, { s with reader := s'.reader })
  | .error message => .error message

/-- `String::from_utf8`, or the lossy form of what is not UTF-8. -/
def textOf (buffer : Bytes) : Text := (TextBytes.decode buffer).getD (Utf8.lossy buffer)

def stringPayload (length : Nat) : Scanner Text :=
  if length > MAX_KEY_BYTES then do
    skip length
    return []
  else do
    accountPayload length
    rememberBudgetError (StringBudget.accountPayload length)
    account length
    return textOf (← readExact length)

def stringWithBudget : Scanner Text := do
  accountStrings 1
  let length ← u64
  rememberBudgetError (StringBudget.accountEntries 1)
  stringPayload length

def string : Scanner Text := withoutBudget stringWithBudget

def scalarWidth (kind : Nat) : Option Nat :=
  match kind with
  | 0 | 1 | 7 => some 1
  | 2 | 3 => some 2
  | 4 | 5 | 6 => some 4
  | 10 | 11 | 12 => some 8
  | _ => none

def unsupported (what : String) (kind : Nat) : Text := what.toList ++ Nat.toDigits 10 kind

def skipArrayBodyWithBudget (element count : Nat) : Scanner Unit :=
  if count > MAX_ARRAY_LEN then fail implausibleArray
  else
    match scalarWidth element with
    | some width => if width * count < 2 ^ 64 then skip (width * count) else fail implausibleArray
    | none =>
      if element ≠ 8 then fail (unsupported "unsupported GGUF array element type " element)
      else do
        accountStrings count
        rememberBudgetError (StringBudget.accountEntries count)
        -- Strings are individually sized: the only way past them is through them.
        loopM (fun _ => do skip (← u64)) count ()

def skipValueWithBudget (kind : Nat) : Scanner Unit :=
  match scalarWidth kind with
  | some width => skip width
  | none =>
    if kind = 8 then do
      let length ← u64
      skip length
    else if kind = 9 then do
      let element ← u32
      let count ← u64
      skipArrayBodyWithBudget element count
    else fail (unsupported "unsupported GGUF value type " kind)

def skipValue (kind : Nat) : Scanner Unit := withoutBudget (skipValueWithBudget kind)

/-- `u64::try_from` of a signed number of the width of its bytes. -/
def unsignedOfSigned (bytes : Bytes) : Option Nat :=
  if leValue bytes < 2 ^ (8 * bytes.length - 1) then some (leValue bytes) else none

def readUnsigned (kind : Nat) : Scanner (Option Nat) :=
  match kind with
  | 4 => do return some (← u32)
  | 10 => do return some (← u64)
  | 5 => do return unsignedOfSigned (← bytes 4)
  | 11 => do return unsignedOfSigned (← bytes 8)
  | _ => do
    skipValue kind
    return none

def readIntegerWithBudget (kind : Nat) : Scanner (Option Nat) :=
  match kind with
  | 0 => do return some (leValue (← bytes 1))
  | 1 => do return unsignedOfSigned (← bytes 1)
  | 2 => do return some (leValue (← bytes 2))
  | 3 => do return unsignedOfSigned (← bytes 2)
  | 4 => do return some (← u32)
  | 5 => do return unsignedOfSigned (← bytes 4)
  | 7 => do return some (if leValue (← bytes 1) ≠ 0 then 1 else 0)
  | 10 => do return some (← u64)
  | 11 => do return unsignedOfSigned (← bytes 8)
  | _ => do
    skipValueWithBudget kind
    return none

def readInteger (kind : Nat) : Scanner (Option Nat) := withoutBudget (readIntegerWithBudget kind)

/-- Magic, version and the two counts: tensors and keys. -/
def readHeader : Scanner (Nat × Nat) := do
  let magic ← bytes 4
  if magic ≠ TextBytes.ascii "GGUF" then fail "not a GGUF file".toList
  else
    let version ← u32
    if version < 2 ∨ 3 < version then fail (unsupported "unsupported GGUF version " version)
    else
      let tensors ← u64
      let keys ← u64
      if keys > MAX_KEYS then fail "GGUF header declares an implausible key count".toList
      else return (tensors, keys)

def scanFile (x : Scanner α) (file : Bytes) : Except Text α :=
  match x { reader := { rest := file } } with
  | .ok (a, _) => .ok a
  | .error message => .error message

end AioLM.Gguf
