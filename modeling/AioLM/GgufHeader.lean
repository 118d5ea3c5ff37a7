import AioLM.GgufTypes
import Mathlib.Algebra.BigOperators.Group.List.Basic
import Mathlib.Algebra.Group.Prod
import Mathlib.Algebra.Order.Group.Nat

/-!
GGUF headers as values, their bytes, and what each reader takes of them: the
value it is called on, whole, and from the budgets what that value costs.
-/

set_option autoImplicit false

namespace AioLM.Gguf

variable {α β : Type}

inductive ScalarKind where
  | u8
  | i8
  | u16
  | i16
  | u32
  | i32
  | f32
  | bool
  | u64
  | i64
  | f64
  deriving DecidableEq

namespace ScalarKind

def code : ScalarKind → Nat
  | u8 => 0
  | i8 => 1
  | u16 => 2
  | i16 => 3
  | u32 => 4
  | i32 => 5
  | f32 => 6
  | bool => 7
  | u64 => 10
  | i64 => 11
  | f64 => 12

def width : ScalarKind → Nat
  | u8 | i8 | bool => 1
  | u16 | i16 => 2
  | u32 | i32 | f32 => 4
  | u64 | i64 | f64 => 8

def integer (kind : ScalarKind) (bytes : Bytes) : Option Nat :=
  match kind with
  | u8 | u16 | u32 | u64 => some (leValue bytes)
  | i8 | i16 | i32 | i64 => unsignedOfSigned bytes
  | bool => some (if leValue bytes ≠ 0 then 1 else 0)
  | f32 | f64 => none

/-- The same where only the wide integers count. -/
def unsigned (kind : ScalarKind) (bytes : Bytes) : Option Nat :=
  match kind with
  | u32 | u64 | i32 | i64 => kind.integer bytes
  | _ => none

theorem scalarWidth_code (kind : ScalarKind) : scalarWidth kind.code = some kind.width := by
  cases kind <;> rfl

theorem code_lt (kind : ScalarKind) : kind.code < 256 ^ 4 := by
  cases kind <;> decide

theorem width_le (kind : ScalarKind) : kind.width ≤ 8 := by
  cases kind <;> decide

end ScalarKind

abbrev ScalarBytes (kind : ScalarKind) := { bytes : Bytes // bytes.length = kind.width }

inductive Value where
  | scalar (kind : ScalarKind) (bytes : ScalarBytes kind)
  | text (bytes : Bytes)
  | scalars (kind : ScalarKind) (elements : List (ScalarBytes kind))
  | texts (elements : List Bytes)

def encodeString (bytes : Bytes) : Bytes := leBytes 8 bytes.length ++ bytes

/-- A string as the reader keeps it: one beyond the limit counts as empty. -/
def textValue (bytes : Bytes) : Text := if bytes.length > MAX_KEY_BYTES then [] else textOf bytes

namespace Value

def code : Value → Nat
  | scalar kind _ => kind.code
  | text _ => 8
  | scalars _ _ | texts _ => 9

def encode : Value → Bytes
  | scalar _ bytes => bytes.val
  | text bytes => encodeString bytes
  | scalars kind elements =>
    leBytes 4 kind.code ++ (leBytes 8 elements.length ++ elements.flatMap Subtype.val)
  | texts elements => leBytes 4 8 ++ (leBytes 8 elements.length ++ elements.flatMap encodeString)

def Bounded : Value → Prop
  | scalar _ _ | text _ => True
  | scalars _ elements => elements.length ≤ MAX_ARRAY_LEN
  | texts elements => elements.length ≤ MAX_ARRAY_LEN

instance (value : Value) : Decidable value.Bounded :=
  match value with
  | scalar _ _ | text _ => .isTrue trivial
  | scalars _ elements => inferInstanceAs (Decidable (elements.length ≤ MAX_ARRAY_LEN))
  | texts elements => inferInstanceAs (Decidable (elements.length ≤ MAX_ARRAY_LEN))

def asText : Value → Option Text
  | text bytes => some (textValue bytes)
  | _ => none

def asUnsigned : Value → Option Nat
  | scalar kind bytes => kind.unsigned bytes.val
  | _ => none

def asInteger : Value → Option Nat
  | scalar kind bytes => kind.integer bytes.val
  | _ => none

def asRaw : Value → Option RawValue
  | scalar kind bytes => (kind.integer bytes.val).map .int
  | scalars kind elements =>
    if isIntegerKind kind.code ∧ elements.length ≤ MAX_MODEL_LAYERS then
      (elements.mapM fun bytes => kind.integer bytes.val).map .ints
    else none
  | _ => none

def asTexts : Value → List Text
  | texts elements => (elements.map textValue).filter fun t => Text.trim t ≠ []
  | _ => []

end Value

/-- String bytes held and strings met. -/
abbrev Cost := Nat × Nat

def Reader.Fits (reader : Reader) (length : Nat) (cost : Cost) : Prop :=
  reader.consumed + length ≤ MAX_HEADER_SPAN ∧ reader.strings + cost.1 ≤ MAX_STRING_BUDGET ∧
    reader.stringEntries + cost.2 ≤ MAX_STRING_ENTRIES

def Reader.after (reader : Reader) (tail : Bytes) (length : Nat) (cost : Cost) : Reader :=
  ⟨tail, reader.consumed + length, reader.strings + cost.1, reader.stringEntries + cost.2⟩

/-- Before any `tail`, the bytes are read to the end and make the result. -/
def Takes (x : Scanner α) (bytes : Bytes) (cost : Cost) (a : α) : Prop :=
  ∀ reader tail, reader.rest = bytes ++ tail → reader.Fits bytes.length cost →
    x { reader := reader } = .ok (a, { reader := reader.after tail bytes.length cost })

namespace Takes

theorem pure (a : α) : Takes (Pure.pure a : Scanner α) [] 0 a := by
  intro reader tail hrest _
  cases reader
  cases hrest
  rfl

theorem bind {x : Scanner α} {f : α → Scanner β} {bytes more : Bytes} {cost cost' : Cost} {a : α}
    {b : β} (hx : Takes x bytes cost a) (hf : Takes (f a) more cost' b) :
    Takes (x >>= f) (bytes ++ more) (cost + cost') b := by
  intro reader tail hrest hfits
  obtain ⟨hspan, hstrings, hentries⟩ := hfits
  rw [List.length_append] at hspan
  rw [Prod.fst_add] at hstrings
  rw [Prod.snd_add] at hentries
  have hfirst := hx reader (more ++ tail) (by rw [hrest, List.append_assoc])
    ⟨by omega, by omega, by omega⟩
  have hsecond := hf (reader.after (more ++ tail) bytes.length cost) tail rfl
    ⟨by simp only [Reader.after]; omega, by simp only [Reader.after]; omega,
      by simp only [Reader.after]; omega⟩
  rw [run_bind_ok hfirst, hsecond]
  simp only [Reader.after, List.length_append, Prod.fst_add, Prod.snd_add, Nat.add_assoc]

theorem silent {x : Scanner α} {f : α → Scanner β} {bytes : Bytes} {cost cost' : Cost} {a : α}
    {b : β} (hx : Takes x [] cost a) (hf : Takes (f a) bytes cost' b) :
    Takes (x >>= f) bytes (cost + cost') b :=
  hx.bind hf

theorem map {x : Scanner α} {f : α → β} {bytes : Bytes} {cost : Cost} {a : α}
    (hx : Takes x bytes cost a) : Takes (x >>= fun a => Pure.pure (f a)) bytes cost (f a) := by
  have h := hx.bind (f := fun a => Pure.pure (f a)) (Takes.pure (f a))
  rwa [List.append_nil, add_zero] at h

theorem of_length {x : Scanner α} {bytes : Bytes} {cost : Cost} {a : α}
    (h : bytes.length ≤ MAX_HEADER_SPAN → Takes x bytes cost a) : Takes x bytes cost a := by
  intro reader tail hrest hfits
  exact h (by have := hfits.1; omega) reader tail hrest hfits

theorem withoutBudget {x : Scanner α} {bytes : Bytes} {cost : Cost} {a : α}
    (hx : Takes x bytes cost a) : Takes (Gguf.withoutBudget x) bytes cost a := by
  intro reader tail hrest hfits
  rw [Gguf.withoutBudget, hx reader tail hrest hfits]

theorem loopM {step : α → Scanner α} {encode : β → Bytes} {cost : β → Cost} {apply : α → β → α}
    {xs : List β} (hstep : ∀ a, ∀ x ∈ xs, Takes (step a) (encode x) (cost x) (apply a x)) (a : α) :
    Takes (AioLM.loopM step xs.length a) (xs.flatMap encode) (xs.map cost).sum
      (xs.foldl apply a) := by
  induction xs generalizing a with
  | nil => exact Takes.pure a
  | cons x xs ih =>
    rw [List.flatMap_cons, List.map_cons, List.sum_cons]
    exact (hstep a x List.mem_cons_self).bind
      (ih (fun a y hy => hstep a y (List.mem_cons_of_mem _ hy)) (apply a x))

theorem collectM {x : Scanner α} {encode : β → Bytes} {cost : β → Cost} {value : β → α}
    {xs : List β} (hx : ∀ y ∈ xs, Takes x (encode y) (cost y) (value y)) :
    Takes (AioLM.collectM x xs.length) (xs.flatMap encode) (xs.map cost).sum (xs.map value) := by
  induction xs with
  | nil => exact Takes.pure []
  | cons y ys ih =>
    rw [List.flatMap_cons, List.map_cons, List.sum_cons]
    exact (hx y List.mem_cons_self).bind (ih fun z hz => hx z (List.mem_cons_of_mem _ hz)).map

theorem bytes {n : Nat} {found : Bytes} (h : found.length = n) :
    Takes (Gguf.bytes n) found 0 found := by
  intro reader tail hrest hfits
  obtain ⟨hspan, -, -⟩ := hfits
  subst h
  have haccount : reader.account found.length =
      .ok { reader with consumed := reader.consumed + found.length } := if_pos hspan
  have hlength : found.length ≤ (found ++ tail).length := by
    rw [List.length_append]
    exact Nat.le_add_right _ _
  have hrun : Gguf.account found.length { reader := reader } = .ok ((), { reader :=
      { reader with consumed := reader.consumed + found.length } }) := by
    simp only [Gguf.account, onReader, haccount]
  rw [Gguf.bytes, run_bind_ok hrun]
  simp only [readExact, hrest, if_pos hlength, List.take_left, List.drop_left]
  rfl

theorem u32Bytes {found : Bytes} (h : found.length = 4) : Takes Gguf.u32 found 0 (leValue found) :=
  (bytes h).map

theorem u64Bytes {found : Bytes} (h : found.length = 8) : Takes Gguf.u64 found 0 (leValue found) :=
  (bytes h).map

theorem u32 {n : Nat} (h : n < 256 ^ 4) : Takes Gguf.u32 (leBytes 4 n) 0 n := by
  have htakes := u32Bytes (length_leBytes 4 n)
  rwa [leValue_leBytes h] at htakes

theorem u64 {n : Nat} (h : n < 256 ^ 8) : Takes Gguf.u64 (leBytes 8 n) 0 n := by
  have htakes := u64Bytes (length_leBytes 8 n)
  rwa [leValue_leBytes h] at htakes

theorem skip {n : Nat} {found : Bytes} (h : found.length = n) :
    Takes (Gguf.skip n) found 0 () := by
  refine of_length fun hbound => ?_
  intro reader tail hrest hfits
  obtain ⟨hspan, -, -⟩ := hfits
  subst h
  have haccount : reader.account found.length =
      .ok { reader with consumed := reader.consumed + found.length } := if_pos hspan
  have hsmall : found.length < 2 ^ 63 := by
    have : MAX_HEADER_SPAN < 2 ^ 63 := by decide
    omega
  have hrun : Gguf.account found.length { reader := reader } = .ok ((), { reader :=
      { reader with consumed := reader.consumed + found.length } }) := by
    simp only [Gguf.account, onReader, haccount]
  rw [Gguf.skip, if_pos hsmall, run_bind_ok hrun]
  simp only [seekRelative, onReader, hrest, List.drop_left]
  rfl

theorem accountStrings (count : Nat) : Takes (Gguf.accountStrings count) [] (0, count) () := by
  intro reader tail hrest hfits
  have haccount : reader.accountStrings count =
      .ok { reader with stringEntries := reader.stringEntries + count } := if_pos hfits.2.2
  cases reader
  cases hrest
  simp only [Gguf.accountStrings, onReader, haccount]
  rfl

theorem accountPayload (length : Nat) : Takes (Gguf.accountPayload length) [] (length, 0) () := by
  intro reader tail hrest hfits
  have haccount : reader.accountPayload length =
      .ok { reader with strings := reader.strings + length } := if_pos hfits.2.1
  cases reader
  cases hrest
  simp only [Gguf.accountPayload, onReader, haccount]
  rfl

theorem rememberBudgetError (charge : StringBudget → Except Text StringBudget) :
    Takes (Gguf.rememberBudgetError charge) [] 0 () := by
  intro reader tail hrest _
  cases reader
  cases hrest
  rfl

theorem cost_eq {x : Scanner α} {bytes : Bytes} {cost cost' : Cost} {a : α}
    (h : Takes x bytes cost a) (heq : cost = cost') : Takes x bytes cost' a := heq ▸ h

theorem skipString (found : Bytes) :
    Takes (Gguf.u64 >>= Gguf.skip) (encodeString found) 0 () := by
  refine of_length fun hbound => ?_
  rw [encodeString, List.length_append, length_leBytes] at hbound
  have hsmall : found.length < 256 ^ 8 := by
    have : MAX_HEADER_SPAN < 256 ^ 8 := by decide
    omega
  exact (u64 hsmall).bind (skip rfl)

end Takes

def stringCost (bytes : Bytes) : Cost :=
  (if bytes.length > MAX_KEY_BYTES then 0 else bytes.length, 1)

namespace Takes

theorem stringPayload (found : Bytes) :
    Takes (Gguf.stringPayload found.length) found ((stringCost found).1, 0) (textValue found) := by
  unfold Gguf.stringPayload stringCost textValue
  split
  · exact (skip rfl).map
  · have hread := (bytes (rfl : found.length = _)).map (f := textOf)
    rw [Gguf.bytes, bind_assoc] at hread
    exact cost_eq (silent (accountPayload _) (silent (rememberBudgetError _) hread)) (by simp)

theorem stringWithBudget (found : Bytes) :
    Takes Gguf.stringWithBudget (encodeString found) (stringCost found) (textValue found) := by
  refine of_length fun hbound => ?_
  rw [encodeString, List.length_append, length_leBytes] at hbound
  have hsmall : found.length < 256 ^ 8 := by
    have : MAX_HEADER_SPAN < 256 ^ 8 := by decide
    omega
  exact cost_eq (silent (accountStrings 1) (bind (u64 hsmall)
    (silent (rememberBudgetError _) (stringPayload found)))) (by simp [stringCost])

theorem string (found : Bytes) :
    Takes Gguf.string (encodeString found) (stringCost found) (textValue found) :=
  (stringWithBudget found).withoutBudget

end Takes

theorem length_scalars {kind : ScalarKind} (elements : List (ScalarBytes kind)) :
    (elements.flatMap Subtype.val).length = kind.width * elements.length := by
  induction elements with
  | nil => rfl
  | cons element elements ih =>
    rw [List.flatMap_cons, List.length_append, ih, element.property, List.length_cons, Nat.mul_succ]
    omega

def Value.skipCost : Value → Cost
  | .texts elements => (0, elements.length)
  | _ => 0

namespace Takes

theorem skipScalars {kind : ScalarKind} {elements : List (ScalarBytes kind)}
    (h : elements.length ≤ MAX_ARRAY_LEN) :
    Takes (Gguf.skipArrayBodyWithBudget kind.code elements.length) (elements.flatMap Subtype.val) 0
      () := by
  have hwidth := kind.width_le
  have hsmall : kind.width * elements.length < 2 ^ 64 := by
    have hmul := Nat.mul_le_mul hwidth h
    have hlimit : 8 * MAX_ARRAY_LEN < 2 ^ 64 := by decide
    omega
  rw [Gguf.skipArrayBodyWithBudget, if_neg (Nat.not_lt.mpr h), kind.scalarWidth_code]
  simp only [if_pos hsmall]
  exact skip (length_scalars elements)

theorem skipTexts {elements : List Bytes} (h : elements.length ≤ MAX_ARRAY_LEN) :
    Takes (Gguf.skipArrayBodyWithBudget 8 elements.length) (elements.flatMap encodeString)
      (0, elements.length) () := by
  have hstep (u : Unit) (element : Bytes) (_ : element ∈ elements) :
      Takes (Gguf.u64 >>= Gguf.skip) (encodeString element) 0 u := skipString element
  have hloop := loopM hstep ()
  rw [Gguf.skipArrayBodyWithBudget, if_neg (Nat.not_lt.mpr h)]
  exact cost_eq (silent (accountStrings elements.length)
    (silent (rememberBudgetError _) hloop)) (by simp)

theorem skipValueWithBudget {value : Value} (h : value.Bounded) :
    Takes (Gguf.skipValueWithBudget value.code) value.encode value.skipCost () := by
  cases value with
  | scalar kind bytes =>
    rw [Gguf.skipValueWithBudget, Value.code, kind.scalarWidth_code]
    exact skip bytes.property
  | text bytes => exact skipString bytes
  | scalars kind elements =>
    have hcount : elements.length < 256 ^ 8 := Nat.lt_of_le_of_lt h (by decide)
    have hbody := bind (u64 hcount) (skipScalars h)
    exact bind (f := fun element => Gguf.u64 >>= Gguf.skipArrayBodyWithBudget element)
      (u32 kind.code_lt) hbody
  | texts elements =>
    have hcount : elements.length < 256 ^ 8 := Nat.lt_of_le_of_lt h (by decide)
    exact cost_eq (bind (u32 (by decide)) (bind (u64 hcount) (skipTexts h)))
      (by simp [Value.skipCost])

theorem skipValue {value : Value} (h : value.Bounded) :
    Takes (Gguf.skipValue value.code) value.encode value.skipCost () :=
  (skipValueWithBudget h).withoutBudget

theorem readUnsigned {value : Value} (h : value.Bounded) :
    Takes (Gguf.readUnsigned value.code) value.encode value.skipCost value.asUnsigned := by
  cases value with
  | scalar kind bytes =>
    have hwidth := bytes.property
    cases kind with
    | u32 => exact (u32Bytes hwidth).map
    | u64 => exact (u64Bytes hwidth).map
    | i32 => exact (Takes.bytes hwidth).map
    | i64 => exact (Takes.bytes hwidth).map
    | _ => exact (skipValue h).map
  | _ => exact (skipValue h).map

theorem readIntegerWithBudget {value : Value} (h : value.Bounded) :
    Takes (Gguf.readIntegerWithBudget value.code) value.encode value.skipCost value.asInteger := by
  cases value with
  | scalar kind bytes =>
    have hwidth := bytes.property
    cases kind with
    | u32 => exact (u32Bytes hwidth).map
    | u64 => exact (u64Bytes hwidth).map
    | f32 => exact (skipValueWithBudget h).map
    | f64 => exact (skipValueWithBudget h).map
    | _ => exact (Takes.bytes hwidth).map
  | _ => exact (skipValueWithBudget h).map

end Takes

/-- Strings of an array that are read are held too. -/
def Value.textsCost : Value → Cost
  | .texts elements => (elements.map stringCost).sum
  | value => value.skipCost

namespace Takes

theorem readElement {kind : ScalarKind} (element : ScalarBytes kind) :
    Takes (Gguf.readInteger kind.code) element.val 0 (kind.integer element.val) :=
  have hbounded : (Value.scalar kind element).Bounded := trivial
  (readIntegerWithBudget hbounded).withoutBudget

theorem readScalars {kind : ScalarKind} {elements : List (ScalarBytes kind)}
    (h : elements.length ≤ MAX_ARRAY_LEN) :
    Takes (Gguf.readRawArray kind.code elements.length) (elements.flatMap Subtype.val) 0
      (Value.scalars kind elements).asRaw := by
  unfold Gguf.readRawArray
  by_cases hread : isIntegerKind kind.code = true ∧ elements.length ≤ MAX_MODEL_LAYERS
  · have hcond : (!isIntegerKind kind.code || decide (elements.length > MAX_MODEL_LAYERS)) =
        false := by
      simp [hread.1, hread.2]
    have hall := collectM (fun element (_ : element ∈ elements) => readElement element)
    have hvalues : (elements.map fun element => kind.integer element.val).mapM id =
        elements.mapM fun element => kind.integer element.val := by
      rw [List.mapM_map]
      rfl
    rw [hcond, if_neg (by decide), Value.asRaw, if_pos hread, ← hvalues]
    exact cost_eq hall.map (by simp)
  · have hcond : (!isIntegerKind kind.code || decide (elements.length > MAX_MODEL_LAYERS)) =
        true := by
      simp only [Bool.or_eq_true, Bool.not_eq_true', decide_eq_true_eq]
      rw [not_and_or, Bool.not_eq_true, Nat.not_le] at hread
      exact hread
    rw [hcond, if_pos rfl, Value.asRaw, if_neg hread]
    exact (skipScalars h).map

theorem readRawWithBudget {value : Value} (h : value.Bounded) :
    Takes (Gguf.readRawWithBudget value.code) value.encode value.skipCost value.asRaw := by
  cases value with
  | scalar kind bytes =>
    have hkind : kind.code ≠ 9 := by cases kind <;> decide
    rw [Gguf.readRawWithBudget, Value.code, if_pos hkind]
    exact (readIntegerWithBudget h).map
  | text bytes => exact (readIntegerWithBudget h).map
  | scalars kind elements =>
    have hcount : elements.length < 256 ^ 8 := Nat.lt_of_le_of_lt h (by decide)
    exact bind (f := fun element => Gguf.u64 >>= Gguf.readRawArray element) (u32 kind.code_lt)
      (bind (u64 hcount) (readScalars h))
  | texts elements =>
    have hcount : elements.length < 256 ^ 8 := Nat.lt_of_le_of_lt h (by decide)
    exact cost_eq (bind (u32 (by decide)) (bind (u64 hcount) (skipTexts h).map))
      (by simp [Value.skipCost])

theorem skipStrings {kind : ScalarKind} {elements : List (ScalarBytes kind)}
    (h : elements.length ≤ MAX_ARRAY_LEN) :
    Takes (Gguf.readStrings kind.code elements.length) (elements.flatMap Subtype.val) 0 [] := by
  have hwidth := kind.width_le
  have hsmall : elements.length * kind.width < 2 ^ 64 := by
    have hmul := Nat.mul_le_mul h hwidth
    have hlimit : MAX_ARRAY_LEN * 8 < 2 ^ 64 := by decide
    omega
  rw [Gguf.readStrings, if_neg (Nat.not_lt.mpr h), kind.scalarWidth_code]
  simp only [if_pos hsmall]
  exact (skip (by rw [length_scalars, Nat.mul_comm])).map

theorem readStrings {elements : List Bytes} (h : elements.length ≤ MAX_ARRAY_LEN) :
    Takes (Gguf.readStrings 8 elements.length) (elements.flatMap encodeString)
      (elements.map stringCost).sum (Value.texts elements).asTexts := by
  have helement (element : Bytes) (_ : element ∈ elements) :
      Takes (Gguf.readStringElement 8) (encodeString element) (stringCost element)
        (if Text.trim (textValue element) ≠ [] then some (textValue element) else none) :=
    (string element).map
  have hvalues : (elements.map fun element => if Text.trim (textValue element) ≠ [] then
      some (textValue element) else none).filterMap id = (Value.texts elements).asTexts := by
    rw [Value.asTexts, ← List.filterMap_eq_filter, List.filterMap_map, List.filterMap_map]
    congr 1
    funext element
    simp [Option.guard]
  rw [Gguf.readStrings, if_neg (Nat.not_lt.mpr h), ← hvalues]
  exact (collectM helement).map

theorem readStringArray {value : Value} (h : value.Bounded) :
    Takes (Gguf.readStringArray value.code) value.encode value.textsCost value.asTexts := by
  cases value with
  | scalar kind bytes =>
    have hkind : kind.code ≠ 9 := by cases kind <;> decide
    rw [Gguf.readStringArray, Value.code, if_pos hkind]
    exact (skipValue h).map
  | text bytes => exact (skipValue h).map
  | scalars kind elements =>
    have hcount : elements.length < 256 ^ 8 := Nat.lt_of_le_of_lt h (by decide)
    exact bind (f := fun element => Gguf.u64 >>= Gguf.readStrings element) (u32 kind.code_lt)
      (bind (u64 hcount) (skipStrings h))
  | texts elements =>
    have hcount : elements.length < 256 ^ 8 := Nat.lt_of_le_of_lt h (by decide)
    exact cost_eq (bind (u32 (by decide)) (bind (u64 hcount) (readStrings h)))
      (by simp [Value.textsCost])

end Takes

end AioLM.Gguf
