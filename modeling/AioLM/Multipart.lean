import AioLM.Fallible
import AioLM.Json
import AioLM.KeyMap
import AioLM.Search
import AioLM.TextBytes
import Mathlib.Data.Char
import Mathlib.Data.List.Lex

/-!
Bounded audio forms. The upload is arbitrary bytes between two markers; the text
fields become a map that an adapter may replace before the form is sent on.
-/

set_option autoImplicit false

namespace AioLM.Gateway

open Fallible Search TextBytes

def maxParts : Nat := 32
def maxPartHeaders : Nat := 8192
def maxTextBytes : Nat := 64 * 1024

structure AudioForm where
  boundary : Text
  fileHeaders : Bytes
  file : Bytes
  fields : KeyMap Text Json

def dashes : Bytes := ascii "--"
def stampsField : Text := "timestamp_granularities".toList
def stampsPart : Text := "timestamp_granularities[]".toList
def fileField : Text := "file".toList

def parametersFrom : Bool → Bool → Text → Text → Option (List Text)
  | quoted, escaped, part, [] => if quoted || escaped then none else some [part.trim]
  | quoted, escaped, part, c :: rest =>
    if escaped then parametersFrom quoted false (part ++ [c]) rest
    else if quoted ∧ c = '\\' then parametersFrom quoted true (part ++ [c]) rest
    else if c = '"' then parametersFrom (!quoted) false (part ++ [c]) rest
    else if c = ';' ∧ !quoted then (parametersFrom false false [] rest).map (part.trim :: ·)
    else parametersFrom quoted false (part ++ [c]) rest

def parameters (value : Text) : Except Text (List Text) :=
  orError (parametersFrom false false [] value) "malformed multipart parameter".toList

def unescape : Text → Except Text Text
  | [] => .ok []
  | '\\' :: [] => .error "malformed parameter escape".toList
  | '\\' :: c :: rest => do return c :: (← unescape rest)
  | c :: rest => do return c :: (← unescape rest)

def unquoteParameter (value : Text) : Except Text Text :=
  match Text.stripPrefix ['"'] value with
  | none => .ok value
  | some inner => do
    let inner ← orError (Text.stripSuffix ['"'] inner) "malformed quoted parameter".toList
    unescape inner

def parameterFrom (key : Text) : Option Text → List Text → Except Text (Option Text)
  | result, [] => .ok result
  | result, part :: parts =>
    match Text.splitOnce '=' part with
    | none => .error "malformed multipart parameter".toList
    | some (name, value) =>
      if name.trim.eqIgnoreAsciiCase key then do
        require (result.isNone) ("duplicate multipart ".toList ++ key)
        let value ← unquoteParameter value.trim
        parameterFrom key (some value) parts
      else parameterFrom key result parts

def parameter (parts : List Text) (key : Text) : Except Text (Option Text) :=
  parameterFrom key none parts.tail

def boundaryChar (c : Char) : Bool := c.isAlphanum || "'()+_,-./:=?".toList.contains c

def boundaryFits (boundary : Text) : Bool :=
  !boundary.isEmpty && decide (boundary.utf8Len ≤ 70) && boundary.all boundaryChar

def fieldChar (c : Char) : Bool := c.isAlphanum || "_[]".toList.contains c

def fieldFits (name : Text) : Bool :=
  !name.isEmpty && decide (name.utf8Len ≤ 128) && name.all fieldChar

def readHeaderLine (disposition : Option (List Text)) (line : Text) :
    Except Text (Option (List Text)) :=
  match Text.splitOnce ':' line with
  | none => .error "malformed multipart part header".toList
  | some (key, value) =>
    if key.eqIgnoreAsciiCase "content-disposition".toList then do
      require (disposition.isNone) "duplicate multipart disposition".toList
      return some (← parameters value.trim)
    else .ok disposition

/-- The name of a part and its disposition. -/
def readHeaders (headers : Bytes) : Except Text (Text × List Text) := do
  let head ← orError (decode headers) "multipart headers are not UTF-8".toList
  let disposition ← (Text.splitCrlf head).foldlM readHeaderLine none
  let disposition ← orError disposition "multipart disposition is missing".toList
  require ((disposition.headD []).eqIgnoreAsciiCase "form-data".toList)
    "multipart disposition must be form-data".toList
  let name ← orError (← parameter disposition "name".toList)
    "multipart field name is missing".toList
  require (fieldFits name) "invalid multipart field name".toList
  return (name, disposition)

def marker (boundary : Bytes) : Bytes := crlf ++ dashes ++ boundary

def endsPart (after : Bytes) : Bool := crlf.isPrefixOf after || dashes.isPrefixOf after

theorem marker_length_pos (boundary : Bytes) : 0 < (marker boundary).length := by
  simp only [marker, List.length_append]
  exact Nat.lt_of_lt_of_le (by decide : 0 < crlf.length) (by omega)

set_option linter.unusedVariables false in
/-- The payload of a part and what follows its marker. The scan goes on behind a
marker that ends no part. -/
def takePayload (boundary bytes : Bytes) : Option (Bytes × Bytes) :=
  match h : find (marker boundary) bytes with
  | none => none
  | some offset =>
    let suffix := offset + (marker boundary).length
    if endsPart (bytes.drop suffix) then some (bytes.take offset, bytes.drop suffix)
    else (takePayload boundary (bytes.drop suffix)).map fun r => (bytes.take suffix ++ r.1, r.2)
termination_by bytes.length
decreasing_by
  have hlength := congrArg List.length (find_split h)
  have hmarker := marker_length_pos boundary
  simp only [List.length_append, List.length_take, List.length_drop] at hlength ⊢
  omega

structure Parts where
  names : List Text
  fields : KeyMap Text Json
  /-- The headers and the content of the file. -/
  file : Option (Bytes × Bytes)

def pushText (text : Text) (value : Option Json) : Json :=
  .array ((value.bind Json.asArray).getD [] ++ [.string text])

def Parts.addText (seen : Parts) (name text : Text) : Except Text Parts :=
  if name = stampsPart then .ok
    { seen with names := name :: seen.names, fields := seen.fields.alter stampsField (pushText text) }
  else do
    require (name ≠ stampsField) "use timestamp_granularities[] for timestamp fields".toList
    return { seen with names := name :: seen.names, fields := seen.fields.insert name (.string text) }

def Parts.add (seen : Parts) (name : Text) (headers value : Bytes) (filename : Option Text) :
    Except Text Parts :=
  if name = fileField then do
    require (filename.isSome ∧ value ≠ [])
      "audio file must have a filename and nonempty content".toList
    return { seen with names := name :: seen.names, file := some (headers, value) }
  else do
    require (filename.isNone ∧ value.length ≤ maxTextBytes)
      "audio form text field is a file or exceeds its size limit".toList
    let text ← orError (decode value) "audio form field is not UTF-8".toList
    seen.addText name text

def readPart (boundary : Bytes) (seen : Parts) (bytes : Bytes) : Except Text (Parts × Bytes) := do
  let headerEnd ← orError ((find blankLine bytes).filter (· ≤ maxPartHeaders))
    "multipart part headers are missing or too large".toList
  let headers := bytes.take headerEnd
  let (name, disposition) ← readHeaders headers
  require (name ∉ seen.names ∨ name = stampsPart) ("duplicate audio form field: ".toList ++ name)
  let (value, after) ← orError (takePayload boundary (bytes.drop (headerEnd + 4)))
    "multipart closing boundary is missing".toList
  let filename ← parameter disposition "filename".toList
  let seen ← seen.add name headers value filename
  return (seen, after)

def readParts (boundary : Bytes) : Nat → Parts → Bytes → Except Text Parts
  | 0, _, _ => .error "audio form has too many parts".toList
  | n + 1, seen, bytes => do
    let (seen, after) ← readPart boundary seen bytes
    if dashes.isPrefixOf after then
      require (after.drop 2 = [] ∨ after.drop 2 = crlf)
        "unexpected data after multipart closing boundary".toList
      return seen
    else readParts boundary n seen (after.drop 2)

namespace AudioForm

def parse (contentType : Text) (bytes : Bytes) : Except Text AudioForm := do
  let params ← parameters contentType
  require ((params.headD []).eqIgnoreAsciiCase "multipart/form-data".toList)
    "audio requests require multipart/form-data".toList
  let boundary ← orError (← parameter params "boundary".toList)
    "multipart boundary is missing".toList
  require (boundaryFits boundary) "invalid multipart boundary".toList
  let first := dashes ++ encode boundary ++ crlf
  require (first.isPrefixOf bytes) "multipart opening boundary is missing".toList
  let parts ← readParts (encode boundary) maxParts ⟨[], .empty, none⟩ (bytes.drop first.length)
  let file ← orError parts.file "audio form file is missing".toList
  return ⟨boundary, file.1, file.2, parts.fields⟩

def contentType (form : AudioForm) : Text :=
  "multipart/form-data; boundary=".toList ++ form.boundary

end AudioForm

def adaptedValues (name : Text) (value : Json) : Except Text (List Json) :=
  match value with
  | .array values =>
    if name = stampsField then .ok values
    else .error "audio form contains an invalid adapted field".toList
  | .object _ | .null => .error "audio form contains an invalid adapted field".toList
  | value => .ok [value]

def partName (name : Text) : Text := if name = stampsField then stampsPart else name

def fieldText (floatText : Float → Text) (value : Json) : Text :=
  value.asStr.getD (value.compact floatText)

def textHeaders (field : Text) : Bytes :=
  ascii "Content-Disposition: form-data; name=\"" ++ encode field ++ ascii "\""

def encodeText (boundary : Bytes) (field text : Text) : Except Text Bytes := do
  require ((find boundary (encode text)).isNone)
    "audio text field contains its multipart boundary".toList
  return dashes ++ boundary ++ crlf ++ textHeaders field ++ blankLine ++ encode text ++ crlf

def encodeField (floatText : Float → Text) (boundary : Bytes) (field : Text × Json) :
    Except Text Bytes := do
  let values ← adaptedValues field.1 field.2
  let parts ← values.mapM fun value =>
    encodeText boundary (partName field.1) (fieldText floatText value)
  return parts.flatten

def AudioForm.encode (floatText : Float → Text) (form : AudioForm) : Except Text Bytes := do
  let boundary := TextBytes.encode form.boundary
  let fields ← form.fields.entries.mapM (encodeField floatText boundary)
  return fields.flatten ++ dashes ++ boundary ++ crlf ++ form.fileHeaders ++ blankLine ++
    form.file ++ crlf ++ dashes ++ boundary ++ dashes ++ crlf

end AioLM.Gateway
