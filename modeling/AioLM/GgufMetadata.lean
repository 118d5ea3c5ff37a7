import AioLM.Gguf
import AioLM.KeyMap
import Mathlib.Data.Char
import Mathlib.Data.List.Lex

/-!
The descriptive part of a GGUF header, for display.
-/

set_option autoImplicit false

namespace AioLM.Gguf

/-- What the header itself fills: the two repository fields a caller adds later
are left out. -/
structure ModelMetadata where
  author : Option Text := none
  organization : Option Text := none
  quantizedBy : Option Text := none
  repoUrl : Option Text := none
  contextLength : Option Nat := none
  architecture : Option Text := none
  sizeLabel : Option Text := none
  quantization : Option Text := none
  modelType : Option Text := none
  finetune : Option Text := none
  license : Option Text := none
  tags : List Text := []
  languages : List Text := []
  expertCount : Option Nat := none
  expertUsedCount : Option Nat := none

def readStringElement (element : Nat) : Scanner (Option Text) :=
  if element = 8 then do
    let value ← string
    return if Text.trim value ≠ [] then some value else none
  else do
    skipValue element
    return none

/-- The strings of an array that are not blank; arrays of scalars are stepped over. -/
def readStrings (element count : Nat) : Scanner (List Text) :=
  if count > MAX_ARRAY_LEN then fail implausibleArray
  else
    match scalarWidth element with
    | some width =>
      if count * width < 2 ^ 64 then do
        skip (count * width)
        return []
      else fail "GGUF array size overflow".toList
    | none =>
      if element = 9 then fail "unsupported GGUF nested array".toList
      else do
        let values ← collectM (readStringElement element) count
        return values.filterMap id

def readStringArray (kind : Nat) : Scanner (List Text) :=
  if kind ≠ 9 then do
    skipValue kind
    return []
  else do
    let element ← u32
    let count ← u64
    readStrings element count

def fileTypeLabels : List (Nat × String) :=
  [(0, "F32"), (1, "F16"), (2, "Q4_0"), (3, "Q4_1"), (7, "Q8_0"), (8, "Q5_0"), (9, "Q5_1"),
    (10, "Q2_K"), (11, "Q3_K_S"), (12, "Q3_K_M"), (13, "Q3_K_L"), (14, "Q4_K_S"), (15, "Q4_K_M"),
    (16, "Q5_K_S"), (17, "Q5_K_M"), (18, "Q6_K"), (19, "IQ2_XXS"), (20, "IQ2_XS"), (21, "Q2_K_S"),
    (22, "IQ3_XS"), (23, "IQ3_XXS"), (24, "IQ1_S"), (25, "IQ4_NL"), (26, "IQ3_S"), (27, "IQ3_M"),
    (28, "IQ2_S"), (29, "IQ2_M"), (30, "IQ4_XS"), (31, "IQ1_M"), (32, "BF16"), (36, "TQ1_0"),
    (37, "TQ2_0"), (38, "MXFP4_MOE"), (39, "NVFP4"), (40, "Q1_0"), (41, "Q2_0")]

def fileTypeLabel (value : Nat) : Option Text := (fileTypeLabels.lookup value).map String.toList

/-- The label of a file type that fits `u32`. -/
def quantizationOf (value : Option Nat) : Option Text :=
  (value.filter fun n => n < 2 ^ 32).bind fileTypeLabel

def architectureName : Text := "general.architecture".toList
def sizeLabelKey : Text := "general.size_label".toList
def modelTypeKey : Text := "general.type".toList
def finetuneKey : Text := "general.finetune".toList
def licenseKey : Text := "general.license".toList
def authorKey : Text := "general.author".toList
def organizationKey : Text := "general.organization".toList
def quantizedByKey : Text := "general.quantized_by".toList
def repoUrlKey : Text := "general.repo_url".toList

def textKeys : List Text :=
  [architectureName, sizeLabelKey, modelTypeKey, finetuneKey, licenseKey, authorKey,
    organizationKey, quantizedByKey, repoUrlKey]

def ModelMetadata.setText (key : Text) (value : Option Text) (metadata : ModelMetadata) :
    ModelMetadata :=
  if key = architectureName then { metadata with architecture := value }
  else if key = sizeLabelKey then { metadata with sizeLabel := value }
  else if key = modelTypeKey then { metadata with modelType := value }
  else if key = finetuneKey then { metadata with finetune := value }
  else if key = licenseKey then { metadata with license := value }
  else if key = authorKey then { metadata with author := value }
  else if key = organizationKey then { metadata with organization := value }
  else if key = quantizedByKey then { metadata with quantizedBy := value }
  else { metadata with repoUrl := value }

/-- Values of architecture keys wait until the architecture is known. -/
structure MetadataScan where
  metadata : ModelMetadata := {}
  architectureValues : KeyMap Text Nat := KeyMap.empty

def architectureSuffixes : List Text :=
  [".context_length", ".expert_count", ".expert_used_count"].map String.toList

def isArchitectureKey (key : Text) : Bool :=
  architectureSuffixes.any fun suffix => suffix.isSuffixOf key

def fileTypeKey : Text := "general.file_type".toList
def tagsKey : Text := "general.tags".toList
def languagesKey : Text := "general.languages".toList

def MetadataScan.insertValue (key : Text) (value : Option Nat) (scan : MetadataScan) :
    MetadataScan :=
  match value with
  | some value => { scan with architectureValues := scan.architectureValues.insert key value }
  | none => scan

def readMetadataValue (scan : MetadataScan) (key : Text) (kind : Nat) : Scanner MetadataScan :=
  if key ∈ textKeys then
    if kind = 8 then do
      let value ← string
      return { scan with metadata := scan.metadata.setText key (some value) }
    else do
      skipValue kind
      return scan
  else if key = fileTypeKey then do
    let value ← readUnsigned kind
    return { scan with metadata := { scan.metadata with quantization := quantizationOf value } }
  else if key = tagsKey ∨ key = languagesKey then do
    let values ← readStringArray kind
    return { scan with metadata :=
      if key = tagsKey then { scan.metadata with tags := values }
      else { scan.metadata with languages := values } }
  else if isArchitectureKey key then do
    let value ← readUnsigned kind
    return scan.insertValue key value
  else do
    skipValue kind
    return scan

def readMetadataEntry (scan : MetadataScan) : Scanner MetadataScan := do
  let key ← string
  let kind ← u32
  readMetadataValue scan key kind

def architectureKey (architecture : Text) (suffix : String) : Text :=
  architecture ++ '.' :: suffix.toList

def MetadataScan.finish (scan : MetadataScan) : ModelMetadata :=
  match scan.metadata.architecture with
  | none => scan.metadata
  | some architecture =>
    let value (suffix : String) := scan.architectureValues.get (architectureKey architecture suffix)
    { scan.metadata with
      contextLength := (value "context_length").filter fun n => 0 < n
      expertCount := value "expert_count"
      expertUsedCount := value "expert_used_count" }

def readMetadataEntries : Nat × Nat → Scanner ModelMetadata :=
  fun (_, keys) => do return (← loopM readMetadataEntry keys {}).finish

def readMetadata (file : Bytes) : Except Text ModelMetadata :=
  scanFile (readHeader >>= readMetadataEntries) file

end AioLM.Gguf
