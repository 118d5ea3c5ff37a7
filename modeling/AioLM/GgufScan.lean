import AioLM.GgufMetadata
import AioLM.Saturating

/-!
The facts of a GGUF header that size a launch: the hyperparameters under the
architecture's own keys and the bytes of the tensors behind them. The same scan
can collect the type of every tensor.
-/

set_option autoImplicit false

namespace AioLM.Gguf

def MAX_TENSORS : Nat := 2 ^ 20
def MAX_TENSOR_NAME_BYTES : Nat := 256
def MAX_TENSOR_DIMS : Nat := 4
def MAX_MODEL_LAYERS : Nat := 4096
def DEFAULT_ALIGNMENT : Nat := 32

def FACT_SUFFIXES : List String :=
  ["block_count", "nextn_predict_layers", "context_length", "embedding_length", "vocab_size",
    "feed_forward_length", "expert_feed_forward_length", "expert_shared_feed_forward_length",
    "expert_used_count", "attention.head_count", "attention.head_count_kv",
    "attention.key_length", "attention.value_length", "attention.sliding_window",
    "attention.kv_lora_rank", "attention.recurrent_layers", "full_attention_interval",
    "ssm.conv_kernel", "ssm.inner_size", "ssm.state_size", "ssm.group_count",
    "attention.indexer.key_length", "hyper_connection.count", "ple.layers", "ple.conv_kernel",
    "ple.ngram_size"]

def factSuffixes : List Text := FACT_SUFFIXES.map String.toList

def RECURRENT_KEYS : List String :=
  ["ssm.", "wkv.", "shortconv.", "time_mix_extra_dim", "time_decay_extra_dim"]

inductive PerLayer where
  | uniform (value : Nat)
  | layers (values : List Nat)

structure LayerBytes where
  experts : Nat := 0
  denseFfn : Nat := 0
  other : Nat := 0

structure TensorBytes where
  input : Nat := 0
  perLayerTokenEmbd : Nat := 0
  tokenEmbd : Nat := 0
  output : Nat := 0
  layers : List LayerBytes := []
  hasOutputWeight : Bool := false
  vocab : Option Nat := none

structure ModelFacts where
  architecture : Option Text := none
  blockCount : Option Nat := none
  nextnLayers : Option Nat := none
  contextLength : Option Nat := none
  embeddingLength : Option Nat := none
  vocabSize : Option Nat := none
  feedForwardLength : Option PerLayer := none
  expertFeedForwardLength : Option PerLayer := none
  expertSharedFeedForwardLength : Option Nat := none
  expertUsedCount : Option PerLayer := none
  headCount : Option PerLayer := none
  headCountKv : Option PerLayer := none
  keyLength : Option Nat := none
  valueLength : Option Nat := none
  slidingWindow : Option Nat := none
  kvLoraRank : Option Nat := none
  recurrentState : Bool := false
  recurrentLayers : Option PerLayer := none
  fullAttentionInterval : Option Nat := none
  ssmConvKernel : Option Nat := none
  ssmInnerSize : Option Nat := none
  ssmStateSize : Option Nat := none
  ssmGroupCount : Option Nat := none
  indexerKeyLength : Option Nat := none
  hyperConnections : Option Nat := none
  pleLayers : List Nat := []
  pleConvKernel : Option Nat := none
  pleNgramSize : Option Nat := none
  splitCount : Option Nat := none
  tensors : Option TensorBytes := none

inductive RawValue where
  | int (value : Nat)
  | ints (values : List Nat)

def isIntegerKind (element : Nat) : Bool := element ≤ 5 || element ∈ [7, 10, 11]

def readRawArray (element count : Nat) : Scanner (Option RawValue) :=
  if !isIntegerKind element || count > MAX_MODEL_LAYERS then do
    skipArrayBodyWithBudget element count
    return none
  else do
    let values ← collectM (readInteger element) count
    return (values.mapM id).map RawValue.ints

def readRawWithBudget (kind : Nat) : Scanner (Option RawValue) :=
  if kind ≠ 9 then do return (← readIntegerWithBudget kind).map RawValue.int
  else do
    let element ← u32
    let count ← u64
    readRawArray element count

inductive LayerPart where
  | experts
  | denseFfn
  | other

inductive TensorClass where
  | input
  | tokenEmbd
  | output
  | layer (il : Nat) (part : LayerPart)

def EXPERTS : List String :=
  [".ffn_up_exps", ".ffn_down_exps", ".ffn_gate_exps", ".ffn_gate_up_exps", ".ffn_up_chexps",
    ".ffn_down_chexps", ".ffn_gate_chexps", ".ffn_gate_up_chexps"]

def DENSE : List String := [".ffn_up.", ".ffn_down.", ".ffn_gate."]

def startsWithAny (parts : List String) (t : Text) : Bool :=
  parts.any fun part => part.toList.isPrefixOf t

def layerPart (tail : Text) : LayerPart :=
  if startsWithAny EXPERTS tail then .experts
  else if startsWithAny DENSE tail then .denseFfn
  else .other

def upToDot (t : Text) : Text := t.takeWhile fun c => c ≠ '.'

/-- A tensor of a layer: `blk.{il}.*` -/
def layerTensor (name : Text) : Option TensorClass := do
  let rest ← Text.stripPrefix "blk.".toList name
  let digits := upToDot rest
  let il ← (Text.parseUsize digits).filter fun il => il < MAX_MODEL_LAYERS
  return .layer il (layerPart (rest.drop digits.length))

def classifyTensor (name : Text) : TensorClass :=
  match layerTensor name with
  | some found => found
  | none =>
    if name = "token_embd.weight".toList then .tokenEmbd
    else if upToDot name ∈ ["token_embd", "position_embd", "token_types", "per_layer_token_embd",
        "masked_embd_centroids", "masked_embd_ordering"].map String.toList ∨
        "hrm.z_l_init".toList.isPrefixOf name then .input
    else .output

structure Placed where
  offset : Nat
  found : TensorClass
  perLayerTokenEmbd : Bool

/-- What the walk over the table carries along. The types are dropped at the
first error of the collecting scan. -/
structure TensorWalk where
  summary : TensorBytes := {}
  entries : List Placed := []
  tensorTypes : Option (List (Text × Nat)) := none

def emptyTable : Text := "GGUF has an empty or implausible tensor table".toList
def badOffsets : Text := "GGUF tensor table extends beyond the file or has invalid offsets".toList

def getTypeError : Scanner (Option Text) := fun s => .ok (s.typeError, s)

def setTypeError (message : Text) : Scanner Unit := fun s =>
  .ok ((), { s with typeError := s.typeError.or (some message) })

def tensorFault (name : Text) (dims : Nat) (hasEmptyDimension : Bool) : Option Text :=
  if name = [] ∨ Text.utf8Len name > MAX_TENSOR_NAME_BYTES then
    some "GGUF tensor name is empty or implausibly long".toList
  else if dims = 0 then some "GGUF tensor declares invalid dimensions".toList
  else if hasEmptyDimension then some "GGUF tensor declares an empty dimension".toList
  else none

def perLayerTokenEmbdName : Text := "per_layer_token_embd.weight".toList

/-- The vocabulary is the second dimension of the first of the two tables. -/
def TensorBytes.note (name : Text) (shape : List Nat) (summary : TensorBytes) : TensorBytes :=
  let isOutput := name = "output.weight".toList
  let isTable := name = "token_embd.weight".toList ∨ isOutput
  { summary with
    hasOutputWeight := summary.hasOutputWeight || isOutput
    vocab := if isTable ∧ shape.length ≥ 2 then summary.vocab.or shape[1]? else summary.vocab }

def readTensorName : Scanner Bytes := do
  let length ← u64
  if length > MAX_TENSOR_NAME_BYTES then fail "GGUF tensor name is implausibly long".toList
  else
    account length
    readExact length

def readShape : Scanner (List Nat) := do
  let dims ← u32
  if dims > MAX_TENSOR_DIMS then fail "GGUF tensor declares too many dimensions".toList
  else collectM u64 dims

def chargeTensorName (length : Nat) : Scanner Unit := do
  rememberBudgetError (StringBudget.accountEntries 1)
  if length ≤ MAX_KEY_BYTES then rememberBudgetError (StringBudget.accountPayload length)
  else pure ()

def pushType (name : Text) (shape : List Nat) (tensorType : Nat) :
    Option (List (Text × Nat)) → Scanner (Option (List (Text × Nat)))
  | none => pure none
  | some types =>
    match tensorFault name shape.length (shape.any fun dim => dim = 0) with
    | none => pure (some (types ++ [(name, tensorType)]))
    | some message => do
      setTypeError message
      pure none

/-- Only the dimensions a tensor declares are kept: the others are one. -/
def readTensor (walk : TensorWalk) : Scanner TensorWalk := do
  let buffer ← readTensorName
  chargeTensorName buffer.length
  let charged ← getTypeError
  let name := Utf8.lossy buffer
  let shape ← readShape
  let tensorType ← u32
  let offset ← u64
  let types ← pushType name shape tensorType (if charged.isSome then none else walk.tensorTypes)
  return {
    summary := walk.summary.note name shape
    entries := walk.entries ++ [⟨offset, classifyTensor name, name = perLayerTokenEmbdName⟩]
    tensorTypes := types }

def LayerBytes.add (part : LayerPart) (bytes : Nat) (layer : LayerBytes) : LayerBytes :=
  match part with
  | .experts => { layer with experts := saturatingAdd layer.experts bytes }
  | .denseFfn => { layer with denseFfn := saturatingAdd layer.denseFfn bytes }
  | .other => { layer with other := saturatingAdd layer.other bytes }

def TensorBytes.add (entry : Placed) (bytes : Nat) (summary : TensorBytes) : TensorBytes :=
  let summary :=
    if entry.perLayerTokenEmbd then
      { summary with perLayerTokenEmbd := saturatingAdd summary.perLayerTokenEmbd bytes }
    else summary
  match entry.found with
  | .input => { summary with input := saturatingAdd summary.input bytes }
  | .tokenEmbd => { summary with tokenEmbd := saturatingAdd summary.tokenEmbd bytes }
  | .output => { summary with output := saturatingAdd summary.output bytes }
  | .layer il part =>
    let layers : List LayerBytes :=
      summary.layers ++ List.replicate (il + 1 - summary.layers.length) {}
    { summary with layers := layers.modify il (LayerBytes.add part bytes) }

/-- Each tensor runs to the next offset, the last to the end of the file. -/
def sizeTensors (dataLen : Nat) : List Placed → TensorBytes → Option TensorBytes
  | [], summary => some summary
  | entry :: entries, summary =>
    let stop := (entries.head?.map Placed.offset).getD dataLen
    if dataLen ≤ entry.offset ∨ stop ≤ entry.offset then none
    else sizeTensors dataLen entries (summary.add entry (stop - entry.offset))

structure TensorScan where
  bytes : Option TensorBytes
  tensorTypes : Option (Except Text (List (Text × Nat)))

def getConsumed : Scanner Nat := fun s => .ok (s.reader.consumed, s)

def alignUp (n alignment : Nat) : Nat := (n + alignment - 1) / alignment * alignment

/-- The outcome for the types. The last case is the `expect` of the source: it
fails where types were asked for, no error was met and none are there. -/
def typesResult (collect : Bool) (valid : Bool) (error : Option Text)
    (types : Option (List (Text × Nat))) : Scanner (Option (Except Text (List (Text × Nat)))) :=
  if !collect then pure none
  else if !valid then pure (some (.error badOffsets))
  else
    match error, types with
    | some message, _ => pure (some (.error message))
    | none, some types => pure (some (.ok types))
    | none, none =>
      fail "tensor type collection remains available without an error".toList

/-- No types where none are asked for, where the scan of the keys has met an error
and where there is no tensor. -/
def startWalk (collectTensorTypes : Bool) (count : Nat) : Scanner TensorWalk := do
  let before ← getTypeError
  if !collectTensorTypes then return {}
  else if count = 0 then do
    setTypeError emptyTable
    return {}
  else return { tensorTypes := if before.isNone then some [] else none }

def readTensorBytes (count alignment fileLen : Nat) (collectTensorTypes : Bool) :
    Scanner TensorScan := do
  let start ← startWalk collectTensorTypes count
  let walk ← loopM readTensor count start
  let dataStart := alignUp (← getConsumed) alignment
  if 2 ^ 64 ≤ dataStart then fail "GGUF header declares an implausible data offset".toList
  else if fileLen < dataStart then
    return ⟨none, if collectTensorTypes then some (.error badOffsets) else none⟩
  else
    let sorted := walk.entries.mergeSort fun a b => a.offset ≤ b.offset
    let bytes := sizeTensors (fileLen - dataStart) sorted walk.summary
    let error ← getTypeError
    let types ← typesResult collectTensorTypes bytes.isSome error walk.tensorTypes
    return ⟨bytes, types⟩

/-- What the scan of the keys gathers. -/
structure FactScan where
  architecture : Option Text := none
  splitCount : Option Nat := none
  alignment : Nat := DEFAULT_ALIGNMENT
  values : KeyMap Text RawValue := KeyMap.empty
  recurrentPrefixes : List Text := []

def alignmentKey : Text := "general.alignment".toList
def splitCountKey : Text := "split.count".toList

def splitKey (key : Text) : Text × Text := (Text.splitOnce '.' key).getD (key, [])

def FactScan.notePrefix (key : Text) (scan : FactScan) : FactScan :=
  if startsWithAny RECURRENT_KEYS (splitKey key).2 then
    { scan with recurrentPrefixes := (splitKey key).1 :: scan.recurrentPrefixes }
  else scan

def FactScan.insertValue (key : Text) (value : Option RawValue) (scan : FactScan) : FactScan :=
  match value with
  | some value => { scan with values := scan.values.insert key value }
  | none => scan

def readFactValue (scan : FactScan) (key : Text) (kind : Nat) : Scanner FactScan :=
  if key = architectureName ∧ kind = 8 then do
    let value ← string
    return { scan with architecture := some value }
  else if key = alignmentKey then do
    let value ← readIntegerWithBudget kind
    return { scan with alignment := value.getD scan.alignment }
  else if key = splitCountKey then do
    let value ← readIntegerWithBudget kind
    return { scan with splitCount := value }
  else if (splitKey key).2 ∈ factSuffixes then do
    let value ← readRawWithBudget kind
    return (scan.notePrefix key).insertValue key value
  else do
    skipValueWithBudget kind
    return scan.notePrefix key

def readFact (scan : FactScan) : Scanner FactScan := do
  let key ← stringWithBudget
  let kind ← u32
  readFactValue scan key kind

def RawValue.asInt : RawValue → Option Nat
  | .int value => some value
  | .ints _ => none

def RawValue.perLayer : RawValue → PerLayer
  | .int value => .uniform value
  | .ints values => .layers values

def RawValue.asInts : RawValue → Option (List Nat)
  | .int _ => none
  | .ints values => some values

/-- The facts under the keys of one architecture: the fields have different keys,
so taking a value out leaves those of the others. -/
def architectureFacts (value : String → Option RawValue) (facts : ModelFacts) : ModelFacts :=
  let int (suffix : String) := (value suffix).bind RawValue.asInt
  let perLayer (suffix : String) := (value suffix).map RawValue.perLayer
  { facts with
    blockCount := int "block_count"
    nextnLayers := int "nextn_predict_layers"
    contextLength := int "context_length"
    embeddingLength := int "embedding_length"
    vocabSize := int "vocab_size"
    expertSharedFeedForwardLength := int "expert_shared_feed_forward_length"
    keyLength := int "attention.key_length"
    valueLength := int "attention.value_length"
    slidingWindow := int "attention.sliding_window"
    kvLoraRank := int "attention.kv_lora_rank"
    fullAttentionInterval := int "full_attention_interval"
    ssmConvKernel := int "ssm.conv_kernel"
    ssmInnerSize := int "ssm.inner_size"
    ssmStateSize := int "ssm.state_size"
    ssmGroupCount := int "ssm.group_count"
    indexerKeyLength := int "attention.indexer.key_length"
    hyperConnections := int "hyper_connection.count"
    pleConvKernel := int "ple.conv_kernel"
    pleNgramSize := int "ple.ngram_size"
    feedForwardLength := perLayer "feed_forward_length"
    expertFeedForwardLength := perLayer "expert_feed_forward_length"
    expertUsedCount := perLayer "expert_used_count"
    headCount := perLayer "attention.head_count"
    headCountKv := perLayer "attention.head_count_kv"
    recurrentLayers := perLayer "attention.recurrent_layers"
    pleLayers := ((value "ple.layers").bind RawValue.asInts).getD [] }

def FactScan.finish (scan : FactScan) (tensors : Option TensorBytes) : ModelFacts :=
  let facts : ModelFacts :=
    { architecture := scan.architecture, splitCount := scan.splitCount, tensors }
  match scan.architecture with
  | none => facts
  | some architecture =>
    architectureFacts (fun suffix => scan.values.get (architectureKey architecture suffix))
      { facts with recurrentState := architecture ∈ scan.recurrentPrefixes }

structure ModelScan where
  facts : ModelFacts
  tensorTypes : Option (Except Text (List (Text × Nat)))

def isPowerOfTwo (n : Nat) : Bool := n = 2 ^ n.log2

/-- The scan up to the tensor table: the number of tensors and what the keys say. -/
def readFactEntries : Nat × Nat → Scanner (Nat × FactScan) := fun (tensors, keys) =>
  if tensors > MAX_TENSORS then
    fail "GGUF header declares an implausible tensor count".toList
  else do
    let scan ← loopM readFact keys {}
    if scan.alignment = 0 ∨ !isPowerOfTwo scan.alignment then
      fail "GGUF header declares an invalid alignment".toList
    else return (tensors, scan)

def readFacts : Scanner (Nat × FactScan) := readHeader >>= readFactEntries

def scanTensors (fileLen : Nat) (collectTensorTypes : Bool) : Nat × FactScan → Scanner ModelScan :=
  fun (tensors, scan) => do
    let found ← readTensorBytes tensors scan.alignment fileLen collectTensorTypes
    return ⟨scan.finish found.bytes, found.tensorTypes⟩

def startScan (file : Bytes) (collectTensorTypes : Bool) : Scan :=
  { reader := { rest := file }
    budget := if collectTensorTypes then some {} else none }

def scanModel (file : Bytes) (collectTensorTypes : Bool) : Except Text ModelScan :=
  match (readFacts >>= scanTensors file.length collectTensorTypes)
      (startScan file collectTensorTypes) with
  | .ok (scan, _) => .ok scan
  | .error message => .error message

end AioLM.Gguf
