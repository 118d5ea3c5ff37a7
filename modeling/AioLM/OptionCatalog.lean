import AioLM.OptionResolve

/-!
The option catalogs of the engines the application ships: what each option
accepts, the check of a saved value, and the launch arguments it produces.
-/

set_option autoImplicit false

namespace AioLM.Catalog

open Options

inductive ProviderId where
  | vllm
  | mlxVlm
  deriving DecidableEq

def ProviderId.server : ProviderId → Text
  | .vllm => "vllm".toList
  | .mlxVlm => "mlx-vlm".toList

/-- Every bound in the catalogs is a whole number, floating-point ones too. -/
inductive OptionKind where
  | integer (min max : Int) (choices sentinelValues : Option (List Int))
  | number (min max : Int) (minExclusive maxExclusive : Bool)
  | flag
  | toggle
  | choice (choices : List Text)
  | text (maxLen : Nat)
  | path
  | json
  deriving DecidableEq

structure OptionSpec where
  key : Text
  flag : Option Text
  kind : OptionKind
  target : Target
  group : Text
  runtimeDefault : Option Text
  help : Option Text

def launch (key flag : String) (kind : OptionKind) (group : String)
    (runtimeDefault : Option String := none) (help : Option String := none) : OptionSpec :=
  ⟨key.toList, some flag.toList, kind, .launch, group.toList, runtimeDefault.map String.toList,
    help.map String.toList⟩

def request (key : String) (kind : OptionKind) (group : String)
    (runtimeDefault : Option String := none) : OptionSpec :=
  ⟨key.toList, none, kind, .request, group.toList, runtimeDefault.map String.toList, none⟩

def i32 : Int := 2 ^ 31 - 1

def integer (min max : Int) : OptionKind := .integer min max none none

def choice (choices : List String) : OptionKind := .choice (choices.map String.toList)

def vllmDtypes : List String := ["auto", "half", "float16", "bfloat16", "float", "float32"]

def vllmKvCacheDtypes : List String :=
  ["auto", "float16", "bfloat16", "fp8", "fp8_e4m3", "fp8_e5m2", "fp8_inc", "fp8_ds_mla",
    "nvfp4_ds_mla", "turboquant_k8v4", "turboquant_4bit_nc", "turboquant_k3v4_nc",
    "turboquant_3bit_nc", "int4_per_token_head", "int8_per_token_head", "fp8_per_token_head",
    "nvfp4", "nvfp4_4over6"]

def vllmOptions : List OptionSpec :=
  [launch "runner" "--runner" (choice ["auto", "generate", "pooling"]) "model" (some "auto"),
    launch "max_model_len" "--max-model-len" (.integer 1 i32 none (some [-1])) "context" none
      (some ("-1: auto-fit the context length to available GPU memory. Positive values set " ++
        "an explicit token limit.")),
    launch "gpu_memory_utilization" "--gpu-memory-utilization" (.number 0 1 true false) "memory"
      (some "0.92"),
    launch "kv_cache_dtype" "--kv-cache-dtype" (choice vllmKvCacheDtypes) "memory" (some "auto"),
    launch "cpu_offload_gb" "--cpu-offload-gb" (.number 0 4096 false false) "memory" (some "0"),
    launch "dtype" "--dtype" (choice vllmDtypes) "model" (some "auto"),
    launch "quantization" "--quantization" (.text 64) "model",
    launch "enforce_eager" "--enforce-eager" .flag "model" (some "false"),
    launch "generation_config" "--generation-config" (.text 4096) "model" (some "auto"),
    launch "seed" "--seed" (integer 0 i32) "model" (some "0"),
    launch "tensor_parallel_size" "--tensor-parallel-size" (integer 1 64) "parallel" (some "1"),
    launch "pipeline_parallel_size" "--pipeline-parallel-size" (integer 1 64) "parallel"
      (some "1"),
    launch "max_num_seqs" "--max-num-seqs" (integer 1 65536) "parallel" (some "128"),
    launch "max_num_batched_tokens" "--max-num-batched-tokens" (integer 1 i32) "parallel",
    launch "enable_prefix_caching" "--enable-prefix-caching" .toggle "parallel",
    launch "enable_chunked_prefill" "--enable-chunked-prefill" .toggle "parallel",
    launch "limit_mm_per_prompt" "--limit-mm-per-prompt" .json "multimodal",
    launch "enable_lora" "--enable-lora" .flag "lora" (some "false"),
    launch "max_loras" "--max-loras" (integer 1 1024) "lora" (some "1"),
    launch "max_lora_rank" "--max-lora-rank"
      (.integer 1 512 (some [1, 8, 16, 32, 64, 128, 256, 320, 512]) none) "lora" (some "16"),
    launch "speculative_config" "--speculative-config" .json "speculative",
    launch "reasoning_parser" "--reasoning-parser" (.text 128) "reasoning",
    launch "enable_auto_tool_choice" "--enable-auto-tool-choice" .flag "tools" (some "false"),
    launch "tool_call_parser" "--tool-call-parser" (.text 128) "tools",
    launch "chat_template" "--chat-template" .path "tools",
    launch "enable_prompt_tokens_details" "--enable-prompt-tokens-details" .flag "metrics"
      (some "false"),
    launch "enable_per_request_metrics" "--enable-per-request-metrics" .flag "metrics"
      (some "false"),
    request "temperature" (.number 0 2 false false) "sampling",
    request "top_p" (.number 0 1 true false) "sampling",
    request "top_k" (integer (-1) i32) "sampling",
    request "min_p" (.number 0 1 false false) "sampling",
    request "repetition_penalty" (.number 0 100 true false) "sampling",
    request "presence_penalty" (.number (-2) 2 false false) "sampling",
    request "frequency_penalty" (.number (-2) 2 false false) "sampling",
    request "max_tokens" (integer 1 i32) "sampling"]

def mlxVlmOptions : List OptionSpec :=
  [launch "embedding_model" "--embedding-model" .path "model",
    launch "max_tokens" "--max-tokens" (integer 1 i32) "context",
    launch "max_kv_size" "--max-kv-size" (integer 1 i32) "context",
    launch "prefill_step_size" "--prefill-step-size" (integer 1 1048576) "memory",
    launch "kv_bits" "--kv-bits" (.number 1 16 false false) "memory",
    launch "kv_quant_scheme" "--kv-quant-scheme" (choice ["uniform", "turboquant"]) "memory",
    launch "kv_group_size" "--kv-group-size" (integer 1 4096) "memory",
    launch "quantized_kv_start" "--quantized-kv-start" (integer 0 i32) "memory",
    launch "vision_cache_size" "--vision-cache-size" (integer 0 10000) "multimodal" (some "20"),
    launch "max_num_seqs" "--max-num-seqs" (integer 1 65536) "parallel",
    launch "enable_thinking" "--enable-thinking" .flag "reasoning",
    launch "thinking_budget" "--thinking-budget" (integer 0 i32) "reasoning",
    launch "draft_kind" "--draft-kind" (choice ["dflash", "eagle3", "mtp"]) "speculative",
    launch "draft_block_size" "--draft-block-size" (integer 1 4096) "speculative",
    request "temperature" (.number 0 100 false false) "sampling",
    request "top_p" (.number 0 1 false false) "sampling",
    request "top_k" (integer 0 i32) "sampling" (some "0"),
    request "min_p" (.number 0 1 false false) "sampling" (some "0"),
    request "repetition_penalty" (.number 0 100 false false) "sampling",
    request "presence_penalty" (.number (-2) 2 false false) "sampling",
    request "frequency_penalty" (.number (-2) 2 false false) "sampling",
    request "seed" (integer 0 i32) "sampling"]

def schema : ProviderId → List OptionSpec
  | .vllm => vllmOptions
  | .mlxVlm => mlxVlmOptions

def appManagedFlags : ProviderId → List Text
  | .vllm =>
    ["--model", "--host", "--port", "--uds", "--api-key", "--served-model-name", "--lora-modules",
      "--allowed-local-media-path", "--ssl-keyfile", "--ssl-certfile", "--root-path", "--headless",
      "--convert", "--trust-remote-code", "--config"].map String.toList
  | .mlxVlm =>
    ["--model", "--host", "--port", "--api-key", "--adapter-path", "--draft-model", "--model-dir",
      "--image-model", "--tts-model", "--stt-model", "--decision-model", "--reranker-model",
      "--reload", "--trust-remote-code"].map String.toList

structure OptionIssue where
  key : Text
  code : Text
  message : Text
  deriving DecidableEq

def maxJsonBytes : Nat := 65536

def issue (key : Text) (code : String) (message : Text) : OptionIssue := ⟨key, code.toList, message⟩

def keyed (key : Text) (code message : String) : Option OptionIssue :=
  some (issue key code (key ++ message.toList))

def checkInteger (key : Text) (min max : Int) (choices sentinelValues : Option (List Int))
    (value : Json) : Option OptionIssue :=
  match value.asI64 with
  | none => keyed key "type" " must be an integer"
  | some number =>
    if choices.any (!·.contains number) then keyed key "choice" " must be one of the listed values"
    else if sentinelValues.any (·.contains number) then none
    else if min ≤ number ∧ number ≤ max then none
    else some (issue key "range" (key ++ " must be between ".toList ++ Json.intText min ++
      " and ".toList ++ Json.intText max))

def numberRange (min max : Int) (minExclusive maxExclusive : Bool) : NumericRange :=
  ⟨some (Json.floatOfInt min), some (Json.floatOfInt max), minExclusive, maxExclusive, []⟩

def checkNumber (key : Text) (min max : Int) (minExclusive maxExclusive : Bool) (value : Json) :
    Option OptionIssue :=
  match value.asF64 with
  | none => keyed key "type" " must be a number"
  | some number =>
    if (numberRange min max minExclusive maxExclusive).contains number then none
    else some (issue key "range" (key ++ " must be ".toList ++
      (if minExclusive then "greater than ".toList else "at least ".toList) ++ Json.intText min ++
      " and ".toList ++ (if maxExclusive then "less than ".toList else "at most ".toList) ++
      Json.intText max))

def wholeText (text : Text) (maxLen : Nat) : Bool :=
  !(Text.trim text).isEmpty && decide (Text.utf8Len text ≤ maxLen) && !text.contains (Char.ofNat 0)

def dashLeading (value : Json) : Bool :=
  value.asStr.any fun text => startsWith '-' (Text.trimStart text)

def checkValue (serde : Serde) (spec : OptionSpec) (value : Json) : Option OptionIssue :=
  let key := spec.key
  match spec.kind with
  | .integer min max choices sentinelValues => checkInteger key min max choices sentinelValues value
  | .number min max minExclusive maxExclusive =>
    checkNumber key min max minExclusive maxExclusive value
  | .flag | .toggle => if value.isBoolean then none else keyed key "type" " must be true or false"
  | .choice choices =>
    match value.asStr with
    | none => keyed key "type" " must be one of the listed values"
    | some text =>
      if choices.contains text then none
      else some (issue key "choice" (key ++ " does not accept ".toList ++ Char.ofNat 39 :: text ++
        [Char.ofNat 39]))
  | .text maxLen =>
    if dashLeading value then some (issue key "range" (key ++ " must not start with ".toList ++
      [Char.ofNat 39, '-', Char.ofNat 39]))
    else
      match value.asStr with
      | none => keyed key "type" " must be text"
      | some text =>
        if wholeText text maxLen then none else keyed key "range" " is empty or too long"
  | .path =>
    if dashLeading value then some (issue key "range" (key ++ " must not start with ".toList ++
      [Char.ofNat 39, '-', Char.ofNat 39]))
    else
      match value.asStr with
      | none => keyed key "type" " must be a file path"
      | some text =>
        if wholeText text 32768 then none else keyed key "type" " must be a file path"
  | .json =>
    if !value.isObject then keyed key "type" " must be a JSON object"
    else if Text.utf8Len (value.compact serde.floatText) ≤ maxJsonBytes then none
    else keyed key "too_large" " is too large"

def adapterSource : Source := .adapter "builtin.catalog".toList "1".toList

def documented {α : Type} (value : α) : Fact α := ⟨some value, .documented, some adapterSource⟩

/-- The spelling that turns a toggle off. -/
def negated (flag : Text) : Text := "--no-".toList ++ flag.dropWhile (· = '-')

def valueKind : OptionKind → ValueKind
  | .integer .. => .integer
  | .number .. => .number
  | .flag | .toggle => .boolean
  | .json => .json
  | .choice _ | .text _ | .path => .text

def arity : OptionKind → Arity
  | .flag | .toggle => ⟨0, some 0⟩
  | _ => ⟨1, some 1⟩

def spellings (spec : OptionSpec) : List Spelling :=
  match spec.target, spec.flag, spec.kind with
  | .request, _, _ | _, none, _ => []
  | .launch, some flag, .toggle =>
    [⟨flag, .separate, some true⟩, ⟨negated flag, .separate, some false⟩]
  | .launch, some flag, _ => [⟨flag, .separate, none⟩]

def choices : OptionKind → Fact (List Json)
  | .choice choices => documented (choices.map .string)
  | .integer _ _ (some choices) _ => documented (choices.map Json.int)
  | _ => {}

def range : OptionKind → Fact NumericRange
  | .integer min max _ sentinelValues =>
    documented { numberRange min max false false with
      sentinelValues := (sentinelValues.getD []).map Json.floatOfInt }
  | .number min max minExclusive maxExclusive =>
    documented (numberRange min max minExclusive maxExclusive)
  | _ => {}

/-- The catalog documents that a false flag emits nothing. -/
def runtimeDefault (spec : OptionSpec) : Fact RuntimeDefault :=
  match spec.kind, spec.runtimeDefault with
  | .flag, _ => documented ⟨.bool false⟩
  | _, some text => documented ⟨.string text⟩
  | _, none => {}

def fromSpec (spec : OptionSpec) : OptionDefinition where
  key := spec.key
  spellings := spellings spec
  kind := documented (valueKind spec.kind)
  arity := documented (arity spec.kind)
  choices := choices spec.kind
  range := range spec.kind
  runtimeDefault := runtimeDefault spec
  group := spec.group
  help := spec.help.getD []
  target := spec.target
  requestField := if spec.target = .request then documented spec.key else {}
  localPath := if spec.kind = .path then documented true else {}

def specArguments (serde : Serde) (spec : OptionSpec) (value : Json) : List Text :=
  ((fromSpec spec).resolveOne serde ⟨none, [value]⟩).toOption.getD []

def extraArgsKey : Text := "extra_args".toList

/-- Raw additional arguments, which go to the engine as they are saved. -/
def extraArgs (options : KeyMap Text Json) : List Text :=
  (((options.get extraArgsKey).bind Json.asArray).getD []).filterMap Json.asStr

def launchArgs (serde : Serde) (provider : ProviderId) (options : KeyMap Text Json) : List Text :=
  ((schema provider).flatMap fun spec =>
    match spec.target, spec.flag, options.get spec.key with
    | .launch, some _, some value =>
      if (checkValue serde spec value).isSome then [] else specArguments serde spec value
    | _, _, _ => []) ++ extraArgs options

end AioLM.Catalog
