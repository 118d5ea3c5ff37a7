import AioLM.MediaParts

/-!
The adaptation of a request to the engine that serves it: saved defaults, the
fields a client may not set, the checks of tools and parts, and the spelling of
the parts that the engine reads.
-/

set_option autoImplicit false

namespace AioLM.Protocol

open Fallible
open Json (lookup insertField removeField)

/-- What a running engine session accepts. -/
structure EngineInfo where
  provider : ProviderId
  runtimeVariant : Text
  speechModelType : Option Text
  upstreamModel : Text
  modalities : Modalities
  tasks : List Text
  chatSupported : Option Bool
  requestFields : List (Text × Json)
  requestOptionKeys : List Text
  requestLora : Option Text
  embeddingModel : Option Text
  toolsAuto : Bool
  toolParser : Bool

def EngineInfo.serves (info : EngineInfo) (task : String) : Bool := info.tasks.contains task.toList

inductive RequestDefaultsPolicy where
  | apply | omit
  deriving DecidableEq

def audioFormatOfMime (mime : Text) : Option Text :=
  if mime ∈ ["audio/wav", "audio/x-wav", "audio/wave"].map String.toList then some "wav".toList
  else if mime ∈ ["audio/mpeg", "audio/mp3"].map String.toList then some "mp3".toList
  else if mime ∈ ["audio/flac", "audio/x-flac"].map String.toList then some "flac".toList
  else none

def audioMimeOfFormat (format : Text) : Option Text :=
  if format = "wav".toList then some "audio/wav".toList
  else if format = "mp3".toList then some "audio/mpeg".toList
  else if format = "flac".toList then some "audio/flac".toList
  else none

/-- `str::trim_end_matches` with a text, which is taken off as long as it is there. -/
def trimEndMatchesText (suffix t : Text) : Text :=
  (fun u => (Text.stripSuffix suffix u).getD u)^[t.length] t

def mediaPart (kind : PartKind) (media : List (Text × Json)) : Json :=
  .object [(kind.name, .object media), ("type".toList, .string kind.name)]

def inputAudioPart (data : Text) (format : Option Text) : Json :=
  mediaPart .inputAudio
    (("data".toList, .string data) :: format.toList.map fun f => ("format".toList, .string f))

def urlPart (kind : PartKind) (url : Text) : Json := mediaPart kind [("url".toList, .string url)]

def llamaAudio (reference : Text) : Except AdaptError Json :=
  match (Text.stripPrefix "data:".toList reference).bind (Text.splitOnce ',') with
  | some (header, data) => do
    let mime := trimEndMatchesText ";base64".toList header
    let format ← orError (audioFormatOfMime mime)
      ⟨"invalid_audio".toList, "llama.cpp reads wav, mp3 or flac audio, not ".toList ++ mime ++
        ".".toList⟩
    .ok (inputAudioPart data (some format))
  | none => .ok (inputAudioPart reference none)

/-- A field of the part's `input_audio` that is a text. -/
def audioText (part : Json) (field : String) : Option Text :=
  ((part.get "input_audio").bind (Json.get field)).bind Json.asStr

/-- `part["input_audio"]["data"] = data` -/
def setAudioData (part : Json) (data : Text) : Json :=
  match part, part.get "input_audio" with
  | .object fields, some (.object audio) =>
    .object (insertField "input_audio" (.object (insertField "data" (.string data) audio)) fields)
  | _, _ => part

def vllmFormat (format : Option Text) : Bool :=
  format.any fun format => !format.isEmpty && decide (format.utf8Len ≤ 16) &&
    format.all Char.isAlphanum

def urlText (part : Json) (field : String) : Text := ((part.get field).bind urlOf).getD []

def normalizeInputAudio (provider : ProviderId) (part : Json) : Except AdaptError Json :=
  let data := ((audioText part "data").getD []).trim
  let format := audioText part "format"
  let bare := !"data:".toList.isPrefixOf data && !remote data
  match provider with
  | .vllm =>
    if !bare then .ok (urlPart .audioUrl data)
    else do
      require (vllmFormat format) (adaptError "invalid_audio"
        "Specify input_audio.format (for example wav or mp3) for base64 audio.")
      .ok part
  | .llama => if "data:".toList.isPrefixOf data then llamaAudio data else .ok part
  | .mlxVlm =>
    if bare then do
      let mime ← orError (audioMimeOfFormat (format.getD "wav".toList))
        (adaptError "invalid_audio" "Specify wav, mp3 or flac for base64 audio.")
      .ok (setAudioData part ("data:".toList ++ mime ++ ";base64,".toList ++ data))
    else .ok part
  | .custom _ => .ok part

def llamaVideo (url : Text) : Except AdaptError Json :=
  if "data:video/".toList.isPrefixOf url then do
    let (_, data) ← orError (Text.splitOnce ',' url)
      (adaptError "invalid_video" "video data URI is malformed")
    .ok (mediaPart .inputVideo [("data".toList, .string data)])
  else .ok (urlPart .inputVideo url)

def normalizePart (provider : ProviderId) (part : Json) : Except AdaptError Json :=
  match provider, partKind part with
  | provider, some .inputAudio => normalizeInputAudio provider part
  | .llama, some .audioUrl => llamaAudio (urlText part "audio_url").trim
  | .mlxVlm, some .audioUrl => .ok (inputAudioPart (urlText part "audio_url").trim none)
  | .llama, some .videoUrl => llamaVideo (urlText part "video_url")
  | .llama, some .inputText =>
    .ok (.object [("text".toList, (part.get "text").getD (.string [])), ("type".toList, .text "text")])
  | .llama, some .inputImage => .ok (urlPart .imageUrl (urlText part "image_url"))
  | _, _ => .ok part

def modifyField (key : String) (f : List Json → Except AdaptError (List Json)) (v : Json) :
    Except AdaptError Json :=
  match v with
  | .object fields =>
    match (lookup key.toList fields).bind Json.asArray with
    | some items => do .ok (.object (insertField key (.array (← f items)) fields))
    | none => .ok v
  | _ => .ok v

def normalizeMessage (provider : ProviderId) : Json → Except AdaptError Json :=
  modifyField "content" (List.mapM (normalizePart provider))

def normalizeParts (provider : ProviderId) : Json → Except AdaptError Json :=
  modifyField "messages" (List.mapM (normalizeMessage provider))

def nonemptyTools (body : List (Text × Json)) : Bool :=
  ((lookup "tools".toList body).bind Json.asArray).any fun tools => !tools.isEmpty

def toolParserRequired (message : String) : Except AdaptError Unit :=
  .error (adaptError "tool_parser_required" message)

def autoTools : String :=
  "vLLM tools require enable_auto_tool_choice and the model's tool_call_parser in its runtime profile."

def checkTools (info : EngineInfo) (body : List (Text × Json)) : Except AdaptError Unit := do
  require (¬ (info.provider.isCustom ∧ ¬ info.toolParser ∧ nonemptyTools body))
    (adaptError "unsupported_tools" "The selected model adapter does not support tool calls.")
  if info.provider ≠ .vllm ∨ ¬ nonemptyTools body then .ok ()
  else
    match lookup "tool_choice".toList body with
    | none | some .null => if info.toolsAuto then .ok () else toolParserRequired autoTools
    | some (.string choice) =>
      if choice = "auto".toList ∧ ¬ info.toolsAuto then toolParserRequired autoTools
      else if choice = "required".toList ∧ ¬ info.toolParser then
        toolParserRequired
          "vLLM tool_choice \"required\" requires the model's tool_call_parser in its runtime profile."
      else .ok ()
    | some (.object _) =>
      if info.toolParser then .ok ()
      else
        toolParserRequired
          "vLLM named tool_choice requires the model's tool_call_parser in its runtime profile."
    | _ => .ok ()

def taskRefusal (info : EngineInfo) (forTask : String) : Text :=
  let servesStt := info.serves "transcription" || info.serves "translate"
  let servesGenerate := info.serves "generate"
  let servesEmbed := info.serves "embed"
  if forTask = "chat" ∧ servesStt ∧ ¬ servesGenerate then
    "This session serves speech-to-text. Select a generation session for chat.".toList
  else if (forTask = "transcription" ∨ forTask = "translation") ∧ ¬ servesStt ∧
      (servesGenerate ∨ servesEmbed) then
    "This session serves ".toList ++
      (if servesGenerate ∧ servesEmbed then "chat and embeddings".toList
        else if servesGenerate then "chat".toList else "embeddings".toList) ++
      (" and has no verified speech-to-text capability; select a transcription session for " ++
        forTask ++ ".").toList
  else if servesStt ∧ ¬ servesGenerate ∧ ¬ servesEmbed then
    ("This session serves speech-to-text. Select a transcription session for " ++ forTask ++
      " only when it lists that task; chat and embeddings need their own sessions.").toList
  else if servesEmbed ∧ ¬ servesGenerate then
    ("This session serves embeddings. Select a generation session for " ++ forTask ++ ".").toList
  else
    ("This session does not serve " ++ forTask ++ "; select a session that lists that task.").toList

def unsupportedTask (info : EngineInfo) (forTask : String) : AdaptError :=
  ⟨"unsupported_task".toList, taskRefusal info forTask⟩

/-- `str::parse::<f64>` and `str::parse::<i64>` -/
structure Numerals where
  f64 : Text → Option Float
  i64 : Text → Option Int

def metalVariant : Text := "vllm-metal".toList

def transcriptionFields : List Text :=
  ["model", "language", "prompt", "response_format", "temperature", "top_p", "top_k", "min_p",
    "seed", "repetition_penalty", "frequency_penalty", "presence_penalty",
    "max_completion_tokens", "timestamp_granularities"].map String.toList

def speechRanges : List (String × Float × Float) :=
  [("temperature", 0.0, 2.0), ("top_p", 0.0, 1.0), ("min_p", 0.0, 1.0),
    ("repetition_penalty", 2.2250738585072014e-308, 1.7976931348623157e308),
    ("frequency_penalty", -2.0, 2.0), ("presence_penalty", -2.0, 2.0)]

def unsupportedField (message : Text) : AdaptError := ⟨"unsupported_field".toList, message⟩

def invalidAudio (message : Text) : AdaptError := ⟨"invalid_audio".toList, message⟩

def validGranularities (stamps : Json) : Bool :=
  match stamps with
  | .array values => !values.isEmpty && values.all fun value =>
      value.asStr.any fun text => ["word".toList, "segment".toList].contains text
  | _ => false

def adaptAudioRequest (numerals : Numerals) (info : EngineInfo) (endpoint : Text) (body : Json) :
    Except AdaptError Json := do
  let translates := decide (endpoint = "audio/translations".toList)
  require (info.serves (if translates then "translate" else "transcription"))
    (unsupportedTask info (if translates then "translation" else "transcription"))
  let object ← orError body.asObject
    (adaptError "invalid_request" "request body must be a JSON object")
  let has (key : String) : Bool := (lookup key.toList object).isSome
  let text (key : String) : Text := ((lookup key.toList object).bind Json.asStr).getD []
  require (¬ has "file")
    (invalidAudio "audio file travels as multipart binary, not as a text field".toList)
  require (¬ (translates ∧ has "language"))
    (unsupportedField "translation always targets English; remove the language field".toList)
  require (¬ (info.runtimeVariant = metalVariant ∧
      info.speechModelType = some "qwen3_asr".toList ∧ (has "language" ∨ has "prompt")))
    (unsupportedField ("this Metal Qwen3-ASR implementation does not honor language or prompt; " ++
      "remove those fields").toList)
  ["logit_bias", "min_tokens", "stream", "url", "key", "api_key"].forM fun forbidden =>
    require (¬ has forbidden)
      (unsupportedField ("vllm-metal speech-to-text does not accept `" ++ forbidden ++ "`").toList)
  require (¬ has "response_format" ∨ ((lookup "response_format".toList object).bind Json.asStr).any
      fun format => ["json", "text", "verbose_json"].map String.toList |>.contains format)
    (invalidAudio "response_format must be json, text or verbose_json".toList)
  ["temperature", "top_p", "min_p", "repetition_penalty", "frequency_penalty",
      "presence_penalty"].forM fun key =>
    require (¬ has key ∨ (numerals.f64 (text key)).any Float.isFinite)
      (invalidAudio ("`" ++ key ++ "` must be a number").toList)
  ["top_k", "seed", "max_completion_tokens"].forM fun key =>
    require (¬ has key ∨ (numerals.i64 (text key)).isSome)
      (invalidAudio ("`" ++ key ++ "` must be an integer").toList)
  let language := text "language"
  require (¬ has "language" ∨ ¬ (language = [] ∨ 16 < language.utf8Len ∨
      ¬ language.all fun c => c.isAlphanum || c == '-' || c == '_'))
    (invalidAudio "language must be an ISO 639-1 code such as en or zh".toList)
  require ((lookup "timestamp_granularities".toList object).all validGranularities)
    (invalidAudio "timestamp_granularities must be a nonempty array of strings".toList)
  speechRanges.forM fun (key, min, max) =>
    require (¬ has key ∨ (numerals.f64 (text key)).any fun value => min ≤ value ∧ value ≤ max)
      (invalidAudio ("`" ++ key ++ "` is outside its supported range").toList)
  require (¬ has "max_completion_tokens" ∨
      (numerals.i64 (text "max_completion_tokens")).any (0 < ·))
    (invalidAudio "max_completion_tokens must be positive".toList)
  require (¬ (info.runtimeVariant = metalVariant ∧ has "temperature" ∧
      ¬ (numerals.f64 (text "temperature")).any (· == 0.0)))
    (unsupportedField ("this Metal speech implementation requires greedy transcription " ++
      "(temperature=0)").toList)
  let unexpected := (object.map (·.1)).filter fun key => !transcriptionFields.contains key
  require (unexpected = [])
    (unsupportedField ("unsupported transcription field: ".toList ++
      ", ".toList.intercalate unexpected))
  .ok (.object (insertField "model" (.string info.upstreamModel) object))

def forbiddenFields : ProviderId → List String
  | .mlxVlm => ["adapter_path", "model_dir", "resize_shape"]
  | _ => []

/-- The request fields every registered runtime understands. -/
def canonicalFields : List Text :=
  ["model", "messages", "prompt", "input", "stream", "stream_options", "tools", "tool_choice",
    "parallel_tool_calls", "temperature", "top_p", "max_tokens", "max_completion_tokens", "stop",
    "seed", "presence_penalty", "frequency_penalty", "response_format", "reasoning_effort",
    "logprobs", "top_logprobs", "user", "n", "encoding_format", "dimensions"].map String.toList

/-- `Entry::or_insert_with` -/
def orInsert (fields : List (Text × Json)) (field : Text × Json) : List (Text × Json) :=
  match lookup field.1 fields with
  | some _ => fields
  | none => KeyMap.alterEntries field.1 (fun _ => field.2) fields

def embeddings : Text := "embeddings".toList

def inputParts (body : Json) : List Json :=
  match body.get "input" with
  | some (.object fields) => [.object fields]
  | some (.array items) => items.filter Json.isObject
  | _ => []

def messagesOf (body : Json) : Option (List Json) := (body.get "messages").bind Json.asArray

section Adapt

variable (ownedFileSize : Text → Option Nat) (numerals : Numerals)

def adaptMessages (info : EngineInfo) (body : Json) : Except AdaptError Json := do
  ((messagesOf body).elim (.ok ()) (checkParts ownedFileSize info.provider info.modalities))
  normalizeParts info.provider body

def engineModel (info : EngineInfo) (endpoint : Text) : Except AdaptError Text :=
  if endpoint = embeddings then do
    require (info.serves "embed" ∨ info.embeddingModel.isSome) (unsupportedTask info "embeddings")
    orError info.embeddingModel (adaptError "unsupported_task"
      ("Configure an embedding model or route embeddings to a pooling session; the chat model is " ++
        "not an embedding target."))
  else .ok (info.requestLora.getD info.upstreamModel)

def completeFields (info : EngineInfo) (endpoint : Text) (defaults : RequestDefaultsPolicy)
    (object : List (Text × Json)) : Except AdaptError (List (Text × Json)) := do
  require (¬ (info.provider.isCustom ∧ ¬ object.all fun field =>
      canonicalFields.contains field.1 || info.requestOptionKeys.contains field.1))
    ⟨"unsupported_field".toList,
      "The selected runtime adapter does not declare request field `".toList ++
      ((object.find? fun field => !(canonicalFields.contains field.1 ||
        info.requestOptionKeys.contains field.1)).map (·.1)).getD [] ++ "`.".toList⟩
  let object := (forbiddenFields info.provider).foldl (fun fields key => removeField key fields) object
  let model ← engineModel info endpoint
  checkTools info object
  let object := insertField "model" (.string model) object
  .ok (if defaults = .apply ∧ endpoint ≠ embeddings then info.requestFields.foldl orInsert object
    else object)

def adaptRequest (info : EngineInfo) (endpoint : Text) (defaults : RequestDefaultsPolicy)
    (body : Json) : Except AdaptError Json := do
  if endpoint = "audio/transcriptions".toList ∨ endpoint = "audio/translations".toList then
    adaptAudioRequest numerals info endpoint body
  else
    require (endpoint = embeddings ∨ info.serves "generate") (unsupportedTask info "chat")
    require (¬ (endpoint = "chat/completions".toList ∧ info.chatSupported = some false))
      (adaptError "chat_template_required"
        ("This model has no chat template. Select an Instruct/chat model or configure " ++
          "--chat-template in its runtime profile. Text completions remain available."))
    if endpoint = embeddings then
      checkContentParts ownedFileSize info.provider info.modalities 0 0 (inputParts body)
    if info.provider = .llama then
      require (¬ (endpoint = embeddings ∧ ¬ info.serves "embed" ∧ info.embeddingModel = none))
        (unsupportedTask info "embeddings")
      adaptMessages ownedFileSize info body
    else
      let object ← orError body.asObject
        (adaptError "invalid_request" "request body must be a JSON object")
      let object ← completeFields info endpoint defaults object
      adaptMessages ownedFileSize info (.object object)

end Adapt

end AioLM.Protocol
