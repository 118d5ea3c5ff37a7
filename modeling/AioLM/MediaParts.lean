import AioLM.Base64
import AioLM.Fallible
import AioLM.JsonFields
import AioLM.Saturating
import AioLM.TextBytes

/-!
The content parts of a request: what kind of input a part is, where its bytes
come from, and the check of the parts of one message.
-/

set_option autoImplicit false

namespace AioLM.Protocol

open Fallible

inductive ProviderId where
  | llama
  | vllm
  | mlxVlm
  | custom (name : Text)
  deriving DecidableEq

def ProviderId.server : ProviderId → Text
  | .llama => "llama-server".toList
  | .vllm => "vllm".toList
  | .mlxVlm => "mlx-vlm".toList
  | .custom _ => "external engine".toList

def ProviderId.isCustom : ProviderId → Bool
  | .custom _ => true
  | _ => false

inductive Modality where
  | text | image | audio | video
  deriving DecidableEq

def Modality.name : Modality → Text
  | .text => "text".toList
  | .image => "image".toList
  | .audio => "audio".toList
  | .video => "video".toList

structure Modalities where
  text : Bool
  image : Bool
  audio : Bool
  video : Bool
  deriving DecidableEq

def Modalities.supports (modalities : Modalities) : Modality → Bool
  | .text => modalities.text
  | .image => modalities.image
  | .audio => modalities.audio
  | .video => modalities.video

structure AdaptError where
  code : Text
  message : Text
  deriving DecidableEq

def adaptError (code message : String) : AdaptError := ⟨code.toList, message.toList⟩

/-- The values of `type` that are known. -/
inductive PartKind where
  | text | inputText
  | imageUrl | inputImage | image
  | inputAudio | audioUrl | audio
  | videoUrl | inputVideo | video
  deriving DecidableEq

namespace PartKind

def name : PartKind → Text
  | text => "text".toList
  | inputText => "input_text".toList
  | imageUrl => "image_url".toList
  | inputImage => "input_image".toList
  | image => "image".toList
  | inputAudio => "input_audio".toList
  | audioUrl => "audio_url".toList
  | audio => "audio".toList
  | videoUrl => "video_url".toList
  | inputVideo => "input_video".toList
  | video => "video".toList

def all : List PartKind :=
  [text, inputText, imageUrl, inputImage, image, inputAudio, audioUrl, audio, videoUrl, inputVideo,
    video]

def ofName (name : Text) : Option PartKind := all.find? fun kind => kind.name == name

def modality : PartKind → Modality
  | text | inputText => .text
  | imageUrl | inputImage | image => .image
  | inputAudio | audioUrl | audio => .audio
  | videoUrl | inputVideo | video => .video

/-- The names of the inputs themselves, which no server reads as a part. -/
def isBare : PartKind → Bool
  | image | audio | video => true
  | _ => false

end PartKind

def partType (part : Json) : Option Text := (part.get "type").bind Json.asStr

def partKind (part : Json) : Option PartKind := (partType part).bind PartKind.ofName

def partModality (part : Json) : Option Modality := (partKind part).map PartKind.modality

def remote (url : Text) : Bool :=
  "http://".toList.isPrefixOf url || "https://".toList.isPrefixOf url

def urlOf (value : Json) : Option Text :=
  value.asStr.or ((value.get "url").bind Json.asStr)

def inputVideo (part : Json) : Option Json :=
  ((part.get "input_video").or (part.get "video_url")).or (part.get "video")

def mediaReference (part : Json) : Option (Text × Bool) :=
  match partKind part with
  | some .imageUrl | some .inputImage => ((part.get "image_url").bind urlOf).map (·, false)
  | some .audioUrl => ((part.get "audio_url").bind urlOf).map (·, false)
  | some .inputAudio =>
    (((part.get "input_audio").bind (Json.get "data")).bind Json.asStr).map (·, true)
  | some .videoUrl => ((part.get "video_url").bind urlOf).map (·, false)
  | some .inputVideo => do
    let video ← inputVideo part
    match (video.get "data").bind Json.asStr with
    | some data => some (data, true)
    | none => (urlOf video).map (·, false)
  | _ => none

def maxMediaBytes : Nat := 64 * 1024 * 1024

def maxMessageMediaBytes : Nat := 128 * 1024 * 1024

def decodedLen (data : Text) : Except AdaptError Nat := do
  require (data.utf8Len ≤ (maxMediaBytes + 2) / 3 * 4)
    (adaptError "media_limit" "Each media file must be at most 64 MiB.")
  let decoded ← orError (Base64.decode (TextBytes.encode data))
    (adaptError "invalid_media" "Media contains invalid base64 data.")
  require (decoded ≠ [])
    (adaptError "media_limit" "Each media file must be nonempty and at most 64 MiB.")
  .ok decoded.length

section Checks

-- `media::owned_file_size`: the size of a file in the application's media store.
variable (ownedFileSize : Text → Option Nat)

def dataUriBytes (provider : ProviderId) (modality : Modality) (rest : Text) :
    Except AdaptError Nat := do
  let (header, data) ← orError (Text.splitOnce ',' rest)
    (adaptError "invalid_media" "Malformed media data URI.")
  require (";base64".toList.isSuffixOf header)
    (adaptError "invalid_media" "Media data URIs must use base64 encoding.")
  require ((modality.name ++ ['/']).isPrefixOf header)
    ⟨"invalid_media".toList, "A ".toList ++ modality.name ++ " part needs a data:".toList ++
      modality.name ++ "/... URI, not data:".toList ++ header ++ ".".toList⟩
  require (¬ (provider = .mlxVlm ∧ modality = .video))
    (adaptError "unsupported_input"
      "mlx-vlm reads video from a file path or URL; base64 data URLs are not accepted")
  decodedLen data

/-- What a reference brings with it, without the blanks around it. -/
def referenceBytes (provider : ProviderId) (modality : Modality) (reference : Text)
    (bareAllowed : Bool) : Except AdaptError Nat :=
  match Text.stripPrefix "data:".toList reference with
  | some rest => dataUriBytes provider modality rest
  | none =>
    if remote reference then .ok 0
    else
      match if provider = .mlxVlm ∧ modality = .video then ownedFileSize reference else none with
      | some size => .ok size
      | none =>
        if bareAllowed then decodedLen reference
        else .error (adaptError "untrusted_media_path"
          ("External media inputs must use an HTTP URL or supported data URI; local file paths " ++
            "are not accepted."))

def mediaBytes (provider : ProviderId) (modality : Modality) (part : Json) :
    Except AdaptError Nat := do
  let (reference, bareAllowed) ← orError (mediaReference part)
    ⟨"invalid_media".toList, "The ".toList ++ modality.name ++
      " part has no media reference.".toList⟩
  referenceBytes ownedFileSize provider modality reference.trim bareAllowed

def checkPart (provider : ProviderId) (modalities : Modalities) (part : Json) :
    Except AdaptError (Option Nat) := do
  let kind ← orError ((partKind part).filter fun kind => !kind.isBare)
    ⟨"unsupported_content".toList, "content part type `".toList ++
      (partType part).getD "unknown".toList ++ "` is not supported by ".toList ++
      provider.server ++
      "; use text, image_url, input_audio, audio_url or video_url parts".toList⟩
  let modality := kind.modality
  require (modalities.supports modality)
    ⟨"unsupported_input".toList, "the loaded model on ".toList ++ provider.server ++
      " does not accept ".toList ++ modality.name ++ " input; remove the ".toList ++
      modality.name ++ " part or load a model that supports it".toList⟩
  if modality = .text then .ok none
  else (mediaBytes ownedFileSize provider modality part).map some

def checkContentParts (provider : ProviderId) (modalities : Modalities) :
    Nat → Nat → List Json → Except AdaptError Unit
  | _, _, [] => .ok ()
  | count, bytes, part :: parts => do
    match ← checkPart ownedFileSize provider modalities part with
    | none => checkContentParts provider modalities count bytes parts
    | some size =>
      let count := count + 1
      let bytes := saturatingAdd bytes size
      require (¬ (4 < count ∨ maxMessageMediaBytes < bytes))
        (adaptError "media_limit"
          "Each message accepts up to four media files and 128 MiB of decoded media.")
      checkContentParts provider modalities count bytes parts

def checkParts (provider : ProviderId) (modalities : Modalities) (messages : List Json) :
    Except AdaptError Unit :=
  messages.forM fun message =>
    match (message.get "content").bind Json.asArray with
    | some parts => checkContentParts ownedFileSize provider modalities 0 0 parts
    | none => .ok ()

end Checks

end AioLM.Protocol
