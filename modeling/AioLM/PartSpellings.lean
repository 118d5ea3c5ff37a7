import Mathlib.Data.Bool.AllAny
import AioLM.JsonText
import AioLM.RequestAdaptation
import AioLM.Trimming

/-!
What the spelling of a part leaves as it was: the check of the part, what kind of
input it is, its text, and the bytes or the URL it stands for. A part that was
spelled once is spelled as it is the second time.
-/

set_option autoImplicit false

namespace AioLM.Protocol

open Fallible
open Json (lookup insertField lookup_insertField Sorted)

theorem base64_char {data : Text} {bytes : Bytes}
    (h : Base64.decode (TextBytes.encode data) = some bytes) {c : Char} (hc : c ∈ data) :
    Text.isWhitespace c = false ∧ c ≠ ':' := by
  obtain ⟨b, rest, hb⟩ := List.exists_cons_of_ne_nil (String.utf8EncodeChar_ne_nil (c := c))
  have hmem : b ∈ String.utf8EncodeChar c := by simp [hb]
  have hbyte := Base64.mem_of_decode h (List.mem_flatMap.mpr ⟨c, hc, hmem⟩)
  have hrange : 0x2B ≤ b.toNat ∧ b.toNat ≤ 0x7A ∧ b.toNat ≠ 0x3A := by
    rcases hbyte with hbyte | rfl
    · unfold Base64.value at hbyte
      dsimp only at hbyte
      split_ifs at hbyte with h₁ h₂ h₃ h₄ h₅
      all_goals first | omega | cases hbyte
    · decide
  have hnat := TextBytes.ascii_byte hmem (by omega)
  refine ⟨?_, ?_⟩
  · simp only [Text.isWhitespace, Bool.or_eq_false_iff, Bool.and_eq_false_iff,
      decide_eq_false_iff_not, beq_eq_false_iff_ne]
    omega
  · rintro rfl
    have : (':' : Char).toNat = 0x3A := by decide
    omega

section Base64

variable {data : Text} {n : Nat}

theorem exists_bytes (h : decodedLen data = .ok n) :
    ∃ bytes, Base64.decode (TextBytes.encode data) = some bytes ∧ bytes ≠ [] ∧ bytes.length = n := by
  obtain ⟨_, _, h⟩ := bind_eq_ok.mp h
  obtain ⟨bytes, hbytes, h⟩ := bind_eq_ok.mp h
  obtain ⟨_, hne, h⟩ := bind_eq_ok.mp h
  cases h
  exact ⟨bytes, orError_eq_ok.mp hbytes, require_eq_ok.mp hne, rfl⟩

theorem blankless (h : decodedLen data = .ok n) : ∀ c ∈ data, Text.isWhitespace c = false := by
  obtain ⟨bytes, hbytes, -⟩ := exists_bytes h
  exact fun c hc => (base64_char hbytes hc).1

theorem trim_data (h : decodedLen data = .ok n) : data.trim = data :=
  Text.trim_of_blankless (blankless h)

theorem colon_not_mem (h : decodedLen data = .ok n) : ':' ∉ data := by
  obtain ⟨bytes, hbytes, -⟩ := exists_bytes h
  exact fun hc => (base64_char hbytes hc).2 rfl

theorem not_isPrefix_of_colon {p t : Text} (hp : ':' ∈ p) (ht : ':' ∉ t) : ¬ p <+: t :=
  fun h => ht (h.subset hp)

theorem not_dataUri (h : decodedLen data = .ok n) : ¬ "data:".toList <+: data :=
  not_isPrefix_of_colon (by decide) (colon_not_mem h)

theorem stripPrefix_data (h : decodedLen data = .ok n) :
    Text.stripPrefix "data:".toList data = none :=
  Text.stripPrefix_eq_none.mpr (not_dataUri h)

theorem not_remote (h : decodedLen data = .ok n) : remote data = false := by
  have hno (p : Text) (hp : ':' ∈ p) : p.isPrefixOf data = false := by
    rw [← Bool.not_eq_true, List.isPrefixOf_iff_prefix]
    exact not_isPrefix_of_colon hp (colon_not_mem h)
  rw [remote, hno _ (by decide), hno _ (by decide), Bool.or_self]

end Base64

inductive Source where
  | bytes (content : Bytes)
  | url (address : Text)
  | path (name : Text)

def sourceOf (reference : Text) : Option Source :=
  match Text.stripPrefix "data:".toList reference with
  | some rest => do
    let (_, data) ← Text.splitOnce ',' rest
    (Base64.decode (TextBytes.encode data)).map .bytes
  | none =>
    if remote reference then some (.url reference)
    else
      match Base64.decode (TextBytes.encode reference) with
      | some content => some (.bytes content)
      | none => some (.path reference)

def partSource (part : Json) : Option Source :=
  (mediaReference part).bind fun (reference, _) => sourceOf reference.trim

def partText (part : Json) : Json := (part.get "text").getD (.string [])

/-- The same input in two spellings. -/
structure SamePart (p q : Json) : Prop where
  modality : partModality q = partModality p
  text : partModality p = some .text → partText q = partText p
  source : partModality p ≠ some .text → partSource q = partSource p

theorem SamePart.refl (p : Json) : SamePart p p := ⟨rfl, fun _ => rfl, fun _ => rfl⟩

section Respelled

variable {ownedFileSize : Text → Option Nat} {provider : ProviderId} {modalities : Modalities}
  {modality : Modality} {p q part : Json} {size : Option Nat} {kind kind' : PartKind}
  {reference reference' rest header data url : Text} {bare bare' : Bool} {n : Nat}

/-- A part and the spelling it was given. -/
structure Respelled (ownedFileSize : Text → Option Nat) (provider : ProviderId)
    (modalities : Modalities) (p q : Json) : Prop where
  check : checkPart ownedFileSize provider modalities q = checkPart ownedFileSize provider modalities p
  again : normalizePart provider q = .ok q
  same : SamePart p q

theorem checkPart_eq (h : partKind part = some kind) (hbare : kind.isBare = false) :
    checkPart ownedFileSize provider modalities part =
      (require (modalities.supports kind.modality)
        ⟨"unsupported_input".toList, "the loaded model on ".toList ++ provider.server ++
          " does not accept ".toList ++ kind.modality.name ++ " input; remove the ".toList ++
          kind.modality.name ++ " part or load a model that supports it".toList⟩ >>= fun _ =>
        if kind.modality = .text then .ok none
        else (mediaBytes ownedFileSize provider kind.modality part).map some) := by
  have hkind : (partKind part).filter (fun kind => !kind.isBare) = some kind := by
    rw [h, Option.filter_some, if_pos (by simp [hbare])]
  rw [checkPart, hkind]
  rfl

theorem exists_kind (h : checkPart ownedFileSize provider modalities part = .ok size) :
    ∃ kind, partKind part = some kind ∧ kind.isBare = false := by
  obtain ⟨kind, hkind, -⟩ := bind_eq_ok.mp h
  rw [orError_eq_ok, Option.filter_eq_some_iff] at hkind
  exact ⟨kind, hkind.1, by simpa using hkind.2⟩

theorem mediaBytes_eq (h : mediaReference part = some (reference, bare)) :
    mediaBytes ownedFileSize provider modality part =
      referenceBytes ownedFileSize provider modality reference.trim bare := by
  rw [mediaBytes, h]
  rfl

theorem exists_reference (hkind : partKind part = some kind) (htext : kind.modality ≠ .text)
    (h : checkPart ownedFileSize provider modalities part = .ok size) :
    ∃ reference bare n, mediaReference part = some (reference, bare) ∧
      referenceBytes ownedFileSize provider kind.modality reference.trim bare = .ok n := by
  obtain ⟨kind', hkind', hbare⟩ := exists_kind h
  obtain rfl : kind = kind' := Option.some.inj (hkind.symm.trans hkind')
  rw [checkPart_eq hkind hbare] at h
  obtain ⟨_, _, h⟩ := bind_eq_ok.mp h
  rw [if_neg htext] at h
  cases hbytes : mediaBytes ownedFileSize provider kind.modality part with
  | error e => simp [hbytes, Except.map] at h
  | ok n =>
    obtain ⟨⟨reference, bare⟩, href, hok⟩ := bind_eq_ok.mp hbytes
    exact ⟨reference, bare, n, orError_eq_ok.mp href, hok⟩

theorem respelled_media (hp : partKind p = some kind) (hbare : kind.isBare = false)
    (hq : partKind q = some kind') (hbare' : kind'.isBare = false)
    (hmodality : kind'.modality = kind.modality) (htext : kind.modality ≠ .text)
    (href : mediaReference p = some (reference, bare))
    (href' : mediaReference q = some (reference', bare'))
    (hbytes : referenceBytes ownedFileSize provider kind.modality reference'.trim bare' =
      referenceBytes ownedFileSize provider kind.modality reference.trim bare)
    (hsource : sourceOf reference'.trim = sourceOf reference.trim)
    (hagain : normalizePart provider q = .ok q) :
    Respelled ownedFileSize provider modalities p q := by
  have hsame : partModality q = partModality p := by
    rw [partModality, partModality, hp, hq, Option.map_some, Option.map_some, hmodality]
  have hnotText : partModality p ≠ some .text := by
    rw [partModality, hp, Option.map_some]
    exact fun h => htext (Option.some.inj h)
  refine ⟨?_, hagain, hsame, fun h => absurd h hnotText, fun _ => ?_⟩
  · rw [checkPart_eq hp hbare, checkPart_eq hq hbare', hmodality, mediaBytes_eq href,
      mediaBytes_eq href', hbytes]
  · rw [partSource, partSource, href, href', Option.bind_some, Option.bind_some]
    exact hsource

theorem respelled_self (h : normalizePart provider p = .ok p) :
    Respelled ownedFileSize provider modalities p p := ⟨rfl, h, SamePart.refl p⟩

theorem referenceBytes_bare (h : "data:".toList <+: reference ∨ remote reference = true) :
    referenceBytes ownedFileSize provider modality reference bare =
      referenceBytes ownedFileSize provider modality reference bare' := by
  unfold referenceBytes
  cases hstrip : Text.stripPrefix "data:".toList reference with
  | some rest => rfl
  | none =>
    rcases h with h | h
    · exact absurd h (Text.stripPrefix_eq_none.mp hstrip)
    · simp [h]

theorem dataUri_or_remote (hstored : ¬ (provider = .mlxVlm ∧ modality = .video))
    (h : referenceBytes ownedFileSize provider modality reference false = .ok n) :
    "data:".toList <+: reference ∨ remote reference = true := by
  unfold referenceBytes at h
  cases hstrip : Text.stripPrefix "data:".toList reference with
  | some rest => exact .inl ⟨rest, (Text.stripPrefix_eq_some.mp hstrip).symm⟩
  | none =>
    by_cases hremote : remote reference = true
    · exact .inr hremote
    · rw [hstrip] at h
      dsimp only at h
      rw [if_neg hremote, if_neg hstored] at h
      cases h

theorem exists_data (h : dataUriBytes provider modality rest = .ok n) :
    ∃ header data, Text.splitOnce ',' rest = some (header, data) ∧
      ";base64".toList <:+ header ∧ modality.name ++ ['/'] <+: header ∧
      ¬ (provider = .mlxVlm ∧ modality = .video) ∧ decodedLen data = .ok n := by
  obtain ⟨⟨header, data⟩, hsplit, h⟩ := bind_eq_ok.mp h
  obtain ⟨_, hsuffix, h⟩ := bind_eq_ok.mp h
  obtain ⟨_, hprefix, h⟩ := bind_eq_ok.mp h
  obtain ⟨_, hstored, h⟩ := bind_eq_ok.mp h
  exact ⟨header, data, orError_eq_ok.mp hsplit,
    List.isSuffixOf_iff_suffix.mp (require_eq_ok.mp hsuffix),
    List.isPrefixOf_iff_prefix.mp (require_eq_ok.mp hprefix), require_eq_ok.mp hstored, h⟩

theorem referenceBytes_dataUri (h : Text.stripPrefix "data:".toList reference = some rest) :
    referenceBytes ownedFileSize provider modality reference bare =
      dataUriBytes provider modality rest := by
  rw [referenceBytes, h]

theorem referenceBytes_bytes (hstored : ¬ (provider = .mlxVlm ∧ modality = .video))
    (h : decodedLen data = .ok n) :
    referenceBytes ownedFileSize provider modality data true = .ok n := by
  rw [referenceBytes, stripPrefix_data h]
  dsimp only
  rw [if_neg (by simp [not_remote h]), if_neg hstored]
  exact h

theorem sourceOf_bytes (h : decodedLen data = .ok n) :
    sourceOf data = (Base64.decode (TextBytes.encode data)).map .bytes := by
  obtain ⟨bytes, hbytes, -⟩ := exists_bytes h
  rw [sourceOf, stripPrefix_data h]
  dsimp only
  rw [if_neg (by simp [not_remote h]), hbytes]
  rfl

theorem sourceOf_dataUri (h : Text.stripPrefix "data:".toList reference = some rest)
    (hsplit : Text.splitOnce ',' rest = some (header, data)) :
    sourceOf reference = (Base64.decode (TextBytes.encode data)).map .bytes := by
  rw [sourceOf, h]
  dsimp only
  rw [hsplit]
  rfl

theorem partKind_mediaPart (kind : PartKind) (media : List (Text × Json)) :
    partKind (mediaPart kind media) = some kind := by
  cases kind <;> rfl

theorem mediaReference_inputAudioPart (data : Text) (format : Option Text) :
    mediaReference (inputAudioPart data format) = some (data, true) := rfl

theorem audioText_inputAudioPart (data : Text) (format : Option Text) :
    audioText (inputAudioPart data format) "data" = some data := rfl

theorem not_isPrefixOf {p t : Text} (h : ¬ p <+: t) : p.isPrefixOf t = false := by
  rwa [← Bool.not_eq_true, List.isPrefixOf_iff_prefix]

theorem normalizePart_inputAudio (h : partKind part = some .inputAudio) :
    normalizePart provider part = normalizeInputAudio provider part := by
  simp only [normalizePart, h]

theorem normalizePart_llama_audio (hkind : partKind part = some .inputAudio)
    (hdata : audioText part "data" = some data) (h : ¬ "data:".toList <+: data.trim) :
    normalizePart .llama part = .ok part := by
  rw [normalizePart_inputAudio hkind, normalizeInputAudio, hdata, Option.getD_some,
    not_isPrefixOf h, if_neg Bool.false_ne_true]

theorem normalizePart_mlxVlm_audio (hkind : partKind part = some .inputAudio)
    (hdata : audioText part "data" = some data)
    (h : "data:".toList <+: data.trim ∨ remote data.trim = true) :
    normalizePart .mlxVlm part = .ok part := by
  have hbare : (!"data:".toList.isPrefixOf data.trim && !remote data.trim) = false := by
    rcases h with h | h
    · rw [List.isPrefixOf_iff_prefix.mpr h]
      rfl
    · rw [h, Bool.not_true, Bool.and_false]
  rw [normalizePart_inputAudio hkind, normalizeInputAudio, hdata, Option.getD_some, hbare, if_neg Bool.false_ne_true]

theorem llamaAudio_ok (htrim : reference.trim = reference)
    (hbytes : referenceBytes ownedFileSize .llama .audio reference bare = .ok n)
    (hreads : "data:".toList <+: reference ∨ remote reference = true)
    (h : llamaAudio reference = .ok q) : ∃ data format, q = inputAudioPart data format ∧
      referenceBytes ownedFileSize .llama .audio data.trim true = .ok n ∧
      sourceOf data.trim = sourceOf reference ∧ ¬ "data:".toList <+: data.trim := by
  cases hstrip : Text.stripPrefix "data:".toList reference with
  | some rest =>
    rw [referenceBytes_dataUri hstrip] at hbytes
    obtain ⟨header, data, hsplit, -, -, hstored, hdecoded⟩ := exists_data hbytes
    rw [llamaAudio, hstrip, Option.bind_some, hsplit] at h
    obtain ⟨format, -, h⟩ := bind_eq_ok.mp h
    cases h
    refine ⟨data, some format, rfl, ?_⟩
    rw [trim_data hdecoded]
    exact ⟨referenceBytes_bytes hstored hdecoded,
      (sourceOf_bytes hdecoded).trans (sourceOf_dataUri hstrip hsplit).symm, not_dataUri hdecoded⟩
  | none =>
    rw [llamaAudio, hstrip, Option.bind_none] at h
    cases h
    refine ⟨reference, none, rfl, ?_⟩
    rw [htrim]
    exact ⟨(referenceBytes_bare hreads).trans hbytes, rfl, Text.stripPrefix_eq_none.mp hstrip⟩

theorem mediaReference_inputAudio (h : partKind part = some .inputAudio) :
    mediaReference part = (audioText part "data").map (·, true) := by
  simp only [mediaReference, h]
  rfl

theorem mediaReference_url (field : String)
    (h : (kind, field) ∈ [(.imageUrl, "image_url"), (.inputImage, "image_url"),
      (.audioUrl, "audio_url"), (.videoUrl, "video_url")])
    (hkind : partKind part = some kind) :
    mediaReference part = ((part.get field).bind urlOf).map (·, false) := by
  simp only [List.mem_cons, Prod.mk.injEq, List.not_mem_nil, or_false] at h
  rcases h with ⟨rfl, rfl⟩ | ⟨rfl, rfl⟩ | ⟨rfl, rfl⟩ | ⟨rfl, rfl⟩ <;>
    simp only [mediaReference, hkind]

theorem mediaReference_urlPart (hurl : kind ∈ [.imageUrl, .audioUrl, .inputVideo]) (url : Text) :
    mediaReference (urlPart kind url) = some (url, false) := by
  simp only [List.mem_cons, List.not_mem_nil, or_false] at hurl
  rcases hurl with rfl | rfl | rfl <;> rfl

theorem respelled_llamaAudio (hkind : partKind p = some kind) (hbare : kind.isBare = false)
    (haudio : kind.modality = .audio) (href : mediaReference p = some (reference, bare))
    (hbytes : referenceBytes ownedFileSize .llama .audio reference.trim bare = .ok n)
    (hreads : "data:".toList <+: reference.trim ∨ remote reference.trim = true)
    (h : llamaAudio reference.trim = .ok q) : Respelled ownedFileSize .llama modalities p q := by
  obtain ⟨data, format, rfl, hok, hsource, hnot⟩ :=
    llamaAudio_ok (Text.trim_trim reference) hbytes hreads h
  have hq : partKind (inputAudioPart data format) = some .inputAudio := partKind_mediaPart ..
  refine respelled_media hkind hbare hq rfl haudio.symm (by rw [haudio]; decide) href
    (mediaReference_inputAudioPart data format) ?_ hsource ?_
  · rw [haudio, hok, hbytes]
  · exact normalizePart_llama_audio hq (audioText_inputAudioPart data format) hnot

theorem respelled_audioUrl (hkind : partKind p = some .audioUrl)
    (hcheck : checkPart ownedFileSize provider modalities p = .ok size)
    (h : normalizePart provider p = .ok q) : Respelled ownedFileSize provider modalities p q := by
  obtain ⟨reference, bare, n, href, hbytes⟩ := exists_reference hkind (by decide) hcheck
  have hurls := mediaReference_url "audio_url" (by decide) hkind
  obtain ⟨_, hurl, hpair⟩ := Option.map_eq_some_iff.mp (hurls.symm.trans href)
  cases hpair
  have htext : urlText p "audio_url" = reference := by rw [urlText, hurl, Option.getD_some]
  have hreads := dataUri_or_remote (by rintro ⟨-, h⟩; cases h) hbytes
  cases provider with
  | llama =>
    simp only [normalizePart, hkind, htext] at h
    exact respelled_llamaAudio hkind rfl rfl href hbytes hreads h
  | mlxVlm =>
    simp only [normalizePart, hkind, htext, Except.ok.injEq] at h
    subst h
    have hq : partKind (inputAudioPart reference.trim none) = some .inputAudio :=
      partKind_mediaPart ..
    have htrim : reference.trim.trim = reference.trim := Text.trim_trim reference
    refine respelled_media hkind rfl hq rfl rfl (by decide) href
      (mediaReference_inputAudioPart reference.trim none) ?_ (by rw [htrim]) ?_
    · rw [htrim]
      exact referenceBytes_bare hreads
    · exact normalizePart_mlxVlm_audio hq (audioText_inputAudioPart _ none) (htrim.symm ▸ hreads)
  | vllm =>
    simp only [normalizePart, hkind, Except.ok.injEq] at h
    exact h ▸ respelled_self (by simp only [normalizePart, hkind])
  | custom name =>
    simp only [normalizePart, hkind, Except.ok.injEq] at h
    exact h ▸ respelled_self (by simp only [normalizePart, hkind])

theorem audioMime_mem {format mime : Text} (h : audioMimeOfFormat format = some mime) :
    mime ∈ ["audio/wav".toList, "audio/mpeg".toList, "audio/flac".toList] := by
  unfold audioMimeOfFormat at h
  split_ifs at h <;> cases h <;> decide

theorem audio_uri {mime : Text}
    (hmime : mime ∈ ["audio/wav".toList, "audio/mpeg".toList, "audio/flac".toList])
    (h : decodedLen data = .ok n) :
    Text.trim ("data:".toList ++ mime ++ ";base64,".toList ++ data) =
        "data:".toList ++ mime ++ ";base64,".toList ++ data ∧
      Text.stripPrefix "data:".toList ("data:".toList ++ mime ++ ";base64,".toList ++ data) =
        some (mime ++ ";base64,".toList ++ data) ∧
      Text.splitOnce ',' (mime ++ ";base64,".toList ++ data) =
        some (mime ++ ";base64".toList, data) ∧
      dataUriBytes .mlxVlm .audio (mime ++ ";base64,".toList ++ data) = .ok n := by
  have hhead : ∀ c ∈ "data:".toList ++ mime ++ ";base64,".toList, Text.isWhitespace c = false := by
    simp only [List.mem_cons, List.not_mem_nil, or_false] at hmime
    rcases hmime with rfl | rfl | rfl <;> exact List.all_iff_forall_prop.mp (by decide)
  have hcomma : ',' ∉ mime ++ ";base64".toList := by
    simp only [List.mem_cons, List.not_mem_nil, or_false] at hmime
    rcases hmime with rfl | rfl | rfl <;> decide
  have haudio : (Modality.audio.name ++ ['/']).isPrefixOf (mime ++ ";base64".toList) := by
    simp only [List.mem_cons, List.not_mem_nil, or_false] at hmime
    rcases hmime with rfl | rfl | rfl <;> decide
  have hparts : mime ++ ";base64,".toList ++ data = (mime ++ ";base64".toList) ++ ',' :: data := by
    rw [List.append_assoc, List.append_assoc]
    rfl
  have hsplit : Text.splitOnce ',' (mime ++ ";base64,".toList ++ data) =
      some (mime ++ ";base64".toList, data) := by
    rw [hparts]
    exact Text.splitOnce_append hcomma data
  refine ⟨Text.trim_of_blankless fun c hc => ?_, ?_, hsplit, ?_⟩
  · rcases List.mem_append.mp hc with hc | hc
    · exact hhead c hc
    · exact blankless h c hc
  · rw [Text.stripPrefix_eq_some, List.append_assoc, List.append_assoc, List.append_assoc]
  · rw [dataUriBytes, bind_eq_ok]
    refine ⟨_, orError_eq_ok.mpr hsplit, ?_⟩
    simp only [bind_eq_ok, require_eq_ok]
    refine ⟨(), ?_, (), haudio, (), fun hvideo => (by cases hvideo.2), h⟩
    exact List.isSuffixOf_iff_suffix.mpr (List.suffix_append _ _)

theorem setAudioData_spec (hordered : Json.Ordered p) (hkind : partKind p = some .inputAudio)
    (hdata : audioText p "data" = some data) (uri : Text) :
    partKind (setAudioData p uri) = some .inputAudio ∧
      audioText (setAudioData p uri) "data" = some uri := by
  obtain ⟨value, hvalue, hstring⟩ := Option.bind_eq_some_iff.mp hdata
  obtain ⟨audio, haudio, hfield⟩ := Option.bind_eq_some_iff.mp hvalue
  cases p with
  | object fields =>
    cases audio with
    | object members =>
      have hfields : Sorted fields := hordered.sorted
      have hmembers : Sorted members := (hordered.lookup haudio).sorted
      have hset : setAudioData (.object fields) uri = .object (insertField "input_audio"
          (.object (insertField "data" (.string uri) members)) fields) := by
        simp only [setAudioData, haudio]
      have htype : (setAudioData (.object fields) uri).get "type" =
          (Json.object fields).get "type" := by
        rw [hset, Json.get, lookup_insertField hfields, if_neg (by decide)]
        rfl
      refine ⟨?_, ?_⟩
      · rw [partKind, partType, htype]
        exact hkind
      · rw [audioText, hset, Json.get, lookup_insertField hfields, if_pos rfl, Option.bind_some,
          Json.get, lookup_insertField hmembers, if_pos rfl]
        rfl
    | _ => cases hfield
  | _ => cases haudio

theorem respelled_bareAudio (hordered : Json.Ordered p) (hkind : partKind p = some .inputAudio)
    (hdata : audioText p "data" = some reference) {mime : Text}
    (hmime : mime ∈ ["audio/wav".toList, "audio/mpeg".toList, "audio/flac".toList])
    (h : decodedLen reference.trim = .ok n) :
    Respelled ownedFileSize .mlxVlm modalities p
      (setAudioData p ("data:".toList ++ mime ++ ";base64,".toList ++ reference.trim)) := by
  obtain ⟨hq, huri⟩ := setAudioData_spec hordered hkind hdata
    ("data:".toList ++ mime ++ ";base64,".toList ++ reference.trim)
  obtain ⟨htrim, hstrip, hsplit, hbytes⟩ := audio_uri hmime h
  have href : mediaReference p = some (reference, true) := by
    rw [mediaReference_inputAudio hkind, hdata, Option.map_some]
  have href' := mediaReference_inputAudio hq
  rw [huri, Option.map_some] at href'
  refine respelled_media hkind rfl hq rfl rfl (by decide) href href' ?_ ?_ ?_
  · rw [htrim, referenceBytes_dataUri hstrip]
    exact hbytes.trans (referenceBytes_bytes (by rintro ⟨-, h⟩; cases h) h).symm
  · rw [htrim, sourceOf_dataUri hstrip hsplit, sourceOf_bytes h]
  · refine normalizePart_mlxVlm_audio hq huri (.inl ?_)
    rw [htrim]
    exact ⟨_, (Text.stripPrefix_eq_some.mp hstrip).symm⟩

theorem respelled_inputAudio (hordered : Json.Ordered p) (hkind : partKind p = some .inputAudio)
    (hcheck : checkPart ownedFileSize provider modalities p = .ok size)
    (h : normalizePart provider p = .ok q) : Respelled ownedFileSize provider modalities p q := by
  obtain ⟨reference, bare, n, href, hbytes⟩ := exists_reference hkind (by decide) hcheck
  obtain ⟨_, hdata, hpair⟩ :=
    Option.map_eq_some_iff.mp ((mediaReference_inputAudio hkind).symm.trans href)
  cases hpair
  have hself : q = p → Respelled ownedFileSize provider modalities p q := by
    rintro rfl
    exact respelled_self h
  have hnormal := h
  rw [normalizePart_inputAudio hkind] at hnormal
  have htrim : reference.trim.trim = reference.trim := Text.trim_trim reference
  have hreads : (!"data:".toList.isPrefixOf reference.trim && !remote reference.trim) = false →
      "data:".toList <+: reference.trim ∨ remote reference.trim = true := by
    intro hbare
    rwa [Bool.and_eq_false_iff, Bool.not_eq_false', Bool.not_eq_false',
      List.isPrefixOf_iff_prefix] at hbare
  cases provider with
  | vllm =>
    simp only [normalizeInputAudio, hdata, Option.getD_some] at hnormal
    cases hbare : (!"data:".toList.isPrefixOf reference.trim && !remote reference.trim) with
    | true =>
      simp only [hbare, Bool.not_true, Bool.false_eq_true, if_false, bind_eq_ok,
        Except.ok.injEq] at hnormal
      obtain ⟨-, -, heq⟩ := hnormal
      exact hself heq.symm
    | false =>
      simp only [hbare, Bool.not_false, if_true, Except.ok.injEq] at hnormal
      subst hnormal
      have hq : partKind (urlPart .audioUrl reference.trim) = some .audioUrl := partKind_mediaPart ..
      refine respelled_media hkind rfl hq rfl rfl (by decide) href
        (mediaReference_urlPart (by decide) reference.trim) ?_ (by rw [htrim])
        (by simp only [normalizePart, hq])
      rw [htrim]
      exact referenceBytes_bare (hreads hbare)
  | llama =>
    simp only [normalizeInputAudio, hdata, Option.getD_some] at hnormal
    cases hdataUri : "data:".toList.isPrefixOf reference.trim with
    | true =>
      simp only [hdataUri, if_true] at hnormal
      exact respelled_llamaAudio hkind rfl rfl href hbytes
        (.inl (List.isPrefixOf_iff_prefix.mp hdataUri)) hnormal
    | false =>
      simp only [hdataUri, Bool.false_eq_true, if_false, Except.ok.injEq] at hnormal
      exact hself hnormal.symm
  | mlxVlm =>
    simp only [normalizeInputAudio, hdata, Option.getD_some] at hnormal
    cases hbare : (!"data:".toList.isPrefixOf reference.trim && !remote reference.trim) with
    | true =>
      simp only [hbare, if_true, bind_eq_ok, Except.ok.injEq] at hnormal
      obtain ⟨mime, hmime, rfl⟩ := hnormal
      rw [Bool.and_eq_true, Bool.not_eq_true', Bool.not_eq_true'] at hbare
      have hstrip : Text.stripPrefix "data:".toList reference.trim = none := by
        rw [Text.stripPrefix_eq_none, ← List.isPrefixOf_iff_prefix, hbare.1]
        exact Bool.false_ne_true
      have hdecoded : decodedLen reference.trim = .ok n := by
        simpa only [referenceBytes, hstrip, hbare.2, Bool.false_eq_true, if_false, and_false,
          reduceCtorEq, PartKind.modality, if_true] using hbytes
      exact respelled_bareAudio hordered hkind hdata (audioMime_mem (orError_eq_ok.mp hmime)) hdecoded
    | false =>
      simp only [hbare, Bool.false_eq_true, if_false, Except.ok.injEq] at hnormal
      exact hself hnormal.symm
  | custom name =>
    simp only [normalizeInputAudio, Except.ok.injEq] at hnormal
    exact hself hnormal.symm

theorem trim_videoUri (huri : "data:video/".toList <+: url)
    (hsplit : Text.splitOnce ',' url = some (header, data)) :
    ∃ rest, Text.stripPrefix "data:".toList url.trim = some (rest ++ ',' ::
        Text.trimEndMatches Text.isWhitespace data) ∧ ',' ∉ rest := by
  have hurl := Text.splitOnce_eq_some hsplit
  have hstart : Text.trimStart url = url := by
    obtain ⟨tail, rfl⟩ := huri
    rfl
  have hlength : "data:".toList.length ≤ header.length := by
    by_contra hshort
    have hcut : header ++ [','] <+: "data:video/".toList := by
      refine List.prefix_of_prefix_length_le ⟨data, by simp [hurl]⟩ huri ?_
      rw [List.length_append, List.length_singleton]
      exact Nat.le_trans (Nat.succ_le_of_lt (Nat.not_le.mp hshort)) (by decide)
    exact absurd (hcut.subset (List.mem_append_right header (List.mem_singleton_self ',')))
      (by decide)
  have hlong : "data:".toList <+: header :=
    List.prefix_of_prefix_length_le ((by decide : "data:".toList <+: "data:video/".toList).trans huri)
      ⟨',' :: data, hurl.symm⟩ hlength
  obtain ⟨rest, rfl⟩ := hlong
  refine ⟨rest, ?_, fun hmem => Text.splitOnce_not_mem hsplit (List.mem_append_right _ hmem)⟩
  rw [Text.stripPrefix_eq_some, Text.trim, hstart, hurl, Text.trimEndMatches_append (by decide),
    List.append_assoc]

theorem respelled_llamaVideo (hkind : partKind p = some .videoUrl)
    (hcheck : checkPart ownedFileSize .llama modalities p = .ok size)
    (h : normalizePart .llama p = .ok q) : Respelled ownedFileSize .llama modalities p q := by
  obtain ⟨reference, bare, n, href, hbytes⟩ := exists_reference hkind (by decide) hcheck
  have hurls := mediaReference_url "video_url" (by decide) hkind
  obtain ⟨_, hurl, hpair⟩ := Option.map_eq_some_iff.mp (hurls.symm.trans href)
  cases hpair
  have htext : urlText p "video_url" = reference := by rw [urlText, hurl, Option.getD_some]
  simp only [normalizePart, hkind, htext, llamaVideo] at h
  split at h
  · rename_i huri
    obtain ⟨⟨header, data⟩, hsplit, h⟩ := bind_eq_ok.mp h
    cases h
    obtain ⟨rest, hstrip, hcomma⟩ :=
      trim_videoUri (List.isPrefixOf_iff_prefix.mp huri) (orError_eq_ok.mp hsplit)
    have hparts := Text.splitOnce_append hcomma (Text.trimEndMatches Text.isWhitespace data)
    have hdata := hbytes
    rw [referenceBytes_dataUri hstrip] at hdata
    obtain ⟨header', data', hsplit', -, -, hstored, hdecoded⟩ := exists_data hdata
    obtain ⟨rfl, rfl⟩ := Prod.mk.inj (Option.some.inj (hparts.symm.trans hsplit'))
    have htrim : data.trim = Text.trimEndMatches Text.isWhitespace data :=
      Text.trim_of_trimEnd (blankless hdecoded)
    have hq : partKind (mediaPart .inputVideo [("data".toList, .string data)]) =
        some .inputVideo := partKind_mediaPart ..
    refine respelled_media hkind rfl hq rfl rfl (by decide) href
      (show _ = some (data, true) from rfl) ?_ ?_ (by simp only [normalizePart, hq])
    · rw [htrim, referenceBytes_bytes hstored hdecoded]
      exact hbytes.symm
    · rw [htrim, sourceOf_bytes hdecoded, sourceOf_dataUri hstrip hparts]
  · cases h
    have hq : partKind (urlPart .inputVideo reference) = some .inputVideo := partKind_mediaPart ..
    exact respelled_media hkind rfl hq rfl rfl (by decide) href
      (mediaReference_urlPart (by decide) reference) rfl rfl (by simp only [normalizePart, hq])

theorem respelled_llamaName (hkind : partKind p = some kind)
    (hname : kind = .inputText ∨ kind = .inputImage)
    (hcheck : checkPart ownedFileSize .llama modalities p = .ok size)
    (h : normalizePart .llama p = .ok q) : Respelled ownedFileSize .llama modalities p q := by
  rcases hname with rfl | rfl
  · simp only [normalizePart, hkind, Except.ok.injEq] at h
    subst h
    have hq : partKind (.object [("text".toList, (p.get "text").getD (.string [])),
        ("type".toList, .text "text")]) = some .text := rfl
    have hmodality : partModality p = some .text := by rw [partModality, hkind]; rfl
    refine ⟨?_, by simp only [normalizePart, hq], ?_, fun _ => rfl, fun h => absurd hmodality h⟩
    · rw [checkPart_eq hkind rfl, checkPart_eq hq rfl]
      rfl
    · rw [hmodality, partModality, hq]
      rfl
  · obtain ⟨reference, bare, n, href, -⟩ := exists_reference hkind (by decide) hcheck
    have hurls := mediaReference_url "image_url" (by decide) hkind
    obtain ⟨_, hurl, hpair⟩ := Option.map_eq_some_iff.mp (hurls.symm.trans href)
    cases hpair
    have htext : urlText p "image_url" = reference := by rw [urlText, hurl, Option.getD_some]
    simp only [normalizePart, hkind, htext, Except.ok.injEq] at h
    subst h
    have hq : partKind (urlPart .imageUrl reference) = some .imageUrl := partKind_mediaPart ..
    exact respelled_media hkind rfl hq rfl rfl (by decide) href
      (mediaReference_urlPart (by decide) reference) rfl rfl (by simp only [normalizePart, hq])

theorem normalizePart_self (hkind : partKind part = some kind)
    (haudio : kind ≠ .inputAudio ∧ kind ≠ .audioUrl)
    (hllama : provider = .llama → kind ≠ .videoUrl ∧ kind ≠ .inputText ∧ kind ≠ .inputImage) :
    normalizePart provider part = .ok part := by
  cases provider <;> cases kind <;> simp_all [normalizePart]

/-- A part that is accepted is the same input in the spelling of the engine, which is accepted
as well and stays as it is. -/
theorem normalizePart_respelled (hordered : Json.Ordered p)
    (hcheck : checkPart ownedFileSize provider modalities p = .ok size)
    (h : normalizePart provider p = .ok q) : Respelled ownedFileSize provider modalities p q := by
  obtain ⟨kind, hkind, -⟩ := exists_kind hcheck
  by_cases haudio : kind = .inputAudio ∨ kind = .audioUrl
  · rcases haudio with rfl | rfl
    · exact respelled_inputAudio hordered hkind hcheck h
    · exact respelled_audioUrl hkind hcheck h
  by_cases hname : provider = .llama ∧ (kind = .videoUrl ∨ kind = .inputText ∨ kind = .inputImage)
  · obtain ⟨rfl, rfl | hname⟩ := hname
    · exact respelled_llamaVideo hkind hcheck h
    · exact respelled_llamaName hkind hname hcheck h
  · have hself : normalizePart provider p = .ok p := by
      refine normalizePart_self hkind (not_or.mp haudio) fun hllama => ?_
      obtain ⟨hvideo, hothers⟩ := not_or.mp fun hor => hname ⟨hllama, hor⟩
      exact ⟨hvideo, not_or.mp hothers⟩
    obtain rfl : p = q := Except.ok.inj (hself.symm.trans h)
    exact respelled_self h

end Respelled

end AioLM.Protocol
