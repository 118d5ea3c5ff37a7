import AioLM.GgufHeader
import AioLM.Lists

/-!
The order of the keys of a GGUF header does not matter: what either reader
returns is, field by field, what the entry of the field's own key carries.
-/

set_option autoImplicit false

namespace AioLM.Gguf

variable {α β : Type}

structure Entry where
  key : Text
  value : Value

def Entry.encode (entry : Entry) : Bytes :=
  encodeString (TextBytes.encode entry.key) ++
    (leBytes 4 entry.value.code ++ entry.value.encode)

structure Header where
  version : Nat
  tensors : Nat
  entries : List Entry
  version_ok : 2 ≤ version ∧ version ≤ 3
  tensors_ok : tensors ≤ MAX_TENSORS
  keys_ok : entries.length ≤ MAX_KEYS
  distinct : (entries.map Entry.key).Nodup

def Header.encode (header : Header) : Bytes :=
  TextBytes.ascii "GGUF" ++ (leBytes 4 header.version ++ (leBytes 8 header.tensors ++
    (leBytes 8 header.entries.length ++ header.entries.flatMap Entry.encode)))

def Header.reorder (header : Header) (entries : List Entry) (h : entries.Perm header.entries) :
    Header :=
  { header with
    entries
    keys_ok := h.length_eq ▸ header.keys_ok
    distinct := (h.map Entry.key).nodup_iff.mpr header.distinct }

def valueAt (key : Text) (entries : List Entry) : Option Value :=
  (entries.find? fun entry => entry.key = key).map Entry.value

def textAt (key : Text) (entries : List Entry) : Option Text :=
  (valueAt key entries).bind Value.asText

def unsignedAt (key : Text) (entries : List Entry) : Option Nat :=
  (valueAt key entries).bind Value.asUnsigned

def integerAt (key : Text) (entries : List Entry) : Option Nat :=
  (valueAt key entries).bind Value.asInteger

def rawAt (key : Text) (entries : List Entry) : Option RawValue :=
  (valueAt key entries).bind Value.asRaw

def textsAt (key : Text) (entries : List Entry) : List Text :=
  ((valueAt key entries).map Value.asTexts).getD []

def metadataOf (entries : List Entry) : ModelMetadata :=
  let text (key : Text) := textAt key entries
  let architecture := text architectureName
  let number (suffix : String) := architecture.bind fun name =>
    unsignedAt (architectureKey name suffix) entries
  { author := text authorKey
    organization := text organizationKey
    quantizedBy := text quantizedByKey
    repoUrl := text repoUrlKey
    architecture := architecture
    sizeLabel := text sizeLabelKey
    modelType := text modelTypeKey
    finetune := text finetuneKey
    license := text licenseKey
    quantization := quantizationOf (unsignedAt fileTypeKey entries)
    tags := textsAt tagsKey entries
    languages := textsAt languagesKey entries
    contextLength := (number "context_length").filter fun n => 0 < n
    expertCount := number "expert_count"
    expertUsedCount := number "expert_used_count" }

def recurrentUnder (architecture : Text) (entries : List Entry) : Bool :=
  entries.any fun entry => RECURRENT_KEYS.any fun marker =>
    (architectureKey architecture marker).isPrefixOf entry.key

def alignmentOf (entries : List Entry) : Nat :=
  (integerAt alignmentKey entries).getD DEFAULT_ALIGNMENT

def factsOf (entries : List Entry) (tensors : Option TensorBytes) : ModelFacts :=
  let facts : ModelFacts :=
    { architecture := textAt architectureName entries
      splitCount := integerAt splitCountKey entries
      tensors }
  match textAt architectureName entries with
  | none => facts
  | some architecture =>
    architectureFacts (fun suffix => rawAt (architectureKey architecture suffix) entries)
      { facts with recurrentState := recurrentUnder architecture entries }

def Value.textCost : Value → Cost
  | .text bytes => stringCost bytes
  | value => value.skipCost

def Entry.keyCost (entry : Entry) : Cost := stringCost (TextBytes.encode entry.key)

def Entry.metadataCost (entry : Entry) : Cost :=
  entry.keyCost +
    if entry.key ∈ textKeys then entry.value.textCost
    else if entry.key = tagsKey ∨ entry.key = languagesKey then entry.value.textsCost
    else entry.value.skipCost

def Entry.factCost (entry : Entry) : Cost :=
  entry.keyCost +
    if entry.key = architectureName then entry.value.textCost else entry.value.skipCost

structure Entry.Bounded (entry : Entry) : Prop where
  key : (TextBytes.encode entry.key).length ≤ MAX_KEY_BYTES
  value : entry.value.Bounded

instance (entry : Entry) : Decidable entry.Bounded :=
  decidable_of_iff ((TextBytes.encode entry.key).length ≤ MAX_KEY_BYTES ∧ entry.value.Bounded)
    ⟨fun h => ⟨h.1, h.2⟩, fun h => ⟨h.key, h.value⟩⟩

/-- The limits the reader documents, for the strings one reader holds and meets. -/
structure Header.Within (header : Header) (cost : Entry → Cost) : Prop where
  entries : ∀ entry ∈ header.entries, entry.Bounded
  span : header.encode.length ≤ MAX_HEADER_SPAN
  strings : (header.entries.map cost).sum.1 ≤ MAX_STRING_BUDGET
  stringEntries : (header.entries.map cost).sum.2 ≤ MAX_STRING_ENTRIES

instance (header : Header) (cost : Entry → Cost) : Decidable (header.Within cost) :=
  decidable_of_iff ((∀ entry ∈ header.entries, entry.Bounded) ∧
      header.encode.length ≤ MAX_HEADER_SPAN ∧
      (header.entries.map cost).sum.1 ≤ MAX_STRING_BUDGET ∧
      (header.entries.map cost).sum.2 ≤ MAX_STRING_ENTRIES)
    ⟨fun h => ⟨h.1, h.2.1, h.2.2.1, h.2.2.2⟩, fun h => ⟨h.entries, h.span, h.strings,
      h.stringEntries⟩⟩

theorem Value.code_lt (value : Value) : value.code < 256 ^ 4 := by
  cases value with
  | scalar kind _ => exact kind.code_lt
  | text _ => exact (by decide : 8 < 256 ^ 4)
  | scalars _ _ | texts _ => exact (by decide : 9 < 256 ^ 4)

theorem Value.code_eq_iff (value : Value) : value.code = 8 ↔ value.asText.isSome := by
  cases value with
  | scalar kind _ => cases kind <;> simp [code, ScalarKind.code, asText]
  | _ => simp [code, asText]

theorem textValue_key {key : Text} (h : (TextBytes.encode key).length ≤ MAX_KEY_BYTES) :
    textValue (TextBytes.encode key) = key := by
  rw [textValue, if_neg (Nat.not_lt.mpr h), textOf, TextBytes.decode_encode]
  rfl

namespace Takes

theorem keyed {entry : Entry} (hentry : entry.Bounded) {read : Scanner Text}
    (hread : ∀ found, Takes read (encodeString found) (stringCost found) (textValue found))
    {body : Text → Nat → Scanner α} {cost : Cost} {a : α}
    (hbody : Takes (body entry.key entry.value.code) entry.value.encode cost a) :
    Takes (read >>= fun key => Gguf.u32 >>= fun kind => body key kind) entry.encode
      (entry.keyCost + cost) a := by
  have hkey := hread (TextBytes.encode entry.key)
  rw [textValue_key hentry.key] at hkey
  have hvalue := bind (f := body entry.key) (u32 entry.value.code_lt) hbody
  rw [zero_add] at hvalue
  exact bind (f := fun key => Gguf.u32 >>= body key) hkey hvalue

theorem readText {value : Value} (h : value.Bounded) {f : Text → α} {a : α} :
    Takes (if value.code = 8 then do
        let text ← Gguf.string
        return f text
      else do
        Gguf.skipValue value.code
        return a)
      value.encode value.textCost ((value.asText.map f).getD a) := by
  cases value with
  | text bytes => exact (string bytes).map
  | _ =>
    rw [if_neg (fun hcode => by simpa [Value.asText] using (Value.code_eq_iff _).mp hcode)]
    exact (skipValue h).map

end Takes

def MetadataScan.apply (scan : MetadataScan) (entry : Entry) : MetadataScan :=
  if entry.key ∈ textKeys then
    ((entry.value.asText.map fun text =>
      { scan with metadata := scan.metadata.setText entry.key (some text) }).getD scan)
  else if entry.key = fileTypeKey then
    { scan with metadata :=
      { scan.metadata with quantization := quantizationOf entry.value.asUnsigned } }
  else if entry.key = tagsKey ∨ entry.key = languagesKey then
    { scan with metadata :=
      if entry.key = tagsKey then { scan.metadata with tags := entry.value.asTexts }
      else { scan.metadata with languages := entry.value.asTexts } }
  else if isArchitectureKey entry.key then scan.insertValue entry.key entry.value.asUnsigned
  else scan

theorem readMetadataEntry_takes (scan : MetadataScan) {entry : Entry} (h : entry.Bounded) :
    Takes (readMetadataEntry scan) entry.encode entry.metadataCost (scan.apply entry) := by
  refine Takes.keyed h Takes.string ?_
  have hvalue := h.value
  unfold readMetadataValue MetadataScan.apply
  by_cases htext : entry.key ∈ textKeys
  · rw [if_pos htext, if_pos htext, if_pos htext]
    exact Takes.readText hvalue
  rw [if_neg htext, if_neg htext, if_neg htext]
  by_cases htype : entry.key = fileTypeKey
  · have hother : ¬ (entry.key = tagsKey ∨ entry.key = languagesKey) := by
      rw [htype]
      decide
    rw [if_pos htype, if_pos htype, if_neg hother]
    exact (Takes.readUnsigned hvalue).map
  rw [if_neg htype, if_neg htype]
  by_cases harray : entry.key = tagsKey ∨ entry.key = languagesKey
  · rw [if_pos harray, if_pos harray, if_pos harray]
    exact (Takes.readStringArray hvalue).map
  rw [if_neg harray, if_neg harray, if_neg harray]
  split
  · exact (Takes.readUnsigned hvalue).map
  · exact (Takes.skipValue hvalue).map

def ModelMetadata.getText (key : Text) (metadata : ModelMetadata) : Option Text :=
  if key = architectureName then metadata.architecture
  else if key = sizeLabelKey then metadata.sizeLabel
  else if key = modelTypeKey then metadata.modelType
  else if key = finetuneKey then metadata.finetune
  else if key = licenseKey then metadata.license
  else if key = authorKey then metadata.author
  else if key = organizationKey then metadata.organization
  else if key = quantizedByKey then metadata.quantizedBy
  else metadata.repoUrl

theorem textKeys_nodup : textKeys.Nodup := by decide

theorem getText_fields (metadata : ModelMetadata) :
    textKeys.map metadata.getText = [metadata.architecture, metadata.sizeLabel,
      metadata.modelType, metadata.finetune, metadata.license, metadata.author,
      metadata.organization, metadata.quantizedBy, metadata.repoUrl] := by
  have hreverse := List.nodup_reverse.mpr textKeys_nodup
  simp only [textKeys, List.reverse_cons, List.reverse_nil, List.nil_append, List.cons_append,
    List.nodup_cons, List.mem_cons, List.not_mem_nil, or_false, not_or, List.nodup_nil,
    not_false_eq_true, and_true] at hreverse
  simp [textKeys, ModelMetadata.getText, hreverse]

theorem getText_setText {key k : Text} (hkey : key ∈ textKeys) (hk : k ∈ textKeys)
    (value : Option Text) (metadata : ModelMetadata) :
    (metadata.setText key value).getText k = if key = k then value else metadata.getText k := by
  have hdistinct := textKeys_nodup
  have hreverse := List.nodup_reverse.mpr textKeys_nodup
  simp only [textKeys, List.reverse_cons, List.reverse_nil, List.nil_append, List.cons_append,
    List.nodup_cons, List.mem_cons, List.not_mem_nil, or_false, not_or, List.nodup_nil,
    not_false_eq_true, and_true] at hdistinct hreverse hkey hk
  obtain rfl | rfl | rfl | rfl | rfl | rfl | rfl | rfl | rfl := hkey <;>
    obtain rfl | rfl | rfl | rfl | rfl | rfl | rfl | rfl | rfl := hk <;>
      simp [ModelMetadata.setText, ModelMetadata.getText, hdistinct, hreverse]

structure MetadataScan.SameBesideTexts (scan scan' : MetadataScan) : Prop where
  quantization : scan'.metadata.quantization = scan.metadata.quantization
  tags : scan'.metadata.tags = scan.metadata.tags
  languages : scan'.metadata.languages = scan.metadata.languages
  architectureValues : scan'.architectureValues = scan.architectureValues
  contextLength : scan'.metadata.contextLength = scan.metadata.contextLength
  expertCount : scan'.metadata.expertCount = scan.metadata.expertCount
  expertUsedCount : scan'.metadata.expertUsedCount = scan.metadata.expertUsedCount

theorem setText_same (key : Text) (value : Option Text) (scan : MetadataScan) :
    scan.SameBesideTexts { scan with metadata := scan.metadata.setText key value } := by
  simp only [ModelMetadata.setText]
  repeat' split
  all_goals exact ⟨rfl, rfl, rfl, rfl, rfl, rfl, rfl⟩

namespace MetadataScan

variable {scan : MetadataScan} {entry : Entry}

theorem apply_text (h : entry.key ∈ textKeys) : scan.SameBesideTexts (scan.apply entry) := by
  rw [apply, if_pos h]
  cases entry.value.asText with
  | none => exact ⟨rfl, rfl, rfl, rfl, rfl, rfl, rfl⟩
  | some text => exact setText_same entry.key (some text) scan

theorem apply_other (h : entry.key ∉ textKeys) : scan.apply entry =
    if entry.key = fileTypeKey then
      { scan with metadata :=
        { scan.metadata with quantization := quantizationOf entry.value.asUnsigned } }
    else if entry.key = tagsKey then
      { scan with metadata := { scan.metadata with tags := entry.value.asTexts } }
    else if entry.key = languagesKey then
      { scan with metadata := { scan.metadata with languages := entry.value.asTexts } }
    else if isArchitectureKey entry.key then
      scan.insertValue entry.key entry.value.asUnsigned
    else scan := by
  rw [apply, if_neg h]
  by_cases htype : entry.key = fileTypeKey
  · rw [if_pos htype, if_pos htype]
  rw [if_neg htype, if_neg htype]
  by_cases htags : entry.key = tagsKey
  · rw [if_pos (.inl htags), if_pos htags, if_pos htags]
  by_cases hlanguages : entry.key = languagesKey
  · rw [if_pos (.inr hlanguages), if_neg htags, if_neg htags, if_pos hlanguages]
  · rw [if_neg (not_or.mpr ⟨htags, hlanguages⟩), if_neg htags, if_neg hlanguages]

theorem insertValue_metadata (key : Text) (value : Option Nat) (scan : MetadataScan) :
    (scan.insertValue key value).metadata = scan.metadata := by
  cases value <;> rfl

theorem getText_apply {k : Text} (hk : k ∈ textKeys) (scan : MetadataScan) (entry : Entry) :
    (scan.apply entry).metadata.getText k =
      if entry.key = k then entry.value.asText.or (scan.metadata.getText k)
      else scan.metadata.getText k := by
  by_cases htext : entry.key ∈ textKeys
  · rw [apply, if_pos htext]
    cases entry.value.asText with
    | none => exact (ite_self _).symm
    | some text => exact getText_setText htext hk (some text) scan.metadata
  · have hne : entry.key ≠ k := fun h => htext (h ▸ hk)
    rw [if_neg hne, apply_other htext]
    repeat' split
    all_goals first | rfl | rw [insertValue_metadata]

theorem quantization_apply (scan : MetadataScan) (entry : Entry) :
    (scan.apply entry).metadata.quantization =
      if entry.key = fileTypeKey then quantizationOf entry.value.asUnsigned
      else scan.metadata.quantization := by
  by_cases htext : entry.key ∈ textKeys
  · have hne : entry.key ≠ fileTypeKey := fun h => absurd (h ▸ htext) (by decide)
    rw [if_neg hne, (apply_text htext).quantization]
  · rw [apply_other htext]
    repeat' split
    all_goals first | rfl | rw [insertValue_metadata]

theorem tags_apply (scan : MetadataScan) (entry : Entry) :
    (scan.apply entry).metadata.tags =
      if entry.key = tagsKey then entry.value.asTexts else scan.metadata.tags := by
  by_cases htext : entry.key ∈ textKeys
  · have hne : entry.key ≠ tagsKey := fun h => absurd (h ▸ htext) (by decide)
    rw [if_neg hne, (apply_text htext).tags]
  · rw [apply_other htext]
    by_cases htags : entry.key = tagsKey
    · rw [htags, if_neg (by decide), if_pos rfl, if_pos rfl]
    · rw [if_neg htags, if_neg htags]
      repeat' split
      all_goals first | rfl | rw [insertValue_metadata]

theorem languages_apply (scan : MetadataScan) (entry : Entry) :
    (scan.apply entry).metadata.languages =
      if entry.key = languagesKey then entry.value.asTexts else scan.metadata.languages := by
  by_cases htext : entry.key ∈ textKeys
  · have hne : entry.key ≠ languagesKey := fun h => absurd (h ▸ htext) (by decide)
    rw [if_neg hne, (apply_text htext).languages]
  · rw [apply_other htext]
    by_cases hlanguages : entry.key = languagesKey
    · rw [hlanguages, if_neg (by decide), if_neg (by decide), if_pos rfl, if_pos rfl]
    · rw [if_neg hlanguages, if_neg hlanguages]
      repeat' split
      all_goals first | rfl | rw [insertValue_metadata]

theorem isArchitectureKey_other {key : Text} (h : isArchitectureKey key = true) :
    key ∉ textKeys ∧ key ≠ fileTypeKey ∧ key ≠ tagsKey ∧ key ≠ languagesKey := by
  have hnone : ∀ k ∈ fileTypeKey :: tagsKey :: languagesKey :: textKeys,
      isArchitectureKey k = false := by
    decide
  have hne (k : Text) (hk : k ∈ fileTypeKey :: tagsKey :: languagesKey :: textKeys) :
      key ≠ k := by
    intro heq
    rw [heq, hnone k hk] at h
    cases h
  refine ⟨fun hmem => hne key (by simp [hmem]) rfl, hne _ (by simp), hne _ (by simp),
    hne _ (by simp)⟩

theorem architectureValues_apply {k : Text} (hk : isArchitectureKey k = true)
    (scan : MetadataScan) (entry : Entry) :
    (scan.apply entry).architectureValues.get k =
      if entry.key = k then entry.value.asUnsigned.or (scan.architectureValues.get k)
      else scan.architectureValues.get k := by
  by_cases hkey : entry.key = k
  · obtain ⟨htext, htype, htags, hlanguages⟩ := isArchitectureKey_other hk
    rw [← hkey] at hk htext htype htags hlanguages ⊢
    rw [apply_other htext, if_neg htype, if_neg htags, if_neg hlanguages, if_pos hk, if_pos rfl]
    cases entry.value.asUnsigned with
    | none => rfl
    | some value => exact (KeyMap.get_insert _ _ _ _).trans (if_pos rfl)
  · rw [if_neg hkey]
    by_cases htext : entry.key ∈ textKeys
    · rw [(apply_text htext).architectureValues]
    · rw [apply_other htext]
      repeat' split
      all_goals first
        | rfl
        | (unfold insertValue
           split
           · exact (KeyMap.get_insert _ _ _ _).trans (if_neg (Ne.symm hkey))
           · rfl)

/-- The three fields that are filled at the end only. -/
def waiting (scan : MetadataScan) : Option Nat × Option Nat × Option Nat :=
  (scan.metadata.contextLength, scan.metadata.expertCount, scan.metadata.expertUsedCount)

theorem waiting_apply (scan : MetadataScan) (entry : Entry) :
    (scan.apply entry).waiting = scan.waiting := by
  unfold waiting
  by_cases htext : entry.key ∈ textKeys
  · have hsame : scan.SameBesideTexts (scan.apply entry) := apply_text htext
    rw [hsame.contextLength, hsame.expertCount, hsame.expertUsedCount]
  · rw [apply_other htext]
    repeat' split
    all_goals first | rfl | rw [insertValue_metadata]

end MetadataScan

/-- The fold of the entries, seen through a part that one key can change: the first
value of the part, or what the entry of that key makes of it. -/
theorem foldl_valueAt {σ π : Type} {step : σ → Entry → σ} {k : Text} (view : σ → π)
    (update : π → Value → π)
    (hstep : ∀ s entry, view (step s entry) =
      if entry.key = k then update (view s) entry.value else view s)
    {entries : List Entry} (hkeys : (entries.map Entry.key).Nodup) (s : σ) :
    view (entries.foldl step s) = ((valueAt k entries).map (update (view s))).getD (view s) := by
  rw [Lists.foldl_keyed view (fun old entry => update old entry.value) hstep hkeys s, valueAt,
    Option.map_map]
  rfl

section

variable {entries : List Entry} (hkeys : (entries.map Entry.key).Nodup)
include hkeys

theorem getText_fold {k : Text} (hk : k ∈ textKeys) :
    (entries.foldl MetadataScan.apply {}).metadata.getText k = textAt k entries := by
  have hnone : (({} : MetadataScan).metadata.getText k) = none := by
    simp [ModelMetadata.getText]
  rw [foldl_valueAt (fun scan : MetadataScan => scan.metadata.getText k)
    (fun old value => value.asText.or old) (MetadataScan.getText_apply hk) hkeys {}, hnone, textAt]
  cases valueAt k entries with
  | none => rfl
  | some value => exact Option.or_none

theorem quantization_fold : (entries.foldl MetadataScan.apply {}).metadata.quantization =
    quantizationOf (unsignedAt fileTypeKey entries) := by
  rw [foldl_valueAt (fun scan : MetadataScan => scan.metadata.quantization)
    (fun _ value => quantizationOf value.asUnsigned) MetadataScan.quantization_apply hkeys {},
    unsignedAt]
  cases valueAt fileTypeKey entries <;> rfl

theorem tags_fold :
    (entries.foldl MetadataScan.apply {}).metadata.tags = textsAt tagsKey entries := by
  rw [foldl_valueAt (fun scan : MetadataScan => scan.metadata.tags)
    (fun _ value => value.asTexts) MetadataScan.tags_apply hkeys {}]
  rfl

theorem languages_fold :
    (entries.foldl MetadataScan.apply {}).metadata.languages = textsAt languagesKey entries := by
  rw [foldl_valueAt (fun scan : MetadataScan => scan.metadata.languages)
    (fun _ value => value.asTexts) MetadataScan.languages_apply hkeys {}]
  rfl

theorem architectureValues_fold {k : Text} (hk : isArchitectureKey k = true) :
    (entries.foldl MetadataScan.apply {}).architectureValues.get k = unsignedAt k entries := by
  rw [foldl_valueAt (fun scan : MetadataScan => scan.architectureValues.get k)
    (fun old value => value.asUnsigned.or old) (MetadataScan.architectureValues_apply hk) hkeys {},
    unsignedAt]
  cases valueAt k entries with
  | none => rfl
  | some value => exact Option.or_none

omit hkeys in
theorem isArchitectureKey_of_suffix (architecture : Text) {suffix : String}
    (h : suffix ∈ ["context_length", "expert_count", "expert_used_count"]) :
    isArchitectureKey (architectureKey architecture suffix) = true := by
  have hmem : ∀ suffix ∈ ["context_length", "expert_count", "expert_used_count"],
      '.' :: suffix.toList ∈ architectureSuffixes := by
    decide
  rw [isArchitectureKey, List.any_eq_true]
  refine ⟨_, hmem suffix h, ?_⟩
  rw [List.isSuffixOf_iff_suffix]
  exact List.suffix_append _ _

theorem metadata_fold :
    (entries.foldl MetadataScan.apply {}).finish = metadataOf entries := by
  have hwaiting := Lists.foldl_view_eq
    (fun scan (entry : Entry) (_ : entry ∈ entries) => MetadataScan.waiting_apply scan entry) {}
  have htexts : textKeys.map (entries.foldl MetadataScan.apply {}).metadata.getText =
      textKeys.map fun k => textAt k entries :=
    List.map_congr_left fun k hk => getText_fold hkeys hk
  have hvalues (architecture : Text) (suffix : String)
      (h : suffix ∈ ["context_length", "expert_count", "expert_used_count"]) :=
    architectureValues_fold hkeys (isArchitectureKey_of_suffix architecture h)
  have hquantization := quantization_fold hkeys
  have htags := tags_fold hkeys
  have hlanguages := languages_fold hkeys
  rw [getText_fields] at htexts
  revert hwaiting htexts hvalues hquantization htags hlanguages
  generalize entries.foldl MetadataScan.apply {} = scan
  intro hwaiting htexts hvalues hquantization htags hlanguages
  simp only [MetadataScan.waiting, Prod.mk.injEq] at hwaiting
  simp only [textKeys, List.map_cons, List.map_nil, List.cons.injEq, and_true] at htexts
  obtain ⟨hcontext, hcount, hused⟩ := hwaiting
  obtain ⟨harchitecture, hsize, htype, hfinetune, hlicense, hauthor, horganization, hquantized,
    hrepo⟩ := htexts
  obtain ⟨metadata, values⟩ := scan
  cases metadata
  simp only at *
  subst hcontext hcount hused hsize htype hfinetune hlicense hauthor horganization hquantized
    hrepo hquantization htags hlanguages
  cases hname : textAt architectureName entries with
  | none => simp [MetadataScan.finish, metadataOf, harchitecture, hname]
  | some architecture =>
    simp [MetadataScan.finish, metadataOf, harchitecture, hname, hvalues architecture]

end

theorem Header.encode_eq (header : Header) : header.encode =
    (TextBytes.ascii "GGUF" ++ (leBytes 4 header.version ++ (leBytes 8 header.tensors ++
      leBytes 8 header.entries.length))) ++ header.entries.flatMap Entry.encode := by
  simp only [encode, List.append_assoc]

theorem readHeader_takes (header : Header) :
    Takes readHeader (TextBytes.ascii "GGUF" ++ (leBytes 4 header.version ++
      (leBytes 8 header.tensors ++ leBytes 8 header.entries.length))) 0
      (header.tensors, header.entries.length) := by
  have hversion := header.version_ok
  have htensors : header.tensors < 256 ^ 8 := Nat.lt_of_le_of_lt header.tensors_ok (by decide)
  have hkeys : header.entries.length < 256 ^ 8 := Nat.lt_of_le_of_lt header.keys_ok (by decide)
  have hcost : (0 : Cost) = 0 + (0 + (0 + (0 + 0))) := rfl
  rw [hcost, ← List.append_nil (leBytes 8 header.entries.length)]
  refine Takes.bind (Takes.bytes (by decide)) ?_
  rw [if_neg (by simp)]
  refine Takes.bind (Takes.u32 (by omega)) ?_
  rw [if_neg (by omega)]
  refine Takes.bind (Takes.u64 htensors) (Takes.bind (Takes.u64 hkeys) ?_)
  rw [if_neg (Nat.not_lt.mpr header.keys_ok)]
  exact Takes.pure _

theorem Header.scan_takes {header : Header} {cost : Entry → Cost} (h : header.Within cost)
    {read : Nat × Nat → Scanner α} {a : α}
    (hread : Takes (read (header.tensors, header.entries.length))
      (header.entries.flatMap Entry.encode) (header.entries.map cost).sum a) (tail : Bytes) :
    (readHeader >>= read) { reader := { rest := header.encode ++ tail } } =
      .ok (a, { reader := ⟨tail, header.encode.length, (header.entries.map cost).sum.1,
        (header.entries.map cost).sum.2⟩ }) := by
  have htakes := (readHeader_takes header).bind hread
  rw [← Header.encode_eq, zero_add] at htakes
  have hrun := htakes { rest := header.encode ++ tail } tail rfl
    ⟨by simpa using h.span, by simpa using h.strings, by simpa using h.stringEntries⟩
  rw [hrun]
  simp [Reader.after]

theorem readMetadata_encode {header : Header} (h : header.Within Entry.metadataCost)
    (tail : Bytes) : readMetadata (header.encode ++ tail) = .ok (metadataOf header.entries) := by
  have hstep (scan : MetadataScan) (entry : Entry) (hentry : entry ∈ header.entries) :
      Takes (readMetadataEntry scan) entry.encode entry.metadataCost (scan.apply entry) :=
    readMetadataEntry_takes scan (h.entries entry hentry)
  have hloop := (Takes.loopM hstep {}).map (f := MetadataScan.finish)
  rw [metadata_fold header.distinct] at hloop
  rw [readMetadata, scanFile, Header.scan_takes h hloop tail]

end AioLM.Gguf
