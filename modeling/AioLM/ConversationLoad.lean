import AioLM.ConversationStore
import AioLM.JsonPretty

/-!
What a load makes of a saved conversation, whatever was done in between.
-/

set_option autoImplicit false

namespace AioLM.Conversations

open Fallible Runs

variable {pkg : Packages} {D : Set Bytes} {disk : Disk}

/-- The field as it was, with the format's version, the messages' data URLs in lower
case, and a field of the format that was left out as its default. -/
def expectedField (pkg : Packages) (fields : List (Text × Json)) (k : Text) : Option Json :=
  if k = "version".toList then some (.int formatVersion)
  else if k = "messages".toList then
    some (.array ((threadMessages fields).map (loweredMessage pkg)))
  else if k ∈ formatFields then some ((Json.lookup k fields).getD .null)
  else Json.lookup k fields

/-- The saved value came back. -/
def Returned (pkg : Packages) (thread loaded : Json) : Prop :=
  ∃ fields found, thread = .object fields ∧ loaded = .object found ∧ Json.Sorted found ∧
    ∀ k, Json.lookup k found = expectedField pkg fields k

def LoadsBack (pkg : Packages) (root : Root) (thread : Json) : Prop :=
  (∃ loaded ∈ (load pkg root).threads, Returned pkg thread loaded) ∧
    ∀ t, StoredThread.fromValue thread = some t → ∀ w ∈ (load pkg root).warnings,
      ¬ (folderName pkg t.id ++ ": ".toList) <+: w

theorem returned_iff {fields : List (Text × Json)} {t : StoredThread}
    (hfrom : StoredThread.fromFields fields = some t) (hsorted : Json.Sorted fields)
    (messages : List Json) :
    Returned pkg (.object fields)
        ({ t with version := formatVersion, messages := messages } : StoredThread).toValue ↔
      messages = t.messages.map (loweredMessage pkg) := by
  obtain ⟨hid, htitle, hprompt, hcreated, hupdated, hmessages, hrest⟩ := fromFields_ok hfrom
  generalize hnew : ({ t with version := formatVersion, messages := messages } : StoredThread) = u
  have hnodup : (fields.map (·.1)).Nodup := List.pairwise_map.mpr (hsorted.imp fun hlt => hlt.ne)
  have hfound (k : Text) : Json.lookup k (collect u.fields).entries = Json.lookup k u.fields := by
    rw [← get_collect u.keys_nodup, KeyMap.get, Json.find_eq_lookup]
  have hother {k : Text} (hk : k ∉ formatFields) :
      Json.lookup k u.fields = Json.lookup k fields := by
    have hsame : u.rest = restOf fields := by rw [← hnew, ← hrest]
    rw [u.lookup_fields_rest hk, hsame, restOf, KeyMap.get_filterMap, get_collect hnodup]
    cases Json.lookup k fields <;> simp [hk]
  constructor
  · rintro ⟨fields', found, heq, hvalue, _, hlookup⟩
    cases heq
    rw [StoredThread.toValue_eq] at hvalue
    have hmessage := hlookup "messages".toList
    rw [← Json.object.inj hvalue, hfound, u.lookup_messages, expectedField, if_neg (by decide),
      if_pos rfl, ← hmessages, ← hnew] at hmessage
    exact Json.array.inj (Option.some.inj hmessage)
  · intro hmapped
    refine ⟨fields, _, rfl, rfl, (collect u.fields).sorted, fun k => ?_⟩
    rw [hfound]
    by_cases hk : k ∈ formatFields
    · simp only [formatFields, List.mem_cons, List.not_mem_nil, or_false] at hk
      rcases hk with rfl | rfl | rfl | rfl | rfl | rfl | rfl
      · rw [u.lookup_version, ← hnew]
        rfl
      · rw [u.lookup_id, expectedField, if_neg (by decide), if_neg (by decide),
          if_pos (by decide), hid, ← hnew]
        rfl
      · rw [u.lookup_title, expectedField, if_neg (by decide), if_neg (by decide),
          if_pos (by decide), ← hnew, ← fieldOr, ← htitle]
      · rw [u.lookup_systemPrompt, expectedField, if_neg (by decide), if_neg (by decide),
          if_pos (by decide), ← hnew, ← fieldOr, ← hprompt]
      · rw [u.lookup_createdAt, expectedField, if_neg (by decide), if_neg (by decide),
          if_pos (by decide), ← hnew, ← fieldOr, ← hcreated]
      · rw [u.lookup_updatedAt, expectedField, if_neg (by decide), if_neg (by decide),
          if_pos (by decide), ← hnew, ← fieldOr, ← hupdated]
      · rw [u.lookup_messages, expectedField, if_neg (by decide), if_pos rfl, ← hmessages,
          ← hnew, hmapped]
    · rw [hother hk, expectedField, if_neg, if_neg, if_neg hk]
      · exact fun heq => hk (heq ▸ by decide)
      · exact fun heq => hk (heq ▸ by decide)

def entryThreads (pkg : Packages) (entry : Text × Folder) : List Json :=
  match readThread pkg entry.1 entry.2 with
  | .ok (some t) => if folderName pkg t.id = entry.1 then [t.toValue] else []
  | _ => []

def entryWarnings (pkg : Packages) (entry : Text × Folder) : List Text :=
  match readThread pkg entry.1 entry.2 with
  | .ok (some t) =>
    if folderName pkg t.id = entry.1 then []
    else [warning entry.1 folderMismatch]
  | .ok none => []
  | .error error => [warning entry.1 error]

theorem load_eq (pkg : Packages) (root : Root) :
    load pkg root =
      ⟨root.entries.flatMap (entryThreads pkg), root.entries.flatMap (entryWarnings pkg)⟩ := by
  have hfold (entries : List (Text × Folder)) (loaded : Loaded) :
      entries.foldl (loadEntry pkg) loaded =
        ⟨loaded.threads ++ entries.flatMap (entryThreads pkg),
          loaded.warnings ++ entries.flatMap (entryWarnings pkg)⟩ := by
    induction entries generalizing loaded with
    | nil => simp
    | cons entry entries ih =>
      rw [List.foldl_cons, ih, List.flatMap_cons, List.flatMap_cons]
      unfold loadEntry entryThreads entryWarnings
      cases readThread pkg entry.1 entry.2 with
      | error error => simp only [List.nil_append, List.append_assoc]
      | ok found =>
        cases found with
        | none => simp only [List.nil_append]
        | some t =>
          simp only
          split <;> simp only [List.nil_append, List.append_assoc]
  rw [load, hfold]
  simp

theorem warning_prefix {name other reason : Text} (hname : ':' ∉ name) (hother : ':' ∉ other)
    (h : (name ++ ": ".toList) <+: warning other reason) : name = other := by
  obtain ⟨rest, hrest⟩ := h
  have hleft : name ++ ": ".toList ++ rest = name ++ ':' :: (' ' :: rest) := by
    rw [List.append_assoc]
    rfl
  have hright : warning other reason = other ++ ':' :: (' ' :: reason) := by
    rw [warning, List.append_assoc]
    rfl
  have hsplit := congrArg (Text.splitOnce ':') hrest
  rw [hleft, hright, Text.splitOnce_append hname, Text.splitOnce_append hother] at hsplit
  exact congrArg Prod.fst (Option.some.inj hsplit)

theorem Keeps.readThread_eq {folder : Folder} {t : StoredThread} (h : Keeps pkg folder t)
    (hjson : pkg.parse (pkg.pretty (.object (written pkg t).fields)) =
      .ok (.object (written pkg t).fields)) (name : Text) :
    readThread pkg name folder =
      restoreImages pkg name folder.attachments (written pkg t).messages >>= fun messages =>
        .ok (some { t with version := formatVersion, messages := messages }) := by
  have hread (path : Text) : readBounded pkg path
      (some (pkg.pretty (.object (written pkg t).fields))) maxThreadBytes =
        .ok (pkg.pretty (.object (written pkg t).fields)) := by
    simp [readBounded, require, h.short, bind, Except.bind, pure, Except.pure]
  have hfrom : StoredThread.fromValue (.object (written pkg t).fields) = some (written pkg t) :=
    (written pkg t).fromFields_fields (show formatVersion < 2 ^ 64 by decide)
  have hversion : (written pkg t).version ≤ formatVersion := le_refl _
  simp only [readThread, h.thread, hread, hjson, hfrom, orError_some, Except.mapError, require,
    if_pos hversion, bind, Except.bind]
  rfl

theorem ordered_messages {thread : Json} {t : StoredThread} (h : thread.Ordered)
    (hfrom : StoredThread.fromValue thread = some t) : ∀ message ∈ t.messages, message.Ordered := by
  cases thread with
  | object fields =>
    rw [(fromFields_ok hfrom).2.2.2.2.2.1]
    unfold threadMessages
    split
    · rename_i messages hmessages
      exact fun message hmessage => (h.lookup hmessages).item hmessage
    · exact fun message hmessage => nomatch hmessage
  | null | bool | number | array | string => cases hfrom

theorem loadsBack_iff (hlawful : Lawful pkg D) {root : Root} {thread : Json} {t : StoredThread}
    (hsound : Sound pkg D root) (hordered : thread.Ordered)
    (hfrom : StoredThread.fromValue thread = some t) (hholds : Holds pkg root t)
    (hjson : pkg.parse (pkg.pretty (.object (written pkg t).fields)) =
      .ok (.object (written pkg t).fields)) :
    LoadsBack pkg root thread ↔
      ∀ message ∈ t.messages, ∀ image ∈ imagesOf message, Restorable pkg image := by
  obtain ⟨folder, hfolder, hkeeps⟩ := hholds
  obtain ⟨fields, rfl⟩ : ∃ fields, thread = .object fields := by
    cases thread with
    | object fields => exact ⟨fields, rfl⟩
    | null | bool | number | array | string => cases hfrom
  have hmessagesOrdered := ordered_messages hordered hfrom
  have hread := hkeeps.readThread_eq hjson (folderName pkg t.id)
  have hentry : (folderName pkg t.id, folder) ∈ root.entries := KeyMap.get_eq_some.mp hfolder
  rw [← hlawful.restoreImages_iff (folderName pkg t.id) hmessagesOrdered hkeeps.messages]
  unfold LoadsBack
  rw [load_eq]
  constructor
  · intro ⟨⟨loaded, hloaded, hreturned⟩, _⟩
    obtain ⟨⟨name, other⟩, hother, hthreads⟩ := List.mem_flatMap.mp hloaded
    -- only the own folder holds a thread of this identifier
    unfold entryThreads at hthreads
    split at hthreads
    · rename_i u hu
      split at hthreads
      · rename_i hname
        obtain rfl := List.mem_singleton.mp hthreads
        have hsameId : u.id = t.id := by
          obtain ⟨fields', found, heq, hvalue, -, hlookup⟩ := hreturned
          cases heq
          rw [StoredThread.toValue_eq] at hvalue
          have hid := hlookup "id".toList
          rw [← Json.object.inj hvalue, ← Json.find_eq_lookup, ← KeyMap.get,
            get_collect u.keys_nodup, u.lookup_id, expectedField, if_neg (by decide),
            if_neg (by decide), if_pos (by decide), (fromFields_ok hfrom).1] at hid
          exact Json.string.inj (Option.some.inj hid)
        rw [hsameId] at hname
        subst hname
        obtain rfl : other = folder :=
          Option.some.inj ((KeyMap.get_eq_some.mpr hother).symm.trans hfolder)
        simp only [hread, bind_eq_ok, Except.ok.injEq, Option.some.injEq] at hu
        obtain ⟨messages, hmessages, rfl⟩ := hu
        rw [hmessages, (returned_iff hfrom hordered.sorted messages).mp hreturned]
      · cases hthreads
    · cases hthreads
  · intro hrestored
    rw [hrestored] at hread
    have hfound : readThread pkg (folderName pkg t.id) folder = .ok (some { t with
        version := formatVersion, messages := t.messages.map (loweredMessage pkg) }) := hread
    refine ⟨⟨_, List.mem_flatMap.mpr ⟨_, hentry, ?_⟩,
      (returned_iff hfrom hordered.sorted _).mpr rfl⟩, ?_⟩
    · simp only [entryThreads, hfound, if_true]
      exact List.mem_singleton_self _
    · intro u hu w hw hprefix'
      obtain rfl : u = t := Option.some.inj (hu.symm.trans hfrom)
      obtain ⟨⟨name, other⟩, hother, hwarns⟩ := List.mem_flatMap.mp hw
      obtain ⟨id, -, hname⟩ := hsound.names name other (KeyMap.get_eq_some.mpr hother)
      have hwarning : ∃ reason, w = warning name reason := by
        unfold entryWarnings at hwarns
        split at hwarns
        · split at hwarns
          · cases hwarns
          · exact ⟨_, List.mem_singleton.mp hwarns⟩
        · cases hwarns
        · exact ⟨_, List.mem_singleton.mp hwarns⟩
      obtain ⟨reason, rfl⟩ := hwarning
      obtain rfl := warning_prefix (colon_not_mem_folderName _)
        (hname ▸ colon_not_mem_folderName id) hprefix'
      obtain rfl : other = folder :=
        Option.some.inj ((KeyMap.get_eq_some.mpr hother).symm.trans hfolder)
      simp only [entryWarnings, hfound, if_true] at hwarns
      cases hwarns

/-- After any run a saved conversation comes back, until it is replaced or removed,
exactly when no image of it has a field of the store's own. -/
theorem saved_loads_back_iff (hlawful : Lawful pkg D) {root₀ root₁ root₂ : Root}
    {thread : Json} {t : StoredThread}
    (hbefore : Reaches (step pkg) (Known pkg D) .empty root₀) (hordered : thread.Ordered)
    (hfrom : StoredThread.fromValue thread = some t) (hknown : KnownThread pkg D thread)
    (hsave : save pkg disk root₀ thread = (.ok (), root₁))
    (hjson : pkg.parse (pkg.pretty (.object (written pkg t).fields)) =
      .ok (.object (written pkg t).fields))
    (hafter : Reaches (step pkg) (fun root a => Known pkg D root a ∧ Spares pkg t.id root a)
      root₁ root₂) :
    LoadsBack pkg root₂ thread ↔
      ∀ message ∈ t.messages, ∀ image ∈ imagesOf message, Restorable pkg image := by
  have hsound₀ := Sound.reached hbefore
  have hsound₁ : Sound pkg D root₁ := by
    have hsaved := hsound₀.save disk hknown
    rwa [hsave] at hsaved
  have hholds₁ := hlawful.holds_of_save hsound₀ hknown hfrom hsave
  obtain ⟨hsound₂, hholds₂⟩ : Sound pkg D root₂ ∧ Holds pkg root₂ t := by
    have hkeep : ∀ root root' a, Sound pkg D root ∧ Holds pkg root t →
        Known pkg D root a ∧ Spares pkg t.id root a → step pkg root a = some root' →
        Sound pkg D root' ∧ Holds pkg root' t := by
      intro root root' a hroot ha hstep
      cases hstep
      exact ⟨hroot.1.next ha.1, hroot.2.next hlawful (hknown t hfrom).1 ha.1 ha.2⟩
    exact hafter.invariant ⟨hsound₁, hholds₁⟩ hkeep
  exact loadsBack_iff hlawful hsound₂ hordered hfrom hholds₂ hjson

def pngBytes : Bytes := [1, 2, 3]

def idBytes : Bytes := TextBytes.ascii "a"

/-- SHA-256 of the bytes of the example; of others the length alone is right. -/
def knownDigest (bytes : Bytes) : Bytes :=
  if bytes = idBytes then
    [0xCA, 0x97, 0x81, 0x12, 0xCA, 0x1B, 0xBD, 0xCA, 0xFA, 0xC2, 0x31, 0xB3, 0x9A, 0x23, 0xDC, 0x4D,
      0xA7, 0x86, 0xEF, 0xF8, 0x14, 0x7C, 0x4E, 0x72, 0xB9, 0x80, 0x77, 0x85, 0xAF, 0xEE, 0x48, 0xBB]
  else if bytes = pngBytes then
    [0x03, 0x90, 0x58, 0xC6, 0xF2, 0xC0, 0xCB, 0x49, 0x2C, 0x53, 0x3B, 0x0A, 0x4D, 0x14, 0xEF, 0x77,
      0xCC, 0x0F, 0x78, 0xAB, 0xCC, 0xCE, 0xD5, 0x28, 0x7D, 0x84, 0xA1, 0xA2, 0x01, 0x1C, 0xFB, 0x81]
  else List.replicate 32 0

/-- No number of the example is a float. -/
def prettyText (value : Json) : Bytes := TextBytes.encode (value.pretty (fun _ => []) 0)

def onePicture (stored : Json) : Packages where
  sha256 := knownDigest
  base64Encode bytes := (Base64.encode bytes).map fun byte => Char.ofNat byte.toNat
  base64Decode := Base64.decode
  pretty := prettyText
  parse bytes := if bytes = prettyText stored then .ok stored else .error "expected value".toList
  malformed _ := "invalid type".toList
  notFound := "No such file or directory (os error 2)".toList
  display path := "/".toList.intercalate path

theorem length_knownDigest (bytes : Bytes) : (knownDigest bytes).length = 32 := by
  unfold knownDigest
  split
  · rfl
  · split
    · rfl
    · exact List.length_replicate

theorem encode_base64 (bytes : Bytes) :
    TextBytes.encode ((Base64.encode bytes).map fun byte => Char.ofNat byte.toNat) =
      Base64.encode bytes := by
  have hascii : ∀ n : Fin 128, String.utf8EncodeChar (Char.ofNat n) = [UInt8.ofNat n] := by
    decide +kernel
  have hsmall : ∀ byte ∈ Base64.encode bytes,
      String.utf8EncodeChar (Char.ofNat byte.toNat) = [byte] := by
    intro byte hbyte
    have hrange : byte.toNat < 128 := by
      rcases Base64.mem_of_decode (Base64.decode_encode bytes) hbyte with hvalue | rfl
      · obtain ⟨n, hn, -, rfl⟩ := Base64.exists_symbol hvalue
        have hsymbol : ∀ n : Fin 64, (Base64.symbol n).toNat < 128 := by decide
        exact hsymbol ⟨n, hn⟩
      · decide
    rw [hascii ⟨byte.toNat, hrange⟩, UInt8.ofNat_toNat]
  rw [TextBytes.encode, List.flatMap_map]
  exact (List.flatMap_congr hsmall).trans (List.flatMap_singleton' _)

theorem onePicture_lawful (stored : Json) : Lawful (onePicture stored) {idBytes, pngBytes} where
  length_sha256 := length_knownDigest
  injective := by
    have hne : (hex (knownDigest idBytes)).take 32 ≠ (hex (knownDigest pngBytes)).take 32 := by
      decide +kernel
    intro a ha b hb heq
    rcases ha with rfl | rfl <;> rcases hb with rfl | rfl
    · rfl
    · exact absurd heq hne
    · exact absurd heq.symm hne
    · rfl
  canonical payload bytes h := (encode_base64 bytes).trans (Base64.decode_eq_some.mp h)

def sampleThread (image : List (Text × Json)) : Json :=
  .object [("id".toList, .text "a"), ("messages".toList,
    .array [.object [("images".toList, .array [.object image])]])]

def upperCasePicture : List (Text × Json) :=
  [("dataUrl".toList, .text "data:image/PNG;base64,AQID")]

def namedFile : List (Text × Json) := [("file".toList, .text "x")]

theorem sampleThread_ordered (key text : Text) :
    (sampleThread [(key, .string text)]).Ordered := by
  simp [sampleThread, Json.Ordered, Json.OrderedItems, Json.OrderedFields, Json.Sorted, Json.text]
  decide

theorem sampleThread_messages {image : List (Text × Json)} {t : StoredThread}
    (h : StoredThread.fromValue (sampleThread image) = some t) :
    t.id = "a".toList ∧
      t.messages = [.object [("images".toList, .array [.object image])]] := by
  obtain ⟨hid, -, -, -, -, hmessages, -⟩ := fromFields_ok h
  exact ⟨(Json.string.inj (Option.some.inj hid)).symm, hmessages⟩

theorem sampleThread_images {image : List (Text × Json)} {t : StoredThread}
    (h : StoredThread.fromValue (sampleThread image) = some t) {P : Json → Prop} :
    (∀ message ∈ t.messages, ∀ i ∈ imagesOf message, P i) ↔ P (.object image) := by
  have himages : imagesOf (.object [("images".toList, .array [.object image])]) =
      [.object image] := rfl
  rw [(sampleThread_messages h).2, List.forall_mem_singleton, himages, List.forall_mem_singleton]

def writtenSample (image : List (Text × Json)) : Json :=
  ((StoredThread.fromValue (sampleThread image)).map fun t =>
    Json.object (written (onePicture .null) t).fields).getD .null

def samplePackages (image : List (Text × Json)) : Packages := onePicture (writtenSample image)

theorem samplePackages_lawful (image : List (Text × Json)) :
    Lawful (samplePackages image) {idBytes, pngBytes} := onePicture_lawful _

theorem samplePackages_reads {image : List (Text × Json)} {t : StoredThread}
    (h : StoredThread.fromValue (sampleThread image) = some t) :
    (samplePackages image).parse ((samplePackages image).pretty
      (.object (written (samplePackages image) t).fields)) =
        .ok (.object (written (samplePackages image) t).fields) := by
  have hsame : writtenSample image = .object (written (samplePackages image) t).fields := by
    rw [writtenSample, h]
    rfl
  rw [← hsame]
  exact if_pos rfl

theorem sampleThread_known {image : List (Text × Json)}
    (h : HashesIn (samplePackages image) {idBytes, pngBytes} (.object image)) :
    KnownThread (samplePackages image) {idBytes, pngBytes} (sampleThread image) := by
  intro t ht
  refine ⟨?_, (sampleThread_images ht).mpr h⟩
  rw [(sampleThread_messages ht).1]
  exact .inl rfl

theorem sample_saved {image : List (Text × Json)}
    (h : (save (samplePackages image) {} .empty (sampleThread image)).1.isOk = true) :
    save (samplePackages image) {} .empty (sampleThread image) =
      (.ok (), (save (samplePackages image) {} .empty (sampleThread image)).2) := by
  obtain ⟨u, hu⟩ := exists_of_isOk h
  exact Prod.ext hu rfl

theorem upperCasePicture_data :
    imageData (samplePackages upperCasePicture) (.object upperCasePicture) maxImageBytes =
      .ok (some ("image/png".toList, pngBytes)) := rfl

theorem upperCasePicture_known :
    KnownThread (samplePackages upperCasePicture) {idBytes, pngBytes}
      (sampleThread upperCasePicture) := by
  refine sampleThread_known fun mediaType bytes hbytes => ?_
  rw [upperCasePicture_data] at hbytes
  cases hbytes
  exact .inr rfl

theorem saved_loads_back_iff_upperCase :
    LoadsBack (samplePackages upperCasePicture)
      (save (samplePackages upperCasePicture) {} .empty (sampleThread upperCasePicture)).2
      (sampleThread upperCasePicture) := by
  obtain ⟨t, ht⟩ : ∃ t, StoredThread.fromValue (sampleThread upperCasePicture) = some t :=
    Option.isSome_iff_exists.mp (by decide +kernel)
  exact (saved_loads_back_iff (samplePackages_lawful _) .start (sampleThread_ordered _ _) ht
    upperCasePicture_known (sample_saved (by decide +kernel)) (samplePackages_reads ht)
    .start).mpr ((sampleThread_images ht).mpr ⟨rfl, fun _ _ => rfl⟩)

/-- A picture given by the name of a file is left in the thread, and the folder cannot be read. -/
theorem named_file_not_loaded :
    (save (samplePackages namedFile) {} .empty (sampleThread namedFile)).1 = .ok () ∧
      ¬ LoadsBack (samplePackages namedFile)
        (save (samplePackages namedFile) {} .empty (sampleThread namedFile)).2
        (sampleThread namedFile) := by
  obtain ⟨t, ht⟩ : ∃ t, StoredThread.fromValue (sampleThread namedFile) = some t :=
    Option.isSome_iff_exists.mp (by decide +kernel)
  have hknown : KnownThread (samplePackages namedFile) {idBytes, pngBytes}
      (sampleThread namedFile) :=
    sampleThread_known fun mediaType bytes hbytes => by cases hbytes
  have hsave := @sample_saved namedFile (by decide +kernel)
  have hsound : Sound (samplePackages namedFile) {idBytes, pngBytes} KeyMap.empty := Sound.empty
  have hlawful := samplePackages_lawful namedFile
  have hordered : (sampleThread namedFile).Ordered := sampleThread_ordered _ _
  refine ⟨congrArg Prod.fst hsave, ?_⟩
  rw [loadsBack_iff hlawful (hsound.save {} hknown) hordered ht
    (hlawful.holds_of_save hsound hknown ht hsave) (samplePackages_reads ht), sampleThread_images ht]
  intro hrestorable
  cases hrestorable.1

end AioLM.Conversations
