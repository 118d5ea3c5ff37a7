import Mathlib.Data.Char
import Mathlib.Data.List.Lex
import AioLM.Base64
import AioLM.Effects
import AioLM.Fallible
import AioLM.JsonFields
import AioLM.KeyMap
import AioLM.Search
import AioLM.TextBytes

/-!
The conversation store: one folder a conversation with its `thread.json`, the
images beside it as files named by their content.
-/

set_option autoImplicit false

namespace AioLM.Conversations

open Fallible

def formatVersion : Nat := 1

def threadFile : Text := "thread.json".toList

def attachmentsFolder : Text := "attachments".toList

def maxThreadBytes : Nat := 256 * 1024 * 1024

def maxImageBytes : Nat := 64 * 1024 * 1024

structure SaveLimits where
  threadBytes : Nat
  imageBytes : Nat

def productionSaveLimits : SaveLimits := ⟨maxThreadBytes, maxImageBytes⟩

/-- What the packages and the system compute: the hash, the base64 codec, the JSON
text of a value, the messages of the JSON package and of the system, and how the path
of a file below the root is printed. -/
structure Packages where
  sha256 : Bytes → Bytes
  base64Encode : Bytes → Text
  base64Decode : Bytes → Option Bytes
  pretty : Json → Bytes
  parse : Bytes → Except Text Json
  malformed : Json → Text
  notFound : Text
  display : List Text → Text

/-- Failures of the file system while one conversation is written: the atomic writes
that fail with their message, and the files that cannot be removed. -/
structure Disk where
  writeError : Text → Option Text := fun _ => none
  stuck : Text → Bool := fun _ => false

structure Folder where
  thread : Option Bytes := none
  attachments : KeyMap Text Bytes := .empty

abbrev Root := KeyMap Text Folder

def formatFields : List Text :=
  ["version".toList, "id".toList, "title".toList, "systemPrompt".toList, "createdAt".toList,
    "updatedAt".toList, "messages".toList]

structure StoredThread where
  version : Nat
  id : Text
  title : Json
  systemPrompt : Json
  createdAt : Json
  updatedAt : Json
  messages : List Json
  rest : KeyMap Text Json
  restFields : ∀ key ∈ formatFields, rest.get key = none

def collect (fields : List (Text × Json)) : KeyMap Text Json :=
  fields.foldl (fun m e => m.insert e.1 e.2) .empty

def restOf (fields : List (Text × Json)) : KeyMap Text Json :=
  (collect fields).filterMap fun key value => if key ∈ formatFields then none else some value

theorem restOf_formatFields (fields : List (Text × Json)) :
    ∀ key ∈ formatFields, (restOf fields).get key = none := by
  intro key hkey
  rw [restOf, KeyMap.get_filterMap]
  cases (collect fields).get key <;> simp [hkey]

def fieldOr (fields : List (Text × Json)) (key : String) : Json :=
  (Json.lookup key.toList fields).getD .null

def versionField (fields : List (Text × Json)) : Option Nat :=
  match Json.lookup "version".toList fields with
  | some value => value.asU64
  | none => some 0

def messagesField (fields : List (Text × Json)) : Option (List Json) :=
  match Json.lookup "messages".toList fields with
  | some value => value.asArray
  | none => some []

/-- The derived deserializer: no field of the format twice, the others kept. -/
def StoredThread.fromFields (fields : List (Text × Json)) : Option StoredThread :=
  if formatFields.all fun key => fields.countP (fun e => e.1 = key) ≤ 1 then do
    let version ← versionField fields
    let id ← (Json.lookup "id".toList fields).bind Json.asStr
    let messages ← messagesField fields
    return {
      version := version
      id := id
      title := fieldOr fields "title"
      systemPrompt := fieldOr fields "systemPrompt"
      createdAt := fieldOr fields "createdAt"
      updatedAt := fieldOr fields "updatedAt"
      messages := messages
      rest := restOf fields
      restFields := restOf_formatFields fields }
  else none

def StoredThread.fromValue : Json → Option StoredThread
  | .object fields => fromFields fields
  | _ => none

def StoredThread.fields (thread : StoredThread) : List (Text × Json) :=
  [("version".toList, .int thread.version), ("id".toList, .string thread.id),
    ("title".toList, thread.title), ("systemPrompt".toList, thread.systemPrompt),
    ("createdAt".toList, thread.createdAt), ("updatedAt".toList, thread.updatedAt),
    ("messages".toList, .array thread.messages)] ++ thread.rest.entries

/-- `serde_json::to_value` -/
def StoredThread.toValue (thread : StoredThread) : Json :=
  .object (collect thread.fields).entries

def hexDigits (byte : UInt8) : Text :=
  [Nat.digitChar (byte.toNat / 16), Nat.digitChar (byte.toNat % 16)]

def hex (bytes : Bytes) : Text := bytes.flatMap hexDigits

def isDeviceName (name : Text) : Bool :=
  ["con".toList, "prn".toList, "aux".toList, "nul".toList].contains name ||
    (name.utf8Len == 4 && ("com".toList.isPrefixOf name || "lpt".toList.isPrefixOf name) &&
      (name.drop 3).head?.any Char.isDigit)

def isPlainChar (c : Char) : Bool := c.isLower || c.isDigit || c == '-' || c == '_'

def plainName (id : Text) : Bool :=
  !id.isEmpty && decide (id.utf8Len ≤ 128) && !"h-".toList.isPrefixOf id &&
    id.all isPlainChar && !isDeviceName id

def folderName (pkg : Packages) (id : Text) : Text :=
  if plainName id then id else "h-".toList ++ (hex (pkg.sha256 (TextBytes.encode id))).take 32

def validMediaType (value : Text) : Bool :=
  match Text.stripPrefix "image/".toList value with
  | some subtype =>
    !subtype.isEmpty && decide (subtype.utf8Len ≤ 64) &&
      subtype.all fun c => c.isAlphanum || c == '.' || c == '+' || c == '-'
  | none => false

def extension (mediaType : Text) : Text :=
  if mediaType = "image/png".toList then "png".toList
  else if mediaType = "image/jpeg".toList ∨ mediaType = "image/jpg".toList then "jpg".toList
  else if mediaType = "image/gif".toList then "gif".toList
  else if mediaType = "image/webp".toList then "webp".toList
  else if mediaType = "image/bmp".toList then "bmp".toList
  else if mediaType = "image/avif".toList then "avif".toList
  else if mediaType = "image/svg+xml".toList then "svg".toList
  else "bin".toList

def attachmentFile (pkg : Packages) (mediaType : Text) (bytes : Bytes) : Text :=
  hex (pkg.sha256 bytes) ++ '.' :: extension mediaType

/-- The file name in `attachments/<sha256>.<extension>`, and nothing else. -/
def attachmentName (file : Text) : Option Text := do
  let name ← Text.stripPrefix "attachments/".toList file
  let (hash, extension) ← Text.splitOnce '.' name
  if hash.utf8Len = 64 ∧ hash.all Text.isLowerHex ∧ 1 ≤ extension.utf8Len ∧ extension.utf8Len ≤ 8 ∧
      extension.all fun c => c.isLower || c.isDigit then some name
  else none

def encodedPayloadLen (payload : Bytes) : Option Nat :=
  let body := payload.takeWhile (· ≠ 61)
  let padding := payload.length - body.length
  let last := (body.getLast?.bind Base64.value).getD 0
  if payload.length % 4 ≠ 0 ∨ (payload.drop body.length).any (· ≠ 61) then none
  else if 2 < padding ∨ body.any (fun byte => (Base64.value byte).isNone) then none
  else if padding = 2 ∧ (body.length < 2 ∨ last % 16 ≠ 0) then none
  else if padding = 1 ∧ (body.length < 3 ∨ last % 4 ≠ 0) then none
  else some (payload.length / 4 * 3 - padding)

/-- `str::split_once` at a text. -/
def splitOnceAt (pattern : Text) (t : Text) : Option (Text × Text) :=
  (Search.find pattern t).map fun n => (t.take n, t.drop (n + pattern.length))

/-- `data:<media type>;base64,<payload>` taken apart. -/
def dataUrlParts (value : Text) : Option (Text × Text) :=
  (Text.stripPrefix "data:".toList value).bind (splitOnceAt ";base64,".toList)

def oversizedImage (maxBytes : Nat) : Text :=
  "conversation image exceeds ".toList ++ Json.intText maxBytes ++ " bytes".toList

/-- The media type and the bytes of an image, `none` when the text is no valid data
URL of one. -/
def decodeDataUrl (pkg : Packages) (value : Text) (maxBytes : Nat) :
    Except Text (Option (Text × Bytes)) :=
  match dataUrlParts value with
  | none => .ok none
  | some (mediaType, payload) =>
    let mediaType := Text.toAsciiLower mediaType
    if !validMediaType mediaType then .ok none
    else
      match encodedPayloadLen (TextBytes.encode payload) with
      | none => .ok none
      | some decodedLen =>
        if maxBytes < decodedLen then .error (oversizedImage maxBytes)
        else
          match pkg.base64Decode (TextBytes.encode payload) with
          | none => .ok none
          | some bytes =>
            if maxBytes < bytes.length then .error (oversizedImage maxBytes)
            else if bytes.isEmpty then .ok none
            else .ok (some (mediaType, bytes))

section Images

variable {m : Type → Type} [Monad m]

/-- A pass over the entries of a message's `images`. -/
def mapImages (f : Json → m Json) (message : Json) : m Json :=
  match message with
  | .object fields =>
    match Json.lookup "images".toList fields with
    | some (.array images) => do
      return .object (Json.insertField "images" (.array (← images.mapM f)) fields)
    | _ => return message
  | _ => return message

end Images

/-- What writing the images of a conversation has done so far. -/
structure Writing where
  attachments : KeyMap Text Bytes
  kept : List Text := []
  created : List Text := []
  touched : Bool := false

abbrev Storing := Effect Text Writing

section Store

variable (pkg : Packages) (disk : Disk)

/-- An attachment that is not there yet is written, its folder made first. -/
def writeMissing (name : Text) (bytes : Bytes) : Storing Unit := do
  if ((← get).attachments.get name).isNone then
    modify fun w => { w with touched := true }
    match disk.writeError name with
    | some error => throw error
    | none => modify fun w => { w with
        attachments := w.attachments.insert name bytes, created := name :: w.created }

def imageData (image : Json) (maxBytes : Nat) : Except Text (Option (Text × Bytes)) :=
  match (image.get "dataUrl").bind Json.asStr with
  | some dataUrl => decodeDataUrl pkg dataUrl maxBytes
  | none => .ok none

/-- The image with its data URL replaced by the name of the file. -/
def offloaded (name mediaType : Text) (object : List (Text × Json)) : Json :=
  .object (Json.insertField "mediaType" (.string mediaType)
    (Json.insertField "file" (.string (attachmentsFolder ++ '/' :: name))
      (Json.removeField "dataUrl" object)))

def storeImage (maxBytes : Nat) (image : Json) : Storing Json := do
  match image, ← Effect.ofExcept (imageData pkg image maxBytes) with
  | .object object, some (mediaType, bytes) =>
    let name := attachmentFile pkg mediaType bytes
    writeMissing disk name bytes
    modify fun w => { w with kept := name :: w.kept }
    return offloaded name mediaType object
  | _, _ => return image

def storeImages (maxBytes : Nat) (messages : List Json) : Storing (List Json) :=
  messages.mapM (mapImages (storeImage pkg disk maxBytes))

def invalidAttachment : Text :=
  "a stored conversation image has an invalid attachment path".toList

/-- The failure of a bounded read, by the printed path. -/
def tooLarge (path : Text) (limit : Nat) : Text :=
  path ++ " is larger than ".toList ++ Json.intText limit ++ " bytes".toList

def readBounded (path : Text) (content : Option Bytes) (limit : Nat) : Except Text Bytes := do
  let bytes ← orError content pkg.notFound
  require (bytes.length ≤ limit) (tooLarge path limit)
  return bytes

def restoredImage (mediaType : Text) (bytes : Bytes) (object : List (Text × Json)) : Json :=
  .object (Json.insertField "dataUrl"
    (.string ("data:".toList ++ mediaType ++ ";base64,".toList ++ pkg.base64Encode bytes))
    (Json.removeField "mediaType" (Json.removeField "file" object)))

def restoreImage (name : Text) (attachments : KeyMap Text Bytes) (image : Json) :
    Except Text Json :=
  match image with
  | .object object =>
    match Json.lookup "file".toList object with
    | none => .ok image
    | some file => do
      let file ← orError file.asStr invalidAttachment
      let attachment ← orError (attachmentName file)
        ("invalid conversation image attachment path: ".toList ++ file)
      let mediaType ← orError
        (((Json.lookup "mediaType".toList object).bind Json.asStr).filter validMediaType)
        ("invalid media type for conversation image ".toList ++ file)
      let bytes ← (readBounded pkg (pkg.display [name, attachmentsFolder, attachment])
        (attachments.get attachment) maxImageBytes).mapError fun error =>
          "cannot read conversation image ".toList ++ file ++ ": ".toList ++ error
      return restoredImage pkg mediaType bytes object
  | _ => .ok image

def restoreImages (name : Text) (attachments : KeyMap Text Bytes) (messages : List Json) :
    Except Text (List Json) :=
  messages.mapM (mapImages (restoreImage pkg name attachments))

def removeCreated (w : Writing) : KeyMap Text Bytes :=
  w.attachments.filterMap fun name bytes =>
    if w.created.contains name && !disk.stuck name then none else some bytes

def removeUnreferenced (w : Writing) : KeyMap Text Bytes :=
  w.attachments.filterMap fun name bytes =>
    if w.kept.contains name || disk.stuck name then some bytes else none

def serializeThread (thread : StoredThread) (maxBytes : Nat) : Except Text Bytes :=
  let bytes := pkg.pretty (.object thread.fields)
  if maxBytes < bytes.length then
    .error ("serialized conversation exceeds ".toList ++ Json.intText maxBytes ++ " bytes".toList)
  else .ok bytes

/-- A save that failed: the new attachments are gone again, a folder that was made stays. -/
def rollback (root : Root) (name : Text) (w : Writing) : Root :=
  if w.touched || (root.get name).isSome then
    root.insert name { (root.get name).getD {} with attachments := removeCreated disk w }
  else root

def saveWithLimits (root : Root) (thread : Json) (limits : SaveLimits) : Except Text Unit × Root :=
  match StoredThread.fromValue thread with
  | none => (.error ("invalid conversation: ".toList ++ pkg.malformed thread), root)
  | some thread =>
    if thread.id = [] then (.error "a conversation needs an id".toList, root)
    else
      let thread := { thread with version := formatVersion }
      let name := folderName pkg thread.id
      let attachments := ((root.get name).getD {}).attachments
      match (storeImages pkg disk limits.imageBytes thread.messages).exec { attachments } with
      | (.error error, w) => (.error error, rollback disk root name w)
      | (.ok messages, w) =>
        match serializeThread pkg { thread with messages := messages } limits.threadBytes with
        | .error error => (.error error, rollback disk root name w)
        | .ok bytes =>
          match disk.writeError threadFile with
          | some error => (.error error, rollback disk root name { w with touched := true })
          | none =>
            (.ok (), root.insert name
              { thread := some bytes, attachments := removeUnreferenced disk w })

def save (root : Root) (thread : Json) : Except Text Unit × Root :=
  saveWithLimits pkg disk root thread productionSaveLimits

def importThreads (root : Root) (imported : Nat) : List Json → Except Text Nat × Root
  | [] => (.ok imported, root)
  | thread :: threads =>
    match (thread.get "id").bind Json.asStr with
    | none => (.error "a conversation needs an id".toList, root)
    | some id =>
      if (((root.get (folderName pkg id)).bind (·.thread)).isSome) then
        importThreads root imported threads
      else
        match save pkg disk root thread with
        | (.ok (), root) => importThreads root (imported + 1) threads
        | (.error error, root) => (.error error, root)

/-- `none` when the folder holds no conversation. -/
def readThread (name : Text) (folder : Folder) : Except Text (Option StoredThread) :=
  match folder.thread with
  | none => .ok none
  | some content => do
    let bytes ← readBounded pkg (pkg.display [name, threadFile]) (some content) maxThreadBytes
    let value ← (pkg.parse bytes).mapError fun error => "not a conversation file: ".toList ++ error
    let thread ← orError (StoredThread.fromValue value)
      ("not a conversation file: ".toList ++ pkg.malformed value)
    require (thread.version ≤ formatVersion)
      ("written by a newer AioLM (format ".toList ++ Json.intText thread.version ++ ")".toList)
    let messages ← restoreImages pkg name folder.attachments thread.messages
    return some { thread with messages := messages }

structure Loaded where
  threads : List Json := []
  warnings : List Text := []

def warning (name : Text) (reason : Text) : Text := name ++ ": ".toList ++ reason

def folderMismatch : Text := "the folder name does not match the conversation id".toList

def loadEntry (loaded : Loaded) (entry : Text × Folder) : Loaded :=
  match readThread pkg entry.1 entry.2 with
  | .ok (some thread) =>
    if folderName pkg thread.id = entry.1 then
      { loaded with threads := loaded.threads ++ [thread.toValue] }
    else { loaded with warnings := loaded.warnings ++ [warning entry.1 folderMismatch] }
  | .ok none => loaded
  | .error error => { loaded with warnings := loaded.warnings ++ [warning entry.1 error] }

def load (root : Root) : Loaded := root.entries.foldl (loadEntry pkg) {}

def delete (root : Root) (id : Text) : Except Text Unit × Root :=
  let name := folderName pkg id
  match root.get name with
  | none => (.ok (), root)
  | some folder =>
    match readThread pkg name folder with
    | .error error => (.error error, root)
    | .ok (some thread) =>
      if thread.id = id then (.ok (), root.erase name)
      else (.error "cannot delete a conversation whose id does not match".toList, root)
    | .ok none =>
      (.error ("cannot delete ".toList ++ pkg.display [name] ++ ": no conversation file".toList),
        root)

def clear (_root : Root) : Root := .empty

end Store

end AioLM.Conversations
