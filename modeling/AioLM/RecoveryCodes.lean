import Mathlib.Algebra.Order.Monoid.Unbundled.WithTop
import Mathlib.Algebra.Field.Rat
import Mathlib.Algebra.Order.Ring.Rat
import Mathlib.Data.List.Sort
import AioLM.Base64Url
import AioLM.Fallible
import AioLM.OwnerRecords
import AioLM.Trimming

/-!
Owner backups in the app and on the website: two writers and two readers of one text, and that
each reader takes back what either writer wrote.
-/

set_option autoImplicit false

namespace AioLM.Recovery

open Fallible Owners

def recoveryPrefix : Text := "aiolm-recovery-v1.".toList

def maxRecoveryFileBytes : Nat := 4096

def ownerSecretLen : Nat := 32

structure OwnerSecret where
  bytes : Bytes
  length_bytes : bytes.length = ownerSecretLen
  deriving DecidableEq

structure RecoveryPayload where
  version : Nat
  origin : Text
  submissionId : Text
  secret : Text
  deriving DecidableEq

structure RecoveredOwner where
  origin : Text
  submissionId : Text
  secret : OwnerSecret
  deriving DecidableEq

/-- The packages of the app: `URL_SAFE_NO_PAD` and the strict reader of payloads, beside the
parsers of addresses and identifiers. -/
structure NativePackages where
  urlSafeEncode : Bytes → Text
  urlSafeDecode : Text → Option Bytes
  fromSlice : Bytes → Option RecoveryPayload
  owners : Packages

def RecoveryPayload.text (payload : RecoveryPayload) : Text :=
  ['\x7b'] ++ "\"version\":".toList ++ Json.intText payload.version ++
    ",\"origin\":".toList ++ Json.quote payload.origin ++
    ",\"submission_id\":".toList ++ Json.quote payload.submissionId ++
    ",\"secret\":".toList ++ Json.quote payload.secret ++ ['\x7d']

/-- `serde_json::to_vec` -/
def RecoveryPayload.toVec (payload : RecoveryPayload) : Bytes := TextBytes.encode payload.text

def payloadOf (pkg : NativePackages) (origin submissionId : Text) (secret : OwnerSecret) :
    RecoveryPayload :=
  { version := 1
    origin := origin
    submissionId := submissionId
    secret := pkg.urlSafeEncode secret.bytes }

def encodeRecovery (pkg : NativePackages) (origin submissionId : Text) (secret : OwnerSecret) :
    Text :=
  recoveryPrefix ++ pkg.urlSafeEncode (payloadOf pkg origin submissionId secret).toVec

def decodeSecret (pkg : NativePackages) (secretText : Text) : Except Text OwnerSecret := do
  let secret ← orError (pkg.urlSafeDecode secretText)
    "recovery data holds an invalid owner secret".toList
  if h : secret.length = ownerSecretLen ∧ pkg.urlSafeEncode secret = secretText then
    return ⟨secret, h.1⟩
  else .error "recovery data holds an invalid owner secret".toList

def decodeRecovery (pkg : NativePackages) (text : Text) : Except Text RecoveredOwner := do
  require (text.utf8Len ≤ maxRecoveryFileBytes) "recovery data exceeds the size limit".toList
  let encoded ← orError (Text.stripPrefix recoveryPrefix (Text.trim text))
    "recovery data is not an AioLM owner backup".toList
  require (encoded ≠ [] ∧ encoded.utf8Len ≤ maxRecoveryFileBytes)
    "recovery data has an invalid size".toList
  let json ← orError (pkg.urlSafeDecode encoded) "recovery data is not valid base64url".toList
  require (pkg.urlSafeEncode json = encoded) "recovery data is not canonical base64url".toList
  let payload ← orError (pkg.fromSlice json) "recovery data failed strict validation".toList
  require (payload.version = 1) "recovery data has an unsupported version".toList
  let originUrl ← (validateBaseUrl pkg.owners payload.origin).mapError fun _ =>
    "recovery data names an invalid service origin".toList
  validateSubmissionId pkg.owners payload.submissionId
  let secret ← decodeSecret pkg (Text.trim payload.secret)
  return { origin := originOf originUrl, submissionId := payload.submissionId, secret := secret }

abbrev JsString := List Nat

def js (literal : String) : JsString := Utf16.units literal.toList

/-- What the script's parser makes of an address. -/
structure WebUrl where
  protocol : JsString
  username : JsString := []
  password : JsString := []
  hostname : JsString
  host : JsString
  pathname : JsString := js "/"
  search : JsString := []
  hash : JsString := []
  deriving DecidableEq

/-- A value of `JSON.parse`; a number that is too large is infinite. -/
inductive JsValue where
  | null
  | boolean (value : Bool)
  | number (value : WithBot (WithTop ℚ))
  | string (value : JsString)
  | array (items : List JsValue)
  | object (fields : List (JsString × JsValue))

structure WebPackages where
  newUrl : JsString → Option WebUrl
  toLowerCase : JsString → JsString
  parse : JsString → Option JsValue

structure BenchmarkRecoveryPayload where
  version : WithBot (WithTop ℚ)
  origin : JsString
  submissionId : JsString
  secret : JsString
  deriving DecidableEq

def isHexUnit (unit : Nat) : Bool := decide (97 ≤ unit ∧ unit ≤ 102) || decide (48 ≤ unit ∧ unit ≤ 57)

/-- The form of a lowercase UUIDv4, by its places. -/
def uuidUnit (index unit : Nat) : Bool :=
  if [8, 13, 18, 23].contains index then unit == 45
  else if index = 14 then unit == 52
  else if index = 19 then (js "89ab").contains unit
  else isHexUnit unit

def isUuidV4 (value : JsString) : Bool :=
  value.length == 36 && value.zipIdx.all fun entry => uuidUnit entry.2 entry.1

def normalizeServiceOrigin (web : WebPackages) (value : JsString) : Except Text JsString := do
  let parsed ← orError (web.newUrl value) "Invalid recovery service origin.".toList
  require (parsed.username = [] ∧ parsed.password = [] ∧ parsed.search = [] ∧ parsed.hash = [])
    "Invalid recovery service origin.".toList
  require (parsed.pathname = js "/") "Invalid recovery service origin.".toList
  let loopback := parsed.hostname = js "localhost" ∨ parsed.hostname = js "127.0.0.1" ∨
    parsed.hostname = js "[::1]"
  require (parsed.protocol = js "https:" ∨ parsed.protocol = js "http:" ∧ loopback)
    "Recovery service origin must use HTTPS.".toList
  return parsed.protocol ++ js "//" ++ web.toLowerCase parsed.host

def validateSecret : Option JsValue → Except Text JsString
  | some (.string value) => do
    require (isBase64Url value) "Invalid recovery secret.".toList
    let bytes ← base64UrlDecode value
    require (bytes.length = ownerSecretLen) "Invalid recovery secret.".toList
    return value
  | _ => .error "Invalid recovery secret.".toList

/-- `record[key]` -/
def field (fields : List (JsString × JsValue)) (key : String) : Option JsValue :=
  (fields.find? fun entry => entry.1 == js key).map (·.2)

def stringField (fields : List (JsString × JsValue)) (key : String) : Option JsString :=
  match field fields key with
  | some (.string value) => some value
  | _ => none

def isOne : Option JsValue → Bool
  | some (.number value) => value == 1
  | _ => false

/-- `Object.keys(record).sort()` -/
def sortedKeys (fields : List (JsString × JsValue)) : List JsString :=
  (fields.map (·.1)).insertionSort (· ≤ ·)

def objectFields : JsValue → Option (List (JsString × JsValue))
  | .object fields => some fields
  | _ => none

def decodeRecoveryCode (web : WebPackages) (code : JsString) (expectedOrigin : Option JsString) :
    Except Text BenchmarkRecoveryPayload := do
  require ((Utf16.units recoveryPrefix).isPrefixOf code) "Invalid recovery code.".toList
  let encoded := code.drop recoveryPrefix.length
  require ((Utf16.encode code).length ≤ maxRecoveryFileBytes) "Recovery file is too large.".toList
  let parsed ← orError (((base64UrlDecode encoded).toOption.bind Utf16.decode).bind web.parse)
    "Invalid recovery code.".toList
  let record ← orError (objectFields parsed) "Invalid recovery code.".toList
  require (sortedKeys record = [js "origin", js "secret", js "submission_id", js "version"])
    "Invalid recovery code.".toList
  require (isOne (field record "version")) "Unsupported recovery version.".toList
  let originText ← orError (stringField record "origin") "Invalid recovery code.".toList
  let submissionId ← orError (stringField record "submission_id") "Invalid recovery code.".toList
  let origin ← normalizeServiceOrigin web originText
  require (isUuidV4 submissionId) "Invalid recovery submission.".toList
  let secret ← validateSecret (field record "secret")
  match expectedOrigin with
  | none => return { version := 1, origin, submissionId, secret }
  | some expected =>
    let expected ← normalizeServiceOrigin web expected
    require (expected = origin) "Recovery code does not belong to this service.".toList
    return { version := 1, origin, submissionId, secret }

/-- `JSON.stringify({ version: 1, origin, submission_id, secret })` -/
def bodyText (origin submissionId secret : JsString) : JsString :=
  js "\x7b" ++ js "\"version\":" ++ js "1" ++ js ",\"origin\":" ++ Utf16.quote origin ++
    js ",\"submission_id\":" ++ Utf16.quote submissionId ++
    js ",\"secret\":" ++ Utf16.quote secret ++ js "\x7d"

def encodeRecoveryCode (web : WebPackages) (payload : BenchmarkRecoveryPayload) :
    Except Text JsString := do
  require (payload.version = 1) "Unsupported recovery version.".toList
  let origin ← normalizeServiceOrigin web payload.origin
  require (isUuidV4 payload.submissionId) "Invalid recovery submission.".toList
  let secret ← validateSecret (some (.string payload.secret))
  let body := bodyText origin payload.submissionId secret
  let code := Utf16.units recoveryPrefix ++ base64UrlEncode (Utf16.encode body)
  require ((Utf16.encode code).length ≤ maxRecoveryFileBytes) "Recovery file is too large.".toList
  return code

/-- A lowercase UUIDv4. -/
def isUuid (submissionId : Text) : Bool :=
  submissionId.length == 36 && submissionId.zipIdx.all fun entry => uuidChar entry.2 entry.1

theorem ascii_isLowerHex {c : Char} (h : Text.isLowerHex c = true) :
    isHexUnit c.toNat = true := by
  have htoNat : c.val.toNat = c.toNat := rfl
  simp only [Text.isLowerHex, Char.isDigit, Bool.or_eq_true, Bool.and_eq_true, decide_eq_true_eq,
    Char.le_def, ge_iff_le, UInt32.le_iff_toNat_le, htoNat] at h
  simp only [isHexUnit, Bool.or_eq_true, decide_eq_true_eq]
  rcases h with h | h
  · exact .inr h
  · exact .inl h

theorem lt_of_isHexUnit {unit : Nat} (h : isHexUnit unit = true) : unit < 128 := by
  simp only [isHexUnit, Bool.or_eq_true, decide_eq_true_eq] at h
  omega

theorem uuidUnit_char {index : Nat} {c : Char} (h : uuidChar index c = true) :
    uuidUnit index c.toNat = true ∧ c.toNat < 128 := by
  unfold uuidChar at h
  unfold uuidUnit
  split at h
  · rename_i hdash
    rw [beq_iff_eq] at h
    subst h
    rw [if_pos hdash]
    decide
  · rename_i hdash
    simp only [Bool.and_eq_true, Bool.or_eq_true, bne_iff_ne, beq_iff_eq] at h
    obtain ⟨⟨hhex, hfour⟩, hvariant⟩ := h
    refine ⟨?_, lt_of_isHexUnit (ascii_isLowerHex hhex)⟩
    rw [if_neg hdash]
    split
    · rename_i hindex
      obtain rfl : c = '4' := hfour.resolve_left (not_not.mpr hindex)
      rfl
    · split
      · rename_i hindex
        have hmem := hvariant.resolve_left (not_not.mpr hindex)
        rw [List.contains_iff_mem] at hmem
        have hall : ("89ab".toList.all fun d => (js "89ab").contains d.toNat) = true := by decide
        exact List.all_eq_true.mp hall c hmem
      · exact ascii_isLowerHex hhex

variable {submissionId : Text}

theorem ascii_of_isUuid (h : isUuid submissionId = true) : ∀ c ∈ submissionId, c.toNat < 128 := by
  intro c hc
  rw [isUuid, Bool.and_eq_true, List.all_eq_true] at h
  obtain ⟨index, hindex, hget⟩ := List.mem_iff_getElem.mp hc
  have hentry : (c, index) ∈ submissionId.zipIdx := by
    rw [List.mk_mem_zipIdx_iff_getElem?, List.getElem?_eq_getElem hindex, hget]
  exact (uuidUnit_char (h.2 _ hentry)).2

theorem isUuidV4_units (h : isUuid submissionId = true) :
    isUuidV4 (Utf16.units submissionId) = true := by
  have hascii := ascii_of_isUuid h
  rw [isUuid, Bool.and_eq_true, List.all_eq_true] at h
  rw [Utf16.units_of_narrow fun c hc => Nat.lt_trans (hascii c hc) (by decide), isUuidV4,
    Bool.and_eq_true, List.all_eq_true, List.length_map]
  refine ⟨h.1, fun entry hentry => ?_⟩
  rw [List.zipIdx_map] at hentry
  obtain ⟨source, hsource, rfl⟩ := List.mem_map.mp hentry
  exact (uuidUnit_char (h.2 source hsource)).1

theorem utf8Len_of_ascii {t : Text} (h : ∀ c ∈ t, c.toNat < 128) : t.utf8Len = t.length := by
  induction t with
  | nil => rfl
  | cons c t ih =>
    have hc : c.utf8Size = 1 := Char.utf8Size_eq_one_iff.mpr (by
      rw [UInt32.le_iff_toNat_le]
      exact Nat.le_of_lt_succ (h c (by simp)))
    rw [Text.utf8Len_cons, hc, ih fun d hd => h d (by simp [hd]), List.length_cons, Nat.add_comm]

theorem validateSubmissionId_uuid {pkg : Packages} (h : isUuid submissionId = true)
    (hparse : pkg.parseUuid submissionId = true) :
    validateSubmissionId pkg submissionId = .ok () := by
  have hlength := utf8Len_of_ascii (ascii_of_isUuid h)
  rw [isUuid, Bool.and_eq_true, beq_iff_eq] at h
  have hvalid : (submissionId.utf8Len == 36 &&
      submissionId.zipIdx.all fun entry => uuidChar entry.2 entry.1) = true := by
    rw [hlength, h.1, h.2]
    rfl
  have hcondition : (!(submissionId.utf8Len == 36 &&
      submissionId.zipIdx.all fun entry => uuidChar entry.2 entry.1) ||
        !pkg.parseUuid submissionId) = false := by
    rw [hvalid, hparse]
    rfl
  exact if_neg (by rw [hcondition]; exact Bool.false_ne_true)

theorem recoveryPrefix_blankless : ∀ c ∈ recoveryPrefix, Text.isWhitespace c = false := by
  have hall : recoveryPrefix.all (fun c => Text.isWhitespace c == false) = true := by decide
  intro c hc
  exact beq_iff_eq.mp (List.all_eq_true.mp hall c hc)

theorem urlSafe_blankless (bytes : Bytes) :
    ∀ c ∈ Base64.urlSafe bytes, Text.isWhitespace c = false := by
  have hall : ∀ m : Fin 64, Text.isWhitespace (Base64.urlChar (Base64.symbol m)) = false := by
    decide
  intro c hc
  obtain ⟨n, hn, rfl⟩ := Base64.mem_urlSafe hc
  exact hall ⟨n, hn⟩

theorem OwnerSecret.ne_nil (secret : OwnerSecret) : secret.bytes ≠ [] := by
  intro h
  have hlength := secret.length_bytes
  rw [h] at hlength
  cases hlength

variable {pkg : NativePackages} {web : WebPackages} {origin : Text} {secret : OwnerSecret}

def webPayloadOf (origin submissionId : Text) (secret : OwnerSecret) : BenchmarkRecoveryPayload :=
  { version := 1
    origin := Utf16.units origin
    submissionId := Utf16.units submissionId
    secret := base64UrlEncode secret.bytes }

theorem validateSecret_encode (secret : OwnerSecret) :
    validateSecret (some (.string (base64UrlEncode secret.bytes))) =
      .ok (base64UrlEncode secret.bytes) := by
  have hread := base64UrlDecode_encode secret.ne_nil
  have hform : isBase64Url (base64UrlEncode secret.bytes) = true := isBase64Url_encode secret.ne_nil
  simp only [validateSecret, hform, hread, secret.length_bytes, require, if_true, bind, Except.bind,
    pure, Except.pure]

theorem bodyText_eq (hencode : ∀ bytes, pkg.urlSafeEncode bytes = Base64.urlSafe bytes) :
    bodyText (Utf16.units origin) (Utf16.units submissionId) (base64UrlEncode secret.bytes) =
      Utf16.units (payloadOf pkg origin submissionId secret).text := by
  have hopen : js "\x7b" = Utf16.units ['\x7b'] := by decide
  have hclose : js "\x7d" = Utf16.units ['\x7d'] := by decide
  have hone : js "1" = Utf16.units (Json.intText ((1 : Nat) : Int)) := by decide
  rw [bodyText, hopen, hclose, hone, base64UrlEncode_eq, Utf16.quote_units, Utf16.quote_units,
    Utf16.quote_units]
  simp only [RecoveryPayload.text, payloadOf, hencode, js, Utf16.units_append]

theorem text_eq_cons (payload : RecoveryPayload) : ∃ rest, payload.text = '\x7b' :: rest := by
  simp only [RecoveryPayload.text, List.cons_append]
  exact ⟨_, rfl⟩

theorem code_eq (hencode : ∀ bytes, pkg.urlSafeEncode bytes = Base64.urlSafe bytes) :
    Utf16.units recoveryPrefix ++ base64UrlEncode (payloadOf pkg origin submissionId secret).toVec =
      Utf16.units (encodeRecovery pkg origin submissionId secret) := by
  rw [encodeRecovery, Utf16.units_append, hencode, base64UrlEncode_eq]

theorem encodeRecoveryCode_eq (hencode : ∀ bytes, pkg.urlSafeEncode bytes = Base64.urlSafe bytes)
    (horigin : normalizeServiceOrigin web (Utf16.units origin) = .ok (Utf16.units origin))
    (huuid : isUuid submissionId = true)
    (hsize : (encodeRecovery pkg origin submissionId secret).utf8Len ≤ maxRecoveryFileBytes) :
    encodeRecoveryCode web (webPayloadOf origin submissionId secret) =
      .ok (Utf16.units (encodeRecovery pkg origin submissionId secret)) := by
  have hbytes : Utf16.encode (Utf16.units (payloadOf pkg origin submissionId secret).text) =
      (payloadOf pkg origin submissionId secret).toVec := Utf16.encode_units _
  have hlength : (Utf16.encode
      (Utf16.units (encodeRecovery pkg origin submissionId secret))).length ≤ maxRecoveryFileBytes := by
    rw [Utf16.encode_units, TextBytes.length_encode]
    exact hsize
  simp only [encodeRecoveryCode, webPayloadOf, horigin, isUuidV4_units huuid, validateSecret_encode,
    bodyText_eq hencode, hbytes, code_eq hencode, hlength, require, if_true, bind, Except.bind,
    pure, Except.pure]

theorem stripPrefix_trim_code (hencode : ∀ bytes, pkg.urlSafeEncode bytes = Base64.urlSafe bytes) :
    Text.stripPrefix recoveryPrefix (Text.trim (encodeRecovery pkg origin submissionId secret)) =
      some (Base64.urlSafe (payloadOf pkg origin submissionId secret).toVec) := by
  rw [encodeRecovery, hencode, Text.trim_of_blankless, Text.stripPrefix_append]
  intro c hc
  rcases List.mem_append.mp hc with hc | hc
  · exact recoveryPrefix_blankless c hc
  · exact urlSafe_blankless _ c hc

theorem toVec_ne_nil (payload : RecoveryPayload) : payload.toVec ≠ [] := by
  intro h
  have hlength := congrArg List.length h
  rw [RecoveryPayload.toVec, TextBytes.length_encode] at hlength
  obtain ⟨rest, hcons⟩ := text_eq_cons payload
  rw [hcons, Text.utf8Len_cons] at hlength
  have hsize := Char.utf8Size_pos '\x7b'
  simp only [List.length_nil] at hlength
  omega

theorem decodeSecret_encode (hencode : ∀ bytes, pkg.urlSafeEncode bytes = Base64.urlSafe bytes)
    (hdecode : ∀ bytes, pkg.urlSafeDecode (Base64.urlSafe bytes) = some bytes)
    (secret : OwnerSecret) :
    decodeSecret pkg (Text.trim (Base64.urlSafe secret.bytes)) = .ok secret := by
  rw [Text.trim_of_blankless (urlSafe_blankless _), decodeSecret, hdecode, orError_some]
  exact dif_pos ⟨secret.length_bytes, hencode _⟩

theorem decodeRecovery_encode (hencode : ∀ bytes, pkg.urlSafeEncode bytes = Base64.urlSafe bytes)
    (hdecode : ∀ bytes, pkg.urlSafeDecode (Base64.urlSafe bytes) = some bytes)
    (hslice : pkg.fromSlice (payloadOf pkg origin submissionId secret).toVec =
      some (payloadOf pkg origin submissionId secret))
    (hparse : pkg.owners.parseUuid submissionId = true)
    (horigin : (validateBaseUrl pkg.owners origin).map originOf = .ok origin)
    (huuid : isUuid submissionId = true)
    (hsize : (encodeRecovery pkg origin submissionId secret).utf8Len ≤ maxRecoveryFileBytes) :
    decodeRecovery pkg (encodeRecovery pkg origin submissionId secret) =
      .ok ⟨origin, submissionId, secret⟩ := by
  obtain ⟨url, hurl, hsame⟩ : ∃ url, validateBaseUrl pkg.owners origin = .ok url ∧
      originOf url = origin := by
    cases hurl : validateBaseUrl pkg.owners origin with
    | error e =>
      rw [hurl] at horigin
      cases horigin
    | ok url =>
      rw [hurl] at horigin
      exact ⟨url, rfl, Except.ok.inj horigin⟩
  have hnonempty : Base64.urlSafe (payloadOf pkg origin submissionId secret).toVec ≠ [] := by
    intro h
    have hread := hdecode (payloadOf pkg origin submissionId secret).toVec
    rw [h, ← Base64.urlSafe_nil, hdecode] at hread
    exact toVec_ne_nil _ (Option.some.inj hread).symm
  have hlength : Text.utf8Len (Base64.urlSafe (payloadOf pkg origin submissionId secret).toVec) ≤
      maxRecoveryFileBytes := by
    rw [encodeRecovery, Text.utf8Len_append, hencode] at hsize
    exact Nat.le_trans (Nat.le_add_left _ _) hsize
  have hversion : (payloadOf pkg origin submissionId secret).version = 1 := rfl
  have horiginUrl : validateBaseUrl pkg.owners (payloadOf pkg origin submissionId secret).origin =
      .ok url := hurl
  have hid : validateSubmissionId pkg.owners (payloadOf pkg origin submissionId secret).submissionId =
      .ok () := validateSubmissionId_uuid huuid hparse
  have hsecret : decodeSecret pkg (Text.trim (payloadOf pkg origin submissionId secret).secret) =
      .ok secret := by
    have hread := decodeSecret_encode hencode hdecode secret
    rwa [← hencode] at hread
  simp only [decodeRecovery, stripPrefix_trim_code hencode, orError_some, hdecode, hencode, hslice,
    hversion, horiginUrl, hid, hsecret, hsame, require, hsize, hnonempty, hlength, ne_eq,
    not_false_eq_true, and_self, if_true, bind, Except.bind, Except.mapError, pure, Except.pure]
  rfl

def recordOf (origin submissionId secret : JsString) : List (JsString × JsValue) :=
  [(js "version", .number 1), (js "origin", .string origin),
    (js "submission_id", .string submissionId), (js "secret", .string secret)]

section Record

variable (o i s : JsString)

theorem sortedKeys_recordOf : sortedKeys (recordOf o i s) =
    [js "origin", js "secret", js "submission_id", js "version"] := by
  have hkeys : (recordOf o i s).map (·.1) =
    [js "version", js "origin", js "submission_id", js "secret"] := rfl
  rw [sortedKeys, hkeys]
  decide

theorem field_cons_ne {key name : String} {value : JsValue} {fields : List (JsString × JsValue)}
    (h : (js name == js key) = false) : field ((js name, value) :: fields) key = field fields key := by
  rw [field, List.find?_cons_of_neg (by simp [h]), field]

theorem field_cons_self (key : String) (value : JsValue) (fields : List (JsString × JsValue)) :
    field ((js key, value) :: fields) key = some value := by
  rw [field, List.find?_cons_of_pos (by simp), Option.map_some]

theorem isOne_recordOf : isOne (field (recordOf o i s) "version") = true := by
  rw [recordOf, field_cons_self]
  exact beq_self_eq_true _

theorem origin_recordOf : stringField (recordOf o i s) "origin" = some o := by
  rw [recordOf, stringField, field_cons_ne (by decide), field_cons_self]

theorem submissionId_recordOf : stringField (recordOf o i s) "submission_id" = some i := by
  rw [recordOf, stringField, field_cons_ne (by decide), field_cons_ne (by decide),
    field_cons_self]

theorem secret_recordOf : field (recordOf o i s) "secret" = some (.string s) := by
  rw [recordOf, field_cons_ne (by decide), field_cons_ne (by decide),
    field_cons_ne (by decide), field_cons_self]

end Record

theorem toOption_ok {ε α : Type} (a : α) : (Except.ok a : Except ε α).toOption = some a := rfl

theorem decodeRecoveryCode_encode (hencode : ∀ bytes, pkg.urlSafeEncode bytes = Base64.urlSafe bytes)
    (hparse : web.parse (bodyText (Utf16.units origin) (Utf16.units submissionId)
        (base64UrlEncode secret.bytes)) =
      some (.object (recordOf (Utf16.units origin) (Utf16.units submissionId)
        (base64UrlEncode secret.bytes))))
    (horigin : normalizeServiceOrigin web (Utf16.units origin) = .ok (Utf16.units origin))
    (huuid : isUuid submissionId = true)
    (hsize : (encodeRecovery pkg origin submissionId secret).utf8Len ≤ maxRecoveryFileBytes)
    {expectedOrigin : Option JsString}
    (hexpected : ∀ expected ∈ expectedOrigin,
      normalizeServiceOrigin web expected = .ok (Utf16.units origin)) :
    decodeRecoveryCode web (Utf16.units (encodeRecovery pkg origin submissionId secret))
      expectedOrigin = .ok (webPayloadOf origin submissionId secret) := by
  have hlength : (Utf16.encode
      (Utf16.units (encodeRecovery pkg origin submissionId secret))).length ≤ maxRecoveryFileBytes := by
    rw [Utf16.encode_units, TextBytes.length_encode]
    exact hsize
  have hcode : Utf16.units recoveryPrefix ++
      base64UrlEncode (payloadOf pkg origin submissionId secret).toVec =
        Utf16.units (encodeRecovery pkg origin submissionId secret) := code_eq hencode
  have hstart : (Utf16.units recoveryPrefix).isPrefixOf
      (Utf16.units (encodeRecovery pkg origin submissionId secret)) = true := by
    rw [List.isPrefixOf_iff_prefix, ← hcode]
    exact List.prefix_append _ _
  have hdrop : (Utf16.units (encodeRecovery pkg origin submissionId secret)).drop
      recoveryPrefix.length = base64UrlEncode (payloadOf pkg origin submissionId secret).toVec := by
    have hunits : recoveryPrefix.length = (Utf16.units recoveryPrefix).length := by decide
    rw [← hcode, hunits, List.drop_left]
  have hread := base64UrlDecode_encode (toVec_ne_nil (payloadOf pkg origin submissionId secret))
  have hbody : Utf16.decode (payloadOf pkg origin submissionId secret).toVec =
      some (bodyText (Utf16.units origin) (Utf16.units submissionId)
        (base64UrlEncode secret.bytes)) := by
    obtain ⟨rest, hcons⟩ := text_eq_cons (payloadOf pkg origin submissionId secret)
    rw [RecoveryPayload.toVec, Utf16.decode_encode (by rw [hcons]; simp), bodyText_eq hencode]
  have hparsed : ((base64UrlDecode ((Utf16.units (encodeRecovery pkg origin submissionId secret)).drop
      recoveryPrefix.length)).toOption.bind Utf16.decode).bind web.parse =
        some (.object (recordOf (Utf16.units origin) (Utf16.units submissionId)
          (base64UrlEncode secret.bytes))) := by
    rw [hdrop, hread, toOption_ok, Option.bind_some, hbody, Option.bind_some, hparse]
  unfold decodeRecoveryCode
  simp only [hstart, hlength, hparsed, objectFields, orError_some, sortedKeys_recordOf,
    isOne_recordOf, origin_recordOf, submissionId_recordOf, secret_recordOf, horigin,
    isUuidV4_units huuid, validateSecret_encode, require, if_true, bind, Except.bind, pure,
    Except.pure]
  cases expectedOrigin with
  | none => rfl
  | some expected =>
    have hsame := hexpected expected rfl
    simp only [hsame, if_true]
    rfl

/-- What the packages are documented to do: the safe alphabet without pads, and readers that
give back what was written. -/
structure Documented (pkg : NativePackages) (web : WebPackages) (origin submissionId : Text)
    (secret : OwnerSecret) : Prop where
  urlSafeEncode : ∀ bytes, pkg.urlSafeEncode bytes = Base64.urlSafe bytes
  urlSafeDecode : ∀ bytes, pkg.urlSafeDecode (Base64.urlSafe bytes) = some bytes
  fromSlice : pkg.fromSlice (payloadOf pkg origin submissionId secret).toVec =
    some (payloadOf pkg origin submissionId secret)
  parse : web.parse (bodyText (Utf16.units origin) (Utf16.units submissionId)
      (base64UrlEncode secret.bytes)) =
    some (.object (recordOf (Utf16.units origin) (Utf16.units submissionId)
      (base64UrlEncode secret.bytes)))
  parseUuid : ∀ id, isUuid id = true → pkg.owners.parseUuid id = true

/-- App and website write one text for an owner, and each reads it back; and the encoding of
the website is read as the bytes it was made of, where there are some. -/
theorem recovery_portable (pkg : NativePackages) (web : WebPackages) (origin submissionId : Text)
    (secret : OwnerSecret) (documented : Documented pkg web origin submissionId secret)
    (hnative : (validateBaseUrl pkg.owners origin).map originOf = .ok origin)
    (hweb : normalizeServiceOrigin web (Utf16.units origin) = .ok (Utf16.units origin))
    (huuid : isUuid submissionId = true)
    (hsize : (encodeRecovery pkg origin submissionId secret).utf8Len ≤ maxRecoveryFileBytes) :
    encodeRecoveryCode web (webPayloadOf origin submissionId secret) =
        .ok (Utf16.units (encodeRecovery pkg origin submissionId secret)) ∧
      decodeRecovery pkg (encodeRecovery pkg origin submissionId secret) =
        .ok ⟨origin, submissionId, secret⟩ ∧
      (∀ expectedOrigin : Option JsString,
        (∀ expected ∈ expectedOrigin,
          normalizeServiceOrigin web expected = .ok (Utf16.units origin)) →
        decodeRecoveryCode web (Utf16.units (encodeRecovery pkg origin submissionId secret))
          expectedOrigin = .ok (webPayloadOf origin submissionId secret)) ∧
      ∀ (value : JsString) (bytes : Bytes),
        base64UrlDecode value = .ok bytes ↔ bytes ≠ [] ∧ value = base64UrlEncode bytes := by
  refine ⟨encodeRecoveryCode_eq documented.urlSafeEncode hweb huuid hsize, ?_, ?_, ?_⟩
  · exact decodeRecovery_encode documented.urlSafeEncode documented.urlSafeDecode
      documented.fromSlice (documented.parseUuid submissionId huuid) hnative huuid hsize
  · intro expectedOrigin hexpected
    exact decodeRecoveryCode_encode documented.urlSafeEncode documented.parse hweb huuid hsize
      hexpected
  · intro value bytes
    exact base64UrlDecode_eq_ok

section Sample

/-- The identifier and the secret of the fixture that the implementations share. -/
def fixtureId : Text := "00000000-0000-4000-8000-000000000001".toList

def fixtureSecret : OwnerSecret := ⟨List.replicate 32 0, List.length_replicate⟩

def fixturePayload (origin : Text) : RecoveryPayload :=
  { version := 1
    origin := origin
    submissionId := fixtureId
    secret := Base64.urlSafe fixtureSecret.bytes }

def fixtureNative (origin : Text) (url : Url) : NativePackages where
  urlSafeEncode := Base64.urlSafe
  urlSafeDecode t := decodeChunks (Utf16.units t)
  fromSlice bytes := if bytes = (fixturePayload origin).toVec then some (fixturePayload origin) else none
  owners :=
    { sha256 := id
      parseUuid := isUuid
      parseUrl := fun t => if t = origin then some url else none
      fromSlice := fun _ => none
      toVec := fun _ => none
      legacyFromSlice := fun _ => none }

def fixtureBody (origin : Text) : JsString :=
  bodyText (Utf16.units origin) (Utf16.units fixtureId) (base64UrlEncode fixtureSecret.bytes)

def fixtureWeb (origin : Text) (url : WebUrl) : WebPackages where
  newUrl s := if s = Utf16.units origin then some url else none
  toLowerCase s := s.map fun unit => if 65 ≤ unit ∧ unit ≤ 90 then unit + 32 else unit
  parse s :=
    if s = fixtureBody origin then
      some (.object (recordOf (Utf16.units origin) (Utf16.units fixtureId)
        (base64UrlEncode fixtureSecret.bytes)))
    else none

theorem fixture_documented (origin : Text) (url : Url) (webUrl : WebUrl) :
    Documented (fixtureNative origin url) (fixtureWeb origin webUrl) origin fixtureId
      fixtureSecret where
  urlSafeEncode _ := rfl
  urlSafeDecode bytes := by
    have hunits := base64UrlEncode_eq bytes
    have hread := decodeChunks_encode bytes
    rw [hunits] at hread
    exact hread
  fromSlice := by
    have hread (bytes : Bytes) : (fixtureNative origin url).fromSlice bytes =
      if bytes = (fixturePayload origin).toVec then some (fixturePayload origin) else none := rfl
    have hpayload : payloadOf (fixtureNative origin url) origin fixtureId fixtureSecret =
      fixturePayload origin := rfl
    rw [hpayload, hread, if_pos rfl]
  parse := by
    have hread (s : JsString) : (fixtureWeb origin webUrl).parse s =
      if s = fixtureBody origin then
        some (.object (recordOf (Utf16.units origin) (Utf16.units fixtureId)
          (base64UrlEncode fixtureSecret.bytes)))
      else none := rfl
    rw [hread, fixtureBody, if_pos rfl]
  parseUuid _ h := h

def serviceOrigin : Text := "https://benchmarks.example.test".toList

def serviceUrl : Url := { scheme := "https".toList, host := some "benchmarks.example.test".toList }

def serviceWebUrl : WebUrl :=
  { protocol := js "https:"
    hostname := js "benchmarks.example.test"
    host := js "benchmarks.example.test" }

theorem recovery_portable_fixture :
    encodeRecoveryCode (fixtureWeb serviceOrigin serviceWebUrl)
        (webPayloadOf serviceOrigin fixtureId fixtureSecret) =
      .ok (Utf16.units (encodeRecovery (fixtureNative serviceOrigin serviceUrl) serviceOrigin
        fixtureId fixtureSecret)) ∧
    decodeRecovery (fixtureNative serviceOrigin serviceUrl)
        (encodeRecovery (fixtureNative serviceOrigin serviceUrl) serviceOrigin fixtureId
          fixtureSecret) = .ok ⟨serviceOrigin, fixtureId, fixtureSecret⟩ := by
  have hportable := recovery_portable (fixtureNative serviceOrigin serviceUrl)
    (fixtureWeb serviceOrigin serviceWebUrl) serviceOrigin fixtureId fixtureSecret
    (fixture_documented _ _ _) (by decide) (by decide) (by decide)
    (by decide +kernel)
  exact ⟨hportable.1, hportable.2.1⟩

def loopbackOrigin : Text := "http://localhost".toList

def loopbackUrl : Url := { scheme := "http".toList, host := some "localhost".toList }

def loopbackWebUrl : WebUrl :=
  { protocol := js "http:", hostname := js "localhost", host := js "localhost" }

/-- A backup for a service on the same machine is one that a release build does not take. -/
theorem loopback_backup_refused :
    ¬ ∀ (pkg : NativePackages) (web : WebPackages) (origin submissionId : Text)
      (secret : OwnerSecret), Documented pkg web origin submissionId secret →
      (pkg.owners.parseUrl origin).map originOf = some origin →
      normalizeServiceOrigin web (Utf16.units origin) = .ok (Utf16.units origin) →
      isUuid submissionId = true →
      (encodeRecovery pkg origin submissionId secret).utf8Len ≤ maxRecoveryFileBytes →
      decodeRecovery pkg (encodeRecovery pkg origin submissionId secret) =
        .ok ⟨origin, submissionId, secret⟩ := by
  intro h
  have hread := h (fixtureNative loopbackOrigin loopbackUrl)
    (fixtureWeb loopbackOrigin loopbackWebUrl) loopbackOrigin fixtureId fixtureSecret
    (fixture_documented _ _ _) (by decide) (by decide) (by decide)
    (by decide +kernel)
  have hrefused : decodeRecovery (fixtureNative loopbackOrigin loopbackUrl)
      (encodeRecovery (fixtureNative loopbackOrigin loopbackUrl) loopbackOrigin fixtureId
        fixtureSecret) = .error "recovery data names an invalid service origin".toList := by
    decide +kernel
  rw [hrefused] at hread
  cases hread

end Sample

end AioLM.Recovery
