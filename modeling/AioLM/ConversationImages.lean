import Mathlib.Data.Set.Function
import AioLM.Conversations

/-!
Images moved to files by a save and moved back by a load: which of them come back
as they were.
-/

set_option autoImplicit false

namespace AioLM.Conversations

open Fallible

variable {pkg : Packages} {disk : Disk}

def lowerMediaType (url : Text) : Text :=
  match dataUrlParts url with
  | some (mediaType, payload) =>
    "data:".toList ++ Text.toAsciiLower mediaType ++ ";base64,".toList ++ payload
  | none => url

def lowered (pkg : Packages) (image : Json) : Json :=
  match image, (image.get "dataUrl").bind Json.asStr, imageData pkg image maxImageBytes with
  | .object object, some url, .ok (some _) =>
    .object (Json.insertField "dataUrl" (.string (lowerMediaType url)) object)
  | _, _, _ => image

def imagesOf (message : Json) : List Json :=
  match message.get "images" with
  | some (.array images) => images
  | _ => []

def mapMessage (f : Json → Json) (message : Json) : Json :=
  match message, message.get "images" with
  | .object fields, some (.array images) =>
    .object (Json.insertField "images" (.array (images.map f)) fields)
  | _, _ => message

def loweredMessage (pkg : Packages) : Json → Json := mapMessage (lowered pkg)

/-- No field of the image stands where the store puts its own. -/
def Restorable (pkg : Packages) (image : Json) : Prop :=
  image.get "file" = none ∧
    (∀ data, imageData pkg image maxImageBytes = .ok (some data) → image.get "mediaType" = none)

/-- What the hash and the base64 codec are relied on for: 32 bytes that, also cut to
16, tell the byte strings of `D` apart, and no two texts of the same bytes. -/
structure Lawful (pkg : Packages) (D : Set Bytes) : Prop where
  length_sha256 : ∀ bytes, (pkg.sha256 bytes).length = 32
  injective : Set.InjOn (fun bytes => (hex (pkg.sha256 bytes)).take 32) D
  canonical : ∀ payload bytes, pkg.base64Decode payload = some bytes →
    TextBytes.encode (pkg.base64Encode bytes) = payload

theorem length_hex (bytes : Bytes) : (hex bytes).length = 2 * bytes.length := by
  induction bytes with
  | nil => rfl
  | cons byte bytes ih =>
    simp only [hex, List.flatMap_cons, List.length_append, List.length_cons] at ih ⊢
    rw [ih]
    simp [hexDigits]
    omega

theorem digitChar_lowerHex {n : Nat} (h : n < 16) :
    Text.isLowerHex (Nat.digitChar n) = true ∧ (Nat.digitChar n).utf8Size = 1 ∧
      Nat.digitChar n ≠ '.' := by
  revert n
  decide

theorem mem_hex {bytes : Bytes} {c : Char} (h : c ∈ hex bytes) :
    Text.isLowerHex c = true ∧ c.utf8Size = 1 ∧ c ≠ '.' := by
  obtain ⟨byte, -, hc⟩ := List.mem_flatMap.mp h
  have hlt := byte.toNat_lt
  simp only [hexDigits, List.mem_cons, List.not_mem_nil, or_false] at hc
  rcases hc with rfl | rfl
  · exact digitChar_lowerHex (by omega)
  · exact digitChar_lowerHex (by omega)

theorem utf8Len_hex (bytes : Bytes) : (hex bytes).utf8Len = 2 * bytes.length := by
  have hsizes : (hex bytes).map Char.utf8Size = List.replicate (hex bytes).length 1 :=
    List.map_eq_replicate_iff.mpr fun c hc => (mem_hex hc).2.1
  rw [Text.utf8Len, hsizes, List.sum_replicate_nat, length_hex]
  simp

theorem extension_cases (mediaType : Text) :
    extension mediaType ∈ ["png".toList, "jpg".toList, "gif".toList, "webp".toList,
      "bmp".toList, "avif".toList, "svg".toList, "bin".toList] := by
  unfold extension
  repeat' split
  all_goals decide

variable {D : Set Bytes}

theorem Lawful.attachmentName (h : Lawful pkg D) (mediaType : Text) (bytes : Bytes) :
    attachmentName (attachmentsFolder ++ '/' :: attachmentFile pkg mediaType bytes) =
      some (attachmentFile pkg mediaType bytes) := by
  have hstart : attachmentsFolder ++ '/' :: attachmentFile pkg mediaType bytes =
      "attachments/".toList ++ attachmentFile pkg mediaType bytes := rfl
  have hsplit : Text.splitOnce '.' (attachmentFile pkg mediaType bytes) =
      some (hex (pkg.sha256 bytes), extension mediaType) :=
    Text.splitOnce_append (fun hdot => (mem_hex hdot).2.2 rfl) _
  have hlength : (hex (pkg.sha256 bytes)).utf8Len = 64 := by
    rw [utf8Len_hex, h.length_sha256]
  have hhex : (hex (pkg.sha256 bytes)).all Text.isLowerHex = true :=
    List.all_eq_true.mpr fun c hc => (mem_hex hc).1
  have hextension : 1 ≤ (extension mediaType).utf8Len ∧ (extension mediaType).utf8Len ≤ 8 ∧
      (extension mediaType).all (fun c => c.isLower || c.isDigit) = true := by
    have hcases := extension_cases mediaType
    revert hcases
    generalize extension mediaType = e
    revert e
    decide
  rw [Conversations.attachmentName, hstart, Text.stripPrefix_append]
  simp only [Option.bind_eq_bind, Option.bind_some, hsplit]
  rw [if_pos ⟨hlength, hhex, hextension⟩]

theorem Lawful.eq_of_attachmentFile (h : Lawful pkg D) {mediaType extension' : Text}
    {bytes bytes' : Bytes} (hbytes : bytes ∈ D) (hbytes' : bytes' ∈ D)
    (hname : attachmentFile pkg mediaType bytes = hex (pkg.sha256 bytes') ++ '.' :: extension') :
    bytes = bytes' := by
  have hlengths : (hex (pkg.sha256 bytes)).length = (hex (pkg.sha256 bytes')).length := by
    simp only [length_hex, h.length_sha256]
  have hhex := (List.append_inj hname hlengths).1
  exact h.injective hbytes hbytes' (congrArg (List.take 32) hhex)

theorem decodeDataUrl_some {url mediaType : Text} {bytes : Bytes} {maxBytes : Nat}
    (h : decodeDataUrl pkg url maxBytes = .ok (some (mediaType, bytes))) :
    ∃ written payload, dataUrlParts url = some (written, payload) ∧
      mediaType = Text.toAsciiLower written ∧ validMediaType mediaType = true ∧
      pkg.base64Decode (TextBytes.encode payload) = some bytes ∧ bytes.length ≤ maxBytes := by
  unfold decodeDataUrl at h
  cases hparts : dataUrlParts url with
  | none => simp [hparts] at h
  | some parts =>
    obtain ⟨written, payload⟩ := parts
    simp only [hparts] at h
    split at h
    · cases h
    rename_i hvalid
    split at h
    · cases h
    split at h
    · cases h
    split at h
    · cases h
    rename_i decoded hdecoded
    split at h
    · cases h
    rename_i hsize
    split at h
    · cases h
    simp only [Except.ok.injEq, Option.some.injEq, Prod.mk.injEq] at h
    obtain ⟨rfl, rfl⟩ := h
    exact ⟨written, payload, rfl, rfl, by simpa using hvalid, hdecoded, by omega⟩

theorem Lawful.dataUrl (h : Lawful pkg D) {url mediaType : Text} {bytes : Bytes} {maxBytes : Nat}
    (hdata : decodeDataUrl pkg url maxBytes = .ok (some (mediaType, bytes))) :
    "data:".toList ++ mediaType ++ ";base64,".toList ++ pkg.base64Encode bytes =
      lowerMediaType url := by
  obtain ⟨written, payload, hparts, rfl, -, hdecoded, -⟩ := decodeDataUrl_some hdata
  have hpayload : pkg.base64Encode bytes = payload := by
    have hback := congrArg TextBytes.decode (h.canonical _ _ hdecoded)
    rw [TextBytes.decode_encode, TextBytes.decode_encode] at hback
    exact Option.some.inj hback
  rw [lowerMediaType, hparts, hpayload]

theorem imageData_some {image : Json} {mediaType : Text} {bytes : Bytes} {maxBytes : Nat}
    (h : imageData pkg image maxBytes = .ok (some (mediaType, bytes))) :
    ∃ object url, image = .object object ∧ Json.lookup "dataUrl".toList object = some (.string url) ∧
      decodeDataUrl pkg url maxBytes = .ok (some (mediaType, bytes)) := by
  unfold imageData at h
  cases hurl : (image.get "dataUrl").bind Json.asStr with
  | none => simp [hurl] at h
  | some url =>
    simp only [hurl] at h
    obtain ⟨value, hvalue, hstr⟩ := Option.bind_eq_some_iff.mp hurl
    cases image with
    | object object =>
      refine ⟨object, url, rfl, ?_, h⟩
      cases value with
      | string t =>
        cases hstr
        exact hvalue
      | null | bool | number | array | object => cases hstr
    | null | bool | number | array | string => cases hvalue

/-- What a save made of the image, beside the attachments that hold its bytes. -/
inductive Stored (pkg : Packages) (attachments : KeyMap Text Bytes) (image : Json) : Json → Prop
  | inline : imageData pkg image maxImageBytes = .ok none → Stored pkg attachments image image
  | moved {object : List (Text × Json)} {mediaType : Text} {bytes : Bytes} :
      image = .object object →
      imageData pkg image maxImageBytes = .ok (some (mediaType, bytes)) →
      attachments.get (attachmentFile pkg mediaType bytes) = some bytes →
      Stored pkg attachments image
        (offloaded (attachmentFile pkg mediaType bytes) mediaType object)

variable {attachments : KeyMap Text Bytes} {image y : Json} {name : Text}

theorem lowered_of_none (h : imageData pkg image maxImageBytes = .ok none) :
    lowered pkg image = image := by
  unfold lowered
  rw [h]
  split
  · cases ‹Except.ok none = _›
  · rfl

theorem restorable_of_none (h : imageData pkg image maxImageBytes = .ok none) :
    Restorable pkg image ↔ image.get "file" = none := by
  refine and_iff_left fun data hdata => ?_
  rw [h] at hdata
  cases hdata

theorem restore_inline (hordered : image.Ordered)
    (h : imageData pkg image maxImageBytes = .ok none) :
    restoreImage pkg name attachments image = .ok (lowered pkg image) ↔ Restorable pkg image := by
  rw [lowered_of_none h, restorable_of_none h]
  cases image with
  | null | bool | number | string | array => exact iff_of_true rfl rfl
  | object object =>
    cases hfile : Json.lookup "file".toList object with
    | none =>
      refine iff_of_true ?_ hfile
      simp only [restoreImage, hfile]
    | some file =>
      have hpresent : (Json.object object).get "file" ≠ none := by
        intro hnone
        rw [Json.get, hfile] at hnone
        cases hnone
      refine iff_of_false ?_ hpresent
      -- a file that is put back leaves no name of a file
      intro hback
      simp only [restoreImage, hfile, bind_eq_ok, pure, Except.pure, Except.ok.injEq] at hback
      obtain ⟨-, -, -, -, mediaType, -, bytes, -, heq⟩ := hback
      rw [← Json.object.inj heq, Json.lookup_replaceTwo hordered.sorted, if_neg (by decide),
        if_pos (.inr rfl)] at hfile
      cases hfile

theorem Lawful.restoreImage_offloaded (h : Lawful pkg D) (name : Text) {object : List (Text × Json)}
    {mediaType : Text} {bytes : Bytes} (hsorted : Json.Sorted object)
    (hvalid : validMediaType mediaType = true) (hsize : bytes.length ≤ maxImageBytes)
    (hheld : attachments.get (attachmentFile pkg mediaType bytes) = some bytes) :
    ∃ fields, offloaded (attachmentFile pkg mediaType bytes) mediaType object = .object fields ∧
      restoreImage pkg name attachments (.object fields) =
        .ok (restoredImage pkg mediaType bytes fields) := by
  refine ⟨_, rfl, ?_⟩
  generalize hfields : Json.insertField "mediaType" _ _ = fields
  have hfile : Json.lookup "file".toList fields =
      some (.string (attachmentsFolder ++ '/' :: attachmentFile pkg mediaType bytes)) := by
    rw [← hfields, Json.lookup_replaceOne hsorted, if_neg (by decide), if_pos rfl]
  have hmedia : Json.lookup "mediaType".toList fields = some (.string mediaType) := by
    rw [← hfields, Json.lookup_replaceOne hsorted, if_pos rfl]
  have hfilter : (some mediaType).filter validMediaType = some mediaType := by
    simp [Option.filter, hvalid]
  have hread : readBounded pkg (pkg.display [name, attachmentsFolder,
      attachmentFile pkg mediaType bytes]) (some bytes) maxImageBytes = .ok bytes := by
    simp [readBounded, require, hsize, bind, Except.bind, pure, Except.pure]
  simp only [restoreImage, hfile, Json.asStr, orError_some, h.attachmentName, hmedia,
    Option.bind_some, hfilter, hheld, hread, Except.mapError, bind, Except.bind, pure, Except.pure]

theorem Lawful.restore_moved (h : Lawful pkg D) {object : List (Text × Json)} {mediaType : Text}
    {bytes : Bytes} (hordered : (Json.object object).Ordered)
    (hdata : imageData pkg (.object object) maxImageBytes = .ok (some (mediaType, bytes)))
    (hheld : attachments.get (attachmentFile pkg mediaType bytes) = some bytes) :
    restoreImage pkg name attachments
        (offloaded (attachmentFile pkg mediaType bytes) mediaType object) =
      .ok (lowered pkg (.object object)) ↔ Restorable pkg (.object object) := by
  obtain ⟨_, url, heq, hurl, hdecode⟩ := imageData_some hdata
  cases heq
  obtain ⟨-, -, -, -, hvalid, -, hsize⟩ := decodeDataUrl_some hdecode
  have hsorted := hordered.sorted
  obtain ⟨fields, hfields, hrestore⟩ :=
    h.restoreImage_offloaded name hsorted hvalid hsize hheld
  have hlowered : lowered pkg (.object object) =
      .object (Json.insertField "dataUrl" (.string (lowerMediaType url)) object) := by
    have hget : ((Json.object object).get "dataUrl").bind Json.asStr = some url := by
      rw [Json.get, hurl]
      rfl
    simp only [lowered, hget, hdata]
  rw [hfields, hrestore, hlowered, restoredImage, h.dataUrl hdecode, Except.ok.injEq,
    Json.object.injEq, ← Json.object.inj hfields,
    Json.replace_back_iff hsorted (by decide) (by decide)]
  refine and_congr_right fun _ => ⟨fun hnone _ _ => hnone, fun hnone => hnone _ hdata⟩

theorem Lawful.restore_iff (h : Lawful pkg D) (hordered : image.Ordered)
    (hstored : Stored pkg attachments image y) :
    restoreImage pkg name attachments y = .ok (lowered pkg image) ↔ Restorable pkg image := by
  cases hstored with
  | inline hnone => exact restore_inline hordered hnone
  | moved hobject hdata hheld =>
    subst hobject
    exact h.restore_moved hordered hdata hheld

def Named (pkg : Packages) (D : Set Bytes) (attachments : KeyMap Text Bytes) : Prop :=
  ∀ name bytes, attachments.get name = some bytes →
    bytes ∈ D ∧ ∃ extension, name = hex (pkg.sha256 bytes) ++ '.' :: extension

/-- What writing images never undoes, also when it fails. -/
structure Grows (pkg : Packages) (D : Set Bytes) (w w' : Writing) : Prop where
  held : ∀ name bytes, w.attachments.get name = some bytes →
    w'.attachments.get name = some bytes
  created : ∀ name ∈ w'.created, name ∈ w.created ∨ w.attachments.get name = none
  recorded : ∀ name ∈ w.created, name ∈ w'.created
  fresh : ∀ name, (w'.attachments.get name).isSome →
    (w.attachments.get name).isSome ∨ name ∈ w'.created
  kept : ∀ name ∈ w.kept, name ∈ w'.kept
  named : Named pkg D w.attachments → Named pkg D w'.attachments

namespace Grows

theorem refl (w : Writing) : Grows pkg D w w :=
  ⟨fun _ _ h => h, fun _ h => .inl h, fun _ h => h, fun _ h => .inl h, fun _ h => h, fun h => h⟩

theorem trans (u v w : Writing) (h : Grows pkg D u v) (h' : Grows pkg D v w) :
    Grows pkg D u w where
  held name bytes hname := h'.held name bytes (h.held name bytes hname)
  created name hname := by
    rcases h'.created name hname with hv | hv
    · exact h.created name hv
    · refine .inr (Option.eq_none_iff_forall_ne_some.mpr fun bytes hbytes => ?_)
      rw [h.held name bytes hbytes] at hv
      cases hv
  recorded name hname := h'.recorded name (h.recorded name hname)
  fresh name hname := by
    rcases h'.fresh name hname with hv | hw
    · exact (h.fresh name hv).imp_right (h'.recorded name)
    · exact .inr hw
  kept name hname := h'.kept name (h.kept name hname)
  named hnamed := h'.named (h.named hnamed)

end Grows

/-- The byte strings of the images a save hashes are among those told apart. -/
def HashesIn (pkg : Packages) (D : Set Bytes) (image : Json) : Prop :=
  ∀ mediaType bytes, imageData pkg image maxImageBytes = .ok (some (mediaType, bytes)) → bytes ∈ D

theorem exec_writeMissing (disk : Disk) (name : Text) (bytes : Bytes) (w : Writing) :
    (∃ old, w.attachments.get name = some old ∧
      (writeMissing disk name bytes).exec w = (.ok (), w)) ∨
    (w.attachments.get name = none ∧
      ((∃ error, (writeMissing disk name bytes).exec w = (.error error, { w with touched := true })) ∨
        (writeMissing disk name bytes).exec w = (.ok (), { w with
          touched := true
          attachments := w.attachments.insert name bytes
          created := name :: w.created }))) := by
  unfold writeMissing
  simp only [Effect.exec_bind, Effect.exec_get]
  cases hold : w.attachments.get name with
  | some old => exact .inl ⟨old, rfl, rfl⟩
  | none =>
    refine .inr ⟨rfl, ?_⟩
    cases hwrite : disk.writeError name with
    | some error => exact .inl ⟨error, by simp [Effect.exec_bind]⟩
    | none => exact .inr (by simp [Effect.exec_bind])

theorem grows_writeMissing (pkg : Packages) (disk : Disk) (mediaType : Text) {bytes : Bytes}
    (hbytes : bytes ∈ D) :
    Effect.Moves (Grows pkg D) (writeMissing disk (attachmentFile pkg mediaType bytes) bytes) := by
  intro w
  rcases exec_writeMissing disk (attachmentFile pkg mediaType bytes) bytes w with
    ⟨old, -, hexec⟩ | ⟨hnone, ⟨error, hexec⟩ | hexec⟩ <;> rw [hexec]
  · exact Grows.refl w
  · exact ⟨fun _ _ h => h, fun _ h => .inl h, fun _ h => h, fun _ h => .inl h, fun _ h => h,
      fun h => h⟩
  · refine ⟨fun name old hold => ?_, fun name hname => ?_, fun name => List.mem_cons_of_mem _,
      fun name hheld => ?_, fun name hname => hname, fun hnamed => ?_⟩
    · simp only [KeyMap.get_insert]
      rw [if_neg, hold]
      intro heq
      rw [heq, hnone] at hold
      cases hold
    · rcases List.mem_cons.mp hname with rfl | hname
      · exact .inr hnone
      · exact .inl hname
    · simp only [KeyMap.get_insert] at hheld
      split at hheld
      · rename_i hname
        exact .inr (hname ▸ List.mem_cons_self)
      · exact .inl hheld
    · intro name held hheld
      simp only [KeyMap.get_insert] at hheld
      split at hheld
      · rename_i hname
        cases hheld
        exact ⟨hbytes, _, hname⟩
      · exact hnamed name held hheld

theorem Lawful.get_writeMissing (h : Lawful pkg D) {mediaType : Text} {bytes : Bytes}
    {w w' : Writing} (hbytes : bytes ∈ D) (hnamed : Named pkg D w'.attachments)
    (hexec : (writeMissing disk (attachmentFile pkg mediaType bytes) bytes).exec w = (.ok (), w')) :
    w'.attachments.get (attachmentFile pkg mediaType bytes) = some bytes := by
  rcases exec_writeMissing disk (attachmentFile pkg mediaType bytes) bytes w with
    ⟨old, hold, hsame⟩ | ⟨-, ⟨error, hfail⟩ | hnew⟩
  · rw [hsame] at hexec
    cases hexec
    obtain ⟨hmem, extension, hname⟩ := hnamed _ old hold
    rw [hold, h.eq_of_attachmentFile hbytes hmem hname]
  · rw [hfail] at hexec
    cases hexec
  · rw [hnew] at hexec
    cases hexec
    simp [KeyMap.get_insert]

theorem exec_storeImage_none {maxBytes : Nat} (h : imageData pkg image maxBytes = .ok none)
    (w : Writing) : (storeImage pkg disk maxBytes image).exec w = (.ok image, w) := by
  simp only [storeImage, Effect.exec_bind, Effect.exec_ofExcept, h]
  cases image <;> rfl

theorem exec_storeImage_some {maxBytes : Nat} {object : List (Text × Json)} {mediaType : Text}
    {bytes : Bytes}
    (h : imageData pkg (.object object) maxBytes = .ok (some (mediaType, bytes))) (w : Writing) :
    (storeImage pkg disk maxBytes (.object object)).exec w =
      match (writeMissing disk (attachmentFile pkg mediaType bytes) bytes).exec w with
      | (.ok (), w') => (.ok (offloaded (attachmentFile pkg mediaType bytes) mediaType object),
          { w' with kept := attachmentFile pkg mediaType bytes :: w'.kept })
      | (.error error, w') => (.error error, w') := by
  simp only [storeImage, Effect.exec_bind, Effect.exec_ofExcept, h]
  cases (writeMissing disk (attachmentFile pkg mediaType bytes) bytes).exec w with
  | mk result w' => cases result <;> rfl

theorem grows_storeImage (hhash : HashesIn pkg D image) :
    Effect.Moves (Grows pkg D) (storeImage pkg disk maxImageBytes image) := by
  intro w
  cases hdata : imageData pkg image maxImageBytes with
  | error error =>
    simp only [storeImage, Effect.exec_bind, Effect.exec_ofExcept, hdata]
    exact Grows.refl w
  | ok data =>
    cases data with
    | none =>
      rw [exec_storeImage_none hdata]
      exact Grows.refl w
    | some data =>
      obtain ⟨mediaType, bytes⟩ := data
      obtain ⟨object, url, rfl, -⟩ := imageData_some hdata
      have hwrite := grows_writeMissing pkg disk mediaType (hhash mediaType bytes hdata) w
      rw [exec_storeImage_some hdata]
      cases hexec : (writeMissing disk (attachmentFile pkg mediaType bytes) bytes).exec w with
      | mk result w' =>
        rw [hexec] at hwrite
        cases result with
        | error error => exact hwrite
        | ok u =>
          refine ⟨hwrite.held, hwrite.created, hwrite.recorded, hwrite.fresh,
            fun name hname => ?_, hwrite.named⟩
          exact List.mem_cons_of_mem _ (hwrite.kept name hname)

theorem get_removeUnreferenced (w : Writing) (name : Text) :
    (removeUnreferenced disk w).get name =
      if w.kept.contains name || disk.stuck name then w.attachments.get name else none := by
  rw [removeUnreferenced, KeyMap.get_filterMap]
  cases w.attachments.get name <;> simp

theorem Stored.mono {attachments' : KeyMap Text Bytes} (h : Stored pkg attachments image y)
    (hheld : ∀ name bytes, attachments.get name = some bytes →
      attachments'.get name = some bytes) : Stored pkg attachments' image y := by
  cases h with
  | inline hnone => exact .inline hnone
  | moved hobject hdata hname => exact .moved hobject hdata (hheld _ _ hname)

/-- What a save keeps it keeps while the other images are written. -/
theorem Grows.removeUnreferenced {w w' : Writing} (h : Grows pkg D w w') {name : Text}
    {bytes : Bytes} (hname : (removeUnreferenced disk w).get name = some bytes) :
    (removeUnreferenced disk w').get name = some bytes := by
  rw [get_removeUnreferenced] at hname ⊢
  split at hname
  · rename_i hkept
    rw [if_pos, h.held name bytes hname]
    simp only [Bool.or_eq_true, List.contains_iff_mem] at hkept ⊢
    exact hkept.imp_left (h.kept name)
  · cases hname

theorem Lawful.stored_storeImage (h : Lawful pkg D) (hhash : HashesIn pkg D image)
    {w w' : Writing} (hexec : (storeImage pkg disk maxImageBytes image).exec w = (.ok y, w'))
    (hnamed : Named pkg D w'.attachments) :
    Stored pkg (Conversations.removeUnreferenced disk w') image y := by
  cases hdata : imageData pkg image maxImageBytes with
  | error error =>
    simp [storeImage, Effect.exec_bind, hdata] at hexec
  | ok data =>
    cases data with
    | none =>
      rw [exec_storeImage_none hdata] at hexec
      cases hexec
      exact .inline hdata
    | some data =>
      obtain ⟨mediaType, bytes⟩ := data
      obtain ⟨object, url, rfl, -⟩ := imageData_some hdata
      rw [exec_storeImage_some hdata] at hexec
      cases hwrite : (writeMissing disk (attachmentFile pkg mediaType bytes) bytes).exec w with
      | mk result u =>
        rw [hwrite] at hexec
        cases result with
        | error error => cases hexec
        | ok _ =>
          cases hexec
          have hheld : u.attachments.get (attachmentFile pkg mediaType bytes) = some bytes :=
            h.get_writeMissing (hhash mediaType bytes hdata) hnamed hwrite
          refine .moved rfl hdata ?_
          rw [get_removeUnreferenced, if_pos (by simp)]
          exact hheld

def WithoutImages (message : Json) : Prop :=
  ∀ images, message.get "images" ≠ some (.array images)

theorem images_cases (message : Json) :
    WithoutImages message ∨ ∃ fields images, message = .object fields ∧
      Json.lookup "images".toList fields = some (.array images) := by
  by_cases h : WithoutImages message
  · exact .inl h
  · obtain ⟨images, himages⟩ := Classical.not_forall.mp h
    cases message with
    | object fields => exact .inr ⟨fields, images, rfl, Classical.not_not.mp himages⟩
    | null | bool | number | array | string => exact absurd (Classical.not_not.mp himages) nofun

section Pass

variable {m : Type → Type} [Monad m] {message : Json} {fields : List (Text × Json)}
  {images : List Json}

theorem mapImages_withoutImages (h : WithoutImages message) (f : Json → m Json) :
    mapImages f message = pure message := by
  unfold mapImages
  split
  · split
    · rename_i images himages
      exact absurd himages (h images)
    · rfl
  · rfl

theorem mapImages_images (h : Json.lookup "images".toList fields = some (.array images))
    (f : Json → m Json) :
    mapImages f (.object fields) = images.mapM f >>= fun images' =>
      pure (.object (Json.insertField "images" (.array images') fields)) := by
  simp only [mapImages, h]

theorem imagesOf_withoutImages (h : WithoutImages message) : imagesOf message = [] := by
  unfold imagesOf
  split
  · rename_i images himages
    exact absurd himages (h images)
  · rfl

theorem imagesOf_images (h : Json.lookup "images".toList fields = some (.array images)) :
    imagesOf (.object fields) = images := by
  simp only [imagesOf, Json.get, h]

theorem mapMessage_withoutImages (h : WithoutImages message) (f : Json → Json) :
    mapMessage f message = message := by
  unfold mapMessage
  split
  · rename_i images himages
    exact absurd himages (h images)
  · rfl

theorem mapMessage_images (h : Json.lookup "images".toList fields = some (.array images))
    (f : Json → Json) :
    mapMessage f (.object fields) =
      .object (Json.insertField "images" (.array (images.map f)) fields) := by
  simp only [mapMessage, Json.get, h]

end Pass

/-- What a save made of a message. -/
inductive StoredMessage (pkg : Packages) (attachments : KeyMap Text Bytes) (message : Json) :
    Json → Prop
  | same : WithoutImages message → StoredMessage pkg attachments message message
  | images {fields : List (Text × Json)} {images images' : List Json} :
      message = .object fields → Json.lookup "images".toList fields = some (.array images) →
      List.Forall₂ (Stored pkg attachments) images images' →
      StoredMessage pkg attachments message
        (.object (Json.insertField "images" (.array images') fields))

theorem StoredMessage.mono {message stored : Json} {attachments' : KeyMap Text Bytes}
    (h : StoredMessage pkg attachments message stored)
    (hheld : ∀ name bytes, attachments.get name = some bytes →
      attachments'.get name = some bytes) : StoredMessage pkg attachments' message stored := by
  cases h with
  | same hsame => exact .same hsame
  | images hobject himages hstored =>
    exact .images hobject himages (hstored.imp fun _ _ hone => hone.mono hheld)

/-- The two passes over one message: it comes back as it was, its data URLs in lower
case, exactly when every image does. -/
theorem Lawful.restoreMessage_iff (h : Lawful pkg D) {message stored : Json}
    (hordered : message.Ordered) (hstored : StoredMessage pkg attachments message stored) :
    mapImages (restoreImage pkg name attachments) stored = .ok (loweredMessage pkg message) ↔
      ∀ image ∈ imagesOf message, Restorable pkg image := by
  cases hstored with
  | same hsame =>
    rw [mapImages_withoutImages hsame, loweredMessage, mapMessage_withoutImages hsame,
      imagesOf_withoutImages hsame]
    simp [pure, Except.pure]
  | @images fields images images' hobject himages hstored =>
    subst hobject
    have hsorted := hordered.sorted
    have himagesOrdered := hordered.lookup himages
    have hwritten : Json.lookup "images".toList
        (Json.insertField "images" (.array images') fields) = some (.array images') := by
      rw [Json.lookup_insertField hsorted, if_pos rfl]
    -- the list restored stands where the list written stood
    have hback (restored : List Json) : Json.insertField "images" (.array restored)
        (Json.insertField "images" (.array images') fields) =
          Json.insertField "images" (.array restored) fields := by
      refine Json.Sorted.ext hsorted.insertField.insertField hsorted.insertField fun k => ?_
      rw [Json.lookup_insertField hsorted.insertField, Json.lookup_insertField hsorted,
        Json.lookup_insertField hsorted]
      split <;> rfl
    have hinj {xs ys : List Json} (heq : Json.insertField "images" (.array xs) fields =
        Json.insertField "images" (.array ys) fields) : xs = ys := by
      have hlookup := congrArg (Json.lookup "images".toList) heq
      rw [Json.lookup_insertField hsorted, Json.lookup_insertField hsorted, if_pos rfl,
        if_pos rfl] at hlookup
      exact Json.array.inj (Option.some.inj hlookup)
    have heach : List.Forall₂ (fun image y =>
        restoreImage pkg name attachments y = .ok (lowered pkg image) ↔ Restorable pkg image)
        images images' := by
      refine List.forall₂_iff_zip.mpr ⟨hstored.length_eq, fun {image y} hpair => ?_⟩
      have hone := (List.forall₂_iff_zip.mp hstored).2 hpair
      exact h.restore_iff (himagesOrdered.item (List.of_mem_zip hpair).1) hone
    rw [mapImages_images hwritten, loweredMessage, mapMessage_images himages, imagesOf_images himages,
      ← mapM_eq_map_iff heach, bind_eq_ok]
    constructor
    · intro ⟨restored, hrestored, hlast⟩
      rw [hback] at hlast
      cases hinj (Json.object.inj (Except.ok.inj hlast))
      exact hrestored
    · intro hrestored
      refine ⟨_, hrestored, ?_⟩
      rw [hback]
      rfl

theorem Named.mono {attachments' : KeyMap Text Bytes} (h : Named pkg D attachments')
    (hheld : ∀ name bytes, attachments.get name = some bytes →
      attachments'.get name = some bytes) : Named pkg D attachments :=
  fun name bytes hname => h name bytes (hheld name bytes hname)

variable {message : Json}

theorem grows_storeMessage (hhash : ∀ image ∈ imagesOf message, HashesIn pkg D image) :
    Effect.Moves (Grows pkg D) (mapImages (storeImage pkg disk maxImageBytes) message) := by
  rcases images_cases message with hsame | ⟨fields, images, rfl, himages⟩
  · rw [mapImages_withoutImages hsame]
    exact Grows.refl
  · rw [imagesOf_images himages] at hhash
    rw [mapImages_images himages]
    refine Effect.Moves.bind ?_ (fun images' => Grows.refl) Grows.trans
    exact Effect.Moves.mapM (fun image himage => grows_storeImage (hhash image himage))
      Grows.refl Grows.trans

theorem Lawful.stored_storeMessage (h : Lawful pkg D)
    (hhash : ∀ image ∈ imagesOf message, HashesIn pkg D image) {stored : Json} {w w' : Writing}
    (hexec : (mapImages (storeImage pkg disk maxImageBytes) message).exec w = (.ok stored, w'))
    (hnamed : Named pkg D w'.attachments) :
    StoredMessage pkg (removeUnreferenced disk w') message stored := by
  rcases images_cases message with hsame | ⟨fields, images, rfl, himages⟩
  · rw [mapImages_withoutImages hsame] at hexec
    cases hexec
    exact .same hsame
  · rw [imagesOf_images himages] at hhash
    rw [mapImages_images himages, Effect.bind_ok] at hexec
    obtain ⟨images', u, hmapped, hlast⟩ := hexec
    cases hlast
    refine .images rfl himages ?_
    have hall := Effect.mapM_ok
      (P := fun image y w => Named pkg D w.attachments → Stored pkg (removeUnreferenced disk w) image y)
      (fun image himage => grows_storeImage (hhash image himage)) Grows.refl Grows.trans
      (fun image y s t hgrows hone hnamed => (hone (hnamed.mono hgrows.held)).mono
        fun _ _ => hgrows.removeUnreferenced)
      (fun image himage s y t hone hnamed => h.stored_storeImage (hhash image himage) hone hnamed)
      hmapped
    exact hall.imp fun _ _ hone => hone hnamed

variable {messages stored : List Json}

theorem grows_storeImages (disk : Disk)
    (hhash : ∀ message ∈ messages, ∀ image ∈ imagesOf message, HashesIn pkg D image) :
    Effect.Moves (Grows pkg D) (storeImages pkg disk maxImageBytes messages) :=
  Effect.Moves.mapM (fun message hmessage => grows_storeMessage (hhash message hmessage))
    Grows.refl Grows.trans

theorem Lawful.stored_storeImages (h : Lawful pkg D)
    (hhash : ∀ message ∈ messages, ∀ image ∈ imagesOf message, HashesIn pkg D image)
    {w w' : Writing}
    (hexec : (storeImages pkg disk maxImageBytes messages).exec w = (.ok stored, w'))
    (hnamed : Named pkg D w'.attachments) :
    List.Forall₂ (StoredMessage pkg (removeUnreferenced disk w')) messages stored := by
  have hall := Effect.mapM_ok
    (P := fun message y w => Named pkg D w.attachments →
      StoredMessage pkg (removeUnreferenced disk w) message y)
    (fun message hmessage => grows_storeMessage (hhash message hmessage)) Grows.refl Grows.trans
    (fun message y s t hgrows hone hnamed => (hone (hnamed.mono hgrows.held)).mono
      fun _ _ => hgrows.removeUnreferenced)
    (fun message hmessage s y t hone hnamed =>
      h.stored_storeMessage (hhash message hmessage) hone hnamed) hexec
  exact hall.imp fun _ _ hone => hone hnamed

theorem Lawful.restoreImages_iff (h : Lawful pkg D) (name : Text)
    (hordered : ∀ message ∈ messages, message.Ordered)
    (hstored : List.Forall₂ (StoredMessage pkg attachments) messages stored) :
    restoreImages pkg name attachments stored = .ok (messages.map (loweredMessage pkg)) ↔
      ∀ message ∈ messages, ∀ image ∈ imagesOf message, Restorable pkg image := by
  refine mapM_eq_map_iff (List.forall₂_iff_zip.mpr ⟨hstored.length_eq, fun {message y} hpair => ?_⟩)
  exact h.restoreMessage_iff (hordered message (List.of_mem_zip hpair).1)
    ((List.forall₂_iff_zip.mp hstored).2 hpair)

end AioLM.Conversations
