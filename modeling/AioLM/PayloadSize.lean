import AioLM.Base64
import AioLM.Conversations

/-!
The size of an image is read off its base64 text before the text is decoded: the
check on the length, the pads and the last symbol accepts the encoded texts and
nothing else.
-/

set_option autoImplicit false

namespace AioLM.Conversations

variable {payload body : Bytes} {pads n : Nat}

theorem takeWhile_pads (hbody : ∀ byte ∈ body, (Base64.value byte).isSome) :
    (body ++ List.replicate pads Base64.pad).takeWhile (· ≠ 61) = body := by
  have hsymbol : ∀ byte ∈ body, (decide (byte ≠ 61)) = true := fun byte hbyte =>
    decide_eq_true (Base64.value_ne_pad (hbody byte hbyte))
  rw [List.takeWhile_append_of_pos hsymbol]
  cases pads with
  | zero => simp
  | succ pads => simp [List.replicate_succ, Base64.pad]

theorem last_value (bits : Nat) : (∀ byte ∈ body.getLast?, ∀ n ∈ Base64.value byte, n % bits = 0) ↔
    (body.getLast?.bind Base64.value).getD 0 % bits = 0 := by
  cases body.getLast? with
  | none => simp
  | some byte => cases hvalue : Base64.value byte <;> simp [hvalue]

theorem encodedPayloadLen_groups (h : Base64.Groups body pads) :
    encodedPayloadLen (body ++ List.replicate pads Base64.pad) =
      some ((body.length + pads) / 4 * 3 - pads) := by
  have hle := h.pads_le
  have hwhole := h.whole
  have htwo := fun hpads => (last_value 16).mp (h.two hpads)
  have hone := fun hpads => (last_value 4).mp (h.one hpads)
  simp only [encodedPayloadLen, takeWhile_pads h.symbols, List.length_append,
    List.length_replicate, List.drop_left, Nat.add_sub_cancel_left]
  rw [if_neg, if_neg, if_neg, if_neg]
  · rintro ⟨hpads, hshort | hbits⟩
    · omega
    · exact hbits (hone hpads)
  · rintro ⟨hpads, hshort | hbits⟩
    · omega
    · exact hbits (htwo hpads)
  · simp only [not_or, not_lt, Bool.not_eq_true, List.any_eq_false]
    refine ⟨hle, fun byte hbyte => ?_⟩
    simp [h.symbols byte hbyte]
  · simp only [not_or, Bool.not_eq_true, List.any_eq_false]
    refine ⟨by omega, fun byte hbyte => ?_⟩
    simp [List.eq_of_mem_replicate hbyte, Base64.pad]

theorem groups_of_encodedPayloadLen (h : encodedPayloadLen payload = some n) :
    ∃ body pads, payload = body ++ List.replicate pads Base64.pad ∧ Base64.Groups body pads := by
  simp only [encodedPayloadLen] at h
  obtain ⟨tail, hsplit⟩ := List.takeWhile_prefix (fun byte : UInt8 => decide (byte ≠ 61)) (l := payload)
  generalize payload.takeWhile (fun byte => decide (byte ≠ 61)) = body at h hsplit
  subst hsplit
  rw [List.drop_left, List.length_append, Nat.add_sub_cancel_left] at h
  split at h
  · cases h
  rename_i hwhole
  split at h
  · cases h
  rename_i hsymbols
  split at h
  · cases h
  rename_i htwo
  split at h
  · cases h
  rename_i hone
  simp only [not_or, not_not, Bool.not_eq_true, List.any_eq_false, not_lt, decide_eq_true_eq,
    Option.isNone_iff_eq_none] at hwhole hsymbols
  obtain ⟨hwhole, htail⟩ := hwhole
  refine ⟨body, tail.length, ?_, fun byte hbyte => ?_, hsymbols.1, by omega, fun hpads => ?_,
    fun hpads => ?_⟩
  · exact congrArg (body ++ ·) (List.eq_replicate_of_mem htail)
  · exact Option.isSome_iff_ne_none.mpr (hsymbols.2 byte hbyte)
  · exact (last_value 16).mpr (by_contra fun hbits => htwo ⟨hpads, .inr hbits⟩)
  · exact (last_value 4).mpr (by_contra fun hbits => hone ⟨hpads, .inr hbits⟩)

theorem encodedPayloadLen_eq_some : encodedPayloadLen payload = some n ↔
    ∃ bytes, Base64.encode bytes = payload ∧ bytes.length = n := by
  constructor
  · intro h
    obtain ⟨body, pads, rfl, hgroups⟩ := groups_of_encodedPayloadLen h
    obtain ⟨bytes, hbytes, hlength⟩ := hgroups.exists_bytes
    rw [encodedPayloadLen_groups hgroups, Option.some.injEq] at h
    exact ⟨bytes, hbytes, by omega⟩
  · rintro ⟨bytes, rfl, rfl⟩
    obtain ⟨body, pads, hbody, hgroups⟩ := Base64.groups_encode bytes
    rw [hbody, encodedPayloadLen_groups hgroups, Base64.length_of_encode hgroups hbody]

/-- The check gives a length exactly to the text of one byte string, and it is the
length of this string. So the limit is one on the image itself, and the decoder sees no
payload of more bytes and none that is not canonical. -/
theorem encoded_payload_len_exact (p : Text) :
    (∀ n, encodedPayloadLen (TextBytes.encode p) = some n ↔
      ∃ bytes, (∀ other, Base64.encode other = TextBytes.encode p ↔ other = bytes) ∧
        bytes.length = n) ∧
    ∀ pkg url mediaType maxBytes, dataUrlParts url = some (mediaType, p) →
      validMediaType (Text.toAsciiLower mediaType) = true →
      (∀ bytes, Base64.encode bytes = TextBytes.encode p → maxBytes < bytes.length →
        decodeDataUrl pkg url maxBytes = .error (oversizedImage maxBytes)) ∧
      (∀ bytes, Base64.encode bytes = TextBytes.encode p → bytes.length ≤ maxBytes →
        pkg.base64Decode (TextBytes.encode p) = some bytes →
        decodeDataUrl pkg url maxBytes =
          .ok (if bytes = [] then none else some (Text.toAsciiLower mediaType, bytes))) ∧
      ∀ pkg' : Packages,
        (∀ bytes, Base64.encode bytes = TextBytes.encode p → bytes.length ≤ maxBytes →
          pkg'.base64Decode (TextBytes.encode p) = pkg.base64Decode (TextBytes.encode p)) →
        decodeDataUrl pkg' url maxBytes = decodeDataUrl pkg url maxBytes := by
  refine ⟨fun n => ?_, fun pkg url mediaType maxBytes hparts hvalid => ?_⟩
  · rw [encodedPayloadLen_eq_some]
    constructor
    · rintro ⟨bytes, hbytes, hlength⟩
      refine ⟨bytes, fun other => ⟨fun hother => ?_, fun hother => hother ▸ hbytes⟩, hlength⟩
      exact Base64.encode_injective (hother.trans hbytes.symm)
    · rintro ⟨bytes, hbytes, hlength⟩
      exact ⟨bytes, (hbytes bytes).mpr rfl, hlength⟩
  · have hlength {bytes : Bytes} (hbytes : Base64.encode bytes = TextBytes.encode p) :
        encodedPayloadLen (TextBytes.encode p) = some bytes.length :=
      encodedPayloadLen_eq_some.mpr ⟨bytes, hbytes, rfl⟩
    simp only [decodeDataUrl, hparts, hvalid, Bool.not_true, Bool.false_eq_true, if_false]
    refine ⟨fun bytes hbytes hlarge => ?_, fun bytes hbytes hsmall hdecode => ?_,
      fun pkg' hsame => ?_⟩
    · simp only [hlength hbytes, if_pos hlarge]
    · simp only [hlength hbytes, if_neg (Nat.not_lt.mpr hsmall), hdecode]
      cases bytes <;> rfl
    · cases hn : encodedPayloadLen (TextBytes.encode p) with
      | none => rfl
      | some n =>
        obtain ⟨bytes, hbytes, rfl⟩ := encodedPayloadLen_eq_some.mp hn
        by_cases hlarge : maxBytes < bytes.length
        · simp only [if_pos hlarge]
        · simp only [if_neg hlarge, hsame bytes hbytes (Nat.not_lt.mp hlarge)]

end AioLM.Conversations
