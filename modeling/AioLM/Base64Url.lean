import AioLM.Base64
import AioLM.Utf16

/-!
The encoding of recovery codes in the shared contracts: groups of 24 bits and two short
tails, written and read without a package, and the same text as the package's.
-/

set_option autoImplicit false

namespace AioLM.Recovery

def alphabet : List Nat :=
  Utf16.units "ABCDEFGHIJKLMNOPQRSTUVWXYZabcdefghijklmnopqrstuvwxyz0123456789-_".toList

def symbolAt (index : Nat) : Nat := alphabet.getD index 0

/-- One turn of the writer's loop. -/
def encodeGroup (first : UInt8) (second third : Option UInt8) : List Nat :=
  let byte (b : Option UInt8) : Nat := (b.map UInt8.toNat).getD 0
  let triple := (first.toNat <<< 16) ||| (byte second <<< 8) ||| byte third
  [symbolAt ((triple >>> 18) &&& 63), symbolAt ((triple >>> 12) &&& 63)] ++
    (if second.isSome then [symbolAt ((triple >>> 6) &&& 63)] else []) ++
    (if third.isSome then [symbolAt (triple &&& 63)] else [])

def base64UrlEncode : Bytes → List Nat
  | [] => []
  | [first] => encodeGroup first none none
  | [first, second] => encodeGroup first (some second) none
  | first :: second :: third :: rest =>
    encodeGroup first (some second) (some third) ++ base64UrlEncode rest

def indexOf (unit : Nat) : Option Nat := alphabet.idxOf? unit

/-- One turn of the reader's loop. -/
def decodeChunk (chunk : List Nat) : Option Bytes := do
  let a ← chunk[0]? >>= indexOf
  let b ← chunk[1]? >>= indexOf
  let c ← if 2 < chunk.length then chunk[2]? >>= indexOf else some 0
  let d ← if 3 < chunk.length then chunk[3]? >>= indexOf else some 0
  let triple := (a <<< 18) ||| (b <<< 12) ||| (c <<< 6) ||| d
  return [UInt8.ofNat ((triple >>> 16) &&& 255)] ++
    (if 2 < chunk.length then [UInt8.ofNat ((triple >>> 8) &&& 255)] else []) ++
    (if 3 < chunk.length then [UInt8.ofNat (triple &&& 255)] else [])

def decodeChunks : List Nat → Option Bytes
  | [] => some []
  | first :: second :: third :: fourth :: rest => do
    let bytes ← decodeChunk [first, second, third, fourth]
    let more ← decodeChunks rest
    return bytes ++ more
  | chunk => decodeChunk chunk

def isBase64UrlUnit (unit : Nat) : Bool :=
  decide (65 ≤ unit ∧ unit ≤ 90) || decide (97 ≤ unit ∧ unit ≤ 122) ||
    decide (48 ≤ unit ∧ unit ≤ 57) || unit == 95 || unit == 45

def isBase64Url (value : List Nat) : Bool := value ≠ [] && value.all isBase64UrlUnit

def invalidEncoding : Text := "Invalid recovery encoding.".toList

def base64UrlDecode (value : List Nat) : Except Text Bytes :=
  if isBase64Url value = false ∨ value.length = 0 ∨ value.length % 4 = 1 then .error invalidEncoding
  else
    match decodeChunks value with
    | none => .error invalidEncoding
    | some bytes => if base64UrlEncode bytes ≠ value then .error invalidEncoding else .ok bytes

theorem triple_eq {a b c : Nat} (hb : b < 256) (hc : c < 256) :
    (a <<< 16) ||| (b <<< 8) ||| c = a * 65536 + b * 256 + c := by
  have hlow : (b <<< 8) ||| c = b <<< 8 + c := (Nat.shiftLeft_add_eq_or_of_lt (i := 8) hc b).symm
  have hlt : b <<< 8 + c < 2 ^ 16 := by
    rw [Nat.shiftLeft_eq]
    omega
  rw [Nat.or_assoc, hlow, ← Nat.shiftLeft_add_eq_or_of_lt hlt, Nat.shiftLeft_eq, Nat.shiftLeft_eq]
  omega

theorem quadruple_eq {a b c d : Nat} (hb : b < 64) (hc : c < 64) (hd : d < 64) :
    (a <<< 18) ||| (b <<< 12) ||| (c <<< 6) ||| d = a * 262144 + b * 4096 + c * 64 + d := by
  have hlow : (c <<< 6) ||| d = c <<< 6 + d := (Nat.shiftLeft_add_eq_or_of_lt (i := 6) hd c).symm
  have hlt : c <<< 6 + d < 2 ^ 12 := by
    rw [Nat.shiftLeft_eq]
    omega
  have hmid : (b <<< 12) ||| (c <<< 6 + d) = b <<< 12 + (c <<< 6 + d) :=
    (Nat.shiftLeft_add_eq_or_of_lt hlt b).symm
  have hlt' : b <<< 12 + (c <<< 6 + d) < 2 ^ 18 := by
    rw [Nat.shiftLeft_eq] at hlt ⊢
    omega
  rw [Nat.or_assoc, Nat.or_assoc, hlow, hmid, ← Nat.shiftLeft_add_eq_or_of_lt hlt',
    Nat.shiftLeft_eq, Nat.shiftLeft_eq, Nat.shiftLeft_eq]
  omega

theorem and_sixty_three (n : Nat) : n &&& 63 = n % 64 := Nat.and_two_pow_sub_one_eq_mod n 6

theorem and_full (n : Nat) : n &&& 255 = n % 256 := Nat.and_two_pow_sub_one_eq_mod n 8

theorem encodeGroup_eq (first : UInt8) (second third : Option UInt8) :
    let b := (second.map UInt8.toNat).getD 0
    let c := (third.map UInt8.toNat).getD 0
    encodeGroup first second third =
      [symbolAt (first.toNat / 4), symbolAt (first.toNat % 4 * 16 + b / 16)] ++
        (if second.isSome then [symbolAt (b % 16 * 4 + c / 64)] else []) ++
        (if third.isSome then [symbolAt (c % 64)] else []) := by
  intro b c
  have ha := first.toNat_lt
  have hbyte (x : Option UInt8) : (x.map UInt8.toNat).getD 0 < 256 := by
    cases x with
    | none => decide
    | some x => exact x.toNat_lt
  have hb : b < 256 := hbyte second
  have hc : c < 256 := hbyte third
  have hfirst : (first.toNat * 65536 + b * 256 + c) / 2 ^ 18 % 64 = first.toNat / 4 := by omega
  have hsecond : (first.toNat * 65536 + b * 256 + c) / 2 ^ 12 % 64 =
      first.toNat % 4 * 16 + b / 16 := by omega
  have hthird : (first.toNat * 65536 + b * 256 + c) / 2 ^ 6 % 64 = b % 16 * 4 + c / 64 := by omega
  have hfourth : (first.toNat * 65536 + b * 256 + c) % 64 = c % 64 := by omega
  have htriple : (first.toNat <<< 16) ||| (b <<< 8) ||| c = first.toNat * 65536 + b * 256 + c :=
    triple_eq hb hc
  simp only [encodeGroup, Nat.shiftRight_eq_div_pow, and_sixty_three]
  rw [htriple, hfirst, hsecond, hthird, hfourth]

theorem symbolAt_spec : ∀ m : Fin 64, symbolAt m = (Base64.urlChar (Base64.symbol m)).toNat ∧
    indexOf (symbolAt m) = some m.val ∧ isBase64UrlUnit (symbolAt m) = true := by
  decide +kernel

theorem symbolAt_eq {n : Nat} (h : n < 64) :
    symbolAt n = (Base64.urlChar (Base64.symbol n)).toNat := (symbolAt_spec ⟨n, h⟩).1

theorem units_urlSafe (bytes : Bytes) :
    Utf16.units (Base64.urlSafe bytes) = (Base64.urlSafe bytes).map Char.toNat := by
  refine Utf16.units_of_narrow fun c hc => ?_
  have hall : ∀ m : Fin 64, (Base64.urlChar (Base64.symbol m)).toNat < 0x10000 := by decide
  obtain ⟨n, hn, rfl⟩ := Base64.mem_urlSafe hc
  exact hall ⟨n, hn⟩

/-- The writer of the contracts and the package make the same text. -/
theorem base64UrlEncode_eq (bytes : Bytes) :
    base64UrlEncode bytes = Utf16.units (Base64.urlSafe bytes) := by
  rw [units_urlSafe]
  induction bytes using base64UrlEncode.induct with
  | case1 => rfl
  | case2 first =>
    have ha := first.toNat_lt
    rw [base64UrlEncode, encodeGroup_eq, Base64.urlSafe_one]
    simp only [Option.map_none, Option.getD_none, Option.isSome_none, Bool.false_eq_true, if_false,
      List.append_nil, List.map_cons, List.map_nil, Nat.zero_div, Nat.add_zero]
    rw [symbolAt_eq (by omega), symbolAt_eq (by omega)]
  | case3 first second =>
    have ha := first.toNat_lt
    have hb := second.toNat_lt
    rw [base64UrlEncode, encodeGroup_eq, Base64.urlSafe_two]
    simp only [Option.map_none, Option.map_some, Option.getD_none, Option.getD_some,
      Option.isSome_none, Option.isSome_some, Bool.false_eq_true, if_false, if_true,
      List.append_nil, List.map_cons, List.map_nil, Nat.zero_div, Nat.add_zero, List.cons_append,
      List.nil_append]
    rw [symbolAt_eq (by omega), symbolAt_eq (by omega), symbolAt_eq (by omega)]
  | case4 first second third rest ih =>
    have ha := first.toNat_lt
    have hb := second.toNat_lt
    have hc := third.toNat_lt
    rw [base64UrlEncode, encodeGroup_eq, Base64.urlSafe_three, ih]
    simp only [Option.map_some, Option.getD_some, Option.isSome_some, if_true, List.map_cons,
      List.cons_append, List.nil_append]
    rw [symbolAt_eq (by omega), symbolAt_eq (by omega), symbolAt_eq (by omega),
      symbolAt_eq (by omega)]

theorem indexOf_symbolAt {n : Nat} (h : n < 64) : indexOf (symbolAt n) = some n :=
  (symbolAt_spec ⟨n, h⟩).2.1

theorem isBase64UrlUnit_symbolAt {n : Nat} (h : n < 64) : isBase64UrlUnit (symbolAt n) = true :=
  (symbolAt_spec ⟨n, h⟩).2.2

theorem decodeChunk_two {a b : Nat} (ha : a < 64) (hb : b < 64) :
    decodeChunk [symbolAt a, symbolAt b] = some [UInt8.ofNat (a * 4 + b / 16)] := by
  have hquadruple := quadruple_eq (a := a) hb (c := 0) (d := 0) (by decide) (by decide)
  have hfirst : (a * 262144 + b * 4096 + 0 * 64 + 0) / 2 ^ 16 % 256 = a * 4 + b / 16 := by omega
  simp only [decodeChunk, List.getElem?_cons_zero, List.getElem?_cons_succ, List.length_cons,
    List.length_nil, Option.bind_eq_bind, Option.bind_some, indexOf_symbolAt ha, indexOf_symbolAt hb,
    show ¬ 2 < 0 + 1 + 1 by decide, show ¬ 3 < 0 + 1 + 1 by decide, if_false, Option.pure_def,
    hquadruple, Nat.shiftRight_eq_div_pow, and_full, hfirst, List.append_nil]

theorem decodeChunk_three {a b c : Nat} (ha : a < 64) (hb : b < 64) (hc : c < 64) :
    decodeChunk [symbolAt a, symbolAt b, symbolAt c] =
      some [UInt8.ofNat (a * 4 + b / 16), UInt8.ofNat (b % 16 * 16 + c / 4)] := by
  have hquadruple := quadruple_eq (a := a) hb hc (d := 0) (by decide)
  have hfirst : (a * 262144 + b * 4096 + c * 64 + 0) / 2 ^ 16 % 256 = a * 4 + b / 16 := by omega
  have hsecond : (a * 262144 + b * 4096 + c * 64 + 0) / 2 ^ 8 % 256 = b % 16 * 16 + c / 4 := by omega
  simp only [decodeChunk, List.getElem?_cons_zero, List.getElem?_cons_succ, List.length_cons,
    List.length_nil, Option.bind_eq_bind, Option.bind_some, indexOf_symbolAt ha, indexOf_symbolAt hb,
    indexOf_symbolAt hc, show 2 < 0 + 1 + 1 + 1 by decide, show ¬ 3 < 0 + 1 + 1 + 1 by decide,
    if_false, if_true, Option.pure_def, hquadruple, Nat.shiftRight_eq_div_pow, and_full, hfirst,
    hsecond, List.append_nil, List.cons_append, List.nil_append]

theorem decodeChunk_four {a b c d : Nat} (ha : a < 64) (hb : b < 64) (hc : c < 64) (hd : d < 64) :
    decodeChunk [symbolAt a, symbolAt b, symbolAt c, symbolAt d] =
      some [UInt8.ofNat (a * 4 + b / 16), UInt8.ofNat (b % 16 * 16 + c / 4),
        UInt8.ofNat (c % 4 * 64 + d)] := by
  have hquadruple := quadruple_eq (a := a) hb hc hd
  have hfirst : (a * 262144 + b * 4096 + c * 64 + d) / 2 ^ 16 % 256 = a * 4 + b / 16 := by omega
  have hsecond : (a * 262144 + b * 4096 + c * 64 + d) / 2 ^ 8 % 256 = b % 16 * 16 + c / 4 := by omega
  have hthird : (a * 262144 + b * 4096 + c * 64 + d) % 256 = c % 4 * 64 + d := by omega
  simp only [decodeChunk, List.getElem?_cons_zero, List.getElem?_cons_succ, List.length_cons,
    List.length_nil, Option.bind_eq_bind, Option.bind_some, indexOf_symbolAt ha, indexOf_symbolAt hb,
    indexOf_symbolAt hc, indexOf_symbolAt hd, show 2 < 0 + 1 + 1 + 1 + 1 by decide,
    show 3 < 0 + 1 + 1 + 1 + 1 by decide, if_true, Option.pure_def, hquadruple,
    Nat.shiftRight_eq_div_pow, and_full, hfirst, hsecond, hthird, List.cons_append, List.nil_append]

theorem ofNat_toNat_of_eq {b : UInt8} {n : Nat} (h : n = b.toNat) : UInt8.ofNat n = b :=
  Base64.eq_ofNat h

theorem encode_one (first : UInt8) :
    base64UrlEncode [first] = [symbolAt (first.toNat / 4), symbolAt (first.toNat % 4 * 16)] := by
  rw [base64UrlEncode, encodeGroup_eq]
  rfl

theorem encode_two (first second : UInt8) :
    base64UrlEncode [first, second] = [symbolAt (first.toNat / 4),
      symbolAt (first.toNat % 4 * 16 + second.toNat / 16), symbolAt (second.toNat % 16 * 4)] := by
  rw [base64UrlEncode, encodeGroup_eq]
  rfl

theorem encode_three (first second third : UInt8) (rest : Bytes) :
    base64UrlEncode (first :: second :: third :: rest) =
      symbolAt (first.toNat / 4) :: symbolAt (first.toNat % 4 * 16 + second.toNat / 16) ::
        symbolAt (second.toNat % 16 * 4 + third.toNat / 64) :: symbolAt (third.toNat % 64) ::
        base64UrlEncode rest := by
  rw [base64UrlEncode, encodeGroup_eq]
  rfl

theorem decodeChunks_encode (bytes : Bytes) : decodeChunks (base64UrlEncode bytes) = some bytes := by
  induction bytes using base64UrlEncode.induct with
  | case1 => rfl
  | case2 first =>
    have ha := first.toNat_lt
    rw [encode_one, decodeChunks, decodeChunk_two (by omega) (by omega),
      ofNat_toNat_of_eq (b := first) (by omega)]
    all_goals simp
  | case3 first second =>
    have ha := first.toNat_lt
    have hb := second.toNat_lt
    rw [encode_two, decodeChunks, decodeChunk_three (by omega) (by omega) (by omega),
      ofNat_toNat_of_eq (b := first) (by omega), ofNat_toNat_of_eq (b := second) (by omega)]
    all_goals simp
  | case4 first second third rest ih =>
    have ha := first.toNat_lt
    have hb := second.toNat_lt
    have hc := third.toNat_lt
    rw [encode_three, decodeChunks, decodeChunk_four (by omega) (by omega) (by omega) (by omega),
      ofNat_toNat_of_eq (b := first) (by omega), ofNat_toNat_of_eq (b := second) (by omega),
      ofNat_toNat_of_eq (b := third) (by omega), ih]
    rfl

theorem length_encode_mod (bytes : Bytes) : (base64UrlEncode bytes).length % 4 ≠ 1 := by
  induction bytes using base64UrlEncode.induct with
  | case1 => decide
  | case2 first => rw [encode_one]; simp
  | case3 first second => rw [encode_two]; simp
  | case4 first second third rest ih =>
    rw [encode_three]
    simp only [List.length_cons]
    omega

theorem mem_encode {bytes : Bytes} {unit : Nat} (h : unit ∈ base64UrlEncode bytes) :
    isBase64UrlUnit unit = true := by
  induction bytes using base64UrlEncode.induct with
  | case1 => cases h
  | case2 first =>
    have ha := first.toNat_lt
    rw [encode_one] at h
    simp only [List.mem_cons, List.not_mem_nil, or_false] at h
    rcases h with rfl | rfl <;> exact isBase64UrlUnit_symbolAt (by omega)
  | case3 first second =>
    have ha := first.toNat_lt
    have hb := second.toNat_lt
    rw [encode_two] at h
    simp only [List.mem_cons, List.not_mem_nil, or_false] at h
    rcases h with rfl | rfl | rfl <;> exact isBase64UrlUnit_symbolAt (by omega)
  | case4 first second third rest ih =>
    have ha := first.toNat_lt
    have hb := second.toNat_lt
    have hc := third.toNat_lt
    rw [encode_three] at h
    simp only [List.mem_cons] at h
    rcases h with rfl | rfl | rfl | rfl | h
    · exact isBase64UrlUnit_symbolAt (by omega)
    · exact isBase64UrlUnit_symbolAt (by omega)
    · exact isBase64UrlUnit_symbolAt (by omega)
    · exact isBase64UrlUnit_symbolAt (by omega)
    · exact ih h

theorem encode_eq_nil_iff {bytes : Bytes} : base64UrlEncode bytes = [] ↔ bytes = [] := by
  refine ⟨fun h => ?_, ?_⟩
  · have hread := decodeChunks_encode bytes
    rw [h] at hread
    exact (Option.some.inj hread).symm
  · rintro rfl
    rfl

theorem isBase64Url_encode {bytes : Bytes} (h : bytes ≠ []) :
    isBase64Url (base64UrlEncode bytes) = true := by
  rw [isBase64Url, Bool.and_eq_true, decide_eq_true_eq, List.all_eq_true]
  exact ⟨fun hnil => h (encode_eq_nil_iff.mp hnil), fun unit => mem_encode⟩

/-- The reader takes the texts the writer makes of some bytes, and no others. -/
theorem base64UrlDecode_eq_ok {value : List Nat} {bytes : Bytes} :
    base64UrlDecode value = .ok bytes ↔ bytes ≠ [] ∧ value = base64UrlEncode bytes := by
  constructor
  · intro h
    unfold base64UrlDecode at h
    split at h
    · cases h
    · rename_i hform
      split at h
      · cases h
      · split at h
        · cases h
        · rename_i hsame
          cases h
          rw [not_not] at hsame
          refine ⟨?_, hsame.symm⟩
          rintro rfl
          refine hform (.inr (.inl ?_))
          rw [← hsame]
          rfl
  · rintro ⟨hbytes, rfl⟩
    have hform := isBase64Url_encode hbytes
    have hlength : (base64UrlEncode bytes).length ≠ 0 := fun h =>
      hbytes (encode_eq_nil_iff.mp (List.length_eq_zero_iff.mp h))
    rw [base64UrlDecode, if_neg (by simp [hform, hlength, length_encode_mod]),
      decodeChunks_encode]
    exact if_neg (not_not.mpr rfl)

theorem base64UrlDecode_encode {bytes : Bytes} (h : bytes ≠ []) :
    base64UrlDecode (base64UrlEncode bytes) = .ok bytes :=
  base64UrlDecode_eq_ok.mpr ⟨h, rfl⟩

end AioLM.Recovery
