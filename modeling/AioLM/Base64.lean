import Mathlib.Algebra.Order.Ring.Int

/-!
Base64 with the standard alphabet and padding: three bytes are four symbols, and
a last group of one or two bytes is padded. No two byte strings share a text, and
the texts are those of whole groups with nothing in the unused bits.
-/

set_option autoImplicit false

namespace AioLM.Base64

def pad : UInt8 := 61

def symbol (n : Nat) : UInt8 :=
  if n < 26 then UInt8.ofNat (n + 65)
  else if n < 52 then UInt8.ofNat (n + 71)
  else if n < 62 then UInt8.ofNat (n - 4)
  else if n = 62 then 43
  else 47

def value (byte : UInt8) : Option Nat :=
  let n := byte.toNat
  if 65 ≤ n ∧ n ≤ 90 then some (n - 65)
  else if 97 ≤ n ∧ n ≤ 122 then some (n - 97 + 26)
  else if 48 ≤ n ∧ n ≤ 57 then some (n - 48 + 52)
  else if n = 43 then some 62
  else if n = 47 then some 63
  else none

def encode : List UInt8 → List UInt8
  | [] => []
  | [a] => [symbol (a.toNat / 4), symbol (a.toNat % 4 * 16), pad, pad]
  | [a, b] =>
    [symbol (a.toNat / 4), symbol (a.toNat % 4 * 16 + b.toNat / 16), symbol (b.toNat % 16 * 4), pad]
  | a :: b :: c :: rest =>
    symbol (a.toNat / 4) :: symbol (a.toNat % 4 * 16 + b.toNat / 16) ::
      symbol (b.toNat % 16 * 4 + c.toNat / 64) :: symbol (c.toNat % 64) :: encode rest

theorem value_symbol {n : Nat} (h : n < 64) : value (symbol n) = some n := by
  have hall : ∀ m : Fin 64, value (symbol m) = some m.val := by decide
  exact hall ⟨n, h⟩

theorem value_pad : value pad = none := rfl

theorem value_ne_pad {byte : UInt8} (h : (value byte).isSome) : byte ≠ pad := by
  rintro rfl
  cases h

theorem symbol_ne_pad {n : Nat} (h : n < 64) : symbol n ≠ pad := value_ne_pad (by simp [value_symbol h])

theorem symbol_inj {m n : Nat} (hm : m < 64) (hn : n < 64) : symbol m = symbol n ↔ m = n := by
  refine ⟨fun h => ?_, congrArg symbol⟩
  have hvalue := congrArg value h
  rw [value_symbol hm, value_symbol hn] at hvalue
  exact Option.some.inj hvalue

theorem symbol_value {byte : UInt8} {n : Nat} (h : value byte = some n) :
    n < 64 ∧ symbol n = byte := by
  have hall : ∀ m : Fin 256, ∀ n ∈ value (UInt8.ofNat m), n < 64 ∧ symbol n = UInt8.ofNat m := by
    decide +kernel
  have hbyte := hall ⟨byte.toNat, byte.toNat_lt⟩ n
  simp only [UInt8.ofNat_toNat] at hbyte
  exact hbyte h

theorem exists_symbol {byte : UInt8} (h : (value byte).isSome) :
    ∃ n, n < 64 ∧ value byte = some n ∧ byte = symbol n := by
  obtain ⟨n, hn⟩ := Option.isSome_iff_exists.mp h
  obtain ⟨hlt, hsymbol⟩ := symbol_value hn
  exact ⟨n, hlt, hn, hsymbol.symm⟩

theorem eq_of_toNat {a b : UInt8} (h : a.toNat = b.toNat) : a = b := UInt8.toNat_inj.mp h

theorem encode_injective {bytes bytes' : List UInt8} (h : encode bytes = encode bytes') :
    bytes = bytes' := by
  induction bytes using encode.induct generalizing bytes' with
  | case1 =>
    match bytes' with
    | [] => rfl
    | [_] | [_, _] | _ :: _ :: _ :: _ => simp [encode] at h
  | case2 a =>
    have ha := a.toNat_lt
    match bytes' with
    | [] => simp [encode] at h
    | [a'] =>
      have ha' := a'.toNat_lt
      simp only [encode, List.cons.injEq] at h
      rw [symbol_inj (by omega) (by omega), symbol_inj (by omega) (by omega)] at h
      rw [eq_of_toNat (a := a) (b := a') (by omega)]
    | [a', b'] =>
      simp only [encode, List.cons.injEq] at h
      exact absurd h.2.2.1.symm (symbol_ne_pad (by omega))
    | a' :: b' :: c' :: rest' =>
      have hc' := c'.toNat_lt
      simp only [encode, List.cons.injEq] at h
      exact absurd h.2.2.1.symm (symbol_ne_pad (by omega))
  | case3 a b =>
    have ha := a.toNat_lt
    have hb := b.toNat_lt
    match bytes' with
    | [] => simp [encode] at h
    | [a'] =>
      simp only [encode, List.cons.injEq] at h
      exact absurd h.2.2.1 (symbol_ne_pad (by omega))
    | [a', b'] =>
      have ha' := a'.toNat_lt
      have hb' := b'.toNat_lt
      simp only [encode, List.cons.injEq] at h
      rw [symbol_inj (by omega) (by omega), symbol_inj (by omega) (by omega),
        symbol_inj (by omega) (by omega)] at h
      rw [eq_of_toNat (a := a) (b := a') (by omega), eq_of_toNat (a := b) (b := b') (by omega)]
    | a' :: b' :: c' :: rest' =>
      simp only [encode, List.cons.injEq] at h
      exact absurd h.2.2.2.1.symm (symbol_ne_pad (by omega))
  | case4 a b c rest ih =>
    have ha := a.toNat_lt
    have hb := b.toNat_lt
    have hc := c.toNat_lt
    match bytes' with
    | [] => simp [encode] at h
    | [a'] =>
      simp only [encode, List.cons.injEq] at h
      exact absurd h.2.2.1 (symbol_ne_pad (by omega))
    | [a', b'] =>
      simp only [encode, List.cons.injEq] at h
      exact absurd h.2.2.2.1 (symbol_ne_pad (by omega))
    | a' :: b' :: c' :: rest' =>
      have ha' := a'.toNat_lt
      have hb' := b'.toNat_lt
      have hc' := c'.toNat_lt
      simp only [encode, List.cons.injEq] at h
      obtain ⟨h₁, h₂, h₃, h₄, hrest⟩ := h
      rw [symbol_inj (by omega) (by omega)] at h₁ h₂ h₃ h₄
      rw [eq_of_toNat (a := a) (b := a') (by omega), eq_of_toNat (a := b) (b := b') (by omega),
        eq_of_toNat (a := c) (b := c') (by omega), ih hrest]

/-- A whole number of groups: symbols and at most two pads that fill the last group,
with no bits left over in the last symbol. -/
structure Groups (body : List UInt8) (pads : Nat) : Prop where
  symbols : ∀ byte ∈ body, (value byte).isSome
  pads_le : pads ≤ 2
  whole : 4 ∣ body.length + pads
  two : pads = 2 → ∀ byte ∈ body.getLast?, ∀ n ∈ value byte, n % 16 = 0
  one : pads = 1 → ∀ byte ∈ body.getLast?, ∀ n ∈ value byte, n % 4 = 0

theorem getLast?_group {a b c d : UInt8} {rest : List UInt8} (h : rest ≠ []) :
    (a :: b :: c :: d :: rest).getLast? = rest.getLast? := by
  obtain ⟨x, rest, rfl⟩ := List.exists_cons_of_ne_nil h
  simp [List.getLast?_cons_cons]

theorem Groups.tail {a b c d : UInt8} {rest : List UInt8} {pads : Nat}
    (h : Groups (a :: b :: c :: d :: rest) pads) : Groups rest pads := by
  have hle := h.pads_le
  have hwhole := h.whole
  simp only [List.length_cons] at hwhole
  have hlast {byte : UInt8} (hbyte : byte ∈ rest.getLast?) :
      byte ∈ (a :: b :: c :: d :: rest).getLast? := by
    rw [getLast?_group (by rintro rfl; simp at hbyte)]
    exact hbyte
  exact ⟨fun byte hbyte => h.symbols byte (by simp [hbyte]), hle, by omega,
    fun hpads byte hbyte => h.two hpads byte (hlast hbyte),
    fun hpads byte hbyte => h.one hpads byte (hlast hbyte)⟩

theorem Groups.cons {a b c d : UInt8} {rest : List UInt8} {pads : Nat} (h : Groups rest pads)
    (hsymbols : ∀ byte ∈ [a, b, c, d], (value byte).isSome) :
    Groups (a :: b :: c :: d :: rest) pads := by
  have hle := h.pads_le
  have hwhole := h.whole
  -- pads follow symbols of their own group
  have hrest (hpads : pads ≠ 0) : rest ≠ [] := by
    rintro rfl
    simp at hwhole
    omega
  refine ⟨fun byte hbyte => ?_, hle, ?_, fun hpads => ?_, fun hpads => ?_⟩
  · rcases List.mem_append.mp (show byte ∈ [a, b, c, d] ++ rest from hbyte) with hbyte | hbyte
    · exact hsymbols byte hbyte
    · exact h.symbols byte hbyte
  · simp only [List.length_cons]
    omega
  · rw [getLast?_group (hrest (by omega))]
    exact h.two hpads
  · rw [getLast?_group (hrest (by omega))]
    exact h.one hpads

theorem toNat_ofNat {n : Nat} (h : n < 256) : (UInt8.ofNat n).toNat = n := by
  rw [UInt8.toNat_ofNat', Nat.mod_eq_of_lt h]

theorem Groups.exists_bytes {body : List UInt8} {pads : Nat} (h : Groups body pads) :
    ∃ bytes, encode bytes = body ++ List.replicate pads pad ∧
      bytes.length + pads = (body.length + pads) / 4 * 3 := by
  have hle := h.pads_le
  have hwhole := h.whole
  match body with
  | [] =>
    obtain rfl : pads = 0 := by simp at hwhole; omega
    exact ⟨[], rfl, rfl⟩
  | [a] =>
    simp at hwhole
    omega
  | [a, b] =>
    obtain rfl : pads = 2 := by simp at hwhole; omega
    obtain ⟨x, hx, -, rfl⟩ := exists_symbol (h.symbols a (by simp))
    obtain ⟨y, hy, hvalue, rfl⟩ := exists_symbol (h.symbols b (by simp))
    have hbits : y % 16 = 0 := h.two rfl _ rfl y hvalue
    refine ⟨[UInt8.ofNat (x * 4 + y / 16)], ?_, by simp⟩
    have hfirst : (x * 4 + y / 16) / 4 = x := by omega
    have hsecond : (x * 4 + y / 16) % 4 * 16 = y := by omega
    rw [encode, toNat_ofNat (by omega), hfirst, hsecond]
    rfl
  | [a, b, c] =>
    obtain rfl : pads = 1 := by simp at hwhole; omega
    obtain ⟨x, hx, -, rfl⟩ := exists_symbol (h.symbols a (by simp))
    obtain ⟨y, hy, -, rfl⟩ := exists_symbol (h.symbols b (by simp))
    obtain ⟨z, hz, hvalue, rfl⟩ := exists_symbol (h.symbols c (by simp))
    have hbits : z % 4 = 0 := h.one rfl _ rfl z hvalue
    refine ⟨[UInt8.ofNat (x * 4 + y / 16), UInt8.ofNat (y % 16 * 16 + z / 4)], ?_, by simp⟩
    have hfirst : (x * 4 + y / 16) / 4 = x := by omega
    have hsecond : (x * 4 + y / 16) % 4 * 16 + (y % 16 * 16 + z / 4) / 16 = y := by omega
    have hthird : (y % 16 * 16 + z / 4) % 16 * 4 = z := by omega
    rw [encode, toNat_ofNat (by omega), toNat_ofNat (by omega), hfirst, hsecond, hthird]
    rfl
  | a :: b :: c :: d :: rest =>
    obtain ⟨bytes, hbytes, hlength⟩ := h.tail.exists_bytes
    obtain ⟨x, hx, -, rfl⟩ := exists_symbol (h.symbols a (by simp))
    obtain ⟨y, hy, -, rfl⟩ := exists_symbol (h.symbols b (by simp))
    obtain ⟨z, hz, -, rfl⟩ := exists_symbol (h.symbols c (by simp))
    obtain ⟨w, hw, -, rfl⟩ := exists_symbol (h.symbols d (by simp))
    refine ⟨UInt8.ofNat (x * 4 + y / 16) :: UInt8.ofNat (y % 16 * 16 + z / 4) ::
      UInt8.ofNat (z % 4 * 64 + w) :: bytes, ?_, ?_⟩
    · have hfirst : (x * 4 + y / 16) / 4 = x := by omega
      have hsecond : (x * 4 + y / 16) % 4 * 16 + (y % 16 * 16 + z / 4) / 16 = y := by omega
      have hthird : (y % 16 * 16 + z / 4) % 16 * 4 + (z % 4 * 64 + w) / 64 = z := by omega
      have hfourth : (z % 4 * 64 + w) % 64 = w := by omega
      rw [encode, toNat_ofNat (by omega), toNat_ofNat (by omega), toNat_ofNat (by omega),
        hfirst, hsecond, hthird, hfourth, hbytes]
      rfl
    · simp only [List.length_cons]
      omega

theorem groups_encode (bytes : List UInt8) :
    ∃ body pads, encode bytes = body ++ List.replicate pads pad ∧ Groups body pads := by
  induction bytes using encode.induct with
  | case1 => exact ⟨[], 0, rfl, by simp, by simp, by simp, by simp, by simp⟩
  | case2 a =>
    have ha := a.toNat_lt
    have hlast : value (symbol (a.toNat % 4 * 16)) = some (a.toNat % 4 * 16) :=
      value_symbol (by omega)
    refine ⟨[symbol (a.toNat / 4), symbol (a.toNat % 4 * 16)], 2, rfl, ?_, by simp, by simp, ?_,
      by simp⟩
    · simp [value_symbol (show a.toNat / 4 < 64 by omega), hlast]
    · simp [hlast]
  | case3 a b =>
    have ha := a.toNat_lt
    have hb := b.toNat_lt
    have hlast : value (symbol (b.toNat % 16 * 4)) = some (b.toNat % 16 * 4) :=
      value_symbol (by omega)
    refine ⟨[symbol (a.toNat / 4), symbol (a.toNat % 4 * 16 + b.toNat / 16),
      symbol (b.toNat % 16 * 4)], 1, rfl, ?_, by simp, by simp, by simp, ?_⟩
    · simp [value_symbol (show a.toNat / 4 < 64 by omega), hlast,
        value_symbol (show a.toNat % 4 * 16 + b.toNat / 16 < 64 by omega)]
    · simp only [forall_const, List.getLast?_cons_cons, List.getLast?_singleton, Option.mem_def,
        Option.some.injEq, forall_eq', hlast]
      omega
  | case4 a b c rest ih =>
    have ha := a.toNat_lt
    have hb := b.toNat_lt
    have hc := c.toNat_lt
    obtain ⟨body, pads, hbody, hgroups⟩ := ih
    refine ⟨symbol (a.toNat / 4) :: symbol (a.toNat % 4 * 16 + b.toNat / 16) ::
      symbol (b.toNat % 16 * 4 + c.toNat / 64) :: symbol (c.toNat % 64) :: body, pads, ?_, ?_⟩
    · rw [encode, hbody]
      rfl
    · refine hgroups.cons ?_
      simp [value_symbol (show a.toNat / 4 < 64 by omega),
        value_symbol (show a.toNat % 4 * 16 + b.toNat / 16 < 64 by omega),
        value_symbol (show b.toNat % 16 * 4 + c.toNat / 64 < 64 by omega),
        value_symbol (show c.toNat % 64 < 64 by omega)]

theorem length_of_encode {bytes body : List UInt8} {pads : Nat} (h : Groups body pads)
    (hbytes : encode bytes = body ++ List.replicate pads pad) :
    bytes.length = (body.length + pads) / 4 * 3 - pads := by
  obtain ⟨bytes', hbytes', hlength⟩ := h.exists_bytes
  obtain rfl := encode_injective (hbytes.trans hbytes'.symm)
  omega

def bytesOf : List Nat → List UInt8
  | a :: b :: c :: d :: rest =>
    UInt8.ofNat (a * 4 + b / 16) :: UInt8.ofNat (b % 16 * 16 + c / 4) ::
      UInt8.ofNat (c % 4 * 64 + d) :: bytesOf rest
  | [a, b, c] => [UInt8.ofNat (a * 4 + b / 16), UInt8.ofNat (b % 16 * 16 + c / 4)]
  | [a, b] => [UInt8.ofNat (a * 4 + b / 16)]
  | _ => []

/-- The bytes of a text that is written the one way they are written. -/
def decode (text : List UInt8) : Option (List UInt8) :=
  let bytes := bytesOf (text.filterMap value)
  if encode bytes = text then some bytes else none

theorem eq_ofNat {a : UInt8} {n : Nat} (h : n = a.toNat) : UInt8.ofNat n = a := by
  rw [h, UInt8.ofNat_toNat]

theorem bytesOf_encode (bytes : List UInt8) : bytesOf ((encode bytes).filterMap value) = bytes := by
  induction bytes using encode.induct with
  | case1 => rfl
  | case2 a =>
    have ha := a.toNat_lt
    simp only [encode, List.filterMap_cons, value_symbol (show a.toNat / 4 < 64 by omega),
      value_symbol (show a.toNat % 4 * 16 < 64 by omega), value_pad, List.filterMap_nil, bytesOf]
    rw [eq_ofNat (a := a) (by omega)]
  | case3 a b =>
    have ha := a.toNat_lt
    have hb := b.toNat_lt
    simp only [encode, List.filterMap_cons, value_symbol (show a.toNat / 4 < 64 by omega),
      value_symbol (show a.toNat % 4 * 16 + b.toNat / 16 < 64 by omega),
      value_symbol (show b.toNat % 16 * 4 < 64 by omega), value_pad, List.filterMap_nil, bytesOf]
    rw [eq_ofNat (a := a) (by omega), eq_ofNat (a := b) (by omega)]
  | case4 a b c rest ih =>
    have ha := a.toNat_lt
    have hb := b.toNat_lt
    have hc := c.toNat_lt
    simp only [encode, List.filterMap_cons, value_symbol (show a.toNat / 4 < 64 by omega),
      value_symbol (show a.toNat % 4 * 16 + b.toNat / 16 < 64 by omega),
      value_symbol (show b.toNat % 16 * 4 + c.toNat / 64 < 64 by omega),
      value_symbol (show c.toNat % 64 < 64 by omega), bytesOf, ih]
    rw [eq_ofNat (a := a) (by omega), eq_ofNat (a := b) (by omega), eq_ofNat (a := c) (by omega)]

theorem decode_eq_some {text bytes : List UInt8} : decode text = some bytes ↔ encode bytes = text := by
  unfold decode
  constructor
  · intro h
    dsimp only at h
    split at h
    · rename_i hsame
      cases h
      exact hsame
    · cases h
  · rintro rfl
    dsimp only
    rw [bytesOf_encode, if_pos rfl]

theorem decode_encode (bytes : List UInt8) : decode (encode bytes) = some bytes :=
  decode_eq_some.mpr rfl

theorem mem_of_decode {text bytes : List UInt8} (h : decode text = some bytes) {byte : UInt8}
    (hbyte : byte ∈ text) : (value byte).isSome ∨ byte = pad := by
  rw [decode_eq_some] at h
  subst h
  obtain ⟨body, pads, hbody, hgroups⟩ := groups_encode bytes
  rw [hbody] at hbyte
  rcases List.mem_append.mp hbyte with hbyte | hbyte
  · exact .inl (hgroups.symbols byte hbyte)
  · exact .inr (List.eq_of_mem_replicate hbyte)

/-- A symbol of the alphabet that is safe in addresses and names of files. -/
def urlChar (byte : UInt8) : Char :=
  if byte = 43 then '-' else if byte = 47 then '_' else Char.ofNat byte.toNat

/-- The text in that alphabet, without pads. -/
def urlSafe (bytes : List UInt8) : List Char := ((encode bytes).filter (· ≠ pad)).map urlChar

theorem urlSafe_nil : urlSafe [] = [] := rfl

theorem filter_symbol {n : Nat} (h : n < 64) (rest : List UInt8) :
    (symbol n :: rest).filter (· ≠ pad) = symbol n :: rest.filter (· ≠ pad) :=
  List.filter_cons_of_pos (by simpa using symbol_ne_pad h)

theorem filter_pad (rest : List UInt8) :
    (pad :: rest).filter (· ≠ pad) = rest.filter (· ≠ pad) :=
  List.filter_cons_of_neg (by simp)

theorem urlSafe_one (a : UInt8) :
    urlSafe [a] = [urlChar (symbol (a.toNat / 4)), urlChar (symbol (a.toNat % 4 * 16))] := by
  have ha := a.toNat_lt
  rw [urlSafe, encode, filter_symbol (by omega), filter_symbol (by omega), filter_pad, filter_pad]
  rfl

theorem urlSafe_two (a b : UInt8) :
    urlSafe [a, b] = [urlChar (symbol (a.toNat / 4)),
      urlChar (symbol (a.toNat % 4 * 16 + b.toNat / 16)), urlChar (symbol (b.toNat % 16 * 4))] := by
  have ha := a.toNat_lt
  have hb := b.toNat_lt
  rw [urlSafe, encode, filter_symbol (by omega), filter_symbol (by omega), filter_symbol (by omega),
    filter_pad]
  rfl

theorem urlSafe_three (a b c : UInt8) (rest : List UInt8) :
    urlSafe (a :: b :: c :: rest) = urlChar (symbol (a.toNat / 4)) ::
      urlChar (symbol (a.toNat % 4 * 16 + b.toNat / 16)) ::
      urlChar (symbol (b.toNat % 16 * 4 + c.toNat / 64)) :: urlChar (symbol (c.toNat % 64)) ::
      urlSafe rest := by
  have ha := a.toNat_lt
  have hb := b.toNat_lt
  have hc := c.toNat_lt
  rw [urlSafe, encode, filter_symbol (by omega), filter_symbol (by omega), filter_symbol (by omega),
    filter_symbol (by omega)]
  rfl

theorem mem_urlSafe {bytes : List UInt8} {c : Char} (h : c ∈ urlSafe bytes) :
    ∃ n, n < 64 ∧ c = urlChar (symbol n) := by
  obtain ⟨byte, hbyte, rfl⟩ := List.mem_map.mp h
  rw [List.mem_filter, decide_eq_true_eq] at hbyte
  obtain ⟨body, pads, hbody, hgroups⟩ := groups_encode bytes
  rw [hbody, List.mem_append] at hbyte
  obtain ⟨hbyte | hbyte, hpad⟩ := hbyte
  · obtain ⟨n, hn, -, rfl⟩ := exists_symbol (hgroups.symbols byte hbyte)
    exact ⟨n, hn, rfl⟩
  · exact absurd (List.eq_of_mem_replicate hbyte) hpad

end AioLM.Base64
