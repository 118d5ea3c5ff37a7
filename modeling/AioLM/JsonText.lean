import AioLM.JsonFields
import AioLM.TextBytes

/-!
The compact text of a value stands on one line, and its length adds up from the
lengths of its parts.
-/

set_option autoImplicit false

namespace AioLM.Json

theorem newline_escapeChar (c : Char) : '\n' ∉ escapeChar c := by
  have hdigit : ∀ n : Nat, n < 32 → '\n' ≠ hexDigit (n / 16) ∧ '\n' ≠ hexDigit (n % 16) := by
    decide
  unfold escapeChar
  split_ifs with hquote hslash h8 h12 hnewline hreturn htab hcontrol
  · decide
  · decide
  · decide
  · decide
  · decide
  · decide
  · decide
  · have hboth := hdigit c.toNat (by omega)
    simp only [List.mem_cons, hboth.1, hboth.2, List.not_mem_nil, or_false]
    decide
  · simpa using fun h => hnewline h.symm

theorem newline_quote (t : Text) : '\n' ∉ quote t := by
  have hinner : '\n' ∉ t.flatMap escapeChar := by
    simpa using fun c _ => newline_escapeChar c
  simp only [quote, List.cons_append, List.mem_cons, List.mem_append, hinner, List.not_mem_nil,
    or_false, false_or]
  decide

theorem newline_intText (n : Int) : '\n' ∉ intText n := by
  have hdigits : '\n' ∉ Nat.toDigits 10 n.natAbs := by
    intro hmem
    exact absurd (Nat.isDigit_of_mem_toDigits (by decide) (by decide) hmem) (by decide)
  unfold intText
  split
  · rw [List.mem_cons, not_or]
    exact ⟨by decide, hdigits⟩
  · exact hdigits

section OneLine

variable {floatText : Float → Text}

mutual

theorem newline_compact (hfloat : ∀ x, '\n' ∉ floatText x) (v : Json) : '\n' ∉ compact floatText v := by
  cases v with
  | null =>
    rw [compact_null]
    decide
  | bool b =>
    cases b with
    | false =>
      rw [compact_false]
      decide
    | true =>
      rw [compact_true]
      decide
  | number n =>
    cases n with
    | int n => exact newline_intText n
    | float x => exact hfloat x
  | string t => exact newline_quote t
  | array items =>
    have hitems := newline_compactItems hfloat items
    simp only [compact_array, List.cons_append, List.mem_cons, List.mem_append, hitems,
      List.not_mem_nil, or_false]
    decide
  | object fields =>
    have hfields := newline_compactFields hfloat fields
    simp only [compact_object, List.cons_append, List.mem_cons, List.mem_append, hfields,
      List.not_mem_nil, or_false]
    decide

theorem newline_compactItems (hfloat : ∀ x, '\n' ∉ floatText x) (items : List Json) :
    '\n' ∉ compactItems floatText items := by
  match items with
  | [] => exact List.not_mem_nil
  | [v] => exact newline_compact hfloat v
  | v :: w :: rest =>
    have hv := newline_compact hfloat v
    have hrest := newline_compactItems hfloat (w :: rest)
    simp only [compactItems, List.mem_append, List.mem_cons, hv, hrest, or_false, false_or]
    decide

theorem newline_compactFields (hfloat : ∀ x, '\n' ∉ floatText x) (fields : List (Text × Json)) :
    '\n' ∉ compactFields floatText fields := by
  match fields with
  | [] => exact List.not_mem_nil
  | [(k, v)] =>
    have hk := newline_quote k
    have hv := newline_compact hfloat v
    simp only [compactFields, List.mem_append, List.mem_cons, hk, hv, or_false, false_or]
    decide
  | (k, v) :: w :: rest =>
    have hk := newline_quote k
    have hv := newline_compact hfloat v
    have hrest := newline_compactFields hfloat (w :: rest)
    simp only [compactFields, List.mem_append, List.mem_cons, hk, hv, hrest, or_false, false_or]
    decide

end

end OneLine

section Lengths

variable {floatText : Float → Text} {fields : List (Text × Json)} {key : String} {old new : Json}

/-- The bytes of the compact form. -/
def size (floatText : Float → Text) (v : Json) : Nat := (compact floatText v).utf8Len

theorem length_encode_compact (v : Json) :
    (TextBytes.encode (compact floatText v)).length = size floatText v :=
  TextBytes.length_encode _

theorem compactFields_cons (e : Text × Json) (fields : List (Text × Json)) :
    compactFields floatText (e :: fields) = quote e.1 ++ ':' :: compact floatText e.2 ++
      if fields = [] then [] else ',' :: compactFields floatText fields := by
  cases fields with
  | nil => simp [compactFields]
  | cons e' fields => simp [compactFields]

theorem size_object (fields : List (Text × Json)) :
    size floatText (.object fields) = (compactFields floatText fields).utf8Len + 2 := by
  have hopen : Char.utf8Size '{' = 1 := by decide
  have hclose : Char.utf8Size '}' = 1 := by decide
  simp only [size, compact, List.cons_append, Text.utf8Len_cons, Text.utf8Len_append,
    Text.utf8Len_nil, hopen, hclose]
  omega

variable (floatText key new) in
theorem size_insertField (hsorted : Sorted fields) (h : lookup key.toList fields = some old) :
    size floatText (.object (insertField key new fields)) + size floatText old =
      size floatText (.object fields) + size floatText new := by
  rw [size_object, size_object]
  induction fields with
  | nil => cases h
  | cons e fields ih =>
    obtain ⟨k, v⟩ := e
    obtain ⟨hbefore, hrest⟩ := List.pairwise_cons.mp hsorted
    rw [lookup] at h
    by_cases hk : k = key.toList
    · rw [if_pos hk] at h
      cases h
      have hsame : insertField key new ((k, old) :: fields) = (k, new) :: fields := by
        simp only [insertField, KeyMap.alterEntries, hk, lt_self_iff_false, if_false]
      simp only [hsame, compactFields_cons, Text.utf8Len_append, Text.utf8Len_cons, size]
      omega
    · rw [if_neg hk] at h
      have hlt : k < key.toList := hbefore _ (mem_of_lookup h)
      have hnext : insertField key new ((k, v) :: fields) = (k, v) :: insertField key new fields := by
        simp only [insertField, KeyMap.alterEntries, if_neg (lt_asymm hlt), if_pos hlt]
      have hne : fields ≠ [] := by
        rintro rfl
        cases h
      have hne' : insertField key new fields ≠ [] := by
        intro hnil
        have hfound : lookup key.toList (insertField key new fields) = some new := by
          rw [lookup_insertField hrest, if_pos rfl]
        rw [hnil] at hfound
        cases hfound
      have hinner := ih hrest h
      simp only [hnext, compactFields_cons, if_neg hne, if_neg hne', Text.utf8Len_append,
        Text.utf8Len_cons] at hinner ⊢
      omega

theorem size_string_replicate {c : Char} (h : escapeChar c = [c]) (hsize : c.utf8Size = 1) (n : Nat) :
    size floatText (.string (List.replicate n c)) = n + 2 := by
  have hquote : Char.utf8Size '"' = 1 := by decide
  have hinner : (List.replicate n c).flatMap escapeChar = List.replicate n c := by
    induction n with
    | zero => rfl
    | succ n ih => rw [List.replicate_succ, List.flatMap_cons, ih, h, List.singleton_append]
  simp only [size, compact, quote, hinner, List.cons_append, Text.utf8Len_cons,
    Text.utf8Len_append, Text.utf8Len_nil, hquote]
  rw [Text.utf8Len, List.map_replicate, hsize, List.sum_replicate_nat]
  omega

end Lengths

end AioLM.Json

namespace AioLM.TextBytes

theorem ascii_byte {c : Char} {b : UInt8} (hb : b ∈ String.utf8EncodeChar c) (h : b.toNat < 0x80) :
    b.toNat = c.toNat := by
  have hhigh (n : Nat) (hn : 0x80 ≤ n) (hn' : n < 0x100) : b ≠ UInt8.ofNat n := by
    rintro rfl
    rw [UInt8.toNat_ofNat_of_lt' hn'] at h
    omega
  unfold String.utf8EncodeChar at hb
  dsimp only at hb
  split_ifs at hb with hascii htwo hthree
  · rw [List.mem_singleton] at hb
    rw [hb, UInt8.toNat_ofNat_of_lt' (show c.val.toNat < 256 by omega)]
    rfl
  all_goals
    simp only [List.mem_cons, List.not_mem_nil, or_false] at hb
  · rcases hb with hb | hb
    all_goals exact absurd hb (hhigh _ (by omega) (by omega))
  · rcases hb with hb | hb | hb
    all_goals exact absurd hb (hhigh _ (by omega) (by omega))
  · rcases hb with hb | hb | hb | hb
    all_goals exact absurd hb (hhigh _ (by omega) (by omega))

theorem newline_encode {t : Text} (h : '\n' ∉ t) : (10 : UInt8) ∉ encode t := by
  intro hmem
  obtain ⟨c, hc, hbyte⟩ := List.mem_flatMap.mp hmem
  have hnat := ascii_byte hbyte (by decide)
  have hchar : c = '\n' := Char.ext (UInt32.toNat_inj.mp hnat.symm)
  exact h (hchar ▸ hc)

end AioLM.TextBytes
