import AioLM.Text

/-!
Text as UTF-8 bytes: `str::as_bytes` and `str::from_utf8`.
-/

set_option autoImplicit false

namespace AioLM

abbrev Bytes := List UInt8

namespace TextBytes

/-- `str::as_bytes` -/
def encode (t : Text) : Bytes := t.flatMap String.utf8EncodeChar

/-- `str::from_utf8` -/
def decode (bytes : Bytes) : Option Text :=
  (ByteArray.utf8Decode? bytes.toByteArray).map Array.toList

def ascii (s : String) : Bytes := encode s.toList

def crlf : Bytes := ascii "\r\n"

/-- The end of a head. -/
def blankLine : Bytes := ascii "\r\n\r\n"

theorem decode_encode (t : Text) : decode (encode t) = some t := by
  have hbytes : (encode t).toByteArray = t.utf8Encode := rfl
  rw [decode, hbytes, List.utf8Decode?_utf8Encode]
  rfl

theorem length_encode (t : Text) : (encode t).length = t.utf8Len := by
  induction t with
  | nil => rfl
  | cons c t ih =>
    simp only [encode, List.flatMap_cons, List.length_append, String.length_utf8EncodeChar] at ih ⊢
    rw [ih, Text.utf8Len_cons]

theorem encode_append (a b : Text) : encode (a ++ b) = encode a ++ encode b :=
  List.flatMap_append

end TextBytes

end AioLM
