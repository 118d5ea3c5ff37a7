import Mathlib.Data.Char
import AioLM.Json
import AioLM.TextBytes

/-!
The published identities of repository files: the SHA-256 of a file, or the id it
has as a Git blob.
-/

set_option autoImplicit false

namespace AioLM.Discover

structure SnapshotFile where
  path : Text
  size : Nat
  oid : Option Text
  deriving DecidableEq

structure Hashes where
  sha256 : Bytes → Bytes
  sha1 : Bytes → Bytes

inductive Algorithm where
  | sha256 | gitBlob
  deriving DecidableEq

def isHexDigit (c : Char) : Bool :=
  c.isDigit || ('a' ≤ c && c ≤ 'f') || ('A' ≤ c && c ≤ 'F')

/-- The algorithm of an object id, and its hexadecimal digits. -/
def identity (oid : Text) : Option (Algorithm × Text) :=
  let (named, hex) := match Text.splitOnce ':' oid with
    | some (name, hex) => (some name, hex)
    | none => (none, oid)
  let algorithm :=
    if hex.utf8Len = 64 ∧ named.all (Text.eqIgnoreAsciiCase · "sha256".toList) then
      some Algorithm.sha256
    else if hex.utf8Len = 40 ∧ named.all (Text.eqIgnoreAsciiCase · "sha1".toList) then
      some Algorithm.gitBlob
    else none
  if hex.all isHexDigit then algorithm.map (·, hex) else none

def validOid (oid : Option Text) : Bool := (oid.bind identity).isSome

def identitiesEqual (a b : Option Text) : Bool :=
  match a.bind identity, b.bind identity with
  | some (leftAlgorithm, left), some (rightAlgorithm, right) =>
    leftAlgorithm == rightAlgorithm && Text.eqIgnoreAsciiCase left right
  | _, _ => false

def hexText (bytes : Bytes) : Text :=
  bytes.flatMap fun byte => [Json.hexDigit (byte.toNat / 16), Json.hexDigit (byte.toNat % 16)]

def matchesHex : Bytes → Text → Bool
  | [], [] => true
  | byte :: actual, high :: low :: expected =>
    Json.hexDigit (byte.toNat / 16) == high.toLower &&
      Json.hexDigit (byte.toNat % 16) == low.toLower && matchesHex actual expected
  | _, _ => false

def Algorithm.digest (hashes : Hashes) (size : Nat) (content : Bytes) : Algorithm → Bytes
  | .sha256 => hashes.sha256 content
  | .gitBlob => hashes.sha1
      (TextBytes.ascii "blob " ++ TextBytes.encode (Nat.toDigits 10 size) ++ [0] ++ content)

def digestMatches (hashes : Hashes) (oid : Text) (size : Nat) (content : Bytes) : Bool :=
  (identity oid).any fun (algorithm, hex) => matchesHex (algorithm.digest hashes size content) hex

/-- The content is what was declared: its size and, where published, its digest. -/
def SnapshotFile.accepts (hashes : Hashes) (file : SnapshotFile) (content : Bytes) : Bool :=
  content.length == file.size &&
    file.oid.all fun oid => digestMatches hashes oid file.size content

theorem toLower_hexDigit {n : Nat} (h : n < 16) : (Json.hexDigit n).toLower = Json.hexDigit n := by
  have hall : ∀ n ∈ List.range 16, (Json.hexDigit n).toLower = Json.hexDigit n := by decide
  exact hall n (List.mem_range.mpr h)

theorem eqIgnoreAsciiCase_hexText (actual : Bytes) (expected : Text) :
    Text.eqIgnoreAsciiCase (hexText actual) expected = matchesHex actual expected := by
  induction actual, expected using matchesHex.induct with
  | case1 => rfl
  | case2 byte actual high low expected ih =>
    have hhigh := toLower_hexDigit (n := byte.toNat / 16)
      (Nat.div_lt_of_lt_mul (by simpa using byte.toNat_lt))
    have hlow := toLower_hexDigit (n := byte.toNat % 16) (Nat.mod_lt _ (by omega))
    rw [matchesHex, ← ih]
    simp [Text.eqIgnoreAsciiCase, hexText, hhigh, hlow, Bool.and_assoc, Bool.beq_eq_decide_eq]
  | case3 actual expected h₁ h₂ =>
    cases actual with
    | nil =>
      cases expected with
      | nil => exact (h₁ rfl rfl).elim
      | cons c expected => rfl
    | cons byte actual =>
      cases expected with
      | nil => rfl
      | cons high expected =>
        cases expected with
        | nil => simp [matchesHex, Text.eqIgnoreAsciiCase, hexText]
        | cons low expected => exact (h₂ _ _ _ _ _ rfl rfl).elim

end AioLM.Discover
