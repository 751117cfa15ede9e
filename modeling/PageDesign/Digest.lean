/-
# PageDesign.Digest -- digests of text

A digest is the hash of the UTF-8 bytes of a text, shown in base 16.  Digests of several
fields are digests of the fields joined by NUL, so that fields without NUL keep their
boundaries.
-/
import PageDesign.Choice
import PageDesign.Digest.XxHash
import PageDesign.Digest.Sha256
import PageDesign.Text.Quoted

namespace PageDesign

/-- The hash functions on offer. -/
inductive Algorithm where
  | xxhash64
  | sha256
  deriving DecidableEq, Repr, Inhabited

instance : Choice Algorithm where
  all := [.xxhash64, .sha256]
  name
    | .xxhash64 => "xxhash64"
    | .sha256 => "sha256"

namespace Algorithm

/-- The refusal of a name by a digest. -/
def unknownMessage (s : String) : String := "Unknown algorithm: " ++ s

/-- The refusal of a name by a cache. -/
def invalidMessage (s : String) : String := Text.quoted s ++ " is not a valid Algorithm"

end Algorithm

namespace Digest

/-- The digest of a byte string. -/
def ofBytes (algorithm : Algorithm) (bytes : List UInt8) : String :=
  String.ofList <| match algorithm with
    | .xxhash64 => Text.hexDigits 16 (XxHash.hash bytes).toNat
    | .sha256 => (Sha256.hash bytes).flatMap fun w => Text.hexDigits 8 w.toNat

/-- The digest of a text. -/
def ofText (algorithm : Algorithm) (s : String) : String :=
  ofBytes algorithm s.toUTF8.toList

/-- The first `n` characters of a text; a negative count leaves off as many at the end, and
zero keeps everything. -/
def truncate (n : Int) (s : String) : String :=
  let cs := s.toList
  if n = 0 then s
  else if 0 < n then String.ofList (cs.take n.toNat)
  else String.ofList (cs.take (cs.length - n.natAbs))

/-- Fields joined by NUL. -/
def joinFields (fields : List String) : String := "\x00".intercalate fields

/-- The digest of several fields. -/
def ofFields (algorithm : Algorithm) (fields : List String) : String :=
  ofText algorithm (joinFields fields)

end Digest

end PageDesign
