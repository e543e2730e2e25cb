import DocSync.Digest.Md5
import DocSync.Digest.Sha256
import DocSync.Text.Slice

/-! Digests by name, and the short fingerprint that tells one text from another. -/

namespace DocSync.Digest

/-- The digests a text can be given. -/
inductive Algorithm where
  | sha256
  | md5
  deriving DecidableEq, Repr

/-- The digest of a name, written in either case. -/
def Algorithm.ofName? (name : String) : Option Algorithm :=
  match name.toLower with
  | "sha256" => some .sha256
  | "md5" => some .md5
  | _ => none

/-- A text's digest in hexadecimal. -/
def Algorithm.digest : Algorithm → String → String
  | .sha256, text => Sha256.digest text
  | .md5, text => Md5.digest text

/-- The digits before a position, counted from the end when it is negative; all without one. -/
def truncated (digits : String) : Option Int → String
  | some stop => String.ofList (Text.sliceTo digits.toList stop)
  | none => digits

/-- Sixteen digits that stand for one version of a text. -/
def fingerprint (text : String) : String := truncated (Sha256.digest text) (some 16)

end DocSync.Digest
