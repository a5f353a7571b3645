import EntitlementAuthority.Bytes.Base64
import EntitlementAuthority.Text.Fields

/-!
# PEM

Bytes in base64, on lines of 64 characters between two markers.

* `Pem.encode` — writes a certificate.
* `Pem.decode?` — the bytes of the first block in a text.
-/

namespace EntitlementAuthority.Pem

/-- How many characters stand on a line. -/
def lineLength : Nat := 64

/-- Characters in lines; the last line may be shorter. -/
def lines (cs : List Char) : List (List Char) :=
  if cs.isEmpty then []
  else cs.take lineLength :: lines (cs.drop lineLength)
termination_by cs.length
decreasing_by
  have : 0 < cs.length := List.length_pos_iff.2 fun h => ‹¬ cs.isEmpty = true› (by simp [h])
  simp only [List.length_drop, lineLength]
  omega

/-- The marker in front of a certificate. -/
def certificateBegin : String := "-----BEGIN CERTIFICATE-----"

/-- The marker behind a certificate. -/
def certificateEnd : String := "-----END CERTIFICATE-----"

/-- A certificate. -/
def encode (der : Bytes) : String :=
  certificateBegin ++ "\n"
    ++ String.ofList ((lines (Base64.encode der).toList).flatMap (· ++ ['\n']))
    ++ certificateEnd ++ "\n"

/-- Takes the lines in front of the marker behind a block. -/
def takeBlock? : List (List Char) → Option (List (List Char))
  | [] => none
  | line :: rest =>
    if "-----END ".toList.isPrefixOf line then some []
    else (takeBlock? rest).map (line :: ·)

/-- Whether a line is a whole marker in front of a block. -/
def isMarker (line : List Char) : Bool :=
  match Text.stripFront? "-----BEGIN ".toList line with
  | some rest => Text.containsText "-----" (String.ofList rest)
  | none => false

/-- The bytes of the first block in a text; what stands in front of it is skipped. -/
def decode? (s : String) : Option Bytes := do
  let lines := Text.splitOnChar '\n' s.toList
  match lines.dropWhile fun line => !("-----BEGIN ".toList.isPrefixOf line) with
  | [] => none
  | marker :: rest =>
    if isMarker marker then
      let block ← takeBlock? rest
      Base64.decodeJoined? (String.ofList (block.flatMap Text.trimEnd))
    else none

end EntitlementAuthority.Pem
