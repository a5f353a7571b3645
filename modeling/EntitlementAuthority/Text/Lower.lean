import EntitlementAuthority.Text.CaseTable

/-!
# Lower case

Full Unicode lower-casing of text.

* `lowerChar` — the lower case of one character, one or two characters long.
* `isWordFinal` — the context in which a capital sigma becomes a final one.
* `lower` — the lower case of text.
-/

namespace EntitlementAuthority.Text

/-- The simple lower case of a code point, looked up in a list of runs. -/
def lowerIn (runs : List CaseRun) (n : Nat) : Nat :=
  match runs.find? fun r => r.first ≤ n && n ≤ r.last && (n - r.first) % r.stride == 0 with
  | some r => (n + r.shift).toNat
  | none => n

/-- The lower case of a character; a capital I with a dot above keeps its dot. -/
def lowerChar (c : Char) : List Char :=
  if c.toNat < 0x80 then [c.toLower]
  else if c.toNat = 0x130 then ['i', Char.ofNat 0x307]
  else [Char.ofNat (lowerIn lowerRuns c.toNat)]

/-- Whether the first character that is not skipped over in a word has a case. -/
def startsCased (cs : List Char) : Bool :=
  match cs.dropWhile fun c => caseIgnorableRanges.any (·.holds c) with
  | c :: _ => casedRanges.any (·.holds c)
  | [] => false

/-- Whether a position ends a word: a cased character before it and none after it. -/
def isWordFinal (before after : List Char) : Bool :=
  startsCased before && !startsCased after

/-- The lower case of `cs`, which stand behind the reversed characters `before`. -/
def lowerFrom (before : List Char) : List Char → List Char
  | [] => []
  | c :: cs =>
    let lowered :=
      if c.toNat = 0x3A3 then
        [Char.ofNat (if isWordFinal before cs then 0x3C2 else 0x3C3)]
      else lowerChar c
    lowered ++ lowerFrom (c :: before) cs

/-- The lower case of text. -/
def lower (s : String) : String :=
  String.ofList (lowerFrom [] s.toList)

end EntitlementAuthority.Text
