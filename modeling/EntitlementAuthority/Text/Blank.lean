/-!
# Blank text

White space is the Unicode property White_Space, so the no-break space and the ideographic
space count and the zero-width space does not.

* `isWhiteSpace` — the property.
* `trim` — text without white space at either end.
* `isBlank` — text of white space only.
-/

namespace EntitlementAuthority.Text

/-- The Unicode property White_Space. -/
def isWhiteSpace (c : Char) : Bool :=
  let n := c.toNat
  (0x09 ≤ n && n ≤ 0x0D) || n == 0x20 || n == 0x85 || n == 0xA0 || n == 0x1680 ||
    (0x2000 ≤ n && n ≤ 0x200A) || n == 0x2028 || n == 0x2029 || n == 0x202F || n == 0x205F ||
    n == 0x3000

/-- The characters without white space in front. -/
def trimStart (cs : List Char) : List Char :=
  cs.dropWhile isWhiteSpace

/-- The characters without white space behind. -/
def trimEnd (cs : List Char) : List Char :=
  (cs.reverse.dropWhile isWhiteSpace).reverse

/-- Text without white space at either end. -/
def trim (s : String) : String :=
  String.ofList (trimEnd (trimStart s.toList))

/-- Whether text is empty or white space only. -/
def isBlank (s : String) : Bool :=
  s.toList.all isWhiteSpace

/-- Text, unless there is nothing but white space in it. -/
def nonBlank? (s : Option String) : Option String :=
  s.filter (!isBlank ·)

end EntitlementAuthority.Text
