import EntitlementAuthority.Bytes.Basic

/-!
# Strings in TOML

A string stands in double quotes, where a backslash begins an escape, or in single quotes, where
everything stands for itself. Three quotes instead of one allow for several lines.

All readers begin behind the opening quotes and give the text and what follows the closing ones.
-/

namespace EntitlementAuthority.Toml

/-- Whether a character may stand in a string or a comment: no control character but the tab. -/
def isPrintable (c : Char) : Bool :=
  c == '\t' || (0x20 ≤ c.toNat && c.toNat != 0x7F)

/-- Blanks within a line. -/
def isBlank (c : Char) : Bool :=
  c == ' ' || c == '\t'

/-- The character with a code point in hexadecimal digits. -/
def codePoint? (digits : List Char) : Option Char := do
  let values ← digits.mapM Bytes.hexValue?
  let n := values.foldl (fun n d => n * 16 + d) 0
  if n < 0xD800 ∨ (0xDFFF < n ∧ n < 0x110000) then some (Char.ofNat n) else none

/-- The character that an escape of one letter stands for. -/
def shortEscape? (c : Char) : Option Char :=
  [('b', '\x08'), ('t', '\t'), ('n', '\n'), ('f', '\x0C'), ('r', '\r'), ('"', '"'),
    ('\\', '\\')].lookup c

/-- Text and what follows it. -/
abbrev TextAndRest := List Char × List Char

/-- Text with a character in front. -/
def TextAndRest.push (c : Char) (t : TextAndRest) : TextAndRest :=
  (c :: t.1, t.2)

/-- Text on one line in double quotes. -/
def basicText? : List Char → Option TextAndRest
  | [] => none
  | '"' :: rest => some ([], rest)
  | '\\' :: 'u' :: a :: b :: c :: d :: rest => do
    (← basicText? rest).push (← codePoint? [a, b, c, d])
  | '\\' :: 'U' :: a :: b :: c :: d :: e :: f :: g :: h :: rest => do
    (← basicText? rest).push (← codePoint? [a, b, c, d, e, f, g, h])
  | '\\' :: c :: rest => do
    (← basicText? rest).push (← shortEscape? c)
  | c :: rest => if isPrintable c && c != '\\' then (basicText? rest).map (.push c) else none

/-- Text on one line in single quotes. -/
def literalText? : List Char → Option TextAndRest
  | [] => none
  | '\'' :: rest => some ([], rest)
  | c :: rest => if isPrintable c then (literalText? rest).map (.push c) else none

/-- Where a reader of several lines stands behind a backslash. -/
inductive LineJoin where
  /-- Not behind one. -/
  | none
  /-- Behind one with nothing but blanks since; the line has to end. -/
  | ending
  /-- Behind the end of that line; blanks and further ends are skipped. -/
  | skipping
deriving DecidableEq, Repr

/-- Text on several lines in double quotes. One or two quotes stand for themselves, also in front
of the closing ones. -/
def multilineText? : LineJoin → List Char → Option TextAndRest
  | _, [] => none
  | .ending, '\r' :: '\n' :: rest => multilineText? .skipping rest
  | .ending, c :: rest =>
    if isBlank c then multilineText? .ending rest
    else if c = '\n' then multilineText? .skipping rest
    else none
  | .skipping, '\r' :: '\n' :: rest => multilineText? .skipping rest
  | _, '"' :: '"' :: '"' :: '"' :: '"' :: rest => some (['"', '"'], rest)
  | _, '"' :: '"' :: '"' :: '"' :: rest => some (['"'], rest)
  | _, '"' :: '"' :: '"' :: rest => some ([], rest)
  | _, '\\' :: 'u' :: a :: b :: c :: d :: rest => do
    (← multilineText? .none rest).push (← codePoint? [a, b, c, d])
  | _, '\\' :: 'U' :: a :: b :: c :: d :: e :: f :: g :: h :: rest => do
    (← multilineText? .none rest).push (← codePoint? [a, b, c, d, e, f, g, h])
  | _, '\\' :: '\r' :: '\n' :: rest => multilineText? .skipping rest
  | _, '\\' :: c :: rest =>
    if isBlank c then multilineText? .ending rest
    else if c = '\n' then multilineText? .skipping rest
    else do (← multilineText? .none rest).push (← shortEscape? c)
  | _, '\r' :: '\n' :: rest => (multilineText? .none rest).map (.push '\n')
  | join, c :: rest =>
    if join = .skipping ∧ (isBlank c ∨ c = '\n') then multilineText? .skipping rest
    else if c = '\n' ∨ (isPrintable c ∧ c ≠ '\\') then (multilineText? .none rest).map (.push c)
    else none

/-- Text on several lines in single quotes. -/
def multilineLiteral? : List Char → Option TextAndRest
  | [] => none
  | '\'' :: '\'' :: '\'' :: '\'' :: '\'' :: rest => some (['\'', '\''], rest)
  | '\'' :: '\'' :: '\'' :: '\'' :: rest => some (['\''], rest)
  | '\'' :: '\'' :: '\'' :: rest => some ([], rest)
  | '\r' :: '\n' :: rest => (multilineLiteral? rest).map (.push '\n')
  | c :: rest =>
    if c = '\n' ∨ isPrintable c then (multilineLiteral? rest).map (.push c) else none

/-- What follows the end of a line right behind opening quotes, which does not count. -/
def skipFirstLine : List Char → List Char
  | '\n' :: rest => rest
  | '\r' :: '\n' :: rest => rest
  | rest => rest

/-- Reads a string from its opening quotes on. -/
def string? : List Char → Option (String × List Char)
  | '"' :: '"' :: '"' :: rest =>
    (multilineText? .none (skipFirstLine rest)).map fun t => (String.ofList t.1, t.2)
  | '\'' :: '\'' :: '\'' :: rest =>
    (multilineLiteral? (skipFirstLine rest)).map fun t => (String.ofList t.1, t.2)
  | '"' :: rest => (basicText? rest).map fun t => (String.ofList t.1, t.2)
  | '\'' :: rest => (literalText? rest).map fun t => (String.ofList t.1, t.2)
  | _ => none

end EntitlementAuthority.Toml
