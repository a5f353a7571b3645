import EntitlementAuthority.Toml.Node
import EntitlementAuthority.Toml.Scalars
import EntitlementAuthority.Toml.Strings

/-!
# Reading TOML

* `value?` — a value: a string, a scalar, an array or an inline table.
* `statement?` — a line: a key with a value, or a header.
* `read?` — a document.
-/

namespace EntitlementAuthority.Toml

/-! ### Blanks and ends of lines -/

/-- What follows the blanks in front. -/
def skipBlanks (cs : List Char) : List Char :=
  cs.dropWhile isBlank

/-- What follows the end of a line; the end of the document is one. -/
def lineEnd? : List Char → Option (List Char)
  | [] => some []
  | '\n' :: rest => some rest
  | '\r' :: '\n' :: rest => some rest
  | _ => none

/-- What follows a line on which only blanks and a comment are left. -/
def restOfLine? (cs : List Char) : Option (List Char) :=
  match skipBlanks cs with
  | '#' :: rest => lineEnd? (rest.dropWhile isPrintable)
  | rest => lineEnd? rest

/-- What follows blanks, ends of lines and comments. -/
def skipLines? (inComment : Bool) : List Char → Option (List Char)
  | [] => some []
  | '\n' :: rest => skipLines? false rest
  | '\r' :: '\n' :: rest => skipLines? false rest
  | c :: rest =>
    if inComment then if isPrintable c then skipLines? true rest else none
    else if isBlank c then skipLines? false rest
    else if c = '#' then skipLines? true rest
    else some (c :: rest)

/-! ### Keys -/

/-- Whether a character may stand in a key without quotes. -/
def isKeyChar (c : Char) : Bool :=
  c.isAlphanum || c == '_' || c == '-'

/-- Reads a part of a key. -/
def keyPart? (cs : List Char) : Option (String × List Char) :=
  match cs with
  | '"' :: rest => (basicText? rest).map fun t => (String.ofList t.1, t.2)
  | '\'' :: rest => (literalText? rest).map fun t => (String.ofList t.1, t.2)
  | _ =>
    let part := cs.takeWhile isKeyChar
    if part.isEmpty then none else some (String.ofList part, cs.dropWhile isKeyChar)

/-- Reads a dotted key of at most `fuel` parts, and the blanks around it. -/
def keyParts? : (fuel : Nat) → List Char → Option (List String × List Char)
  | 0, _ => none
  | fuel + 1, cs => do
    let (part, rest) ← keyPart? (skipBlanks cs)
    match skipBlanks rest with
    | '.' :: rest => do
      let (parts, rest) ← keyParts? fuel rest
      some (part :: parts, rest)
    | rest => some ([part], rest)

/-- How deep arrays, tables and keys may be nested, less one. -/
def nestingLimit : Nat := 79

/-- Reads a dotted key. -/
def key? : List Char → Option (List String × List Char) :=
  keyParts? nestingLimit

/-! ### Values -/

mutual

/-- Reads a value. Every call has read a character, so the length of the text is fuel enough;
`depth` says how much deeper values may be nested. -/
def value? : (fuel depth : Nat) → List Char → Option (Setting × List Char)
  | 0, _, _ => none
  | _, _, [] => none
  | fuel + 1, depth, c :: rest =>
    if c = '"' ∨ c = '\'' then (string? (c :: rest)).map fun t => (.text t.1, t.2)
    else if c = '[' then
      match depth with
      | 0 => none
      | depth + 1 => (items? fuel depth rest).map fun t => (.list t.1, t.2)
    else if c = '\x7b' then
      match depth with
      | 0 => none
      | depth + 1 =>
        match skipBlanks rest with
        | '\x7d' :: rest => some (.table [], rest)
        | rest => (members? fuel depth [] rest).map fun t => (.table (Node.settings t.1), t.2)
    else scalar? (c :: rest)

/-- Reads the items of an array and its closing bracket. -/
def items? : (fuel depth : Nat) → List Char → Option (List Setting × List Char)
  | 0, _, _ => none
  | fuel + 1, depth, cs => do
    match ← skipLines? false cs with
    | ']' :: rest => some ([], rest)
    | cs =>
      let (v, rest) ← value? fuel depth cs
      match ← skipLines? false rest with
      | ',' :: rest => (items? fuel depth rest).map fun t => (v :: t.1, t.2)
      | ']' :: rest => some ([v], rest)
      | _ => none

/-- Reads the members of an inline table, of which there is at least one, and its closing
brace. -/
def members? : (fuel depth : Nat) → Node.Entries → List Char → Option (Node.Entries × List Char)
  | 0, _, _, _ => none
  | fuel + 1, depth, found, cs => do
    let (path, rest) ← key? cs
    match rest with
    | '=' :: rest =>
      let (v, rest) ← value? fuel depth (skipBlanks rest)
      let found ← Node.insert? path v found
      match skipBlanks rest with
      | ',' :: rest => members? fuel depth found rest
      | '\x7d' :: rest => some (found, rest)
      | _ => none
    | _ => none

end

/-! ### Documents -/

/-- A document that is being read: what was read, and the table that lines are entered in. -/
structure Document where
  entries : Node.Entries
  path : List String

/-- Enters a value in the current table. -/
def Document.insert? (d : Document) (path : List String) (v : Setting) : Option Document := do
  let entries ← Node.within? false (fun _ => Node.insert? path v) d.path .header d.entries
  some { d with entries }

/-- Reads a key with a value, or a header. -/
def statement? (d : Document) : List Char → Option (Document × List Char)
  | '[' :: '[' :: cs => do
    let (path, rest) ← key? cs
    let entries ← Node.openItem? path d.entries
    some (⟨entries, path⟩, ← Text.stripFront? [']', ']'] rest)
  | '[' :: cs => do
    let (path, rest) ← key? cs
    let entries ← Node.openTable? path d.entries
    some (⟨entries, path⟩, ← Text.stripFront? [']'] rest)
  | cs => do
    let (path, rest) ← key? cs
    let rest := skipBlanks (← Text.stripFront? ['='] rest)
    let (v, rest) ← value? (rest.length + 1) nestingLimit rest
    some (← d.insert? path v, rest)

/-- Reads the lines of a document; there are at most `fuel`. -/
def lines? : (fuel : Nat) → Document → List Char → Option Document
  | 0, _, _ => none
  | fuel + 1, d, cs => do
    match ← skipLines? false cs with
    | [] => some d
    | cs =>
      let (d, rest) ← statement? d cs
      lines? fuel d (← restOfLine? rest)

/-- Reads a document; a byte order mark in front is skipped. -/
def read? (s : String) : Option Node :=
  let cs := match s.toList with
    | '\uFEFF' :: cs => cs
    | cs => cs
  (lines? (cs.length + 1) ⟨[], []⟩ cs).map fun d => .table .header d.entries

end EntitlementAuthority.Toml
