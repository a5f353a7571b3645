import EntitlementAuthority.Json.Lexer

/-!
# Reading JSON texts

The tokens of a text are taken one after the other by a machine that keeps the arrays and
objects it is inside of.

* `Json.Reading` — the state of the machine.
* `Json.Reading.step?` — takes one token.
* `Json.read?` — the value of a text that holds exactly one.
-/

namespace EntitlementAuthority.Json

/-- An array or object that is not closed yet; the newest parts stand first. -/
inductive Container where
  | array (items : List Json)
  | object (members : List (Bytes × Json))
  /-- An object with the name of a member whose value is being read. -/
  | named (members : List (Bytes × Json)) (name : Bytes)

/-- What a machine waits for. -/
inductive Awaited where
  | value
  /-- The first item of an array, or its end. -/
  | firstItem
  /-- The first name of an object, or its end. -/
  | firstName
  | name
  | colon
  /-- A comma, or the end of the innermost container. -/
  | separator
  /-- Nothing: the value is complete. -/
  | nothing (v : Json)

/-- The state of the machine: the open containers, innermost first, and what is awaited. -/
structure Reading where
  containers : List Container
  awaited : Awaited

namespace Reading

/-- Before the first token. -/
def start : Reading := ⟨[], .value⟩

/-- Puts a value that is complete where it belongs. -/
def finish (v : Json) : List Container → Option Reading
  | [] => some ⟨[], .nothing v⟩
  | .array items :: outer => some ⟨.array (v :: items) :: outer, .separator⟩
  | .named members name :: outer => some ⟨.object ((name, v) :: members) :: outer, .separator⟩
  | .object _ :: _ => none

/-- Closes the innermost container, which has to be an array. -/
def closeArray : List Container → Option Reading
  | .array items :: outer => finish (.array items.reverse) outer
  | _ => none

/-- Closes the innermost container, which has to be an object. -/
def closeObject : List Container → Option Reading
  | .object members :: outer => finish (.object members.reverse) outer
  | _ => none

/-- Takes the name of a member. -/
def takeName (name : Bytes) : List Container → Option Reading
  | .object members :: outer => some ⟨.named members name :: outer, .colon⟩
  | _ => none

/-- Goes on behind a comma. -/
def takeComma : List Container → Option Reading
  | .array items :: outer => some ⟨.array items :: outer, .value⟩
  | .object members :: outer => some ⟨.object members :: outer, .name⟩
  | _ => none

/-- Takes the first token of a value. -/
def takeValue (containers : List Container) : Token → Option Reading
  | .null => finish .null containers
  | .bool b => finish (.bool b) containers
  | .number digits => finish (.number digits) containers
  | .string raw => finish (.string raw) containers
  | .openArray => some ⟨.array [] :: containers, .firstItem⟩
  | .openObject => some ⟨.object [] :: containers, .firstName⟩
  | _ => none

/-- Takes one token. -/
def step? (r : Reading) (token : Token) : Option Reading :=
  match r.awaited, token with
  | .value, token => takeValue r.containers token
  | .firstItem, .closeArray => closeArray r.containers
  | .firstItem, token => takeValue r.containers token
  | .firstName, .closeObject => closeObject r.containers
  | .firstName, .string raw => takeName raw r.containers
  | .name, .string raw => takeName raw r.containers
  | .colon, .colon => some ⟨r.containers, .value⟩
  | .separator, .comma => takeComma r.containers
  | .separator, .closeArray => closeArray r.containers
  | .separator, .closeObject => closeObject r.containers
  | _, _ => none

/-- The value that has been read, if it is complete. -/
def value? (r : Reading) : Option Json :=
  match r.awaited with
  | .nothing v => some v
  | _ => none

end Reading

/-- The value whose tokens are given. -/
def ofTokens? (tokens : List Token) : Option Json := do
  let r ← tokens.foldlM Reading.step? Reading.start
  r.value?

/-- The value of a text that holds exactly one, with blanks around its tokens. -/
def read? (input : Bytes) : Option Json := do
  let tokens ← lex? input
  ofTokens? tokens

end EntitlementAuthority.Json
