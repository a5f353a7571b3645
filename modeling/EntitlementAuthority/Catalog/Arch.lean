import EntitlementAuthority.Text.Fields

/-!
# Architectures

Contents and products name the architectures they are made for; a consumer has at most one.

* `Arch.parseList` — an architecture list, first mention first.
* `Arch.serves` — whether content for one architecture can be used on another.
* `Arch.isCompatible` — whether content can be used by a consumer.
-/

namespace EntitlementAuthority.Arch

/-- The architectures that run each other's content. -/
def x86Family : List String := ["x86", "i386", "i486", "i586", "i686"]

/-- The architectures whose content every consumer can use. -/
def universal : List String := ["noarch", "ALL"]

/-- Keeps the first occurrence of every text. -/
def firstMentions (seen : List String) : List String → List String
  | [] => []
  | a :: as => if seen.contains a then firstMentions seen as else a :: firstMentions (a :: seen) as

/-- The trimmed, non-empty items of a list, each at its first mention. -/
def parseList (value : Option String) : List String :=
  firstMentions [] (Text.listItems (value.getD ""))

/-- Whether an architecture is of the x86 family. -/
def isX86 (arch : String) : Bool :=
  x86Family.contains arch

/-- Whether content for `content` can be used on `consumer`. -/
def serves (content consumer : String) : Bool :=
  content == consumer || universal.contains content || (isX86 content && isX86 consumer)

/-- A consumer of no known architecture and content of no architecture fit everything. -/
def isCompatible (content : List String) (consumer : Option String) : Bool :=
  match Text.nonBlank? consumer with
  | none => true
  | some arch => content.isEmpty || content.any fun a => serves a (Text.trim arch)

end EntitlementAuthority.Arch
