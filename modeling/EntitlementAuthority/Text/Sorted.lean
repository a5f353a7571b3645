/-!
# Sets of text

A finite set of texts is a list in ascending order of code points without repetitions, so two
sets are equal exactly if their lists are.

* `insertText` — the set with one more text.
* `sortedSet` — the set of the texts in a list.
* `mem_sortedSet` — a text is in the set exactly if it is in the list.
-/

namespace EntitlementAuthority.Text

/-- Puts a text into its place unless it is there already. -/
def insertText (s : String) : List String → List String
  | [] => [s]
  | t :: ts => if s < t then s :: t :: ts else if s = t then t :: ts else t :: insertText s ts

/-- The texts of a list in ascending order, each once. -/
def sortedSet (texts : List String) : List String :=
  texts.foldl (fun set s => insertText s set) []

theorem mem_insertText {s t : String} {set : List String} :
    t ∈ insertText s set ↔ t = s ∨ t ∈ set := by
  induction set with
  | nil => simp [insertText]
  | cons u us ih =>
    unfold insertText
    split
    · simp
    · split
      · simp_all
      · simp only [List.mem_cons, ih]
        grind

theorem mem_foldl_insertText {t : String} {texts set : List String} :
    t ∈ texts.foldl (fun set s => insertText s set) set ↔ t ∈ texts ∨ t ∈ set := by
  induction texts generalizing set with
  | nil => simp
  | cons s ss ih =>
    simp only [List.foldl_cons, ih, mem_insertText, List.mem_cons]
    grind

/-- A set holds the texts of the list it is made from. -/
@[simp] theorem mem_sortedSet {t : String} {texts : List String} :
    t ∈ sortedSet texts ↔ t ∈ texts := by
  simp [sortedSet, mem_foldl_insertText]

/-- Whether two lists of texts have an element in common. -/
def intersects (xs ys : List String) : Bool :=
  xs.any (ys.contains ·)

theorem intersects_iff {xs ys : List String} :
    intersects xs ys = true ↔ ∃ x, x ∈ xs ∧ x ∈ ys := by
  simp [intersects]

end EntitlementAuthority.Text
