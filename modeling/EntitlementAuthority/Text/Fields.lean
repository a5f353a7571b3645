import EntitlementAuthority.Text.Blank

/-!
# Separated fields

Cutting characters at a separator and joining them again.

* `splitOnChar` — the fields between the occurrences of one character.
* `joinWith` — texts with a separator between neighbours.
* `listItems` — the trimmed, non-empty items of a comma separated list.
* `pathSegments` — the non-empty segments of a path.
* `replaceAll`, `containsText` — occurrences of a pattern, left to right.
-/

namespace EntitlementAuthority.Text

/-- The fields between the occurrences of `sep`; there is always at least one. -/
def splitOnChar (sep : Char) : List Char → List (List Char)
  | [] => [[]]
  | c :: cs =>
    if c = sep then [] :: splitOnChar sep cs
    else
      match splitOnChar sep cs with
      | [] => [[c]]
      | field :: fields => (c :: field) :: fields

theorem splitOnChar_ne_nil (sep : Char) (cs : List Char) : splitOnChar sep cs ≠ [] := by
  induction cs with
  | nil => simp [splitOnChar]
  | cons c cs ih =>
    unfold splitOnChar
    split
    · simp
    · split <;> simp

/-- No field holds the separator. -/
theorem sep_notMem_of_mem_splitOnChar {sep : Char} {cs field : List Char}
    (h : field ∈ splitOnChar sep cs) : sep ∉ field := by
  induction cs generalizing field with
  | nil => simp_all [splitOnChar]
  | cons c cs ih =>
    unfold splitOnChar at h
    split at h
    · rcases List.mem_cons.1 h with rfl | h
      · exact List.not_mem_nil
      · exact ih h
    · rename_i hc
      cases hs : splitOnChar sep cs with
      | nil => exact absurd hs (splitOnChar_ne_nil sep cs)
      | cons f fs =>
        rw [hs] at h ih
        rcases List.mem_cons.1 h with rfl | h
        · intro hm
          rcases List.mem_cons.1 hm with he | hm
          · exact hc he.symm
          · exact ih List.mem_cons_self hm
        · exact ih (List.mem_cons_of_mem f h)

/-- Texts with `sep` between neighbours. -/
def joinWith (sep : String) (fields : List String) : String :=
  String.ofList (List.intercalate sep.toList (fields.map String.toList))

/-- The trimmed items of a comma separated list, empty ones left out. -/
def listItems (s : String) : List String :=
  ((splitOnChar ',' s.toList).map fun cs => trim (String.ofList cs)).filter (!·.isEmpty)

/-- The non-empty segments between slashes. -/
def pathSegments (path : String) : List String :=
  ((splitOnChar '/' path.toList).map String.ofList).filter (!·.isEmpty)

/-- Takes `pattern` off the front of `cs`, if it stands there. -/
def stripFront? {α : Type} [DecidableEq α] : (pattern cs : List α) → Option (List α)
  | [], cs => some cs
  | _ :: _, [] => none
  | p :: ps, c :: cs => if p = c then stripFront? ps cs else none

theorem eq_append_of_stripFront? {α : Type} [DecidableEq α] {pattern cs rest : List α}
    (h : stripFront? pattern cs = some rest) : cs = pattern ++ rest := by
  induction pattern generalizing cs with
  | nil => simpa [stripFront?] using h
  | cons p ps ih =>
    cases cs with
    | nil => simp [stripFront?] at h
    | cons c cs =>
      unfold stripFront? at h
      split at h
      · rename_i hpc
        simp [hpc, ih h]
      · simp at h

theorem stripFront?_append {α : Type} [DecidableEq α] (pattern rest : List α) :
    stripFront? pattern (pattern ++ rest) = some rest := by
  induction pattern with
  | nil => simp [stripFront?]
  | cons p ps ih => simp [stripFront?, ih]

/-- The characters before the first occurrence of `pattern` and those after it. -/
def cutAt? (pattern : List Char) : List Char → Option (List Char × List Char)
  | [] => if pattern = [] then some ([], []) else none
  | c :: cs =>
    match stripFront? pattern (c :: cs) with
    | some rest => some ([], rest)
    | none => (cutAt? pattern cs).map fun (before, after) => (c :: before, after)

theorem eq_append_of_cutAt? {pattern cs before after : List Char}
    (h : cutAt? pattern cs = some (before, after)) : cs = before ++ pattern ++ after := by
  induction cs generalizing before after with
  | nil =>
    unfold cutAt? at h
    split at h <;> simp_all
  | cons c cs ih =>
    unfold cutAt? at h
    split at h
    · rename_i rest hrest
      simp only [Option.some.injEq, Prod.mk.injEq] at h
      obtain ⟨rfl, rfl⟩ := h
      simpa using eq_append_of_stripFront? hrest
    · obtain ⟨⟨b, a⟩, hba, heq⟩ := Option.map_eq_some_iff.1 h
      simp only [Prod.mk.injEq] at heq
      obtain ⟨rfl, rfl⟩ := heq
      simpa using ih hba

/-- Whether `pattern` occurs in `s`. -/
def containsText (pattern s : String) : Bool :=
  (cutAt? pattern.toList s.toList).isSome

/-- `cs` with every occurrence of `pattern` replaced, scanning left to right; an empty pattern
occurs nowhere. -/
def replaceChars (pattern replacement cs : List Char) : List Char :=
  if _hp : pattern = [] then cs
  else
    match _h : cutAt? pattern cs with
    | none => cs
    | some (before, after) => before ++ replacement ++ replaceChars pattern replacement after
termination_by cs.length
decreasing_by
  have hlen := congrArg List.length (eq_append_of_cutAt? ‹_›)
  have hpos : 0 < pattern.length := List.length_pos_iff.2 ‹_›
  simp only [List.length_append] at hlen
  omega

/-- Text with every occurrence of `pattern` replaced. -/
def replaceAll (pattern replacement s : String) : String :=
  String.ofList (replaceChars pattern.toList replacement.toList s.toList)

end EntitlementAuthority.Text
