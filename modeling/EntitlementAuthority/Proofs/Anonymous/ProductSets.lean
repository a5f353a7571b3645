import EntitlementAuthority.Anonymous.Cache
import EntitlementAuthority.Proofs.Promotion.ContentPath

/-!
# The text of a product set

What anonymous consumers get is kept under one text for a product set, its ids with commas between
them. Ids may hold commas themselves, so different sets may have the same text. Sets whose ids hold
no comma have different texts; only the set with nothing but the empty id cannot be told from the
set without ids.

* `Text.splitOnChar_inj` — a text is determined by its fields.
* `anonymousFields` — what stands between the commas of the text of a product set.
* `anonymousKey_eq_iff` — which product sets have the same text.
* `IsPlainSet`, `IsPlainSet.eq_of_key` — product sets that are told apart.
-/

namespace EntitlementAuthority

/-! ### Fields of a text -/

namespace Text

variable {sep : Char}

theorem splitOnChar_eq_splitOn (sep : Char) (cs : List Char) :
    splitOnChar sep cs = cs.splitOn sep := by
  induction cs with
  | nil => rfl
  | cons c cs ih =>
    rw [splitOnChar, List.splitOn, List.splitOnP_cons_eq_if_modifyHead, ← List.splitOn, ← ih]
    by_cases hc : c = sep
    · rw [if_pos hc, if_pos (beq_iff_eq.2 hc)]
    · rw [if_neg hc, if_neg (mt beq_iff_eq.1 hc)]
      cases h : splitOnChar sep cs with
      | nil => exact absurd h (splitOnChar_ne_nil sep cs)
      | cons field fields => rfl

/-- Two texts with the same fields are the same. -/
theorem splitOnChar_inj {cs ds : List Char} (h : splitOnChar sep cs = splitOnChar sep ds) :
    cs = ds := by
  rw [splitOnChar_eq_splitOn, splitOnChar_eq_splitOn] at h
  calc
    cs = List.intercalate [sep] (cs.splitOn sep) := (List.intercalate_splitOn sep).symm
    _ = List.intercalate [sep] (ds.splitOn sep) := by rw [h]
    _ = ds := List.intercalate_splitOn sep

/-- Texts with separators between them are cut as each of them is. -/
theorem splitOnChar_intercalate_flatMap {fields : List (List Char)} (hne : fields ≠ []) :
    splitOnChar sep (List.intercalate [sep] fields) = fields.flatMap (splitOnChar sep) := by
  induction fields with
  | nil => exact absurd rfl hne
  | cons f fs ih =>
    cases fs with
    | nil => rw [List.intercalate_singleton, List.flatMap_singleton]
    | cons g gs =>
      rw [List.intercalate_cons_cons, List.append_assoc, List.singleton_append,
        splitOnChar_append_sep, ih (List.cons_ne_nil g gs)]
      rfl

end Text

/-! ### Fields of a product set -/

/-- What stands between the commas of the text of a product set. -/
def anonymousFields (ids : List String) : List (List Char) :=
  if ids = [] then [[]] else ids.flatMap fun id => Text.splitOnChar ',' id.toList

theorem splitOnChar_anonymousKey (ids : List String) :
    Text.splitOnChar ',' (anonymousKey ids).toList = anonymousFields ids := by
  unfold anonymousKey Text.joinWith anonymousFields
  rw [String.toList_ofList]
  split
  · rename_i hnil
    rw [hnil]
    rfl
  · rename_i hne
    have hmap : ids.map String.toList ≠ [] := mt List.map_eq_nil_iff.1 hne
    exact (Text.splitOnChar_intercalate_flatMap hmap).trans (List.flatMap_map _ _ _)

/-- **Which product sets have the same text.** -/
theorem anonymousKey_eq_iff {S T : List String} :
    anonymousKey S = anonymousKey T ↔ anonymousFields S = anonymousFields T := by
  rw [← splitOnChar_anonymousKey, ← splitOnChar_anonymousKey]
  exact ⟨fun h => by rw [h], fun h => String.toList_inj.1 (Text.splitOnChar_inj h)⟩

/-- Product sets that are told apart from each other: no id holds a comma, and there are other ids
than the empty one or none at all. -/
def IsPlainSet (ids : List String) : Prop :=
  (∀ id ∈ ids, ',' ∉ id.toList) ∧ ids ≠ [""]

theorem anonymousFields_of_comma_free {ids : List String} (hne : ids ≠ [])
    (h : ∀ id ∈ ids, ',' ∉ id.toList) : anonymousFields ids = ids.map String.toList := by
  rw [anonymousFields, if_neg hne, List.map_eq_flatMap]
  exact List.flatMap_congr fun id hid => Text.splitOnChar_of_notMem (h id hid)

namespace IsPlainSet

variable {S T : List String}

/-- The text of a plain set that has ids is not the empty text. -/
theorem anonymousFields_ne (h : IsPlainSet S) (hne : S ≠ []) :
    anonymousFields S ≠ anonymousFields [] := by
  rw [anonymousFields_of_comma_free hne h.1]
  intro hfields
  obtain ⟨id, rfl, hid⟩ := List.map_eq_singleton_iff.1 hfields
  exact h.2 (congrArg (fun id => [id]) (String.toList_inj.1 hid))

/-- **Plain sets are told apart.** -/
theorem eq_of_key (hS : IsPlainSet S) (hT : IsPlainSet T) (h : anonymousKey S = anonymousKey T) :
    S = T := by
  rw [anonymousKey_eq_iff] at h
  by_cases hSnil : S = []
  · by_cases hTnil : T = []
    · rw [hSnil, hTnil]
    · rw [hSnil] at h
      exact absurd h.symm (hT.anonymousFields_ne hTnil)
  · by_cases hTnil : T = []
    · rw [hTnil] at h
      exact absurd h (hS.anonymousFields_ne hSnil)
    · rw [anonymousFields_of_comma_free hSnil hS.1, anonymousFields_of_comma_free hTnil hT.1] at h
      exact (List.map_inj_right fun _ _ => String.toList_inj.1).1 h

end IsPlainSet

end EntitlementAuthority
