import EntitlementAuthority.Text.Sorted
import Mathlib.Data.List.Sort
import Mathlib.Data.String.Basic

/-!
# Sets of text in order

* `Text.sortedSet_increasing` — a set of texts is in ascending order and has each text once.
* `Text.sortedSet_congr` — lists with the same texts make the same set.
-/

namespace EntitlementAuthority.Text

theorem insertText_increasing (s : String) {set : List String} (h : set.Pairwise (· < ·)) :
    (insertText s set).Pairwise (· < ·) := by
  induction set with
  | nil => exact List.pairwise_singleton _ s
  | cons t set ih =>
    obtain ⟨ht, hset⟩ := List.pairwise_cons.1 h
    unfold insertText
    split
    · rename_i hlt
      refine List.pairwise_cons.2 ⟨?_, h⟩
      intro u hu
      rcases List.mem_cons.1 hu with rfl | hu
      · exact hlt
      · exact lt_trans hlt (ht u hu)
    · rename_i hnot
      split
      · exact h
      · rename_i hne
        refine List.pairwise_cons.2 ⟨?_, ih hset⟩
        intro u hu
        rcases mem_insertText.1 hu with rfl | hu
        · exact lt_of_le_of_ne (le_of_not_gt hnot) (Ne.symm hne)
        · exact ht u hu

/-- A set of texts is in ascending order, each text once. -/
theorem sortedSet_increasing (texts : List String) : (sortedSet texts).Pairwise (· < ·) := by
  have hfold : ∀ set : List String, set.Pairwise (· < ·) →
      (texts.foldl (fun set s => insertText s set) set).Pairwise (· < ·) := by
    induction texts with
    | nil => exact fun set h => h
    | cons s texts ih => exact fun set h => ih _ (insertText_increasing s h)
  exact hfold [] .nil

/-- Lists with the same texts make the same set. -/
theorem sortedSet_congr {xs ys : List String} (h : ∀ s, s ∈ xs ↔ s ∈ ys) :
    sortedSet xs = sortedSet ys :=
  (sortedSet_increasing xs).eq_of_mem_iff (sortedSet_increasing ys) fun s => by
    rw [mem_sortedSet, mem_sortedSet, h]

end EntitlementAuthority.Text
