import EntitlementAuthority.Proofs.Text.Separated
import EntitlementAuthority.Text.Lower
import Mathlib.Data.List.DropRight

/-!
# Trimmed and lower-cased text

* `Text.trim_trim`, `Text.trim_eq_empty_iff` — what is trimmed stays, and only blank text vanishes.
* `Text.trim_line` — what is left of a line without white space.
* `Text.mem_lower`, `Text.lower_eq_empty_iff` — no character vanishes in lower case, and those
  without a case stay.
* `Text.listItems_trimmed` — a trimmed text without commas is a list of one.
-/

namespace EntitlementAuthority.Text

/-! ### Trimming -/

/-- Trimming an end leaves the front as it is. -/
theorem trimStart_trimEnd_trimStart (cs : List Char) :
    trimStart (trimEnd (trimStart cs)) = trimEnd (trimStart cs) := by
  refine List.dropWhile_eq_self_iff.2 ?_
  intro hl
  have hfront : trimEnd (trimStart cs) <+: trimStart cs :=
    List.rdropWhile_prefix isWhiteSpace (trimStart cs)
  rw [hfront.getElem hl]
  exact List.dropWhile_get_zero_not isWhiteSpace cs (Nat.lt_of_lt_of_le hl hfront.length_le)

@[simp] theorem trim_trim (s : String) : trim (trim s) = trim s := by
  have hend : trimEnd (trimEnd (trimStart s.toList)) = trimEnd (trimStart s.toList) :=
    List.rdropWhile_idempotent isWhiteSpace (trimStart s.toList)
  unfold trim
  rw [String.toList_ofList, trimStart_trimEnd_trimStart, hend]

theorem ofList_eq_empty_iff {cs : List Char} : String.ofList cs = "" ↔ cs = [] := by
  rw [← String.toList_inj, String.toList_ofList]
  rfl

theorem trim_eq_empty_iff {s : String} : trim s = "" ↔ isBlank s = true := by
  rw [trim, ofList_eq_empty_iff, isBlank, List.all_eq_true]
  constructor
  · intro h
    -- what is left in front would be left at the end as well
    have hfront : ∀ c ∈ trimStart s.toList, isWhiteSpace c = true :=
      List.rdropWhile_eq_nil_iff.1 h
    intro c hc
    rw [← List.takeWhile_append_dropWhile (p := isWhiteSpace) (l := s.toList)] at hc
    rcases List.mem_append.1 hc with hc | hc
    · exact List.mem_takeWhile_imp hc
    · exact hfront c hc
  · intro h
    have hstart : trimStart s.toList = [] := List.dropWhile_eq_nil_iff.2 h
    rw [hstart]
    rfl

theorem dropWhile_isWhiteSpace {cs : List Char} (h : ∀ c ∈ cs, isWhiteSpace c = false) :
    cs.dropWhile isWhiteSpace = cs := by
  cases cs with
  | nil => rfl
  | cons c cs => rw [List.dropWhile_cons, h c List.mem_cons_self, if_neg Bool.false_ne_true]

/-- A line without white space is what is left of it between line breaks. -/
theorem trim_line {cs : List Char} (h : ∀ c ∈ cs, isWhiteSpace c = false) :
    trim (String.ofList ('\n' :: (cs ++ ['\n']))) = String.ofList cs := by
  have hstart : trimEnd (trimStart (cs ++ ['\n'])) = cs := by
    cases cs with
    | nil => rfl
    | cons c cs =>
      have hreverse : ∀ c' ∈ (c :: cs).reverse, isWhiteSpace c' = false :=
        fun c' hc' => h c' (List.mem_reverse.1 hc')
      rw [trimStart, List.cons_append, List.dropWhile_cons, h c List.mem_cons_self,
        if_neg Bool.false_ne_true, trimEnd, ← List.cons_append, List.reverse_append]
      show (((c :: cs).reverse).dropWhile isWhiteSpace).reverse = _
      rw [dropWhile_isWhiteSpace hreverse, List.reverse_reverse]
  rw [trim, String.toList_ofList]
  show String.ofList (trimEnd (trimStart (cs ++ ['\n']))) = _
  rw [hstart]

/-- A trimmed text without commas is a list of one. -/
theorem listItems_trimmed {s : String} (h : IsListable s) (htrim : trim s = s) :
    listItems s = [s] := by
  unfold listItems
  rw [splitOnChar_of_notMem h.2, List.map_singleton, String.ofList_toList, htrim]
  exact List.filter_cons_of_pos (by simpa using h.1)

/-! ### Lower case -/

theorem lowerChar_ne_nil (c : Char) : lowerChar c ≠ [] := by
  unfold lowerChar
  split
  · exact List.cons_ne_nil _ _
  · split <;> exact List.cons_ne_nil _ _

theorem lowerFrom_cons_ne_nil (before : List Char) (c : Char) (cs : List Char) :
    lowerFrom before (c :: cs) ≠ [] := by
  intro h
  rw [lowerFrom, List.append_eq_nil_iff] at h
  have h := h.1
  split at h
  · exact List.cons_ne_nil _ _ h
  · exact lowerChar_ne_nil c h

theorem lower_eq_empty_iff {s : String} : lower s = "" ↔ s = "" := by
  have hs : s = "" ↔ s.toList = [] := String.toList_inj.symm
  rw [lower, ofList_eq_empty_iff, hs]
  cases s.toList with
  | nil => exact iff_of_true rfl rfl
  | cons c cs => exact iff_of_false (lowerFrom_cons_ne_nil [] c cs) (List.cons_ne_nil c cs)

/-- An ASCII character without a case stays. -/
theorem mem_lowerFrom {c : Char} (hascii : c.toNat < 0x80) (hc : c.toLower = c)
    {cs : List Char} (h : c ∈ cs) (before : List Char) : c ∈ lowerFrom before cs := by
  induction cs generalizing before with
  | nil => exact absurd h List.not_mem_nil
  | cons d ds ih =>
    rw [lowerFrom, List.mem_append]
    rcases List.mem_cons.1 h with rfl | h
    · left
      rw [if_neg (by omega), lowerChar, if_pos hascii, hc]
      exact List.mem_singleton_self c
    · exact .inr (ih h _)

theorem mem_lower {c : Char} (hascii : c.toNat < 0x80) (hc : c.toLower = c) {s : String}
    (h : c ∈ s.toList) : c ∈ (lower s).toList := by
  rw [lower, String.toList_ofList]
  exact mem_lowerFrom hascii hc h []

end EntitlementAuthority.Text
