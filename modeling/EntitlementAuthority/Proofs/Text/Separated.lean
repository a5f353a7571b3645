import EntitlementAuthority.Text.Fields

/-!
# Fields that can be told apart

What is joined can be cut apart again, as long as the separator is not part of a field.

* `Text.splitOnChar_intercalate` — fields without the separator come back.
* `Text.joinWith_comma_inj` — which texts a comma separated list is made of.
* `Text.cutAt?_append`, `Text.cutAt?_append_of_first`, `Text.cutAt?_append_of_last` — when a pattern
  is found where it was put.
* `Text.containsText_iff` — a pattern is found wherever it occurs.
* `Text.replaceChars_append_of_pattern`, `Text.replaceChars_cons_of_unmatched` — a pattern is
  replaced from left to right.
-/

namespace EntitlementAuthority.Text

/-! ### One character between fields -/

section OneCharacter

variable {sep : Char} {field rest : List Char}

theorem splitOnChar_of_notMem (h : sep ∉ field) : splitOnChar sep field = [field] := by
  induction field with
  | nil => rfl
  | cons c cs ih =>
    rw [List.mem_cons, not_or] at h
    rw [splitOnChar, if_neg (Ne.symm h.1), ih h.2]

theorem splitOnChar_append (h : sep ∉ field) :
    splitOnChar sep (field ++ sep :: rest) = field :: splitOnChar sep rest := by
  induction field with
  | nil => rw [List.nil_append, splitOnChar, if_pos rfl]
  | cons c cs ih =>
    rw [List.mem_cons, not_or] at h
    rw [List.cons_append, splitOnChar, if_neg (Ne.symm h.1), ih h.2]

/-- Fields that do not hold the separator come back. -/
theorem splitOnChar_intercalate {fields : List (List Char)} (hne : fields ≠ [])
    (h : ∀ f ∈ fields, sep ∉ f) : splitOnChar sep (List.intercalate [sep] fields) = fields := by
  induction fields with
  | nil => exact absurd rfl hne
  | cons f fs ih =>
    have hf := h f List.mem_cons_self
    cases fs with
    | nil =>
      rw [List.intercalate_singleton]
      exact splitOnChar_of_notMem hf
    | cons g gs =>
      have ih := ih (List.cons_ne_nil g gs) fun f' hf' => h f' (List.mem_cons_of_mem _ hf')
      rw [List.intercalate_cons_cons, List.append_assoc, List.singleton_append,
        splitOnChar_append hf, ih]

/-- What is joined has the characters of its fields and the separator. -/
theorem mem_intercalate {c : Char} {fields : List (List Char)}
    (h : c ∈ List.intercalate [sep] fields) : c = sep ∨ ∃ f ∈ fields, c ∈ f := by
  induction fields with
  | nil => exact absurd h List.not_mem_nil
  | cons f fs ih =>
    cases fs with
    | nil =>
      rw [List.intercalate_singleton] at h
      exact .inr ⟨f, List.mem_cons_self, h⟩
    | cons g gs =>
      rw [List.intercalate_cons_cons, List.append_assoc, List.mem_append, List.mem_append,
        List.mem_singleton] at h
      rcases h with h | h | h
      · exact .inr ⟨f, List.mem_cons_self, h⟩
      · exact .inl h
      · exact (ih h).imp_right fun ⟨f', hf', hc⟩ => ⟨f', List.mem_cons_of_mem f hf', hc⟩

/-- Where fields are not empty either, no fields can be told from one. -/
theorem intercalate_inj {xs ys : List (List Char)} (hx : ∀ f ∈ xs, f ≠ [] ∧ sep ∉ f)
    (hy : ∀ f ∈ ys, f ≠ [] ∧ sep ∉ f)
    (h : List.intercalate [sep] xs = List.intercalate [sep] ys) : xs = ys := by
  have hsplit := congrArg (splitOnChar sep) h
  have empty : ∀ {zs : List (List Char)}, zs ≠ [] → (∀ f ∈ zs, f ≠ [] ∧ sep ∉ f) →
      splitOnChar sep (List.intercalate [sep] zs) ≠ splitOnChar sep [] := by
    intro zs hne hz he
    rw [splitOnChar_intercalate hne fun f hf => (hz f hf).2] at he
    exact (hz [] (by rw [he]; exact List.mem_cons_self)).1 rfl
  by_cases hxe : xs = []
  · by_cases hye : ys = []
    · rw [hxe, hye]
    · subst hxe
      exact absurd hsplit.symm (empty hye hy)
  · by_cases hye : ys = []
    · subst hye
      exact absurd hsplit (empty hxe hx)
    · rw [splitOnChar_intercalate hxe fun f hf => (hx f hf).2,
        splitOnChar_intercalate hye fun f hf => (hy f hf).2] at hsplit
      exact hsplit

end OneCharacter

/-- A text that can stand in a comma separated list. -/
def IsListable (s : String) : Prop :=
  s ≠ "" ∧ ',' ∉ s.toList

instance (s : String) : Decidable (IsListable s) :=
  inferInstanceAs (Decidable (_ ∧ _))

theorem IsListable.chars {xs : List String} (h : ∀ s ∈ xs, IsListable s) :
    ∀ f ∈ xs.map String.toList, f ≠ [] ∧ ',' ∉ f := by
  intro f hf
  obtain ⟨s, hs, rfl⟩ := List.mem_map.1 hf
  refine ⟨?_, (h s hs).2⟩
  intro he
  exact (h s hs).1 (String.toList_inj.1 he)

/-- Listable texts can be read off their comma separated list. -/
theorem joinWith_comma_inj {xs ys : List String} (hx : ∀ s ∈ xs, IsListable s)
    (hy : ∀ s ∈ ys, IsListable s) (h : joinWith "," xs = joinWith "," ys) : xs = ys := by
  have hchars : List.intercalate [','] (xs.map String.toList) =
      List.intercalate [','] (ys.map String.toList) := String.ofList_injective h
  have hmap := intercalate_inj (IsListable.chars hx) (IsListable.chars hy) hchars
  exact (List.map_inj_right fun _ _ => String.toList_inj.1).1 hmap

/-! ### A pattern between texts -/

section Pattern

variable {first : Char} {others : List Char}

theorem stripFront?_eq_none {pattern cs : List Char} (h : ¬ pattern <+: cs) :
    stripFront? pattern cs = none := by
  cases hs : stripFront? pattern cs with
  | none => rfl
  | some rest => exact absurd ⟨rest, (eq_append_of_stripFront? hs).symm⟩ h

/-- A pattern whose first character does not occur in it again cannot begin inside of a text and
end in the pattern behind it. -/
theorem not_prefix_append {cs : List Char} (after : List Char) (hne : cs ≠ [])
    (hfirst : first ∉ others) (hcs : ¬ (first :: others) <:+: cs) :
    ¬ (first :: others) <+: cs ++ ((first :: others) ++ after) := by
  rintro ⟨rest, hrest⟩
  rcases List.append_eq_append_iff.1 hrest with ⟨as, has, -⟩ | ⟨bs, hbs, hafter⟩
  · exact hcs (has ▸ (List.prefix_append _ as).isInfix)
  · cases cs with
    | nil => exact hne rfl
    | cons c cs =>
      rw [List.cons_append, List.cons.injEq] at hbs
      cases bs with
      | nil =>
        rw [List.append_nil] at hbs
        rw [hbs.1, hbs.2] at hcs
        exact hcs (List.infix_refl _)
      | cons b bs =>
        rw [List.cons_append, List.cons_append, List.cons.injEq] at hafter
        apply hfirst
        rw [hbs.2, hafter.1]
        exact List.mem_append_right _ List.mem_cons_self

/-- A pattern is found where it was put, if it does not begin before. -/
theorem cutAt?_append_of_not_prefix {pattern before after : List Char} (hne : pattern ≠ [])
    (h : ∀ cs, cs ≠ [] → cs <:+ before → ¬ pattern <+: cs ++ (pattern ++ after)) :
    cutAt? pattern (before ++ (pattern ++ after)) = some (before, after) := by
  induction before with
  | nil =>
    obtain ⟨first, others, rfl⟩ := List.exists_cons_of_ne_nil hne
    rw [List.nil_append, List.cons_append, cutAt?, ← List.cons_append, stripFront?_append]
  | cons c cs ih =>
    have hnot := h (c :: cs) (List.cons_ne_nil c cs) (List.suffix_refl _)
    have hcs := ih fun cs' hne' hsuffix => h cs' hne' (hsuffix.trans (List.suffix_cons c cs))
    rw [List.cons_append] at hnot
    rw [List.cons_append, cutAt?, stripFront?_eq_none hnot, hcs]
    rfl

/-- A pattern whose first character does not occur in it again is found where it was put, if it is
not part of what stands in front. -/
theorem cutAt?_append {before : List Char} (after : List Char) (hfirst : first ∉ others)
    (hbefore : ¬ (first :: others) <:+: before) :
    cutAt? (first :: others) (before ++ ((first :: others) ++ after)) = some (before, after) :=
  cutAt?_append_of_not_prefix (List.cons_ne_nil first others) fun _ hne hsuffix =>
    not_prefix_append after hne hfirst fun hin => hbefore (hin.trans hsuffix.isInfix)

/-- A pattern is found where it was put, if its first character does not stand in front. -/
theorem cutAt?_append_of_first {pattern before : List Char} (after : List Char)
    (hfirst : pattern.head? = some first) (h : first ∉ before) :
    cutAt? pattern (before ++ (pattern ++ after)) = some (before, after) := by
  obtain ⟨others, rfl⟩ := List.head?_eq_some_iff.1 hfirst
  refine cutAt?_append_of_not_prefix (List.cons_ne_nil first others) fun cs hne hsuffix => ?_
  obtain ⟨c, cs, rfl⟩ := List.exists_cons_of_ne_nil hne
  rintro ⟨rest, hrest⟩
  rw [List.cons_append, List.cons_append, List.cons.injEq] at hrest
  exact h (hrest.1 ▸ hsuffix.subset List.mem_cons_self)

/-- A pattern is found where it was put behind a character that does not occur in it, if it is not
part of what stands in front. -/
theorem cutAt?_append_of_last {pattern before : List Char} (after : List Char) (hne : pattern ≠ [])
    (hlast : ∀ c ∈ before.getLast?, c ∉ pattern) (hbefore : ¬ pattern <:+: before) :
    cutAt? pattern (before ++ (pattern ++ after)) = some (before, after) := by
  refine cutAt?_append_of_not_prefix hne fun cs hcs hsuffix => ?_
  rintro ⟨rest, hrest⟩
  rcases List.append_eq_append_iff.1 hrest with ⟨more, hmore, -⟩ | ⟨more, hmore, -⟩
  · exact hbefore ((hmore ▸ (List.prefix_append pattern more).isInfix).trans hsuffix.isInfix)
  · -- the pattern would reach over the last character
    obtain ⟨front, hfront⟩ := hsuffix
    have hmem : cs.getLast hcs ∈ pattern := by
      rw [hmore]
      exact List.mem_append_left more (List.getLast_mem hcs)
    refine hlast (cs.getLast hcs) ?_ hmem
    rw [← hfront, List.getLast?_append, List.getLast?_eq_some_getLast hcs]
    rfl

/-- A pattern is found wherever it occurs. -/
theorem isSome_cutAt?_iff {pattern cs : List Char} :
    (cutAt? pattern cs).isSome = true ↔ pattern <:+: cs := by
  constructor
  · intro h
    obtain ⟨⟨before, after⟩, hcut⟩ := Option.isSome_iff_exists.1 h
    exact ⟨before, after, (eq_append_of_cutAt? hcut).symm⟩
  · intro h
    induction cs with
    | nil =>
      rw [cutAt?, if_pos (List.infix_nil.1 h)]
      rfl
    | cons c cs ih =>
      rw [cutAt?]
      cases hs : stripFront? pattern (c :: cs) with
      | some rest => rfl
      | none =>
        have hcs : pattern <:+: cs := by
          rcases List.infix_cons_iff.1 h with ⟨rest, hrest⟩ | h
          · rw [← hrest, stripFront?_append] at hs
            exact absurd hs (Option.some_ne_none rest)
          · exact h
        obtain ⟨cut, hcut⟩ := Option.isSome_iff_exists.1 (ih hcs)
        rw [hcut]
        rfl

theorem containsText_iff {pattern s : String} :
    containsText pattern s = true ↔ pattern.toList <:+: s.toList :=
  isSome_cutAt?_iff

/-! ### Replacing a pattern -/

section Replacing

variable {pattern replacement cs before after : List Char} {c : Char}

theorem replaceChars_of_none (h : cutAt? pattern cs = none) :
    replaceChars pattern replacement cs = cs := by
  rw [replaceChars]
  split
  · rfl
  · split
    · rfl
    · rename_i hsome
      rw [h] at hsome
      cases hsome

theorem replaceChars_of_some (hne : pattern ≠ [])
    (h : cutAt? pattern cs = some (before, after)) :
    replaceChars pattern replacement cs =
      before ++ replacement ++ replaceChars pattern replacement after := by
  rw [replaceChars, dif_neg hne]
  split
  · rename_i hnone
    rw [h] at hnone
    cases hnone
  · rename_i before' after' hsome
    rw [h] at hsome
    obtain ⟨rfl, rfl⟩ := Prod.mk.inj (Option.some.inj hsome)
    rfl

theorem replaceChars_nil (hne : pattern ≠ []) : replaceChars pattern replacement [] = [] := by
  refine replaceChars_of_none ?_
  rw [cutAt?, if_neg hne]

/-- A pattern that stands in front is replaced. -/
theorem replaceChars_append_of_pattern (hne : pattern ≠ []) (cs : List Char) :
    replaceChars pattern replacement (pattern ++ cs) =
      replacement ++ replaceChars pattern replacement cs := by
  have hcut : cutAt? pattern (pattern ++ cs) = some ([], cs) := by
    obtain ⟨first, others, rfl⟩ := List.exists_cons_of_ne_nil hne
    rw [List.cons_append, cutAt?, ← List.cons_append, stripFront?_append]
  rw [replaceChars_of_some hne hcut, List.nil_append]

/-- A character with which the pattern does not begin stays. -/
theorem replaceChars_cons_of_unmatched (hne : pattern ≠ []) (h : ¬ pattern <+: c :: cs) :
    replaceChars pattern replacement (c :: cs) = c :: replaceChars pattern replacement cs := by
  cases hcs : cutAt? pattern cs with
  | none =>
    have hcut : cutAt? pattern (c :: cs) = none := by
      rw [cutAt?, stripFront?_eq_none h, hcs]
      rfl
    rw [replaceChars_of_none hcut, replaceChars_of_none hcs]
  | some cut =>
    have hcut : cutAt? pattern (c :: cs) = some (c :: cut.1, cut.2) := by
      rw [cutAt?, stripFront?_eq_none h, hcs]
      rfl
    rw [replaceChars_of_some hne hcut, replaceChars_of_some hne hcs]
    rfl

end Replacing

/-- What does not hold the separator does not reach over it. -/
theorem infix_or_of_infix_append {sep : Char} {pattern before after : List Char}
    (hsep : sep ∉ pattern) (h : pattern <:+: before ++ sep :: after) :
    pattern <:+: before ∨ pattern <:+: after := by
  obtain ⟨s, t, hst⟩ := h
  rcases List.append_eq_append_iff.1 hst with ⟨as, has, -⟩ | ⟨bs, hbs, hafter⟩
  · exact .inl ⟨s, as, has.symm⟩
  · cases bs with
    | nil => exact .inl ⟨s, [], by rw [hbs, List.append_nil, List.append_nil]⟩
    | cons b bs =>
      obtain ⟨rfl, rfl⟩ := List.cons.inj hafter
      rcases List.append_eq_append_iff.1 hbs with ⟨as, -, has⟩ | ⟨cs, -, hcs⟩
      · exact absurd (has ▸ List.mem_append_right as List.mem_cons_self) hsep
      · cases cs with
        | nil =>
          rw [List.nil_append] at hcs
          exact absurd (hcs ▸ List.mem_cons_self) hsep
        | cons c cs =>
          obtain ⟨-, rfl⟩ := List.cons.inj hcs
          exact .inr ⟨cs, t, rfl⟩

/-- A pattern without the separator occurs in joined fields only within one of them. -/
theorem infix_of_infix_intercalate {sep : Char} {pattern : List Char} (hne : pattern ≠ [])
    (hsep : sep ∉ pattern) {fields : List (List Char)}
    (h : pattern <:+: List.intercalate [sep] fields) : ∃ f ∈ fields, pattern <:+: f := by
  induction fields with
  | nil => exact absurd (List.infix_nil.1 h) hne
  | cons f fs ih =>
    cases fs with
    | nil =>
      rw [List.intercalate_singleton] at h
      exact ⟨f, List.mem_cons_self, h⟩
    | cons g gs =>
      rw [List.intercalate_cons_cons, List.append_assoc, List.singleton_append] at h
      rcases infix_or_of_infix_append hsep h with h | h
      · exact ⟨f, List.mem_cons_self, h⟩
      · obtain ⟨f', hf', h'⟩ := ih h
        exact ⟨f', List.mem_cons_of_mem _ hf', h'⟩

/-- The same goes for fields with the separator behind each. -/
theorem infix_of_infix_flatMap {sep : Char} {pattern : List Char} (hne : pattern ≠ [])
    (hsep : sep ∉ pattern) {fields : List (List Char)}
    (h : pattern <:+: fields.flatMap (· ++ [sep])) : ∃ f ∈ fields, pattern <:+: f := by
  induction fields with
  | nil => exact absurd (List.infix_nil.1 h) hne
  | cons f fs ih =>
    rw [List.flatMap_cons, List.append_assoc, List.singleton_append] at h
    rcases infix_or_of_infix_append hsep h with h | h
    · exact ⟨f, List.mem_cons_self, h⟩
    · obtain ⟨f', hf', h'⟩ := ih h
      exact ⟨f', List.mem_cons_of_mem _ hf', h'⟩

end Pattern

end EntitlementAuthority.Text
