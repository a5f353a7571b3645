import EntitlementAuthority.Promotion.Drift
import Mathlib.Data.List.Nodup

/-!
# Environments in another order

A change of environments concerns an entitlement only if some content that it carries gets another
first environment. Environments that promote none of its contents can come, go and move freely, and
so can environments that promote different ones.

* `IsFirst` — an environment is the first of an ordering that promotes a content.
* `IsOvertaken` — a content has another first environment than before, or one where it had none, or
  none where it had one.
* `Precedes`, `KeepsConflicts` — orderings that differ only in what does not concern some contents.
* `KeepsConflicts.not_isOvertaken` — the first environments of these contents stay.
* `drifted_iff_of_reordering` — who is reported.
-/

namespace EntitlementAuthority

/-- An environment is the first of an ordering that promotes a content. -/
def IsFirst (contentId : String) (ordering : List EnvironmentPromotions)
    (e : EnvironmentPromotions) : Prop :=
  ∃ front back, ordering = front ++ e :: back ∧ contentId ∈ e.contentIds ∧
    ∀ x ∈ front, contentId ∉ x.contentIds

/-- The first environment of a content in one ordering is not its first one in the other: that is
a different one, or there is none. -/
def LosesFirst (contentId : String) (before after : List EnvironmentPromotions) : Prop :=
  ∃ e, IsFirst contentId before e ∧
    ∀ x, IsFirst contentId after x → x.environmentId ≠ e.environmentId

/-- A content has another first environment than before, or one of two orderings has none. -/
def IsOvertaken (contentId : String) (before after : List EnvironmentPromotions) : Prop :=
  LosesFirst contentId before after ∨ LosesFirst contentId after before

/-- An environment stands in front of another one. -/
def Precedes (ordering : List EnvironmentPromotions) (e x : EnvironmentPromotions) : Prop :=
  List.Sublist [e.environmentId, x.environmentId] (ordering.map (·.environmentId))

/-- The environment occurs in an ordering. -/
def Occurs (ordering : List EnvironmentPromotions) (e : EnvironmentPromotions) : Prop :=
  e.environmentId ∈ ordering.map (·.environmentId)

/-- Two orderings that differ only in what does not concern some contents. -/
structure KeepsConflicts (contentIds : List String) (before after : List EnvironmentPromotions) :
    Prop where
  /-- Environments that are left promote none of the contents. -/
  left : ∀ e ∈ before, ¬ Occurs after e → ∀ c ∈ contentIds, c ∉ e.contentIds
  /-- Environments that are entered promote none of them either. -/
  entered : ∀ e ∈ after, ¬ Occurs before e → ∀ c ∈ contentIds, c ∉ e.contentIds
  /-- Environments that stay and promote the same one of the contents keep their order. -/
  order : ∀ e ∈ before, ∀ x ∈ before, Occurs after e → Occurs after x →
    (∃ c ∈ contentIds, c ∈ e.contentIds ∧ c ∈ x.contentIds) → Precedes before e x →
    Precedes after e x

variable {before after ordering : List EnvironmentPromotions} {e x : EnvironmentPromotions}
  {contentId : String} {contentIds : List String}

/-! ### First environments -/

theorem winner_eq_some_iff_isFirst : winner ordering contentId = some e ↔
    IsFirst contentId ordering e := by
  unfold winner IsFirst
  rw [List.find?_eq_some_iff_append]
  simp only [PromotionScope.promotes, List.contains_iff_mem, Bool.not_eq_true',
    Bool.eq_false_iff, ne_eq]
  constructor
  · rintro ⟨hpromotes, front, back, hordering, hfront⟩
    exact ⟨front, back, hordering, hpromotes, hfront⟩
  · rintro ⟨front, back, hordering, hpromotes, hfront⟩
    exact ⟨hpromotes, front, back, hordering, hfront⟩

/-- The ids of the winners differ exactly if the first environments do. -/
theorem winnerId_ne_iff : winnerId before contentId ≠ winnerId after contentId ↔
    IsOvertaken contentId before after := by
  unfold IsOvertaken LosesFirst winnerId
  simp only [← winner_eq_some_iff_isFirst]
  cases winner before contentId with
  | none => cases winner after contentId <;> simp
  | some e =>
    cases winner after contentId with
    | none => simp
    | some x => simp [scopeId, eq_comm]

theorem IsFirst.mem (h : IsFirst contentId ordering e) : e ∈ ordering := by
  obtain ⟨front, back, rfl, -⟩ := h
  exact List.mem_append_right front List.mem_cons_self

theorem IsFirst.promotes (h : IsFirst contentId ordering e) : contentId ∈ e.contentIds := by
  obtain ⟨front, back, -, hpromotes, -⟩ := h
  exact hpromotes

/-- The first environment that promotes a content stands in front of the others that do. -/
theorem IsFirst.precedes (h : IsFirst contentId ordering e) (hx : x ∈ ordering)
    (hpromotes : contentId ∈ x.contentIds) (hne : x ≠ e) : Precedes ordering e x := by
  obtain ⟨front, back, rfl, -, hfront⟩ := h
  have hback : x ∈ back := by
    rcases List.mem_append.1 hx with hx | hx
    · exact absurd hpromotes (hfront x hx)
    · exact (List.mem_cons.1 hx).resolve_left hne
  unfold Precedes
  rw [List.map_append, List.map_cons]
  refine List.Sublist.trans ?_ (List.sublist_append_right _ _)
  exact List.Sublist.cons_cons _ (List.singleton_sublist.2 (List.mem_map_of_mem hback))

/-- Of two environments only one stands in front of the other. -/
theorem Precedes.asymm (hnodup : (ordering.map (·.environmentId)).Nodup)
    (h : Precedes ordering e x) : ¬ Precedes ordering x e := by
  intro h'
  unfold Precedes at h h'
  generalize ordering.map (·.environmentId) = ids, e.environmentId = i, x.environmentId = j
    at hnodup h h'
  induction ids with
  | nil => cases h
  | cons id ids ih =>
    rw [List.nodup_cons] at hnodup
    cases h with
    | cons _ h =>
      cases h' with
      | cons _ h' => exact ih hnodup.2 h h'
      | cons_cons _ h' => exact hnodup.1 (h.subset (by simp))
    | cons_cons _ h =>
      cases h' with
      | cons _ h' => exact hnodup.1 (h'.subset (by simp))
      | cons_cons _ h' => exact hnodup.1 (h.subset (by simp))

/-! ### What changes and what does not -/

/-- Environments that are in two orderings promote the same in both. -/
def PromoteAlike (before after : List EnvironmentPromotions) : Prop :=
  ∀ e ∈ before, ∀ x ∈ after, e.environmentId = x.environmentId →
    ∀ c, c ∈ e.contentIds ↔ c ∈ x.contentIds

theorem Occurs.exists_mem (h : Occurs ordering e) :
    ∃ x ∈ ordering, x.environmentId = e.environmentId :=
  List.mem_map.1 h

/-- **Conflicts that are kept decide as before**: the first environments of the contents stay. -/
theorem KeepsConflicts.isFirst_id_eq (h : KeepsConflicts contentIds before after)
    (hnodup : (after.map (·.environmentId)).Nodup) (halike : PromoteAlike before after)
    (hc : contentId ∈ contentIds) (he : IsFirst contentId before e)
    (hx : IsFirst contentId after x) : x.environmentId = e.environmentId := by
  by_contra hne
  -- whoever promotes the content is in both orderings
  have heafter : Occurs after e := by
    by_contra hnot
    exact h.left e he.mem hnot contentId hc he.promotes
  have hxbefore : Occurs before x := by
    by_contra hnot
    exact h.entered x hx.mem hnot contentId hc hx.promotes
  obtain ⟨e', he', heid⟩ := heafter.exists_mem
  obtain ⟨x', hx', hxid⟩ := hxbefore.exists_mem
  have hpe' : contentId ∈ e'.contentIds := (halike e he.mem e' he' heid.symm contentId).1 he.promotes
  have hpx' : contentId ∈ x'.contentIds := (halike x' hx' x hx.mem hxid contentId).2 hx.promotes
  -- so each of the two firsts stands in front of the other in its own ordering
  have hbefore : Precedes before e x' := by
    refine he.precedes hx' hpx' ?_
    rintro rfl
    exact hne hxid.symm
  have hafter : Precedes after x e' := by
    refine hx.precedes he' hpe' ?_
    rintro rfl
    exact hne heid
  have hx'after : Occurs after x' := by
    unfold Occurs
    rw [hxid]
    exact List.mem_map_of_mem hx.mem
  have hkept := h.order e he.mem x' hx' heafter hx'after
    ⟨contentId, hc, he.promotes, hpx'⟩ hbefore
  have hkept : Precedes after e' x := by
    unfold Precedes at hkept ⊢
    rwa [heid, ← hxid]
  exact hkept.asymm hnodup hafter

theorem exists_isFirst (he : e ∈ ordering) (hpromotes : contentId ∈ e.contentIds) :
    ∃ x, IsFirst contentId ordering x := by
  simp only [← winner_eq_some_iff_isFirst]
  unfold winner
  rw [← Option.isSome_iff_exists, List.find?_isSome]
  exact ⟨e, he, List.contains_iff_mem.2 hpromotes⟩

/-- A content whose conflicts are kept is not overtaken. -/
theorem KeepsConflicts.not_isOvertaken (h : KeepsConflicts contentIds before after)
    (hnodup : (after.map (·.environmentId)).Nodup) (halike : PromoteAlike before after)
    (hc : contentId ∈ contentIds) : ¬ IsOvertaken contentId before after := by
  rintro (⟨e, he, hnone⟩ | ⟨x, hx, hnone⟩)
  · have hafter : Occurs after e := by
      by_contra hnot
      exact h.left e he.mem hnot contentId hc he.promotes
    obtain ⟨e', he', heid⟩ := hafter.exists_mem
    obtain ⟨x, hx⟩ := exists_isFirst he'
      ((halike e he.mem e' he' heid.symm contentId).1 he.promotes)
    exact hnone x hx (h.isFirst_id_eq hnodup halike hc he hx)
  · have hbefore : Occurs before x := by
      by_contra hnot
      exact h.entered x hx.mem hnot contentId hc hx.promotes
    obtain ⟨x', hx', hxid⟩ := hbefore.exists_mem
    obtain ⟨e, he⟩ := exists_isFirst hx'
      ((halike x' hx' x hx.mem hxid contentId).2 hx.promotes)
    exact hnone e he (h.isFirst_id_eq hnodup halike hc he hx).symm

/-! ### Who is reported -/

variable {carried : List EntitlementContent} {entry : EntitlementContent}

/-- An entitlement is reported exactly if one of its contents is overtaken. -/
theorem mem_drifted_iff_isOvertaken (hentry : entry ∈ carried)
    (hsame : ∀ other ∈ carried, other.entitlementId = entry.entitlementId →
      other.contentIds = entry.contentIds) :
    entry.entitlementId ∈ driftedEntitlements carried before after ↔
      ∃ c ∈ entry.contentIds, IsOvertaken c before after := by
  simp only [mem_driftedEntitlements, winnerId_ne_iff]
  constructor
  · rintro ⟨other, hother, hid, c, hc, hovertaken⟩
    exact ⟨c, hsame other hother hid ▸ hc, hovertaken⟩
  · rintro ⟨c, hc, hovertaken⟩
    exact ⟨entry, hentry, rfl, c, hc, hovertaken⟩

/-- **Stability and detection.** An entitlement is not reported if two orderings differ only in what
does not concern its contents, and it is reported exactly if one of its contents has another first
environment than before, or has one in only one of the orderings. -/
theorem drifted_iff_of_reordering (hentry : entry ∈ carried)
    (hsame : ∀ other ∈ carried, other.entitlementId = entry.entitlementId →
      other.contentIds = entry.contentIds)
    (hnodup : (after.map (·.environmentId)).Nodup) (halike : PromoteAlike before after) :
    (KeepsConflicts entry.contentIds before after →
        entry.entitlementId ∉ driftedEntitlements carried before after) ∧
      (entry.entitlementId ∈ driftedEntitlements carried before after ↔
        ∃ c ∈ entry.contentIds, IsOvertaken c before after) := by
  have hiff : entry.entitlementId ∈ driftedEntitlements carried before after ↔
      ∃ c ∈ entry.contentIds, IsOvertaken c before after :=
    mem_drifted_iff_isOvertaken hentry hsame
  refine ⟨fun hkeeps => ?_, hiff⟩
  rw [hiff]
  rintro ⟨c, hc, hovertaken⟩
  exact hkeeps.not_isOvertaken hnodup halike hc hovertaken

namespace Reordering

/-- Two environments that promote a content, one that promotes another one, and one that promotes
neither. -/
def asBefore : List EnvironmentPromotions :=
  [⟨"dev", ["1000"]⟩, ⟨"qa", ["1000"]⟩, ⟨"prod", ["2000"]⟩, ⟨"lab", ["9000"]⟩]

/-- The last environment is left, and the one before moves to the front. -/
def harmless : List EnvironmentPromotions :=
  [⟨"prod", ["2000"]⟩, ⟨"dev", ["1000"]⟩, ⟨"qa", ["1000"]⟩]

/-- The second environment overtakes the first. -/
def overtaking : List EnvironmentPromotions :=
  [⟨"qa", ["1000"]⟩, ⟨"dev", ["1000"]⟩, ⟨"prod", ["2000"]⟩, ⟨"lab", ["9000"]⟩]

/-- An entitlement that carries what three of the environments promote. -/
def sample : EntitlementContent :=
  ⟨"ent-1", "consumer-1", ["1000", "2000"]⟩

theorem keepsConflicts_harmless : KeepsConflicts sample.contentIds asBefore harmless := by
  constructor
  · unfold Occurs
    decide
  · unfold Occurs
    decide
  · unfold Occurs Precedes
    decide

theorem promoteAlike_harmless : PromoteAlike asBefore harmless := by
  unfold PromoteAlike asBefore harmless
  simp

theorem promoteAlike_overtaking : PromoteAlike asBefore overtaking := by
  unfold PromoteAlike asBefore overtaking
  simp

end Reordering

open Reordering in
/-- One order leaves the sample entitlement alone, the other has it reported. -/
theorem drifted_sample_orderings :
    "ent-1" ∉ driftedEntitlements [sample] asBefore harmless ∧
      "ent-1" ∈ driftedEntitlements [sample] asBefore overtaking :=
  have hsame : ∀ other ∈ [sample], other.entitlementId = sample.entitlementId →
      other.contentIds = sample.contentIds := by decide
  have hcarried : sample ∈ [sample] := List.mem_singleton_self sample
  ⟨(drifted_iff_of_reordering hcarried hsame (by decide) promoteAlike_harmless).1
      keepsConflicts_harmless,
    (drifted_iff_of_reordering hcarried hsame (by decide) promoteAlike_overtaking).2.2
      ⟨"1000", by decide, winnerId_ne_iff.1 (by decide)⟩⟩

end EntitlementAuthority
