import EntitlementAuthority.Issuance.Sample
import EntitlementAuthority.Proofs.Body.Views

/-!
# Drift and what certificates show

An entitlement that a change of environments does not report as drifted keeps the winner of each
of its contents. The theorems here say when that keeps its products too.

* `winner_eq_of_winnerId_eq` — in one directory, the id of the winner determines the winner.
* `showsAlike_of_winner_eq`, `shows_eq_false_of_winner_none` — what the winner decides.
* `entitlementProducts_eq_iff_of_clean` — the products of an entitlement that is not reported
  change only if the consumer enters its first environment or leaves its last one.
-/

namespace EntitlementAuthority

/-- A consumer that is in other environments. -/
def Consumer.within (c : Consumer) (environments : List Environment) : Consumer :=
  { c with environmentIds := environments.map (·.id) }

/-- The environments are those that the directory has under their ids. -/
def Directory.Knows (d : Directory) (environments : List Environment) : Prop :=
  ∀ e ∈ environments, d.environments.get? e.id = some e

/-- The consumer enters its first environment or leaves its last one. -/
def EntersOrLeaves (before after : List Environment) : Prop :=
  (before = [] ∧ after ≠ []) ∨ (before ≠ [] ∧ after = [])

theorem Directory.environmentsOf_within {d : Directory} {environments : List Environment}
    (h : d.Knows environments) (c : Consumer) :
    d.environmentsOf (c.within environments) = environments := by
  unfold Directory.environmentsOf Consumer.within
  induction environments with
  | nil => rfl
  | cons e es ih =>
    have he := h e List.mem_cons_self
    rw [List.map_cons, List.filterMap_cons_some he]
    rw [ih fun e' he' => h e' (List.mem_cons_of_mem _ he')]

/-! ### Winners -/

/-- Environments and their reductions have the same winner. -/
theorem winnerId_map_reduced (environments : List Environment) (contentId : String) :
    winnerId (environments.map Environment.reduced) contentId =
      winnerId environments contentId := by
  rw [winnerId, winner, List.find?_map, Option.map_map]
  simp only [Function.comp_def, promotes_reduced]
  rfl

/-- Where ids stand for one environment each, the id of the winner determines the winner. -/
theorem winner_eq_of_winnerId_eq {d : Directory} {before after : List Environment}
    (hb : d.Knows before) (ha : d.Knows after) {contentId : String}
    (h : winnerId before contentId = winnerId after contentId) :
    winner before contentId = winner after contentId := by
  unfold winnerId at h
  cases hwb : winner before contentId with
  | none =>
    rw [hwb, Option.map_none] at h
    exact (Option.map_eq_none_iff.1 h.symm).symm
  | some e =>
    rw [hwb, Option.map_some] at h
    obtain ⟨e', hwa, hid⟩ := Option.map_eq_some_iff.1 h.symm
    have he := hb e (mem_of_winner hwb)
    have he' := ha e' (mem_of_winner hwa)
    have hid : e'.id = e.id := hid
    rw [hid, he] at he'
    rw [hwa, Option.some.inj he']

/-- The contents of an entitlement that is not reported keep their winner. -/
theorem winnerId_eq_of_clean {carried : List EntitlementContent} {entry : EntitlementContent}
    (hentry : entry ∈ carried) {before after : List Environment}
    (hclean : entry.entitlementId ∉ driftedEntitlements carried
      (before.map Environment.reduced) (after.map Environment.reduced))
    {contentId : String} (hc : contentId ∈ entry.contentIds) :
    winnerId before contentId = winnerId after contentId := by
  refine Decidable.byContradiction ?_
  intro hne
  apply hclean
  rw [mem_driftedEntitlements]
  refine ⟨entry, hentry, rfl, contentId, hc, ?_⟩
  rw [winnerId_map_reduced, winnerId_map_reduced]
  exact hne

/-! ### What the winner decides -/

section Views

variable {config : Config} {d : Directory} {c : Consumer} {owner : Owner}
variable {before after : List Environment}

theorem hasEnvironments_within (environments : List Environment) :
    (entitlementView config d (c.within environments) owner).hasEnvironments =
      !environments.isEmpty := by
  simp [entitlementView, ContentView.hasEnvironments, Consumer.within]

theorem promotedWinner_within (h : d.Knows before) (contentId : String) :
    (entitlementView config d (c.within before) owner).promoted.winner contentId =
      winner before contentId := by
  simp only [entitlementView, PromotedContent.winner, Directory.environmentsOf_within h]

/-- Without filtering, or if the consumer neither enters its first environment nor leaves its last
one, a content that keeps its winner is shown alike. -/
theorem showsAlike_of_winner_eq (hb : d.Knows before) (ha : d.Knows after) {sku : Product}
    {pc : ProductContent} (hw : winner before pc.content.id = winner after pc.content.id)
    (hscope : config.content.environmentFiltering = true → ¬ EntersOrLeaves before after) :
    ContentView.ShowsAlike (entitlementView config d (c.within before) owner)
      (entitlementView config d (c.within after) owner) sku pc := by
  have hwinner :
      (entitlementView config d (c.within before) owner).promoted.winner pc.content.id =
        (entitlementView config d (c.within after) owner).promoted.winner pc.content.id := by
    rw [promotedWinner_within hb, promotedWinner_within ha, hw]
  have hscoped : (config.content.environmentFiltering && !before.isEmpty) =
      (config.content.environmentFiltering && !after.isEmpty) := by
    cases hf : config.content.environmentFiltering with
    | false => rfl
    | true =>
      have hstays := hscope hf
      cases before <;> cases after <;> simp_all [EntersOrLeaves]
  have hhidden : (entitlementView config d (c.within before) owner).isUnhidden pc.content =
      (entitlementView config d (c.within after) owner).isUnhidden pc.content := by
    simp only [ContentView.isUnhidden, hasEnvironments_within, PromotedContent.isPromoted, hwinner]
    have hnot := congrArg (!·) hscoped
    simp only [Bool.not_and, Bool.not_not] at hnot
    simp only [entitlementView, Bool.false_or, Bool.not_not, hnot]
  refine ⟨?_, ?_⟩
  · rw [ContentView.shows, ContentView.shows, hhidden]
    rfl
  · intro _
    refine ⟨?_, ?_⟩
    · simp only [PromotedContent.path, hwinner]
      rfl
    · simp only [ContentView.contentEnabled, hasEnvironments_within, PromotedContent.enabled?,
        hwinner]
      simp only [entitlementView, hscoped]
      rfl

/-- With filtering, a consumer in environments does not see what none of them promotes. -/
theorem shows_eq_false_of_winner_none (ha : d.Knows after) (hne : after ≠ [])
    (hf : config.content.environmentFiltering = true) {content : Content}
    (hw : winner after content.id = none) :
    (entitlementView config d (c.within after) owner).shows content = false := by
  have hempty : after.isEmpty = false := List.isEmpty_eq_false_iff.2 hne
  have hhidden : (entitlementView config d (c.within after) owner).isUnhidden content = false := by
    simp only [ContentView.isUnhidden, hasEnvironments_within, PromotedContent.isPromoted,
      promotedWinner_within ha, hw, hempty]
    simp [entitlementView, hf]
  rw [ContentView.shows, hhidden, Bool.and_false, Bool.false_and]

end Views

/-! ### A consumer that moves -/

namespace MovingConsumer

/-- An environment that promotes nothing. -/
def empty : Environment where
  id := "empty"
  ownerId := "sample-owner"
  name := "Empty"
  promotions := Table.empty
  contentUpdated := ⟨0, 0⟩

/-- An environment that promotes the content of the sample. -/
def dev : Environment :=
  { empty with id := "dev", name := "Dev" }.promote "1000" none ⟨0, 0⟩

/-- The consumer of the sample, which is in no environment. -/
def consumer : Consumer :=
  Sample.consumer "sample-uuid" false ⟨0, 0⟩

/-- The pool of the sample, with one content. -/
def pool : Pool :=
  Sample.pool 1 ⟨0, 0⟩

/-- The records of the sample and the two environments. -/
def directory : Directory :=
  (Sample.directory "sample-uuid" 1 false ⟨0, 0⟩).addEnvironment empty |>.addEnvironment dev

/-- The products of the sample entitlement while the consumer is in some environments. -/
def products (environments : List Environment) : List ProductModel :=
  entitlementProducts {} directory (consumer.within environments) (Sample.owner ⟨0, 0⟩) pool

/-- Whether moving between environments has the sample entitlement reported. -/
def IsReported (before after : List Environment) : Prop :=
  Sample.entitlement.id ∈
    driftedEntitlements [⟨Sample.entitlement.id, consumer.id, grantedContentIds pool consumer⟩]
      (before.map Environment.reduced) (after.map Environment.reduced)

theorem knows {environments : List Environment} (h : ∀ e ∈ environments, e = empty ∨ e = dev) :
    directory.Knows environments := by
  intro e he
  rcases h e he with rfl | rfl
  · rfl
  · rfl

end MovingConsumer

/-! ### Entitlements that are not reported -/

theorem mem_grantedContentIds {pool : Pool} {c : Consumer} {p : Product}
    (hp : p ∈ grantedProducts pool c) {pc : ProductContent}
    (hpc : pc ∈ firstContents [] p.contents) : pc.content.id ∈ grantedContentIds pool c :=
  mem_grantedContentIds_iff.2 ⟨p, hp, mem_ownContentIds_of_mem_firstContents hpc⟩

section Clean

variable {config : Config} {d : Directory} {c : Consumer} {owner : Owner} {pool : Pool}
variable {before after : List Environment}

/-- If every content keeps its winner, and the consumer neither enters its first environment nor
leaves its last one, then the products stay the same. -/
theorem entitlementProducts_eq (hb : d.Knows before) (ha : d.Knows after)
    (hw : ∀ x ∈ grantedContentIds pool c, winner before x = winner after x)
    (hscope : config.content.environmentFiltering = true → ¬ EntersOrLeaves before after) :
    entitlementProducts config d (c.within before) owner pool =
      entitlementProducts config d (c.within after) owner pool := by
  refine ContentView.createProducts_congr ?_
  intro p hp
  rw [ContentView.contentModels_eq_iff]
  intro pc hpc
  exact showsAlike_of_winner_eq hb ha (hw _ (mem_grantedContentIds (List.mem_filter.1 hp).1 hpc))
    hscope

/-- In environments that promote none of its contents, an entitlement has bare products. -/
theorem entitlementProducts_eq_bare (ha : d.Knows after) (hne : after ≠ [])
    (hf : config.content.environmentFiltering = true)
    (hw : ∀ x ∈ grantedContentIds pool c, winner after x = none) :
    entitlementProducts config d (c.within after) owner pool =
      ((grantedProducts pool c).filter Product.isEngineering).map (productModel · (some pool)) := by
  refine ContentView.createProducts_eq_bare ?_
  intro p hp
  refine ContentView.contentModels_eq_nil ?_
  intro pc hpc
  exact shows_eq_false_of_winner_none ha hne hf
    (hw _ (mem_grantedContentIds (List.mem_filter.1 hp).1 hpc))

/-- A consumer that enters environments that promote nothing for it keeps its products exactly
if they had no contents. -/
theorem entitlementProducts_entered_iff (ha : d.Knows after) (hne : after ≠ [])
    (hf : config.content.environmentFiltering = true)
    (hw : ∀ x ∈ grantedContentIds pool c, winner after x = none) :
    entitlementProducts config d (c.within []) owner pool =
        entitlementProducts config d (c.within after) owner pool ↔
      ∀ m ∈ entitlementProducts config d (c.within []) owner pool, m.contents = [] := by
  rw [entitlementProducts_eq_bare ha hne hf hw]
  exact ContentView.createProducts_eq_bare_iff

/-- **What an entitlement that is not reported keeps.** Its products stay the same, unless content
is filtered by environment, the consumer enters its first environment or leaves its last one, and
some content is shown outside of environments. -/
theorem entitlementProducts_eq_iff_of_clean {carried : List EntitlementContent} {id : String}
    (hb : d.Knows before) (ha : d.Knows after)
    (hentry : ⟨id, c.id, grantedContentIds pool c⟩ ∈ carried)
    (hclean : id ∉ driftedEntitlements carried
      (before.map Environment.reduced) (after.map Environment.reduced)) :
    entitlementProducts config d (c.within before) owner pool =
        entitlementProducts config d (c.within after) owner pool ↔
      ¬ (config.content.environmentFiltering = true ∧ EntersOrLeaves before after ∧
          ∃ m ∈ entitlementProducts config d (c.within []) owner pool, m.contents ≠ []) := by
  have hw : ∀ x ∈ grantedContentIds pool c, winner before x = winner after x := by
    intro x hx
    exact winner_eq_of_winnerId_eq hb ha (winnerId_eq_of_clean hentry hclean hx)
  by_cases hscope : config.content.environmentFiltering = true → ¬ EntersOrLeaves before after
  · refine iff_of_true (entitlementProducts_eq hb ha hw hscope) ?_
    rintro ⟨hf, hmoved, -⟩
    exact hscope hf hmoved
  · have hmoved : config.content.environmentFiltering = true ∧ EntersOrLeaves before after := by
      simpa using hscope
    -- outside of environments the products are bare exactly if nothing is lost or gained
    have hbare : ¬ (config.content.environmentFiltering = true ∧ EntersOrLeaves before after ∧
          ∃ m ∈ entitlementProducts config d (c.within []) owner pool, m.contents ≠ []) ↔
        ∀ m ∈ entitlementProducts config d (c.within []) owner pool, m.contents = [] := by
      simp [hmoved.1, hmoved.2]
    rw [hbare]
    obtain ⟨hf, ⟨rfl, hne⟩ | ⟨hne, rfl⟩⟩ := hmoved
    · exact entitlementProducts_entered_iff ha hne hf fun x hx => (hw x hx).symm
    · rw [eq_comm]
      exact entitlementProducts_entered_iff hb hne hf hw

end Clean

open MovingConsumer

theorem entitlementProducts_eq_iff_of_clean_staying :
    (directory.Knows [dev] ∧ directory.Knows [dev, empty] ∧ ¬ IsReported [dev] [dev, empty]) ∧
      products [dev] = products [dev, empty] := by
  have hb : directory.Knows [dev] := knows (by simp)
  have ha : directory.Knows [dev, empty] := knows (by simp)
  have hclean : ¬ IsReported [dev] [dev, empty] := by
    unfold IsReported
    decide
  refine ⟨⟨hb, ha, hclean⟩, ?_⟩
  refine (entitlementProducts_eq_iff_of_clean hb ha List.mem_cons_self hclean).2 ?_
  rintro ⟨-, hmoved, -⟩
  simp [EntersOrLeaves] at hmoved

/-- An entitlement is not reported when its consumer enters an environment that promotes none of
its contents, but it then shows none of them. -/
theorem products_change_though_clean :
    directory.Knows [] ∧ directory.Knows [empty] ∧ ¬ IsReported [] [empty] ∧
      products [] ≠ products [empty] := by
  refine ⟨knows (by simp), knows (by simp), ?_, ?_⟩
  · unfold IsReported
    decide
  · decide

end EntitlementAuthority
