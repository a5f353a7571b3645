import EntitlementAuthority.Proofs.Issuance.Interleaving
import EntitlementAuthority.Proofs.Outcomes
import EntitlementAuthority.Proofs.Promotion.Change

/-!
# Records that agree on an entitlement

What the certificate of an entitlement shows depends on what the environments of its consumer say
about the contents that it grants, and on nothing else about environments. So a promotion concerns
those in the environment who carry the content, and a move concerns the one who moves.

* `promotionOf` — what environments say about a content.
* `entitlementProducts_congr` — records that agree on what is granted give the same products.
* `PromotionChange.promotionOf_eq` — a promotion says nothing about other environments and contents.
* `entitlementModels_promotion` — whose products a promotion leaves alone.
* `entitlementModels_moved`, `entitlementModels_moved_of_clean` — whose products a move leaves
  alone.
-/

namespace EntitlementAuthority

/-! ### What environments say about a content -/

/-- What an environment says about a content: its name, and its promotion of the content. -/
def Environment.word (e : Environment) (contentId : String) : String × Option Promotion :=
  (e.name, e.promotions.get? contentId)

/-- What environments say about a content is what the one says that wins. -/
def promotionOf (environments : List Environment) (contentId : String) :
    Option (String × Option Promotion) :=
  (winner environments contentId).map (·.word contentId)

theorem Environment.promotes_eq (e : Environment) (contentId : String) :
    PromotionScope.promotes e contentId = (e.word contentId).2.isSome := rfl

/-- Environments that say the same, one by one, say the same together. -/
theorem promotionOf_filterMap_congr {f f' : String → Option Environment} {ids : List String}
    {contentId : String}
    (h : ∀ id ∈ ids, (f' id).map (·.word contentId) = (f id).map (·.word contentId)) :
    promotionOf (ids.filterMap f') contentId = promotionOf (ids.filterMap f) contentId := by
  induction ids with
  | nil => rfl
  | cons id ids ih =>
    rw [List.forall_mem_cons] at h
    have ih := ih h.2
    cases hf : f id with
    | none =>
      rw [hf, Option.map_none, Option.map_eq_none_iff] at h
      rw [List.filterMap_cons_none h.1, List.filterMap_cons_none hf, ih]
    | some e =>
      rw [hf, Option.map_some, Option.map_eq_some_iff] at h
      obtain ⟨⟨e', he', hword⟩, -⟩ := h
      rw [List.filterMap_cons_some he', List.filterMap_cons_some hf]
      have hpromotes : PromotionScope.promotes e' contentId =
          PromotionScope.promotes e contentId := by
        rw [Environment.promotes_eq, Environment.promotes_eq, hword]
      unfold promotionOf winner at ih ⊢
      rw [List.find?_cons, List.find?_cons, hpromotes]
      split
      · exact congrArg some hword
      · exact ih

section Views

variable {config : Config} {d d' : Directory} {c c' : Consumer} {owner : Owner} {pool : Pool}

/-- Paths and marks follow from what the environments say. -/
theorem promoted_congr (template : PathTemplate) {es es' : List Environment} {content : Content}
    (h : promotionOf es' content.id = promotionOf es content.id) :
    (PromotedContent.mk template es').isPromoted content.id =
        (PromotedContent.mk template es).isPromoted content.id ∧
      (PromotedContent.mk template es').path content =
        (PromotedContent.mk template es).path content ∧
      (PromotedContent.mk template es').enabled? content.id =
        (PromotedContent.mk template es).enabled? content.id := by
  unfold promotionOf at h
  simp only [PromotedContent.isPromoted, PromotedContent.path, PromotedContent.enabled?,
    PromotedContent.winner]
  cases hw : winner es content.id with
  | none =>
    rw [hw, Option.map_none, Option.map_eq_none_iff] at h
    rw [h]
    exact ⟨rfl, rfl, rfl⟩
  | some e =>
    rw [hw, Option.map_some, Option.map_eq_some_iff] at h
    obtain ⟨e', he', hword⟩ := h
    obtain ⟨hname, hpromotion⟩ := Prod.mk.inj hword
    rw [he']
    refine ⟨rfl, ?_, ?_⟩
    · simp only [PathTemplate.build, PathTemplate.directory, PathTemplate.substituted, hname]
    · show (e'.promotions.get? content.id).bind _ = (e.promotions.get? content.id).bind _
      rw [hpromotion]

/-- Consumers that differ in their environments at most. -/
structure Consumer.SameBut (c c' : Consumer) : Prop where
  id : c'.id = c.id
  owner : c'.ownerId = c.ownerId
  kind : c'.kind = c.kind
  arch : c'.arch = c.arch
  placed : c'.environmentIds.isEmpty = c.environmentIds.isEmpty

theorem Consumer.SameBut.refl (c : Consumer) : c.SameBut c := ⟨rfl, rfl, rfl, rfl, rfl⟩

theorem Consumer.SameBut.grantedProducts_eq (h : c.SameBut c') (pool : Pool) :
    grantedProducts pool c' = grantedProducts pool c := by
  unfold grantedProducts
  rw [h.kind]

/-- Records that agree on what the environments say about a content show it alike. -/
theorem showsAlike_of_promotionOf_eq (hc : c.SameBut c')
    (hentitled : d'.entitledProductIds c.id = d.entitledProductIds c.id) {sku : Product}
    {pc : ProductContent}
    (h : promotionOf (d'.environmentsOf c') pc.content.id =
      promotionOf (d.environmentsOf c) pc.content.id) :
    ContentView.ShowsAlike (entitlementView config d' c' owner) (entitlementView config d c owner)
      sku pc := by
  obtain ⟨hpromoted, hpath, henabled⟩ := promoted_congr (config.template owner) h
  have hplaced : (entitlementView config d' c' owner).hasEnvironments =
      (entitlementView config d c owner).hasEnvironments := by
    simp only [ContentView.hasEnvironments, entitlementView, Option.any_some, hc.placed]
  have hshows : (entitlementView config d' c' owner).shows pc.content =
      (entitlementView config d c owner).shows pc.content := by
    simp only [ContentView.shows, ContentView.isEntitled, ContentView.isUnhidden,
      ContentView.fitsArch, hplaced]
    simp only [entitlementView, hpromoted, hc.id, hentitled, Option.bind_some, hc.arch]
  refine ⟨hshows, fun _ => ⟨hpath, ?_⟩⟩
  simp only [ContentView.contentEnabled, hplaced]
  simp only [entitlementView, henabled]
  rfl

/-- **Records that agree on what is granted give the same products.** -/
theorem entitlementProducts_congr (hc : c.SameBut c')
    (hentitled : d'.entitledProductIds c.id = d.entitledProductIds c.id)
    (h : ∀ x ∈ grantedContentIds pool c,
      promotionOf (d'.environmentsOf c') x = promotionOf (d.environmentsOf c) x) :
    entitlementProducts config d' c' owner pool = entitlementProducts config d c owner pool := by
  unfold entitlementProducts
  rw [hc.grantedProducts_eq]
  refine ContentView.createProducts_congr ?_
  intro p hp
  rw [ContentView.contentModels_eq_iff]
  intro pc hpc
  exact showsAlike_of_promotionOf_eq hc hentitled
    (h _ (mem_grantedContentIds (List.mem_filter.1 hp).1 hpc))

/-- Records that differ in consumers and environments at most. -/
structure Directory.SameGrants (d d' : Directory) : Prop where
  owners : d'.owners = d.owners
  pools : d'.pools = d.pools
  entitlements : d'.entitlements = d.entitlements

theorem Directory.SameGrants.entitledProductIds_eq (h : d.SameGrants d') (consumerId : String) :
    d'.entitledProductIds consumerId = d.entitledProductIds consumerId := by
  unfold entitledProductIds entitlementsOf
  rw [h.entitlements, h.pools]

/-- **Records that agree on what an entitlement grants** have the same certificate for it. -/
theorem entitlementModels_congr {id : String} {e : Entitlement} (hd : d.SameGrants d')
    (he : d.entitlements.get? id = some e) (hconsumer : d.consumers.get? e.consumerId = some c)
    (hconsumer' : d'.consumers.get? e.consumerId = some c') (hc : c.SameBut c')
    (h : ∀ pool, d.pools.get? e.poolId = some pool → ∀ x ∈ grantedContentIds pool c,
      promotionOf (d'.environmentsOf c') x = promotionOf (d.environmentsOf c) x) :
    entitlementModels config d' id = entitlementModels config d id := by
  have hread : ∀ {d : Directory} {c : Consumer}, d.entitlements.get? id = some e →
      d.consumers.get? e.consumerId = some c → entitlementModels config d id = (do
        let owner ← d.owner c.ownerId
        let pool ← d.pool e.poolId
        .ok (entitlementProducts config d c owner pool)) := by
    intro d c he hc
    unfold entitlementModels
    rw [Directory.entitlement_eq_ok.2 he, Outcome.ok_bind, Directory.consumer,
      Directory.find_eq_ok.2 hc, Outcome.ok_bind]
  have howners : d'.owner c.ownerId = d.owner c.ownerId := by
    unfold Directory.owner
    rw [hd.owners]
  have hpools : d'.pool e.poolId = d.pool e.poolId := by
    unfold Directory.pool
    rw [hd.pools]
  rw [hread he hconsumer, hread (hd.entitlements ▸ he) hconsumer', hc.owner, howners, hpools]
  cases d.owner c.ownerId with
  | error e => rw [except_error_bind, except_error_bind]
  | ok owner =>
    cases hpool : d.pool e.poolId with
    | error e => rw [Outcome.ok_bind, Outcome.ok_bind, except_error_bind, except_error_bind]
    | ok pool =>
      have hproducts : entitlementProducts config d' c' owner pool =
          entitlementProducts config d c owner pool :=
        entitlementProducts_congr hc (hd.entitledProductIds_eq c.id)
          (h pool (Directory.find_eq_ok.1 hpool))
      rw [Outcome.ok_bind, Outcome.ok_bind, Outcome.ok_bind, Outcome.ok_bind, hproducts]

end Views

/-! ### Promotions -/

namespace PromotionChange

variable {c : PromotionChange} {d : Directory} {consumer : Consumer} {contentId : String}

/-- A promotion says nothing about other contents. -/
theorem word_on (h : contentId ≠ c.contentId) (e : Environment) :
    (c.on e).word contentId = e.word contentId := by
  unfold on
  cases c.promotion with
  | some p =>
    refine congrArg (e.name, ·) ?_
    exact (Table.get?_insert _ _ _ _).trans (if_neg h.symm)
  | none =>
    dsimp only
    unfold Environment.demote
    split
    · refine congrArg (e.name, ·) ?_
      exact (Table.get?_erase _ _ _).trans (if_neg h.symm)
    · rfl

/-- The environment stays the same one. -/
theorem on_id (c : PromotionChange) (e : Environment) : (c.on e).id = e.id := by
  unfold on
  cases c.promotion with
  | some p => rfl
  | none =>
    dsimp only
    unfold Environment.demote
    split <;> rfl

theorem get?_apply (c : PromotionChange) (d : Directory) (id : String) :
    (c.change.apply d).environments.get? id =
      if c.environmentId = id then (d.environments.get? id).map c.on
      else d.environments.get? id := by
  have happly : c.change.apply d = (Directory.updateEnvironment c.environmentId c.on d).2 := rfl
  cases h : d.environments.get? c.environmentId with
  | none =>
    rw [happly, Directory.updateEnvironment_of_none c.on h]
    split
    · rename_i hid
      rw [← hid, h]
      rfl
    · rfl
  | some e =>
    rw [happly, Directory.updateEnvironment_of_some c.on h]
    refine (Table.get?_insert _ _ _ _).trans ?_
    split
    · rename_i hid
      rw [← hid, h]
      rfl
    · rfl

/-- **A promotion says nothing about other environments and other contents.** -/
theorem promotionOf_eq
    (h : c.environmentId ∉ consumer.environmentIds ∨ contentId ≠ c.contentId) :
    promotionOf ((c.change.apply d).environmentsOf consumer) contentId =
      promotionOf (d.environmentsOf consumer) contentId := by
  refine promotionOf_filterMap_congr fun id hid => ?_
  show ((c.change.apply d).environments.get? id).map _ = _
  rw [get?_apply]
  split
  · rename_i henvironment
    have hother : contentId ≠ c.contentId := h.resolve_left (· (henvironment ▸ hid))
    rw [Option.map_map]
    exact congrArg (Option.map · _) (funext (word_on hother))
  · rfl

/-- A promotion leaves all but the environments alone. -/
theorem sameGrants (c : PromotionChange) (d : Directory) :
    d.SameGrants (c.change.apply d) ∧ (c.change.apply d).consumers = d.consumers := by
  obtain ⟨environments, hd, -⟩ := c.apply_change d
  rw [hd]
  exact ⟨⟨rfl, rfl, rfl⟩, rfl⟩

end PromotionChange

section Models

variable {config : Config} {d : Directory} {id : String} {e : Entitlement} {consumer : Consumer}

/-- **Whose products a promotion leaves alone**: those who are not in the environment, and those who
do not carry the content. -/
theorem entitlementModels_promotion {c : PromotionChange} (he : d.entitlements.get? id = some e)
    (hconsumer : d.consumers.get? e.consumerId = some consumer)
    (h : c.environmentId ∈ consumer.environmentIds → ∀ pool, d.pools.get? e.poolId = some pool →
      c.contentId ∉ grantedContentIds pool consumer) :
    entitlementModels config (c.change.apply d) id = entitlementModels config d id := by
  obtain ⟨hgrants, hconsumers⟩ := c.sameGrants d
  refine entitlementModels_congr hgrants he hconsumer (hconsumers ▸ hconsumer) (.refl consumer) ?_
  intro pool hpool x hx
  refine PromotionChange.promotionOf_eq (Classical.or_iff_not_imp_left.2 fun hin => ?_)
  rintro rfl
  exact h (Decidable.not_not.1 hin) pool hpool hx

/-! ### Moves -/

/-- A consumer that moves to other environments. -/
def Consumer.movedTo (c : Consumer) (environmentIds : List String) : Consumer :=
  { c with environmentIds }

/-- The move as a change of the records. -/
def moveConsumer (consumerId : String) (environmentIds : List String) : DirectoryChange :=
  .updateConsumer consumerId (·.movedTo environmentIds)

theorem moveConsumer_result (consumerId : String) (environmentIds : List String) (d : Directory) :
    ∃ consumers, (moveConsumer consumerId environmentIds).apply d = { d with consumers } ∧
      ∀ id, consumers.get? id = if consumerId = id then
        (d.consumers.get? id).map (·.movedTo environmentIds) else d.consumers.get? id := by
  have happly : (moveConsumer consumerId environmentIds).apply d =
      (Directory.updateConsumer consumerId (·.movedTo environmentIds) d).2 := rfl
  unfold Directory.updateConsumer at happly
  cases h : d.consumers.get? consumerId with
  | none =>
    have hread : d.consumer consumerId = .error (.notFound ("consumer" ++ " " ++ consumerId)) := by
      unfold Directory.consumer Directory.find
      rw [h]
    rw [Request.bind_error (by rw [Request.read_apply, hread])] at happly
    refine ⟨d.consumers, happly, fun id => ?_⟩
    split
    · rename_i hid
      rw [← hid, h]
      rfl
    · rfl
  | some c =>
    have hread : d.consumer consumerId = .ok c := Directory.find_eq_ok.2 h
    rw [Request.bind_ok (by rw [Request.read_apply, hread])] at happly
    refine ⟨_, happly, fun id => ?_⟩
    rw [Table.get?_insert]
    split
    · rename_i hid
      rw [← hid, h]
      rfl
    · rfl

theorem moveConsumer_ok {consumerId : String} (h : d.consumers.get? consumerId = some consumer)
    (environmentIds : List String) : (moveConsumer consumerId environmentIds).request d =
      (.ok (), (moveConsumer consumerId environmentIds).apply d) := by
  have hread : d.consumer consumerId = .ok consumer := Directory.find_eq_ok.2 h
  have hupdate : (moveConsumer consumerId environmentIds).request d = (.ok (), _) :=
    Request.bind_ok (by rw [Request.read_apply, hread])
  unfold DirectoryChange.apply
  rw [hupdate]

/-- Whoever does not move keeps its products. -/
theorem entitlementModels_moved {consumerId : String} {environmentIds : List String}
    (he : d.entitlements.get? id = some e)
    (hconsumer : d.consumers.get? e.consumerId = some consumer) (h : e.consumerId ≠ consumerId) :
    entitlementModels config ((moveConsumer consumerId environmentIds).apply d) id =
      entitlementModels config d id := by
  obtain ⟨consumers, hd, hget⟩ := moveConsumer_result consumerId environmentIds d
  rw [hd]
  refine entitlementModels_congr ⟨rfl, rfl, rfl⟩ he hconsumer ?_ (.refl consumer) fun _ _ _ _ => rfl
  exact (hget e.consumerId).trans ((if_neg h.symm).trans hconsumer)

/-- Records stand under their ids. -/
structure Directory.Keyed (d : Directory) : Prop where
  consumers : ∀ id c, d.consumers.get? id = some c → c.id = id
  environments : ∀ id e, d.environments.get? id = some e → e.id = id

theorem Directory.Keyed.knows (h : d.Keyed) (ids : List String) :
    d.Knows (ids.filterMap d.environments.get?) := by
  intro e he
  obtain ⟨id, -, hid⟩ := List.mem_filterMap.1 he
  rw [h.environments id e hid]
  exact hid

/-- **Whoever moves keeps the products** of an entitlement if each of its contents keeps the id of
its winner, and if it is in environments before and after. -/
theorem entitlementModels_moved_of_clean {environmentIds : List String} (hd : d.Keyed)
    (he : d.entitlements.get? id = some e)
    (hconsumer : d.consumers.get? e.consumerId = some consumer)
    (hbefore : consumer.environmentIds ≠ []) (hafter : environmentIds ≠ [])
    (h : ∀ pool, d.pools.get? e.poolId = some pool → ∀ x ∈ grantedContentIds pool consumer,
      winnerId (d.environmentsOf consumer) x =
        winnerId (environmentIds.filterMap d.environments.get?) x) :
    entitlementModels config ((moveConsumer e.consumerId environmentIds).apply d) id =
      entitlementModels config d id := by
  obtain ⟨consumers, hmoved, hget⟩ := moveConsumer_result e.consumerId environmentIds d
  have hsame : consumer.SameBut (consumer.movedTo environmentIds) := by
    refine ⟨rfl, rfl, rfl, rfl, ?_⟩
    rw [List.isEmpty_eq_false_iff.2 hbefore]
    exact List.isEmpty_eq_false_iff.2 hafter
  have hconsumer' : consumers.get? e.consumerId = some (consumer.movedTo environmentIds) := by
    rw [hget, if_pos rfl, hconsumer]
    rfl
  rw [hmoved]
  refine entitlementModels_congr ⟨rfl, rfl, rfl⟩ he hconsumer hconsumer' hsame ?_
  intro pool hpool x hx
  have hwinner := winner_eq_of_winnerId_eq (hd.knows consumer.environmentIds)
    (hd.knows environmentIds) (h pool hpool x hx)
  unfold promotionOf
  exact congrArg (Option.map _) hwinner.symm

end Models

end EntitlementAuthority
