import EntitlementAuthority.Proofs.Issuance.Flagging
import EntitlementAuthority.Proofs.Issuance.OneCertificate
import EntitlementAuthority.Proofs.Promotion.Agreement

/-!
# Certificates that stay up to date

Environments promote contents and take promotions back, consumers move between environments, and
each time the entitlements are flagged whose certificates may be outdated. Certificates are issued
in between, at any instant.

* `Upkeep`, `Upkeep.request` — the steps.
* `Authority.UpToDate` — the certificates of entitlements that are not flagged show what the records
  say.
* `Authority.upToDate_flagAll_iff` — when flags make up for a change of the records.
* `Authority.upToDate_iff_findsPools` — runs keep certificates up to date as long as the pools of
  those concerned are found, and a step that misses one does only if it changes nothing that counts.
-/

namespace EntitlementAuthority

/-! ### Parts of requests -/

section Parts

variable {α : Type} {a : Authority} {d : Directory}

theorem snd_discard (r : Request Authority α) (a : Authority) :
    ((r >>= fun _ => pure () : Request Authority Unit) a).2 = (r a).2 := by
  rw [Request.bind_apply]
  split <;> rename_i h <;> rw [h]
  rfl

theorem onDirectory_ok {r : Request Directory α} {x : α} (h : r a.directory = (.ok x, d)) :
    Authority.onDirectory r a = (.ok x, { a with directory := d }) :=
  Request.within_ok h

theorem onDirectory_error {r : Request Directory α} {e : Fault}
    (h : r a.directory = (.error e, d)) :
    Authority.onDirectory r a = (.error e, { a with directory := d }) := by
  rw [Authority.onDirectory, Request.within_apply, h]

end Parts

/-! ### Steps -/

/-- A step of a run. -/
inductive Upkeep where
  /-- A promotion is made or taken back, and those who may see the content are looked after. -/
  | promotion (c : PromotionChange)
  /-- A consumer moves to other environments, and its entitlements are looked after. -/
  | move (consumerId : String) (environmentIds : List String)
  | generate (entitlementId : String)

namespace Upkeep

/-- The step as a request. -/
def request (now : Instant) : Upkeep → Request Authority Unit
  | promotion c => do
    Authority.onDirectory c.change.request
    let _ ← Authority.regenerateForEnvironment c.environmentId [c.contentId] true now
    pure ()
  | move consumerId environmentIds => do
    let consumer ← Request.read fun a => a.directory.consumer consumerId
    let before ← Request.read fun a => Authority.promotionsOf a.directory consumer.environmentIds
    Authority.onDirectory (moveConsumer consumerId environmentIds).request
    let after ← Request.read fun a => Authority.promotionsOf a.directory environmentIds
    let _ ← Authority.flagDrifted [consumerId] before after
    pure ()
  | generate entitlementId => do
    let _ ← Authority.generate (.entitlement entitlementId) now
    pure ()

/-- The state that a step leaves behind, whether it fails or not. -/
def after (now : Instant) (u : Upkeep) (a : Authority) : Authority :=
  (u.request now a).2

theorem after_promotion (now : Instant) (c : PromotionChange) (a : Authority) :
    (promotion c).after now a = ((Authority.onDirectory c.change.request >>= fun _ =>
      Authority.regenerateForEnvironment c.environmentId [c.contentId] true now >>= fun _ =>
        pure () : Request Authority Unit) a).2 := rfl

theorem after_move (now : Instant) (consumerId : String) (environmentIds : List String)
    (a : Authority) : (move consumerId environmentIds).after now a =
      ((Request.read (fun a => a.directory.consumer consumerId) >>= fun consumer =>
        Request.read (fun a => Authority.promotionsOf a.directory consumer.environmentIds) >>=
          fun before => Authority.onDirectory (moveConsumer consumerId environmentIds).request >>=
            fun _ => Request.read (fun a => Authority.promotionsOf a.directory environmentIds) >>=
              fun after => Authority.flagDrifted [consumerId] before after >>= fun _ =>
                pure () : Request Authority Unit) a).2 := rfl

/-- A consumer that moves is in environments before and after, and they exist. -/
def Allowed (a : Authority) : Upkeep → Prop
  | move consumerId environmentIds => ∃ c, a.directory.consumers.get? consumerId = some c ∧
      c.environmentIds ≠ [] ∧ environmentIds ≠ [] ∧
      ∀ id ∈ c.environmentIds ++ environmentIds, ∃ e, a.directory.environments.get? id = some e
  | _ => True

/-- The pools are there of all entitlements that are looked through. -/
def FindsPools (a : Authority) : Upkeep → Prop
  | promotion c =>
    ∀ consumer ∈ a.directory.consumersIn c.environmentId, a.directory.FindsPools consumer.id
  | move consumerId _ => a.directory.FindsPools consumerId
  | generate _ => True

end Upkeep

namespace Authority

variable {a b : Authority} {d : Directory} {id : String} {ids : List String} {now : Instant}

/-- Each entitlement with a certificate is flagged, or the certificate shows what the records
say. -/
def UpToDate (a : Authority) : Prop :=
  ∀ id c, a.current? (.entitlement id) = some c → IsFlagged a id ∨ ShowsRecords a id

/-! ### Flags that make up for changes -/

/-- A certificate that shows what the records say before and after shows the same products. -/
theorem ShowsRecords.models_eq (ha : ShowsRecords a id) (hb : ShowsRecords b id)
    (hsame : b.current? (.entitlement id) = a.current? (.entitlement id)) :
    b.models id = a.models id := by
  obtain ⟨stored, body, hstored, hbody, hshown⟩ := ha
  obtain ⟨stored', body', hstored', hbody', hshown'⟩ := hb
  obtain rfl : stored = stored' := Option.some.inj (hstored.symm.trans (hsame.symm.trans hstored'))
  obtain rfl : body = body' := Option.some.inj (hbody.symm.trans hbody')
  rw [hshown', hshown]

/-- **When flags make up for a change**: every other certificate that counts has to show the same
products as before. -/
theorem upToDate_flagAll_iff (ha : a.UpToDate) (hd : d.entitlements = a.directory.entitlements) :
    UpToDate { a with directory := d.flagAll ids } ↔
      ∀ id c, a.current? (.entitlement id) = some c → ¬ IsFlagged a id → id ∉ ids →
        entitlementModels a.config d id = a.models id := by
  have hflag : ∀ id, IsFlagged { a with directory := d.flagAll ids } id ↔
      ∃ e, a.directory.entitlements.get? id = some e ∧ (id ∈ ids ∨ e.dirty = true) := by
    intro id
    rw [isFlagged_flagAll, hd]
  have hmodels : ∀ id, Authority.models { a with directory := d.flagAll ids } id =
      entitlementModels a.config d id := fun id => entitlementModels_flagAll a.config ids d id
  constructor
  · intro h id c hc hclean hnot
    -- it showed the products of before, so if it shows those of now, they are the same
    rcases h id c hc with hflagged | hshows
    · obtain ⟨e, he, hdirty⟩ := (hflag id).1 hflagged
      exact absurd ⟨e, he, hdirty.resolve_left hnot⟩ hclean
    · rw [← hmodels]
      exact ((ha id c hc).resolve_left hclean).models_eq hshows rfl
  · intro h id c hc
    rw [hflag]
    by_cases hclean : IsFlagged a id
    · obtain ⟨e, he, hdirty⟩ := hclean
      exact .inl ⟨e, he, .inr hdirty⟩
    · obtain ⟨stored, body, hstored, hbody, hshown⟩ := (ha id c hc).resolve_left hclean
      by_cases hmem : id ∈ ids
      · obtain ⟨e, he, -⟩ := Outcome.bind_eq_ok.1 hshown
        exact .inl ⟨e, Directory.entitlement_eq_ok.1 he, .inl hmem⟩
      · refine .inr ⟨stored, body, hstored, hbody, ?_⟩
        rw [hmodels, h id c hc hclean hmem, hshown]

/-- What a step does that only flags: it flags nothing if a pool is missing, and otherwise
everything whose products change. -/
structure Flags (u : Upkeep) (a : Authority) (d : Directory) (ids : List String) : Prop where
  entitlements : d.entitlements = a.directory.entitlements
  keyed : d.Keyed
  nothing : ¬ u.FindsPools a → ids = []
  others : u.FindsPools a → ∀ id, id ∉ ids → (∃ ms, a.models id = .ok ms) →
    entitlementModels a.config d id = a.models id

theorem Flags.of_missing {u : Upkeep} (hentitlements : d.entitlements = a.directory.entitlements)
    (hkeyed : d.Keyed) (h : ¬ u.FindsPools a) : Flags u a d [] :=
  ⟨hentitlements, hkeyed, fun _ => rfl, fun hpools => absurd hpools h⟩

/-- **After a step that only flags**, the certificates are up to date exactly if the pools were
found or nothing has changed that counts. -/
theorem Flags.upToDate_iff {u : Upkeep} (h : Flags u a d ids) (ha : a.UpToDate) :
    UpToDate { a with directory := d.flagAll ids } ↔ u.FindsPools a ∨
      ∀ id c, a.current? (.entitlement id) = some c → ¬ IsFlagged a id →
        Authority.models { a with directory := d.flagAll ids } id = a.models id := by
  have hmodels : ∀ id, Authority.models { a with directory := d.flagAll ids } id =
      entitlementModels a.config d id := fun id => entitlementModels_flagAll a.config ids d id
  simp only [hmodels]
  rw [upToDate_flagAll_iff ha h.entitlements]
  by_cases hpools : u.FindsPools a
  · refine iff_of_true ?_ (.inl hpools)
    intro id c hc hclean hnot
    obtain ⟨-, body, -, -, hshown⟩ := (ha id c hc).resolve_left hclean
    exact h.others hpools id hnot ⟨body.products, hshown⟩
  · rw [h.nothing hpools, or_iff_right hpools]
    exact forall₂_congr fun id c => by simp

/-! ### Promotions -/

theorem entitlement_of_models {config : Config} {ms : List ProductModel}
    (h : entitlementModels config d id = .ok ms) : ∃ e consumer,
      d.entitlements.get? id = some e ∧ d.consumers.get? e.consumerId = some consumer := by
  obtain ⟨e, he, h⟩ := Outcome.bind_eq_ok.1 h
  obtain ⟨consumer, hconsumer, -⟩ := Outcome.bind_eq_ok.1 h
  exact ⟨e, consumer, Directory.entitlement_eq_ok.1 he, Directory.find_eq_ok.1 hconsumer⟩

/-- Those whom a promotion does not flag keep their products. -/
theorem models_of_not_affected {c : PromotionChange} (ha : a.Consistent)
    (hkeyed : a.directory.Keyed)
    (h : affectedBy (c.change.apply a.directory) c.environmentId [c.contentId] = .ok ids)
    (hnot : id ∉ ids) {ms : List ProductModel} (hms : a.models id = .ok ms) :
    entitlementModels a.config (c.change.apply a.directory) id = a.models id := by
  obtain ⟨e, consumer, he, hconsumer⟩ := entitlement_of_models hms
  obtain ⟨hgrants, hconsumers⟩ := c.sameGrants a.directory
  refine entitlementModels_promotion he hconsumer fun hin pool hpool hmem => hnot ?_
  rw [mem_affectedBy h]
  refine ⟨consumer, Directory.mem_consumersIn.2 ⟨⟨_, hconsumers ▸ hconsumer⟩, hin⟩, e, ?_,
    ha.entitlements id e he, pool, hgrants.pools ▸ hpool, c.contentId, hmem,
    List.mem_singleton_self _⟩
  rw [Directory.mem_entitlementsOf, hgrants.entitlements, hkeyed.consumers _ _ hconsumer]
  exact ⟨⟨id, he⟩, rfl⟩

theorem exists_affectedBy_promotion_iff (a : Authority) (c : PromotionChange) :
    (∃ ids, affectedBy (c.change.apply a.directory) c.environmentId [c.contentId] = .ok ids) ↔
      (Upkeep.promotion c).FindsPools a := by
  obtain ⟨hgrants, hconsumers⟩ := c.sameGrants a.directory
  rw [exists_affectedBy_iff]
  unfold Upkeep.FindsPools Directory.FindsPools Directory.consumersIn Directory.entitlementsOf
  rw [hconsumers, hgrants.entitlements, hgrants.pools]

theorem keyed_promotion (h : d.Keyed) (c : PromotionChange) : (c.change.apply d).Keyed := by
  obtain ⟨-, hconsumers⟩ := c.sameGrants d
  refine ⟨hconsumers ▸ h.consumers, fun id e' he' => ?_⟩
  rw [c.get?_apply] at he'
  split at he'
  · obtain ⟨e, he, rfl⟩ := Option.map_eq_some_iff.1 he'
    rw [c.on_id]
    exact h.environments id e he
  · exact h.environments id e' he'

/-- In an environment that exists, a promotion comes down to a lookup of those who are affected. -/
theorem after_promotion_eq {c : PromotionChange} {e : Environment}
    (he : a.directory.environments.get? c.environmentId = some e) (now : Instant) :
    (Upkeep.promotion c).after now a =
      (regenerateForEnvironment c.environmentId [c.contentId] true now
        { a with directory := c.change.apply a.directory }).2 := by
  have hupdate : c.change.request a.directory = (.ok (), _) :=
    Directory.updateEnvironment_of_some c.on he
  have hchange : c.change.request a.directory = (.ok (), c.change.apply a.directory) := by
    unfold DirectoryChange.apply
    rw [hupdate]
  rw [Upkeep.after_promotion, Request.bind_ok (onDirectory_ok hchange)]
  exact snd_discard _ _

/-- In one that does not, it changes nothing. -/
theorem after_promotion_of_none {c : PromotionChange}
    (he : a.directory.environments.get? c.environmentId = none) (now : Instant) :
    c.change.apply a.directory = a.directory ∧ (Upkeep.promotion c).after now a = a := by
  have hchange : c.change.request a.directory = (.error _, a.directory) :=
    Directory.updateEnvironment_of_none c.on he
  refine ⟨congrArg Prod.snd hchange, ?_⟩
  rw [Upkeep.after_promotion]
  exact congrArg Prod.snd (Request.bind_error (onDirectory_error hchange))

/-- **A promotion flags those who may see the content.** -/
theorem promotion_result (ha : a.Consistent) (hkeyed : a.directory.Keyed) (c : PromotionChange)
    (now : Instant) : ∃ ids, (Upkeep.promotion c).after now a =
        { a with directory := (c.change.apply a.directory).flagAll ids } ∧
      Flags (.promotion c) a (c.change.apply a.directory) ids := by
  have hentitlements := (c.sameGrants a.directory).1.entitlements
  have hkeyed' := keyed_promotion hkeyed c
  have hlookup := exists_affectedBy_promotion_iff a c
  cases he : a.directory.environments.get? c.environmentId with
  | none =>
    obtain ⟨hsame, hafter⟩ := after_promotion_of_none he now
    rw [hsame]
    exact ⟨[], hafter, rfl, hkeyed, fun _ => rfl, fun _ _ _ _ => rfl⟩
  | some e =>
    rw [after_promotion_eq he]
    let changed : Authority := { a with directory := c.change.apply a.directory }
    cases haffected : affectedBy (c.change.apply a.directory) c.environmentId [c.contentId] with
    | error fault =>
      refine ⟨[], ?_, .of_missing hentitlements hkeyed' fun hpools => ?_⟩
      · rw [regenerateForEnvironment_of_error (a := changed) haffected]
        rfl
      · obtain ⟨ids, hids⟩ := hlookup.2 hpools
        rw [haffected] at hids
        cases hids
    | ok ids =>
      refine ⟨ids, ?_, hentitlements, hkeyed', fun hpools => ?_, ?_⟩
      · rw [regenerateForEnvironment_putOff (a := changed)
          (c.change.entitlementsKeyed ha.entitlements) haffected]
      · exact absurd (hlookup.1 ⟨ids, haffected⟩) hpools
      · rintro - id hnot ⟨ms, hms⟩
        exact models_of_not_affected ha hkeyed haffected hnot hms

/-! ### Moves -/

/-- What environments promote that exist. -/
theorem promotionsOf_eq (h : ∀ id ∈ ids, ∃ e, d.environments.get? id = some e) :
    promotionsOf d ids =
      .ok ((ids.filterMap d.environments.get?).map Environment.reduced) := by
  induction ids with
  | nil => rfl
  | cons id ids ih =>
    rw [List.forall_mem_cons] at h
    obtain ⟨⟨e, he⟩, h⟩ := h
    have hread : d.environment id = .ok e := Directory.find_eq_ok.2 he
    refine mapM_cons_eq_ok.2 ⟨e.reduced, _, ?_, ih h, ?_⟩
    · rw [hread]
      rfl
    · rw [List.filterMap_cons_some he]
      rfl

theorem keyed_move (h : d.Keyed) (consumerId : String) (environmentIds : List String) :
    ((moveConsumer consumerId environmentIds).apply d).Keyed := by
  obtain ⟨consumers, hd, hget⟩ := moveConsumer_result consumerId environmentIds d
  rw [hd]
  refine ⟨fun id c hc => ?_, h.environments⟩
  have hc : consumers.get? id = some c := hc
  rw [hget] at hc
  split at hc
  · obtain ⟨c', hc', rfl⟩ := Option.map_eq_some_iff.1 hc
    exact h.consumers id c' hc'
  · exact h.consumers id c hc

/-- Those whom a move does not flag keep their products. -/
theorem models_of_not_drifted {consumerId : String} {c : Consumer} {environmentIds : List String}
    {carried : List EntitlementContent} (ha : a.Consistent) (hkeyed : a.directory.Keyed)
    (hc : a.directory.consumers.get? consumerId = some c) (hbefore : c.environmentIds ≠ [])
    (hafter : environmentIds ≠ [])
    (hcarried : carriedBy ((moveConsumer consumerId environmentIds).apply a.directory)
      consumerId (c.movedTo environmentIds) = .ok carried)
    (hnot : id ∉ driftedEntitlements carried
      ((a.directory.environmentsOf c).map Environment.reduced)
      ((environmentIds.filterMap a.directory.environments.get?).map Environment.reduced))
    {ms : List ProductModel} (hms : a.models id = .ok ms) :
    entitlementModels a.config ((moveConsumer consumerId environmentIds).apply a.directory) id =
      a.models id := by
  obtain ⟨e, consumer, he, hconsumer⟩ := entitlement_of_models hms
  by_cases hmoves : e.consumerId = consumerId
  · subst hmoves
    obtain rfl : c = consumer := Option.some.inj (hc.symm.trans hconsumer)
    refine entitlementModels_moved_of_clean hkeyed he hconsumer hbefore hafter ?_
    intro pool hpool x hx
    obtain ⟨consumers, hd, -⟩ := moveConsumer_result e.consumerId environmentIds a.directory
    rw [hd] at hcarried
    have hentry : ⟨e.id, c.id, grantedContentIds pool c⟩ ∈ carried := by
      rw [mem_carriedBy hcarried]
      exact ⟨e, Directory.mem_entitlementsOf.2 ⟨⟨id, he⟩, rfl⟩, pool, hpool, rfl⟩
    rw [← ha.entitlements id e he] at hnot
    exact winnerId_eq_of_clean hentry hnot hx
  · exact entitlementModels_moved he hconsumer hmoves

/-- Between environments that exist, a move comes down to a lookup of what has drifted. -/
theorem after_move_eq {consumerId : String} {c : Consumer} {environmentIds : List String}
    (hc : a.directory.consumers.get? consumerId = some c)
    (hexist : ∀ id ∈ c.environmentIds ++ environmentIds,
      ∃ e, a.directory.environments.get? id = some e) (now : Instant) :
    (Upkeep.move consumerId environmentIds).after now a =
      (flagDrifted [consumerId] ((a.directory.environmentsOf c).map Environment.reduced)
        ((environmentIds.filterMap a.directory.environments.get?).map Environment.reduced)
        { a with directory := (moveConsumer consumerId environmentIds).apply a.directory }).2 := by
  rw [List.forall_mem_append] at hexist
  have hread : a.directory.consumer consumerId = .ok c := Directory.find_eq_ok.2 hc
  have hbefore := promotionsOf_eq hexist.1
  have hmoved := onDirectory_ok (moveConsumer_ok hc environmentIds)
  have hafter : promotionsOf ((moveConsumer consumerId environmentIds).apply a.directory)
      environmentIds =
      .ok ((environmentIds.filterMap a.directory.environments.get?).map Environment.reduced) := by
    obtain ⟨consumers, hd, -⟩ := moveConsumer_result consumerId environmentIds a.directory
    rw [hd]
    exact promotionsOf_eq hexist.2
  rw [Upkeep.after_move, Request.bind_ok (by rw [Request.read_apply, hread]),
    Request.bind_ok (by rw [Request.read_apply, hbefore]), Request.bind_ok hmoved,
    Request.bind_ok (by rw [Request.read_apply, hafter])]
  exact snd_discard _ _

theorem exists_carriedBy_move_iff (consumerId : String) (c : Consumer)
    (environmentIds : List String) :
    (∃ carried, carriedBy ((moveConsumer consumerId environmentIds).apply a.directory)
      consumerId (c.movedTo environmentIds) = .ok carried) ↔
        (Upkeep.move consumerId environmentIds).FindsPools a := by
  obtain ⟨consumers, hd, -⟩ := moveConsumer_result consumerId environmentIds a.directory
  rw [exists_carriedBy_iff, hd]
  rfl

/-- **A move flags what has drifted.** -/
theorem move_result (ha : a.Consistent) (hkeyed : a.directory.Keyed) {consumerId : String}
    {environmentIds : List String} (h : (Upkeep.move consumerId environmentIds).Allowed a)
    (now : Instant) : ∃ ids, (Upkeep.move consumerId environmentIds).after now a =
        { a with
          directory := ((moveConsumer consumerId environmentIds).apply a.directory).flagAll ids } ∧
      Flags (.move consumerId environmentIds) a
        ((moveConsumer consumerId environmentIds).apply a.directory) ids := by
  obtain ⟨c, hc, hbefore, hafter, hexist⟩ := h
  obtain ⟨consumers, hd, hget⟩ := moveConsumer_result consumerId environmentIds a.directory
  have hkeyed' := keyed_move hkeyed consumerId environmentIds
  have hlookup := exists_carriedBy_move_iff (a := a) consumerId c environmentIds
  have hentitlements : ((moveConsumer consumerId environmentIds).apply a.directory).entitlements =
      a.directory.entitlements := by rw [hd]
  have hc' : ((moveConsumer consumerId environmentIds).apply a.directory).consumers.get?
      consumerId = some (c.movedTo environmentIds) := by
    rw [hd]
    show consumers.get? consumerId = _
    rw [hget, if_pos rfl, hc]
    rfl
  let changed : Authority :=
    { a with directory := (moveConsumer consumerId environmentIds).apply a.directory }
  rw [after_move_eq hc hexist]
  cases hcarried : carriedBy changed.directory consumerId (c.movedTo environmentIds) with
  | error fault =>
    refine ⟨[], ?_, .of_missing hentitlements hkeyed' fun hpools => ?_⟩
    · rw [flagDrifted_of_error (a := changed) ((carriedByAll_singleton hc').trans hcarried)]
      rfl
    · obtain ⟨carried, hok⟩ := hlookup.2 hpools
      rw [hcarried] at hok
      cases hok
  | ok carried =>
    refine ⟨driftedEntitlements carried
      ((a.directory.environmentsOf c).map Environment.reduced)
      ((environmentIds.filterMap a.directory.environments.get?).map Environment.reduced),
      ?_, hentitlements, hkeyed', ?_, ?_⟩
    · rw [flagDrifted_eq (a := changed)
        (DirectoryChange.entitlementsKeyed ha.entitlements _)
        ((carriedByAll_singleton hc').trans hcarried)]
    · exact fun hpools => absurd (hlookup.1 ⟨carried, hcarried⟩) hpools
    · rintro - id hnot ⟨ms, hms⟩
      exact models_of_not_drifted ha hkeyed hc hbefore hafter hcarried hnot hms

/-! ### Issuing -/

/-- Only what is stored, what is flagged and what the records say counts. -/
theorem UpToDate.congr (ha : a.UpToDate) (hconfig : b.config = a.config)
    (hdirectory : b.directory = a.directory) (hcertificates : b.certificates = a.certificates) :
    b.UpToDate := by
  unfold UpToDate IsFlagged ShowsRecords current? models at ha ⊢
  rw [hconfig, hdirectory, hcertificates]
  exact ha

/-- **Issuing a certificate keeps all certificates up to date.** -/
theorem UpToDate.generate (ha : a.UpToDate) (hconsistent : a.Consistent) (id : String)
    (now : Instant) : (Authority.generate (.entitlement id) now a).2.UpToDate := by
  have hresult := generate_entitlement_result hconsistent id now
  generalize Authority.generate (.entitlement id) now a = answer at hresult
  cases hresult with
  | kept c h => exact ha
  | gone e h => exact ha
  | failed e b hissue =>
    obtain ⟨hconfig, hdirectory, hcertificates⟩ := issue_failed_same hconsistent hissue
    exact ha.congr hconfig hdirectory hcertificates
  | issued fresh b _ hissue =>
    obtain ⟨hrole, body, hbody, hshown⟩ := issued_entitlement hconsistent hissue
    obtain ⟨hconfig, hdirectory⟩ := issue_fixed hissue
    have hb : b.UpToDate := ha.congr hconfig hdirectory (issue_certificates hissue)
    have hmodels := models_superseded hrole b
    intro id' c hc
    -- flags, products and certificates of other entitlements are as they were
    by_cases hid : id' = id
    · subst hid
      refine .inr ⟨fresh, body, (superseded_entitlement hrole b).1, hbody, ?_⟩
      rw [hmodels, ← hshown]
      unfold models
      rw [hconfig, hdirectory]
    · obtain ⟨hcurrent, hflagged⟩ := superseded_others hrole hid b
      rw [hcurrent] at hc
      unfold ShowsRecords
      rw [hflagged, hcurrent, hmodels]
      exact hb id' c hc

/-- **What a request for a certificate answers with shows what the records say.** -/
theorem UpToDate.answer (ha : a.UpToDate) (hconsistent : a.Consistent) {fresh : IssuedCertificate}
    (h : Authority.generate (.entitlement id) now a = (.ok (some fresh), b)) :
    ∃ body, fresh.body = some body ∧ a.models id = .ok body.products := by
  have hresult := generate_entitlement_result hconsistent id now
  rw [h] at hresult
  cases hresult with
  | kept _ hkept =>
    obtain ⟨hcurrent, -⟩ := reusable_eq_some hkept
    obtain ⟨stored, body, hstored, hbody, hshown⟩ :=
      (ha id fresh hcurrent).resolve_left (not_isFlagged_of_reusable hconsistent hkept)
    obtain rfl : fresh = stored := Option.some.inj (hcurrent.symm.trans hstored)
    exact ⟨body, hbody, hshown⟩
  | issued _ b _ hissue => exact (issued_entitlement hconsistent hissue).2

/-! ### Runs -/

theorem request_leads (u : Upkeep) (now : Instant) (a : Authority) : Leads a (u.after now a) := by
  cases u with
  | promotion c =>
    refine Leads.bind (Leads.of_effect (.changed c.change)) fun _ b _ _ => ?_
    exact Leads.bind (regenerateForEnvironment_leads _ _ true now b) fun _ b _ _ => .refl b
  | move consumerId environmentIds =>
    refine Leads.bind_read fun consumer _ => Leads.bind_read fun before _ => ?_
    refine Leads.bind (Leads.of_effect (.changed (moveConsumer consumerId environmentIds)))
      fun _ b _ _ => Leads.bind_read fun after _ => ?_
    exact Leads.bind (flagDrifted_leads [consumerId] before after b) fun _ b _ _ => .refl b
  | generate id => exact Leads.bind (generate_leads _ now a) fun _ b _ _ => .refl b

/-- What every step of a run preserves. -/
structure WellKept (a : Authority) : Prop where
  consistent : a.Consistent
  keyed : a.directory.Keyed
  upToDate : a.UpToDate

theorem keyed_flagAll (h : d.Keyed) (ids : List String) : (d.flagAll ids).Keyed := by
  obtain ⟨entitlements, hd, -⟩ := Directory.flagAll_result ids d
  rw [hd]
  exact ⟨h.consumers, h.environments⟩

theorem keyed_generate (ha : a.Consistent) (hkeyed : a.directory.Keyed) (id : String)
    (now : Instant) : (Authority.generate (.entitlement id) now a).2.directory.Keyed := by
  have hresult := generate_entitlement_result ha id now
  generalize Authority.generate (.entitlement id) now a = answer at hresult
  cases hresult with
  | kept c h => exact hkeyed
  | gone e h => exact hkeyed
  | failed e b hissue => exact (issue_failed_same ha hissue).2.1 ▸ hkeyed
  | issued fresh b _ hissue =>
    rw [← (issue_fixed hissue).2] at hkeyed
    unfold superseded
    dsimp only
    split
    · obtain ⟨entitlements, hd, -⟩ :=
        Directory.setDirty_result fresh.role.subject false b.directory
      rw [hd]
      exact ⟨hkeyed.consumers, hkeyed.environments⟩
    · exact hkeyed

/-- **What a step does**: it keeps the records in order, and the certificates up to date if it finds
the pools. -/
theorem WellKept.step (h : a.WellKept) {u : Upkeep} (hu : u.Allowed a) (now : Instant) :
    (u.after now a).directory.Keyed ∧
      ((u.after now a).UpToDate ↔ u.FindsPools a ∨
        ∀ id c, a.current? (.entitlement id) = some c → ¬ IsFlagged a id →
          (u.after now a).models id = a.models id) := by
  obtain ⟨hconsistent, hkeyed, hupToDate⟩ := h
  cases u with
  | promotion c =>
    obtain ⟨ids, hafter, hflags⟩ := promotion_result hconsistent hkeyed c now
    rw [hafter]
    exact ⟨keyed_flagAll hflags.keyed ids, hflags.upToDate_iff hupToDate⟩
  | move consumerId environmentIds =>
    obtain ⟨ids, hafter, hflags⟩ := move_result hconsistent hkeyed hu now
    rw [hafter]
    exact ⟨keyed_flagAll hflags.keyed ids, hflags.upToDate_iff hupToDate⟩
  | generate id =>
    have hafter : (Upkeep.generate id).after now a =
        (Authority.generate (.entitlement id) now a).2 := snd_discard _ a
    rw [hafter]
    exact ⟨keyed_generate hconsistent hkeyed id now,
      iff_of_true (hupToDate.generate hconsistent id now) (.inl trivial)⟩

/-- One step of a run, which finds the pools. -/
def UpkeepStep (a b : Authority) : Prop :=
  ∃ u now, Upkeep.Allowed a u ∧ Upkeep.FindsPools a u ∧ b = u.after now a

/-- **Every run that finds its pools keeps all certificates up to date.** -/
theorem WellKept.run {start : Authority} (h : start.WellKept)
    (hrun : Relation.ReflTransGen UpkeepStep start a) : a.WellKept := by
  induction hrun with
  | refl => exact h
  | tail _ hstep ih =>
    obtain ⟨u, now, hallowed, hpools, rfl⟩ := hstep
    obtain ⟨hkeyed, hiff⟩ := ih.step hallowed now
    exact ⟨(request_leads u now _).consistent ih.consistent, hkeyed, hiff.2 (.inl hpools)⟩

/-- Records under their ids, and no certificates of entitlements. -/
structure Unissued (start : Authority) : Prop where
  reachable : start.Reachable
  keyed : start.directory.Keyed
  none : ∀ id, start.current? (.entitlement id) = none

theorem Unissued.wellKept {start : Authority} (h : start.Unissued) : start.WellKept := by
  refine ⟨h.reachable.consistent, h.keyed, fun id c hc => ?_⟩
  rw [h.none id] at hc
  cases hc

/-- **When certificates stay up to date.** On runs whose steps find the pools of those concerned,
the certificates of all entitlements that are not flagged show what the records say, and so does
whatever is answered with. The next step keeps it so exactly if it finds the pools as well, or if it
changes nothing about certificates that count. -/
theorem upToDate_iff_findsPools {start : Authority} {u : Upkeep} (hstart : start.Unissued)
    (hrun : Relation.ReflTransGen UpkeepStep start a) (hu : u.Allowed a) (now : Instant) :
    a.UpToDate ∧
      (∀ id t fresh b, Authority.generate (.entitlement id) t a = (.ok (some fresh), b) →
        ∃ body, fresh.body = some body ∧ a.models id = .ok body.products) ∧
      ((u.after now a).UpToDate ↔ u.FindsPools a ∨
        ∀ id c, a.current? (.entitlement id) = some c → ¬ IsFlagged a id →
          (u.after now a).models id = a.models id) := by
  have ha := hstart.wellKept.run hrun
  refine ⟨ha.upToDate, ?_, (ha.step hu now).2⟩
  intro id t fresh b h
  exact ha.upToDate.answer ha.consistent h

end Authority

/-! ### A pool that is missing -/

namespace MissingPool

open Authority

/-- Another entitlement of the consumer of the sample, to a pool that is not there. -/
def orphan : Entitlement :=
  { Sample.entitlement with id := "orphan-entitlement", poolId := "missing-pool" }

/-- The records of the sample with that entitlement. -/
def changes : List DirectoryChange :=
  promotedChanges ++ [.addEntitlement orphan]

/-- The directory with those records. -/
def directory : Directory :=
  changes.foldl (fun d c => c.apply d) Directory.empty

/-- The content is no longer promoted. -/
def withdrawal : PromotionChange :=
  ⟨"dev", "1000", none, ⟨1, 0⟩⟩

variable {d : Directory} {id : String} {now : Instant}

theorem keyed_of_single {c : Consumer} {e : Environment}
    (hc : d.consumers = Table.ofList [(c.id, c)])
    (he : d.environments = Table.ofList [(e.id, e)]) : d.Keyed := by
  have hget : ∀ {α : Type} (k id : String) (v : α), (Table.ofList [(k, v)]).get? id =
      if k = id then some v else none := fun _ _ _ => rfl
  constructor
  · intro id c' h
    rw [hc, hget] at h
    split at h
    · rename_i hid
      rw [← Option.some.inj h]
      exact hid
    · cases h
  · intro id e' h
    rw [he, hget] at h
    split at h
    · rename_i hid
      rw [← Option.some.inj h]
      exact hid
    · cases h

/-- The certificate of the sample is issued from some records. -/
theorem exists_generated {cs : List DirectoryChange}
    (hd : cs.foldl (fun d c => c.apply d) Directory.empty = d) (hkeyed : d.Keyed)
    (hissuable : IsIssuable {} d Sample.entitlement.id ⟨0, 0⟩)
    (hclean : (Directory.setDirty Sample.entitlement.id false d).2 = d) :
    ∃ start a c, Unissued start ∧ Relation.ReflTransGen UpkeepStep start a ∧ a.config = {} ∧
      a.directory = d ∧ a.current? (.entitlement Sample.entitlement.id) = some c := by
  obtain ⟨start, fresh, b, hstart, -, hdirectory, hnone, hissue, hgenerate, hconfig',
    hdirectory'⟩ := exists_first_issued hd hissuable hclean
  obtain ⟨hrole, -⟩ := issued_entitlement hstart.consistent hissue
  have hstep : UpkeepStep start (b.superseded fresh) := by
    refine ⟨.generate Sample.entitlement.id, ⟨0, 0⟩, trivial, trivial, ?_⟩
    refine Eq.trans ?_ (snd_discard _ start).symm
    rw [hgenerate]
  exact ⟨start, b.superseded fresh, fresh, ⟨hstart, hdirectory ▸ hkeyed, fun id => hnone _⟩,
    .single hstep, hconfig', hdirectory', (superseded_entitlement hrole b).1⟩

theorem keyed_promotedDirectory : promotedDirectory.Keyed :=
  keyed_of_single (c := MovingConsumer.consumer.within [MovingConsumer.dev])
    (e := MovingConsumer.dev) rfl rfl

theorem keyed_directory : directory.Keyed :=
  keyed_of_single (c := MovingConsumer.consumer.within [MovingConsumer.dev])
    (e := MovingConsumer.dev) rfl rfl

theorem eq_of_mem_promoted {consumerId : String} {e : Entitlement}
    (he : e ∈ promotedDirectory.entitlementsOf consumerId) : e = Sample.entitlement := by
  obtain ⟨⟨id, hid⟩, -⟩ := Directory.mem_entitlementsOf.1 he
  have hget : promotedDirectory.entitlements.get? id =
      if Sample.entitlement.id = id then some Sample.entitlement else none := rfl
  rw [hget] at hid
  split at hid
  · exact (Option.some.inj hid).symm
  · cases hid

/-- If the pools are found, the certificate is flagged when its content is no longer promoted. -/
theorem upToDate_iff_findsPools_withdrawn : ∃ start a,
    Unissued start ∧ Relation.ReflTransGen UpkeepStep start a ∧
    Upkeep.Allowed a (.promotion withdrawal) ∧
    (∃ c, a.current? (.entitlement Sample.entitlement.id) = some c) ∧
    ((Upkeep.promotion withdrawal).after ⟨1, 0⟩ a).UpToDate := by
  obtain ⟨start, a, c, hstart, hrun, -, hdirectory, hc⟩ := exists_generated
    (d := promotedDirectory) rfl keyed_promotedDirectory ⟨_, rfl, rfl, rfl, rfl⟩ rfl
  refine ⟨start, a, hstart, hrun, trivial, ⟨c, hc⟩, ?_⟩
  refine (upToDate_iff_findsPools hstart hrun (u := .promotion withdrawal) trivial
    ⟨1, 0⟩).2.2.2 (.inl ?_)
  intro consumer _ e he
  rw [hdirectory] at he ⊢
  rw [eq_of_mem_promoted he]
  exact ⟨MovingConsumer.pool, rfl⟩

/-- The content is no longer shown once the promotion is withdrawn. -/
theorem models_withdrawn_ne :
    entitlementModels {} (withdrawal.change.apply directory) Sample.entitlement.id ≠
      entitlementModels {} directory Sample.entitlement.id := by
  let products (d : Directory) : List ProductModel :=
    entitlementProducts {} d (MovingConsumer.consumer.within [MovingConsumer.dev])
      (Sample.owner ⟨0, 0⟩) MovingConsumer.pool
  intro h
  have hproducts : products (withdrawal.change.apply directory) = products directory :=
    Except.ok.inj h
  exact absurd hproducts (by decide)

/-- Because of one entitlement whose pool is missing, no other is flagged when a content is no
longer promoted: the certificate that shows the content counts as up to date. -/
theorem missing_pool_hides_change : ∃ start a c, Unissued start ∧
    Relation.ReflTransGen UpkeepStep start a ∧ Upkeep.Allowed a (.promotion withdrawal) ∧
    ((Upkeep.promotion withdrawal).after ⟨1, 0⟩ a).current? (.entitlement Sample.entitlement.id) =
      some c ∧
    ¬ IsFlagged ((Upkeep.promotion withdrawal).after ⟨1, 0⟩ a) Sample.entitlement.id ∧
    ¬ ShowsRecords ((Upkeep.promotion withdrawal).after ⟨1, 0⟩ a) Sample.entitlement.id := by
  obtain ⟨start, a, c, hstart, hrun, hconfig, hdirectory, hc⟩ := exists_generated
    (d := directory) rfl keyed_directory ⟨_, rfl, rfl, rfl, rfl⟩ rfl
  have ha := hstart.wellKept.run hrun
  obtain ⟨ids, hafter, hflags⟩ := promotion_result ha.consistent ha.keyed withdrawal ⟨1, 0⟩
  -- the consumer in the environment has the entitlement without a pool
  have hpools : ¬ (Upkeep.promotion withdrawal).FindsPools a := by
    intro hpools
    obtain ⟨pool, hpool⟩ := hpools (MovingConsumer.consumer.within [MovingConsumer.dev])
      (Directory.mem_consumersIn.2
        ⟨⟨"sample-consumer", hdirectory ▸ rfl⟩, List.mem_singleton_self _⟩)
      orphan (Directory.mem_entitlementsOf.2 ⟨⟨"orphan-entitlement", hdirectory ▸ rfl⟩, rfl⟩)
    rw [hdirectory] at hpool
    cases hpool
  obtain rfl : ids = [] := hflags.nothing hpools
  have hclean : ¬ IsFlagged a Sample.entitlement.id := by
    rintro ⟨e, he, hdirty⟩
    rw [hdirectory] at he
    cases he
    cases hdirty
  have hshows := (ha.upToDate _ c hc).resolve_left hclean
  refine ⟨start, a, c, hstart, hrun, trivial, ?_⟩
  rw [hafter]
  refine ⟨hc, ?_, ?_⟩
  · intro hflagged
    obtain ⟨e, he, hdirty⟩ := isFlagged_flagAll.1 hflagged
    rw [hflags.entitlements] at he
    exact hclean ⟨e, he, hdirty.resolve_left List.not_mem_nil⟩
  · intro hshows'
    have hsame := hshows.models_eq hshows' rfl
    unfold models at hsame
    rw [entitlementModels_flagAll, hconfig, hdirectory] at hsame
    exact models_withdrawn_ne hsame

end MissingPool

end EntitlementAuthority
