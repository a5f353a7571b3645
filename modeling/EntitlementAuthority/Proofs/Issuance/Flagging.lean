import EntitlementAuthority.Proofs.Issuance.Interleaving
import EntitlementAuthority.Proofs.Outcomes
import EntitlementAuthority.Proofs.Promotion.Change

/-!
# Flagging entitlements

After a change of environments, the entitlements are looked up whose certificates may be outdated,
and all of them are flagged. The lookup fails if a pool is missing, and then nothing is flagged.

* `Directory.flagAll` — the records with some entitlements flagged.
* `Authority.mem_carriedBy`, `Authority.mem_carriedByAll`, `Authority.mem_affectedBy` — what is looked
  up.
* `Authority.exists_carriedBy_iff`, `Authority.exists_affectedBy_iff` — when the lookup succeeds.
* `Authority.regenerateForEnvironment_putOff`, `Authority.flagDrifted_eq` — what is left behind.
-/

namespace EntitlementAuthority

/-! ### Looking up -/

namespace Directory

variable {d : Directory}

theorem mem_consumersIn {environmentId : String} {c : Consumer} :
    c ∈ d.consumersIn environmentId ↔
      (∃ id, d.consumers.get? id = some c) ∧ environmentId ∈ c.environmentIds := by
  unfold consumersIn
  rw [List.mem_mergeSort, List.mem_filter, Table.mem_values_iff, List.contains_iff_mem]

theorem mem_entitlementsOf {consumerId : String} {e : Entitlement} :
    e ∈ d.entitlementsOf consumerId ↔
      (∃ id, d.entitlements.get? id = some e) ∧ e.consumerId = consumerId := by
  unfold entitlementsOf
  rw [List.mem_mergeSort, List.mem_filter, Table.mem_values_iff, beq_iff_eq]

/-- Who has an entitlement has it under its id. -/
theorem get?_of_mem_entitlementsOf (hd : d.EntitlementsKeyed) {consumerId : String}
    {e : Entitlement} (he : e ∈ d.entitlementsOf consumerId) :
    d.entitlements.get? e.id = some e := by
  obtain ⟨⟨id, hid⟩, -⟩ := mem_entitlementsOf.1 he
  rw [hd id e hid]
  exact hid

/-- The pools of a consumer's entitlements are there. -/
def FindsPools (d : Directory) (consumerId : String) : Prop :=
  ∀ e ∈ d.entitlementsOf consumerId, ∃ pool, d.pools.get? e.poolId = some pool

end Directory

namespace Authority

variable {d : Directory} {consumerId : String} {c : Consumer} {carried : List EntitlementContent}
  {entry : EntitlementContent}

theorem mem_carriedBy (h : carriedBy d consumerId c = .ok carried) :
    entry ∈ carried ↔ ∃ e ∈ d.entitlementsOf consumerId, ∃ pool,
      d.pools.get? e.poolId = some pool ∧ entry = ⟨e.id, c.id, grantedContentIds pool c⟩ := by
  rw [mem_of_mapM_eq_ok h]
  refine exists_congr fun e => and_congr_right fun _ => ?_
  rw [Outcome.bind_eq_ok]
  refine exists_congr fun pool => ?_
  rw [Directory.pool, Directory.find_eq_ok, Except.ok.injEq, eq_comm (a := entry)]

theorem exists_carriedBy_iff :
    (∃ carried, carriedBy d consumerId c = .ok carried) ↔ d.FindsPools consumerId := by
  unfold carriedBy
  rw [exists_mapM_eq_ok_iff]
  refine forall₂_congr fun e _ => ?_
  simp only [Outcome.bind_eq_ok, Directory.pool, Directory.find_eq_ok]
  constructor
  · rintro ⟨entry, pool, hpool, -⟩
    exact ⟨pool, hpool⟩
  · rintro ⟨pool, hpool⟩
    exact ⟨_, pool, hpool, rfl⟩

variable {environmentId id : String} {contentIds affected : List String}

/-- Those are affected who are in the environment and carry one of the contents. -/
theorem mem_affectedBy (h : affectedBy d environmentId contentIds = .ok affected) :
    id ∈ affected ↔ ∃ c ∈ d.consumersIn environmentId, ∃ e ∈ d.entitlementsOf c.id, e.id = id ∧
      ∃ pool, d.pools.get? e.poolId = some pool ∧
        ∃ x ∈ grantedContentIds pool c, x ∈ contentIds := by
  obtain ⟨carried, hcarried, h⟩ := Outcome.bind_eq_ok.1 h
  cases h
  rw [Text.mem_sortedSet, List.mem_map]
  simp only [List.mem_filter, Text.intersects_iff]
  constructor
  · rintro ⟨entry, ⟨hentry, hmeets⟩, rfl⟩
    obtain ⟨entries, hentries, hmem⟩ := List.mem_flatten.1 hentry
    obtain ⟨c, hc, hby⟩ := (mem_of_mapM_eq_ok hcarried).1 hentries
    obtain ⟨e, he, pool, hpool, rfl⟩ := (mem_carriedBy hby).1 hmem
    exact ⟨c, hc, e, he, rfl, pool, hpool, hmeets⟩
  · rintro ⟨c, hc, e, he, rfl, pool, hpool, hmeets⟩
    obtain ⟨entries, hby⟩ := exists_mapM_eq_ok_iff.1 ⟨carried, hcarried⟩ c hc
    have hentry := (mem_carriedBy hby).2 ⟨e, he, pool, hpool, rfl⟩
    have hentries := (mem_of_mapM_eq_ok hcarried).2 ⟨c, hc, hby⟩
    exact ⟨_, ⟨List.mem_flatten.2 ⟨entries, hentries, hentry⟩, hmeets⟩, rfl⟩

theorem exists_affectedBy_iff : (∃ affected, affectedBy d environmentId contentIds = .ok affected) ↔
    ∀ c ∈ d.consumersIn environmentId, d.FindsPools c.id := by
  rw [← forall₂_congr fun (c : Consumer) _ => exists_carriedBy_iff (c := c),
    ← exists_mapM_eq_ok_iff]
  constructor
  · rintro ⟨affected, h⟩
    obtain ⟨carried, hcarried, -⟩ := Outcome.bind_eq_ok.1 h
    exact ⟨carried, hcarried⟩
  · rintro ⟨carried, hcarried⟩
    exact ⟨_, Outcome.bind_eq_ok.2 ⟨carried, hcarried, rfl⟩⟩

variable {consumerIds : List String}

/-- What is carried by several consumers is carried by one of them. -/
theorem mem_carriedByAll (h : carriedByAll d consumerIds = .ok carried) :
    entry ∈ carried ↔ ∃ id ∈ consumerIds, ∃ c, d.consumers.get? id = some c ∧
      ∃ e ∈ d.entitlementsOf id, ∃ pool, d.pools.get? e.poolId = some pool ∧
        entry = ⟨e.id, c.id, grantedContentIds pool c⟩ := by
  obtain ⟨each, heach, h⟩ := Outcome.bind_eq_ok.1 h
  cases h
  simp only [List.mem_flatten, mem_of_mapM_eq_ok heach]
  constructor
  · rintro ⟨entries, ⟨id, hid, hentries⟩, hentry⟩
    obtain ⟨c, hc, hby⟩ := Outcome.bind_eq_ok.1 hentries
    exact ⟨id, hid, c, Directory.find_eq_ok.1 hc, (mem_carriedBy hby).1 hentry⟩
  · rintro ⟨id, hid, c, hc, hentry⟩
    obtain ⟨entries, hentries⟩ := exists_mapM_eq_ok_iff.1 ⟨each, heach⟩ id hid
    refine ⟨entries, ⟨id, hid, hentries⟩, ?_⟩
    obtain ⟨c', hc', hby⟩ := Outcome.bind_eq_ok.1 hentries
    cases hc.symm.trans (Directory.find_eq_ok.1 hc')
    exact (mem_carriedBy hby).2 hentry

theorem carriedByAll_singleton (hc : d.consumers.get? id = some c) :
    carriedByAll d [id] = carriedBy d id c := by
  have hconsumer : d.consumer id = .ok c := Directory.find_eq_ok.2 hc
  unfold carriedByAll
  rw [List.mapM_cons, hconsumer, Outcome.ok_bind, List.mapM_nil]
  cases carriedBy d id c with
  | error e => rfl
  | ok carried =>
    show Except.ok [carried].flatten = _
    rw [List.flatten_singleton]

end Authority

/-! ### Flags -/

namespace Directory

/-- The records with some entitlements flagged. -/
def flagAll (ids : List String) (d : Directory) : Directory :=
  ids.foldl (fun d id => (setDirty id true d).2) d

variable {ids : List String} {d : Directory}

/-- Flags change nothing but entitlements, and of those nothing but the flags. -/
theorem flagAll_result (ids : List String) (d : Directory) :
    ∃ entitlements, d.flagAll ids = { d with entitlements } ∧ ∀ id, entitlements.get? id =
      (d.entitlements.get? id).map fun e => if id ∈ ids then { e with dirty := true } else e := by
  induction ids generalizing d with
  | nil =>
    refine ⟨d.entitlements, rfl, fun id => ?_⟩
    simp
  | cons first ids ih =>
    obtain ⟨entitlements, hd, hget⟩ := setDirty_result first true d
    obtain ⟨entitlements', hd', hget'⟩ := ih (setDirty first true d).2
    have hall : d.flagAll (first :: ids) = { d with entitlements := entitlements' } := by
      show flagAll ids (setDirty first true d).2 = _
      rw [hd', hd]
    refine ⟨entitlements', hall, fun id => ?_⟩
    rw [hget', hd]
    show (entitlements.get? id).map _ = _
    rw [hget]
    cases d.entitlements.get? id with
    | none => simp
    | some e =>
      by_cases hfirst : first = id
      · subst hfirst
        by_cases hmem : first ∈ ids <;> simp [hmem]
      · simp [hfirst, Ne.symm hfirst]

end Directory

theorem entitlementModels_flagAll (config : Config) (ids : List String) (d : Directory)
    (id : String) :
    entitlementModels config (d.flagAll ids) id = entitlementModels config d id := by
  induction ids generalizing d with
  | nil => rfl
  | cons first ids ih =>
    exact (ih _).trans (entitlementModels_setDirty config first true d id)

namespace Authority

variable {a : Authority} {ids : List String} {id : String}

theorem isFlagged_flagAll {d : Directory} : IsFlagged { a with directory := d.flagAll ids } id ↔
    ∃ e, d.entitlements.get? id = some e ∧ (id ∈ ids ∨ e.dirty = true) := by
  obtain ⟨entitlements, hd, hget⟩ := Directory.flagAll_result ids d
  unfold IsFlagged
  rw [hd]
  simp only [hget, Option.map_eq_some_iff]
  constructor
  · rintro ⟨e', ⟨e, he, rfl⟩, hdirty⟩
    refine ⟨e, he, ?_⟩
    split at hdirty
    · rename_i hmem
      exact .inl hmem
    · exact .inr hdirty
  · rintro ⟨e, he, hflag⟩
    refine ⟨_, ⟨e, he, rfl⟩, ?_⟩
    split
    · rfl
    · rename_i hnot
      exact hflag.resolve_left hnot

/-- Entitlements that exist are flagged one after the other. -/
theorem forEach_flag {f : String → Request Authority Unit}
    (hf : ∀ id a, (∃ e, a.directory.entitlements.get? id = some e) →
      f id a = (.ok (), { a with directory := (Directory.setDirty id true a.directory).2 }))
    (hids : ∀ id ∈ ids, ∃ e, a.directory.entitlements.get? id = some e) :
    forEach f ids a = (.ok (), { a with directory := a.directory.flagAll ids }) := by
  induction ids generalizing a with
  | nil => rfl
  | cons first ids ih =>
    rw [List.forall_mem_cons] at hids
    unfold forEach
    rw [Request.bind_ok (hf first a hids.1)]
    refine ih fun id hid => ?_
    obtain ⟨entitlements, hd, hget⟩ := Directory.setDirty_result first true a.directory
    obtain ⟨e, he⟩ := hids.2 id hid
    rw [hd]
    show ∃ e, entitlements.get? id = some e
    rw [hget, he]
    split
    · exact ⟨_, rfl⟩
    · exact ⟨e, rfl⟩

/-! ### What the requests leave behind -/

variable {environmentId : String} {contentIds affected : List String} {now : Instant} {e : Fault}

/-- If nothing is found out, nothing is done. -/
theorem regenerateForEnvironment_of_error
    (h : affectedBy a.directory environmentId contentIds = .error e) (putOff : Bool) :
    regenerateForEnvironment environmentId contentIds putOff now a = (.error e, a) := by
  unfold regenerateForEnvironment
  rw [Request.bind_error (by rw [Request.read_apply, h])]

/-- **Those who are affected are flagged.** -/
theorem regenerateForEnvironment_putOff (ha : a.directory.EntitlementsKeyed)
    (h : affectedBy a.directory environmentId contentIds = .ok affected) :
    regenerateForEnvironment environmentId contentIds true now a =
      (.ok affected, { a with directory := a.directory.flagAll affected }) := by
  unfold regenerateForEnvironment
  rw [Request.bind_ok (by rw [Request.read_apply, h])]
  refine Request.bind_ok (forEach_flag ?_ ?_)
  · rintro id a ⟨e, he⟩
    have hset := Directory.setDirty_of_some true he
    have hflag : onDirectory (Directory.setDirty id true) a =
        (.ok (), { a with directory := (Directory.setDirty id true a.directory).2 }) := by
      rw [onDirectory, Request.within_apply, hset]
    rw [regenerate_putOff]
    exact Request.bind_ok ((Request.bind_ok hflag).trans (Request.get_apply _ _))
  · intro id hid
    obtain ⟨c, -, e, he, rfl, -⟩ := (mem_affectedBy h).1 hid
    exact ⟨e, Directory.get?_of_mem_entitlementsOf ha he⟩

variable {consumerIds : List String} {carried : List EntitlementContent}
  {before after : List EnvironmentPromotions}

theorem flagDrifted_of_error (h : carriedByAll a.directory consumerIds = .error e) :
    flagDrifted consumerIds before after a = (.error e, a) := by
  unfold flagDrifted
  rw [Request.bind_error (by rw [Request.read_apply, h])]

/-- **Those that have drifted are flagged.** -/
theorem flagDrifted_eq (ha : a.directory.EntitlementsKeyed)
    (h : carriedByAll a.directory consumerIds = .ok carried) :
    flagDrifted consumerIds before after a =
      (.ok (driftedEntitlements carried before after), { a with
        directory := a.directory.flagAll (driftedEntitlements carried before after) }) := by
  unfold flagDrifted
  rw [Request.bind_ok (by rw [Request.read_apply, h])]
  refine Request.bind_ok (forEach_flag ?_ ?_)
  · rintro id a ⟨e, he⟩
    rw [onDirectory, Request.within_apply, Directory.setDirty_of_some true he]
  · intro id hid
    obtain ⟨entry, hentry, rfl, -⟩ := mem_driftedEntitlements.1 hid
    obtain ⟨consumerId, -, c, -, e, he, pool, -, rfl⟩ := (mem_carriedByAll h).1 hentry
    exact ⟨e, Directory.get?_of_mem_entitlementsOf ha he⟩

end Authority

end EntitlementAuthority
