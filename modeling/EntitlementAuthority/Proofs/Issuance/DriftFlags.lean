import EntitlementAuthority.Proofs.Issuance.Flagging
import EntitlementAuthority.Proofs.Promotion.Reordering
import EntitlementAuthority.Proofs.Text.Sorted

/-!
# Flags for what has drifted

Consumers are named whose environments have changed. Either everything is found that their
entitlements need; then those are flagged that carry a content with another first environment than
before, and no others. Or something is missing; then the fault names what is missed first, and
nothing is flagged.

* `Directory.missing?` — what is missed first.
* `Directory.FindsAll` — nothing is missed.
* `IsAffected` — an entitlement of one of the consumers carries a content that is overtaken.
* `Authority.flagDrifted_exact` — what is answered, what is flagged and what is not.
-/

namespace EntitlementAuthority

/-! ### What is looked up -/

namespace Directory

variable {d : Directory}

/-- What is missed first among the pools of a consumer's entitlements. -/
def missingPool? (d : Directory) (consumerId : String) : Option Fault :=
  (d.entitlementsOf consumerId).findSome? fun e => fault? (d.pool e.poolId)

/-- What is missed first among some consumers and the pools of their entitlements. -/
def missing? (d : Directory) (consumerIds : List String) : Option Fault :=
  consumerIds.findSome? fun id =>
    match d.consumers.get? id with
    | none => some (.notFound ("consumer " ++ id))
    | some _ => d.missingPool? id

theorem missing?_cons_of_found {id : String} {ids : List String} {c : Consumer}
    (hc : d.consumers.get? id = some c) (hpools : d.missingPool? id = none) :
    d.missing? (id :: ids) = d.missing? ids := by
  unfold missing?
  rw [List.findSome?_cons, hc]
  dsimp only
  rw [hpools]

/-- Some consumers and the pools of their entitlements are there. -/
def FindsAll (d : Directory) (consumerIds : List String) : Prop :=
  ∀ id ∈ consumerIds, ∃ c, d.consumers.get? id = some c ∧ d.FindsPools id

end Directory

namespace Authority

variable {d : Directory} {consumerIds : List String}

theorem fault?_carriedBy (consumerId : String) (c : Consumer) :
    fault? (carriedBy d consumerId c) = d.missingPool? consumerId := by
  unfold carriedBy Directory.missingPool?
  rw [fault?_mapM]
  congr 1
  funext e
  cases d.pool e.poolId <;> rfl

theorem fault?_carriedByAll : fault? (carriedByAll d consumerIds) = d.missing? consumerIds := by
  unfold carriedByAll Directory.missing?
  have hall : ∀ x : Outcome (List (List EntitlementContent)),
      fault? (x >>= fun carried => .ok carried.flatten) = fault? x := by
    intro x
    cases x <;> rfl
  rw [hall, fault?_mapM]
  congr 1
  funext id
  unfold Directory.consumer Directory.find
  cases d.consumers.get? id with
  | none => rfl
  | some c => exact fault?_carriedBy id c

/-- Everything is found exactly if the lookup succeeds. -/
theorem exists_carriedByAll_iff :
    (∃ carried, carriedByAll d consumerIds = .ok carried) ↔ d.FindsAll consumerIds := by
  have hall : (∃ carried, carriedByAll d consumerIds = .ok carried) ↔
      ∃ each, consumerIds.mapM (fun id => d.consumer id >>= carriedBy d id) = .ok each := by
    unfold carriedByAll
    simp only [Outcome.bind_eq_ok]
    exact ⟨fun ⟨_, each, h, _⟩ => ⟨each, h⟩, fun ⟨each, h⟩ => ⟨_, each, h, rfl⟩⟩
  rw [hall, exists_mapM_eq_ok_iff]
  refine forall₂_congr fun id _ => ?_
  simp only [Outcome.bind_eq_ok, Directory.consumer, Directory.find_eq_ok]
  constructor
  · rintro ⟨carried, c, hc, hby⟩
    exact ⟨c, hc, exists_carriedBy_iff.1 ⟨carried, hby⟩⟩
  · rintro ⟨c, hc, hpools⟩
    obtain ⟨carried, hby⟩ := exists_carriedBy_iff.2 hpools
    exact ⟨carried, c, hc, hby⟩

end Authority

/-! ### What is flagged -/

/-- An entitlement of one of some consumers carries a content that has another first environment
than before, or has one in only one of the orderings. It is one of a consumer if it names the id that
the consumer was asked for by. -/
def IsAffected (d : Directory) (consumerIds : List String)
    (before after : List EnvironmentPromotions) (id : String) : Prop :=
  ∃ consumerId ∈ consumerIds, ∃ c, d.consumers.get? consumerId = some c ∧
    ∃ e, d.entitlements.get? id = some e ∧ e.consumerId = consumerId ∧
      ∃ pool, d.pools.get? e.poolId = some pool ∧
        ∃ x ∈ grantedContentIds pool c, IsOvertaken x before after

/-- Records that differ only in flags: some entitlements are flagged, the others are as before. -/
def Directory.DiffersByFlags (d d' : Directory) (flagged : List String) : Prop :=
  ∃ entitlements, d' = { d with entitlements } ∧ ∀ id, entitlements.get? id =
    (d.entitlements.get? id).map fun e => if id ∈ flagged then { e with dirty := true } else e

namespace Authority

variable {a : Authority} {d : Directory} {consumerIds : List String} {id : String}
  {carried : List EntitlementContent} {before after : List EnvironmentPromotions}

/-- Those that have drifted are those that are affected. -/
theorem mem_drifted_iff_isAffected (hd : d.EntitlementsKeyed)
    (h : carriedByAll d consumerIds = .ok carried) :
    id ∈ driftedEntitlements carried before after ↔ IsAffected d consumerIds before after id := by
  simp only [mem_driftedEntitlements, winnerId_ne_iff, mem_carriedByAll h]
  constructor
  · rintro ⟨entry, ⟨consumerId, hconsumer, c, hc, e, he, pool, hpool, rfl⟩, rfl, hovertaken⟩
    exact ⟨consumerId, hconsumer, c, hc, e, Directory.get?_of_mem_entitlementsOf hd he,
      (Directory.mem_entitlementsOf.1 he).2, pool, hpool, hovertaken⟩
  · rintro ⟨consumerId, hconsumer, c, hc, e, he, howner, pool, hpool, hovertaken⟩
    have hmem : e ∈ d.entitlementsOf consumerId := Directory.mem_entitlementsOf.2 ⟨⟨id, he⟩, howner⟩
    exact ⟨_, ⟨consumerId, hconsumer, c, hc, e, hmem, pool, hpool, rfl⟩, hd id e he, hovertaken⟩

/-- **All that are affected are flagged, or none.** If everything is found, then those entitlements
are answered, in order and each once, that are affected, and exactly those are flagged. If not,
then the fault names what is missed first, and nothing has changed. -/
theorem flagDrifted_exact (ha : a.directory.EntitlementsKeyed) (consumerIds : List String)
    (before after : List EnvironmentPromotions) :
    (a.directory.FindsAll consumerIds → ∃ drifted directory,
        flagDrifted consumerIds before after a = (.ok drifted, { a with directory }) ∧
          drifted.Pairwise (· < ·) ∧
          (∀ id, id ∈ drifted ↔ IsAffected a.directory consumerIds before after id) ∧
          a.directory.DiffersByFlags directory drifted) ∧
      (¬ a.directory.FindsAll consumerIds → ∃ e, a.directory.missing? consumerIds = some e ∧
        flagDrifted consumerIds before after a = (.error e, a)) := by
  rw [← exists_carriedByAll_iff]
  constructor
  · rintro ⟨carried, h⟩
    refine ⟨_, _, flagDrifted_eq ha h, Text.sortedSet_increasing _, fun id => ?_,
      Directory.flagAll_result _ _⟩
    exact mem_drifted_iff_isAffected ha h
  · intro hnone
    cases h : carriedByAll a.directory consumerIds with
    | ok carried => exact absurd ⟨carried, h⟩ hnone
    | error e =>
      refine ⟨e, ?_, flagDrifted_of_error h⟩
      rw [← fault?_carriedByAll, h, fault?]

theorem entitlementsOf_promoted :
    promotedDirectory.entitlementsOf "sample-consumer" = [Sample.entitlement] := by
  show List.mergeSort [_] _ = _
  rw [List.mergeSort_singleton]

theorem findsAll_promoted : promotedDirectory.FindsAll ["sample-consumer"] := by
  intro id hid
  obtain rfl := List.mem_singleton.1 hid
  refine ⟨MovingConsumer.consumer.within [MovingConsumer.dev], rfl, ?_⟩
  intro e he
  have he : e ∈ promotedDirectory.entitlementsOf "sample-consumer" := he
  rw [entitlementsOf_promoted] at he
  obtain rfl := List.mem_singleton.1 he
  exact ⟨MovingConsumer.pool, rfl⟩

theorem isAffected_promoted :
    IsAffected promotedDirectory ["sample-consumer"] [MovingConsumer.dev.reduced] []
      Sample.entitlement.id :=
  ⟨_, List.mem_singleton_self _, MovingConsumer.consumer.within [MovingConsumer.dev], rfl,
    Sample.entitlement, rfl, rfl, MovingConsumer.pool, rfl, "1000", by decide,
    winnerId_ne_iff.1 (by decide)⟩

/-- The sample entitlement is flagged when its consumer leaves the environment that promotes its
content; if an unknown consumer is named as well, nothing happens. -/
theorem flagDrifted_promoted : ∃ a, Reachable a ∧
    (∃ drifted directory,
      flagDrifted ["sample-consumer"] [MovingConsumer.dev.reduced] [] a =
          (.ok drifted, { a with directory }) ∧
        Sample.entitlement.id ∈ drifted ∧
        directory.entitlements.get? Sample.entitlement.id =
          some { Sample.entitlement with dirty := true }) ∧
      flagDrifted ["sample-consumer", "nobody"] [MovingConsumer.dev.reduced] [] a =
        (.error (.notFound "consumer nobody"), a) := by
  obtain ⟨a, -, -, ha, -, hdirectory, -⟩ := exists_issued
  have hexact (consumerIds : List String) :=
    flagDrifted_exact ha.consistent.entitlements consumerIds [MovingConsumer.dev.reduced] []
  rw [hdirectory] at hexact
  refine ⟨a, ha, ?_, ?_⟩
  · obtain ⟨drifted, directory, happly, -, hmem, entitlements, hd, hget⟩ :=
      (hexact ["sample-consumer"]).1 findsAll_promoted
    have hdrifted := (hmem _).2 isAffected_promoted
    refine ⟨drifted, directory, happly, hdrifted, ?_⟩
    rw [hd]
    refine (hget _).trans ?_
    simp only [hdrifted, if_true]
    rfl
  · have hmissing : ¬ promotedDirectory.FindsAll ["sample-consumer", "nobody"] := by
      intro h
      obtain ⟨c, hc, -⟩ := h "nobody" (by decide)
      cases hc
    obtain ⟨e, he, happly⟩ := (hexact ["sample-consumer", "nobody"]).2 hmissing
    have hfirst : promotedDirectory.missing? ["sample-consumer", "nobody"] =
        some (.notFound "consumer nobody") := by
      have hpools : promotedDirectory.missingPool? "sample-consumer" = none := by
        rw [Directory.missingPool?, entitlementsOf_promoted]
        rfl
      have hfound : promotedDirectory.missing? ["sample-consumer", "nobody"] =
          promotedDirectory.missing? ["nobody"] :=
        Directory.missing?_cons_of_found (c := MovingConsumer.consumer.within [MovingConsumer.dev])
          rfl hpools
      rw [hfound]
      decide
    rw [hfirst] at he
    cases he
    exact happly

end Authority

end EntitlementAuthority
