import EntitlementAuthority.Proofs.Anonymous.Recency
import EntitlementAuthority.Proofs.Body.Clean
import EntitlementAuthority.Proofs.Issuance.Acts
import EntitlementAuthority.Proofs.Issuance.Flagging

/-!
# Clean records

As long as only clean records are entered, all bodies are clean, and what is kept for anonymous
consumers stays so, however long it is kept and whatever had to make room for it.

* `DirectoryChange.IsClean`, `Directory.IsClean` — such changes and what they lead to.
* `ueberBody_isClean`, `entitlementProducts_isClean`, `anonymousModels_isClean` — what is made of
  clean records.
* `AnonymousContent.IsSigned` — contents that are clean, with the payload that was signed for them.
* `AnonymousCache.Holds` — what is so of every entry of the cache.
* `Authority.ArisesBy.isClean` — the records are clean and every entry is signed, at all times.
-/

namespace EntitlementAuthority

open Json (IsInt64)

/-! ### Records -/

/-- If the change enters a record, that is clean. -/
def DirectoryChange.IsClean : DirectoryChange → Prop
  | addProduct p => p.IsClean
  | addPool p => p.IsClean
  | addEntitlement e => IsInt64 e.quantity
  | _ => True

namespace Directory

/-- All records are clean. -/
structure IsClean (d : Directory) : Prop where
  products : ∀ id p, d.products.get? id = some p → p.IsClean
  pools : ∀ id p, d.pools.get? id = some p → p.IsClean
  entitlements : ∀ id e, d.entitlements.get? id = some e → IsInt64 e.quantity

variable {d : Directory}

theorem IsClean.setDirty (h : d.IsClean) (id : String) (dirty : Bool) :
    (Directory.setDirty id dirty d).2.IsClean := by
  obtain ⟨entitlements, hd, hget⟩ := setDirty_result id dirty d
  rw [hd]
  refine ⟨h.products, h.pools, fun id' e he => ?_⟩
  have he : entitlements.get? id' = some e := he
  rw [hget] at he
  split at he
  · obtain ⟨e', he', rfl⟩ := Option.map_eq_some_iff.1 he
    exact h.entitlements id' e' he'
  · exact h.entitlements id' e he

theorem IsClean.withoutEnvironment (h : d.IsClean) (id : String) :
    (Directory.withoutEnvironment id d).IsClean := by
  refine ⟨h.products, h.pools, fun id' e he => ?_⟩
  have he : (d.entitlements.filter _).get? id' = some e := he
  rw [Table.get?_filter, Option.filter_eq_some_iff] at he
  exact h.entitlements id' e he.1

/-- **Clean changes keep all records clean.** -/
theorem IsClean.apply (h : d.IsClean) {c : DirectoryChange} (hc : c.IsClean) :
    (c.apply d).IsClean := by
  cases c with
  | addProduct p => exact ⟨Table.forall_insert h.products hc, h.pools, h.entitlements⟩
  | addPool p => exact ⟨h.products, Table.forall_insert h.pools hc, h.entitlements⟩
  | addEntitlement e => exact ⟨h.products, h.pools, Table.forall_insert h.entitlements hc⟩
  | updateOwner id f =>
    obtain hd | ⟨o, -, hd⟩ := DirectoryChange.updateOwner_apply id f d
    · rwa [hd]
    · rw [hd]
      exact ⟨h.products, h.pools, h.entitlements⟩
  | updateConsumer id f =>
    obtain hd | ⟨c, -, hd⟩ := DirectoryChange.updateConsumer_apply id f d
    · rwa [hd]
    · rw [hd]
      exact ⟨h.products, h.pools, h.entitlements⟩
  | updateEnvironment id f =>
    obtain hd | ⟨e, -, hd⟩ := DirectoryChange.updateEnvironment_apply id f d
    · rwa [hd]
    · rw [hd]
      exact ⟨h.products, h.pools, h.entitlements⟩
  | setDirty id dirty => exact h.setDirty id dirty
  | deleteEnvironment id =>
    obtain hd | hd := DirectoryChange.deleteEnvironment_apply id d
    · rwa [hd]
    · rw [hd]
      exact h.withoutEnvironment id
  | _ => exact ⟨h.products, h.pools, h.entitlements⟩

end Directory

/-! ### Bodies -/

section Bodies

variable {config : Config} {d : Directory} (h : d.IsClean)
include h

theorem entitlementProducts_isClean {consumer : Consumer} {owner : Owner} {id : String}
    {pool : Pool} (hpool : d.pool id = .ok pool) :
    ∀ p ∈ entitlementProducts config d consumer owner pool, p.IsClean := by
  have hclean := h.pools id pool (Directory.find_eq_ok.1 hpool)
  exact ContentView.createProducts_isClean fun p hp =>
    hclean.product p (mem_graph_of_mem_grantedProducts hp)

/-- **The body for everything that an owner has is clean.** -/
theorem ueberBody_isClean (owner : Owner) : (ueberBody config d owner).IsClean := by
  refine .contentOnly fun p hp => ?_
  rw [List.mem_singleton.1 hp]
  refine unscopedModels_isClean (mergeContents_isClean fun pc hpc => ?_)
  obtain ⟨pool, hpool, hpc⟩ := List.mem_flatMap.1 hpc
  obtain ⟨id, hget⟩ := Table.mem_values_iff.1 (List.mem_of_mem_filter hpool)
  obtain ⟨q, hq, hpc⟩ := List.mem_flatMap.1 hpc
  exact (h.pools id pool hget).product q hq pc hpc

/-- So are the contents that anonymous consumers get. -/
theorem anonymousModels_isClean (ids : List String) :
    ∀ c ∈ anonymousModels config (d.productsOf ids), c.IsClean := by
  refine unscopedModels_isClean (mergeContents_isClean fun pc hpc => ?_)
  obtain ⟨p, hp, hpc⟩ := List.mem_flatMap.1 hpc
  obtain ⟨id, -, hget⟩ := List.mem_filterMap.1 hp
  obtain ⟨q, hq, hpc⟩ := List.mem_flatMap.1 hpc
  exact h.products id p hget q (Product.mem_graph_of_mem_reach p hq) pc hpc

end Bodies

/-! ### What is kept for anonymous consumers -/

/-- Its contents are clean, and its payload was signed for them and names no consumer. -/
structure AnonymousContent.IsSigned (signer : Signer) (v : AnonymousContent) : Prop where
  contents : ∀ c ∈ v.contents, c.IsClean
  payload : v.payload = Payload.ofBody signer (anonymousBody "" v.contents)

namespace AnonymousCache

variable {Q : AnonymousContent → Prop} {cache : AnonymousCache} {ids : List String} {now : Instant}

/-- So it is with everything that is kept. -/
def Holds (Q : AnonymousContent → Prop) (cache : AnonymousCache) : Prop :=
  ∀ e ∈ cache.entries, Q e.value

/-- What is found was kept, and nothing is added. -/
theorem Holds.get (h : cache.Holds Q) (ids : List String) (now : Instant) :
    (∀ v ∈ (cache.get ids now).1, Q v) ∧ (cache.get ids now).2.Holds Q := by
  refine ⟨fun v hv => ?_, fun e he => h e (mem_entries_get he)⟩
  obtain ⟨e, he, -, rfl, -⟩ := exists_entry_of_get hv
  exact h e he

/-- The least recently used entry makes room, and the others stay. -/
theorem Holds.put (h : cache.Holds Q) {v : AnonymousContent} (hv : Q v) (ids : List String)
    (now : Instant) : (cache.put ids v now).Holds Q := by
  intro e he
  obtain rfl | he := mem_entries_put he
  · exact hv
  · exact h e (mem_others.1 he).1

end AnonymousCache

namespace Authority

variable {a b : Authority} {role : Role} {ids : List String} {now : Instant}

/-- The records are clean, and everything that is kept for anonymous consumers is signed. -/
structure IsClean (a : Authority) : Prop where
  directory : a.directory.IsClean
  anonymousContent : a.anonymousContent.Holds (AnonymousContent.IsSigned a.ca.signer)

/-- What is built for anonymous consumers is signed. -/
theorem freshAnonymousContent_isSigned (ha : a.directory.IsClean) (ids : List String) :
    (a.freshAnonymousContent ids).IsSigned a.ca.signer :=
  ⟨anonymousModels_isClean ha ids, rfl⟩

/-- **What anonymous consumers get is signed**, whether it was kept or is built, and so is
everything that is kept afterwards. -/
theorem anonymousContentFor_isSigned (ha : a.IsClean) (ids : List String) (now : Instant) :
    (∀ content, (anonymousContentFor ids now a).1 = .ok content → content.IsSigned a.ca.signer) ∧
      (anonymousContentFor ids now a).2.anonymousContent.Holds
        (AnonymousContent.IsSigned a.ca.signer) := by
  obtain ⟨hfound, hkept⟩ := ha.anonymousContent.get ids now
  have hresult := anonymousContentFor_result ids now a
  generalize anonymousContentFor ids now a = r at hresult
  cases hresult with
  | found content hanswer =>
    refine ⟨?_, hkept⟩
    rintro content' ⟨⟩
    exact hfound content hanswer
  | built content _ hbuilt =>
    have hsigned : content.IsSigned a.ca.signer :=
      hbuilt.2 ▸ freshAnonymousContent_isSigned ha.directory ids
    refine ⟨?_, hkept.put hsigned ids now⟩
    rintro content' ⟨⟩
    exact hsigned
  | failed => exact ⟨nofun, hkept⟩

theorem sign_anonymousContent (p : Plan) (now : Instant) (a : Authority) :
    (sign p now a).2.anonymousContent = a.anonymousContent := by
  have hr := sign_result p now a
  generalize sign p now a = r at hr
  cases hr <;> rfl

/-- **Issuing keeps everything that is kept for anonymous consumers signed.** -/
theorem issue_anonymousContent {o : Outcome IssuedCertificate} (ha : a.Consistent)
    (hclean : a.IsClean) (h : issue role now a = (o, b)) :
    b.anonymousContent.Holds (AnonymousContent.IsSigned b.ca.signer) := by
  have hplanned : (plan role now a).2.anonymousContent.Holds
      (AnonymousContent.IsSigned a.ca.signer) := by
    have hasked : ∀ cache, a.AskedOnce cache →
        cache.Holds (AnonymousContent.IsSigned a.ca.signer) := by
      rintro cache (rfl | ⟨ids, t, rfl⟩)
      · exact hclean.anonymousContent
      · exact (anonymousContentFor_isSigned hclean ids t).2
    have hr := plan_result role now a
    generalize plan role now a = r at hr
    cases hr with
    | unsigned answer cache h => exact hasked cache h
    | signed p cache _ _ h => exact hasked cache h
  rw [((leads_of_issue h).fixed ha).2]
  unfold issue at h
  rcases hplan : plan role now a with ⟨answer, a₁⟩
  rw [hplan] at hplanned
  cases answer with
  | error e =>
    rw [Request.bind_error hplan] at h
    cases h
    exact hplanned
  | ok p =>
    rw [Request.bind_ok hplan] at h
    rw [← sign_anonymousContent p now a₁, h] at hplanned
    exact hplanned

/-- **Everything is clean at all times** if only clean records are entered. -/
theorem ArisesBy.isClean (h : ArisesBy DirectoryChange.IsClean a) : a.IsClean := by
  have hdirectory : ∀ {b}, ArisesBy DirectoryChange.IsClean b → b.directory.IsClean := fun hb =>
    hb.directory_invariant ⟨nofun, nofun, nofun⟩ (fun _ _ hd hc => hd.apply hc)
      fun _ id dirty hd => hd.setDirty id dirty
  refine ⟨hdirectory h, h.invariant (I := fun a => a.anonymousContent.Holds
    (AnonymousContent.IsSigned a.ca.signer)) (fun b hnew => ?_) fun b c hb hkept hact => ?_⟩
  · rw [AnonymousCache.Holds, hnew.anonymousContent]
    exact nofun
  · have hclean : b.IsClean := ⟨hdirectory hb, hkept⟩
    cases hact with
    | issued role now fresh b' hissue =>
      -- taking its place, the certificate does not touch what is kept
      have hissued := issue_anonymousContent hb.consistent hclean hissue
      exact hissued
    | refused role now e c hissue => exact issue_anonymousContent hb.consistent hclean hissue
    | cleared => exact fun _ h => (nomatch h)
    | _ => exact hkept

end Authority

end EntitlementAuthority
