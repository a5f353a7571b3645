import EntitlementAuthority.Proofs.Anonymous.ProductSets
import EntitlementAuthority.Proofs.Anonymous.Recency
import EntitlementAuthority.Proofs.Issuance.CleanRecords
import EntitlementAuthority.Proofs.Issuance.KeyPairs

/-!
# Whose content anonymous consumers get

A consumer gets what is kept under the text of its product set. That was built for a set with this
text, which need not be its own; it is if the sets that are granted are told apart.

* `DirectoryChange.Grants`, `Directory.Grants` — only some product sets are granted.
* `IssuedCertificate.Carries` — what is put on a certificate.
* `Authority.CacheAct`, `Authority.CacheRun` — what requests do, and requests to the cache itself.
* `Authority.Traced` — everything that is kept was built before for a set with its text.
* `Authority.get_of_same_key` — sets with the same text are not told apart.
* `Authority.anonymousContent_by_key` — where what a consumer gets comes from.
-/

namespace EntitlementAuthority

/-! ### Product sets that are granted -/

section Granted

variable {G : List String → Prop} {d : Directory}

/-- If an anonymous consumer is added, its product set is allowed. -/
def DirectoryChange.Grants (G : List String → Prop) : DirectoryChange → Prop
  | addAnonymousConsumer c => G c.productIds
  | _ => True

/-- The product sets of all anonymous consumers are allowed. -/
def Directory.Grants (G : List String → Prop) (d : Directory) : Prop :=
  ∀ uuid c, d.anonymousConsumers.get? uuid = some c → G c.productIds

/-- Only adding them changes the anonymous consumers. -/
theorem DirectoryChange.anonymousConsumers_apply (c : DirectoryChange) (d : Directory) :
    (c.apply d).anonymousConsumers = d.anonymousConsumers ∨
      ∃ x, c = .addAnonymousConsumer x ∧
        (c.apply d).anonymousConsumers = d.anonymousConsumers.insert x.uuid x := by
  cases c with
  | addAnonymousConsumer x => exact .inr ⟨x, rfl, rfl⟩
  | updateOwner id f =>
    obtain hd | ⟨o, -, hd⟩ := updateOwner_apply id f d <;> exact .inl (by rw [hd])
  | updateConsumer id f =>
    obtain hd | ⟨x, -, hd⟩ := updateConsumer_apply id f d <;> exact .inl (by rw [hd])
  | updateEnvironment id f =>
    obtain hd | ⟨e, -, hd⟩ := updateEnvironment_apply id f d <;> exact .inl (by rw [hd])
  | setDirty id dirty =>
    obtain ⟨entitlements, hd, -⟩ := Directory.setDirty_result id dirty d
    exact .inl (congrArg (·.anonymousConsumers) hd)
  | deleteEnvironment id =>
    obtain hd | hd := deleteEnvironment_apply id d <;>
      exact .inl (congrArg (·.anonymousConsumers) hd)
  | _ => exact .inl rfl

theorem Directory.Grants.apply (h : d.Grants G) {c : DirectoryChange} (hc : c.Grants G) :
    (c.apply d).Grants G := by
  unfold Directory.Grants
  obtain hsame | ⟨x, rfl, hadded⟩ := c.anonymousConsumers_apply d
  · rwa [hsame]
  · rw [hadded]
    exact Table.forall_insert h hc

theorem Directory.Grants.setDirty (h : d.Grants G) (id : String) (dirty : Bool) :
    (Directory.setDirty id dirty d).2.Grants G :=
  h.apply (c := .setDirty id dirty) trivial

end Granted

/-! ### What is built and kept -/

/-- The certificate lists some contents for a consumer and carries the payload that goes with
them. -/
def IssuedCertificate.Carries (c : IssuedCertificate) (uuid : String)
    (content : AnonymousContent) : Prop :=
  c.body = some (anonymousBody uuid content.contents) ∧ c.payload = some content.payload

namespace Authority

variable {a b start : Authority} {G : List String → Prop} {role : Role} {ids : List String}
  {now : Instant} {e : AnonymousEntry} {content : AnonymousContent}

/-- An entry that is kept, or one with what is built for a product set under its text. -/
def KeptOrBuilt (a : Authority) (ids : List String) (e : AnonymousEntry) : Prop :=
  e ∈ a.anonymousContent.entries ∨ (e.key = anonymousKey ids ∧ a.Builds ids e.value)

/-- Everything that is kept after content was asked for was kept before or is built. -/
theorem mem_entries_anonymousContentFor
    (h : e ∈ (anonymousContentFor ids now a).2.anonymousContent.entries) : a.KeptOrBuilt ids e := by
  have hresult := anonymousContentFor_result ids now a
  generalize anonymousContentFor ids now a = r at h hresult
  cases hresult with
  | found => exact .inl (AnonymousCache.mem_entries_get h)
  | built content hnone hbuilt =>
    obtain rfl | hkept := AnonymousCache.mem_entries_put h
    · exact .inr ⟨rfl, hbuilt⟩
    · exact .inl (AnonymousCache.mem_entries_get (AnonymousCache.mem_others.1 hkept).1)
  | failed => exact .inl (AnonymousCache.mem_entries_get h)

/-- What is answered is kept under the text of the product set, or built for it. -/
theorem exists_entry_of_anonymousContentFor
    (h : anonymousContentFor ids now a = (.ok content, b)) :
    ∃ e, e.key = anonymousKey ids ∧ e.value = content ∧ a.KeptOrBuilt ids e := by
  have hresult := anonymousContentFor_result ids now a
  rw [h] at hresult
  cases hresult with
  | found _ hfound =>
    obtain ⟨e, he, hkey, hvalue, -⟩ := AnonymousCache.exists_entry_of_get hfound
    exact ⟨e, hkey, hvalue, .inl he⟩
  | built _ hnone hbuilt => exact ⟨⟨anonymousKey ids, content, now⟩, rfl, rfl, .inr ⟨rfl, hbuilt⟩⟩

/-- If nothing is kept, the content is built. -/
theorem anonymousContentFor_of_empty (hempty : a.anonymousContent.entries = [])
    (hproducts : a.directory.productsOf ids ≠ []) (now : Instant) :
    ∃ b, anonymousContentFor ids now a = (.ok (a.freshAnonymousContent ids), b) := by
  have hresult := anonymousContentFor_result ids now a
  generalize anonymousContentFor ids now a = r at hresult
  cases hresult with
  | found content hfound =>
    obtain ⟨e, he, -⟩ := AnonymousCache.exists_entry_of_get hfound
    rw [hempty] at he
    cases he
  | built content hnone hbuilt => exact ⟨_, by rw [hbuilt.2]⟩
  | failed hnone hnil => exact absurd hnil hproducts

theorem anonymousContentFor_of_found (h : (a.anonymousContent.get ids now).1 = some content) :
    ∃ b, anonymousContentFor ids now a = (.ok content, b) := by
  have hresult := anonymousContentFor_result ids now a
  generalize anonymousContentFor ids now a = r at hresult
  cases hresult with
  | found content' hfound =>
    rw [h] at hfound
    obtain rfl := Option.some.inj hfound
    exact ⟨_, rfl⟩
  | built content' hnone =>
    rw [h] at hnone
    cases hnone
  | failed hnone =>
    rw [h] at hnone
    cases hnone

/-- **Sets with the same text are not told apart**: what has been answered for one is found for the
other. -/
theorem get_of_same_key {ids' : List String} (h : anonymousContentFor ids now a = (.ok content, b))
    (hkey : anonymousKey ids' = anonymousKey ids) (hcapacity : 0 < a.anonymousContent.capacity)
    (hlifetime : 0 < a.anonymousContent.lifetime) :
    (b.anonymousContent.get ids' now).1 = some content := by
  obtain ⟨hcap, hlife⟩ := AnonymousCache.get_settings a.anonymousContent ids now
  have hresult := anonymousContentFor_result ids now a
  rw [h] at hresult
  cases hresult with
  | found _ hfound =>
    have hget := a.anonymousContent.get_result ids now
    rw [hfound] at hget
    generalize hentries : (a.anonymousContent.get ids now).2.entries = entries at hget
    cases hget with
    | found e he hkey' hfresh =>
      exact AnonymousCache.get_of_head hentries (hkey'.trans hkey.symm) (hlife ▸ hfresh)
  | built _ hnone hbuilt =>
    obtain ⟨n, hn⟩ := Nat.exists_eq_succ_of_ne_zero (Nat.ne_of_gt hcapacity)
    have hentries : ((a.anonymousContent.get ids now).2.put ids content now).entries =
        ⟨anonymousKey ids, content, now⟩ ::
          ((a.anonymousContent.get ids now).2.others (anonymousKey ids)).take n := by
      show List.take (a.anonymousContent.get ids now).2.capacity _ = _
      rw [hcap, hn]
      exact List.take_succ_cons
    refine AnonymousCache.get_of_head hentries hkey.symm ?_
    show Instant.nanosBetween now now < ((a.anonymousContent.get ids now).2.lifetime : Int)
    rw [hlife, Instant.nanosBetween]
    omega

/-- Planning asks for content only for the products of a consumer. -/
theorem plan_anonymousContent (role : Role) (now : Instant) (a : Authority) :
    (plan role now a).2.anonymousContent = a.anonymousContent ∨
      ∃ consumer, a.directory.anonymousConsumer role.subject = .ok consumer ∧
        (plan role now a).2.anonymousContent =
          (anonymousContentFor consumer.productIds now a).2.anonymousContent := by
  unfold plan
  cases role.kind with
  | anonymousContentAccess =>
    dsimp only
    unfold anonymousPlan
    rw [Request.bind_ok (Request.get_apply _ a)]
    by_cases hhosted : (!a.config.content.hosted) = true
    · rw [if_pos hhosted, Request.bind_error (Request.fail_apply _ a)]
      exact .inl rfl
    rw [if_neg hhosted]
    dsimp only
    cases hconsumer : a.directory.anonymousConsumer role.subject with
    | error e =>
      rw [Request.bind_error (by rw [Request.read_apply, hconsumer])]
      exact .inl rfl
    | ok consumer =>
      rw [Request.bind_ok (by rw [Request.read_apply, hconsumer])]
      generalize validateSubject _ _ _ = checked
      cases checked with
      | error e =>
        rw [Request.bind_error (Request.ofOutcome_apply _ a)]
        exact .inl rfl
      | ok _ =>
        rw [Request.bind_ok (Request.ofOutcome_apply _ a)]
        refine .inr ⟨consumer, rfl, ?_⟩
        rcases hcontent : anonymousContentFor consumer.productIds now a with ⟨answer, b⟩
        cases answer with
        | error e => rw [Request.bind_error hcontent]
        | ok content =>
          rw [Request.bind_ok hcontent]
          rfl
  | _ => exact .inl rfl

/-- Issuing asks for no other content. -/
theorem issue_anonymousContent_eq (role : Role) (now : Instant) (a : Authority) :
    (issue role now a).2.anonymousContent = (plan role now a).2.anonymousContent := by
  unfold issue
  rcases hplan : plan role now a with ⟨answer, b⟩
  cases answer with
  | error e => rw [Request.bind_error hplan]
  | ok p =>
    rw [Request.bind_ok hplan]
    exact sign_anonymousContent p now b

/-- What issuing leaves was kept, or is built for the products of a consumer. -/
theorem mem_entries_issue {o : Outcome IssuedCertificate} (hissue : issue role now a = (o, b))
    (h : e ∈ b.anonymousContent.entries) : e ∈ a.anonymousContent.entries ∨
      ∃ consumer, a.directory.anonymousConsumer role.subject = .ok consumer ∧
        a.KeptOrBuilt consumer.productIds e := by
  have hentries := issue_anonymousContent_eq role now a
  rw [hissue] at hentries
  rw [hentries] at h
  obtain hsame | ⟨consumer, hconsumer, hasked⟩ := plan_anonymousContent role now a
  · rw [hsame] at h
    exact .inl h
  · rw [hasked] at h
    exact .inr ⟨consumer, hconsumer, mem_entries_anonymousContentFor h⟩

/-- The certificate of an anonymous consumer is made of content for its products. -/
theorem issue_anonymous_eq_ok {uuid : String} {fresh : IssuedCertificate}
    (h : issue ⟨.anonymousContentAccess, uuid⟩ now a = (.ok fresh, b)) :
    ∃ consumer content a₁, a.directory.anonymousConsumer uuid = .ok consumer ∧
      anonymousContentFor consumer.productIds now a = (.ok content, a₁) ∧
      fresh.Carries consumer.uuid content ∧ b.anonymousContent = a₁.anonymousContent := by
  obtain ⟨p, a₁, hplan, hsign⟩ := Request.bind_eq_ok.1 h
  obtain ⟨consumer, content, hconsumer, hcontent, -, -, hbody, hpayload, -⟩ :=
    anonymousPlan_eq_ok hplan
  obtain ⟨key, keys, rfl, rfl⟩ := sign_eq_ok hsign
  refine ⟨consumer, content, a₁, hconsumer, hcontent, ⟨hbody, ?_⟩, rfl⟩
  show p.payload.text a₁.ca.signer = _
  rw [hpayload]
  rfl

end Authority

/-! ### Runs -/

/-- If the request to the cache puts something, it is what is built for a product set that is
allowed. -/
def CacheRequest.Allows (G : List String → Prop) (a : Authority) : CacheRequest → Prop
  | put ids content => G ids ∧ a.Builds ids content
  | _ => True

namespace Authority

variable {a b start : Authority} {G : List String → Prop} {now : Instant} {e : AnonymousEntry}

/-- One thing that requests do, or a request to the cache itself. -/
inductive CacheAct (G : List String → Prop) (a : Authority) : Authority → Prop
  | acted {b : Authority} (h : Act (DirectoryChange.Grants G) a b) : CacheAct G a b
  | asked (r : CacheRequest) (now : Instant) (hr : r.Allows G a) :
      CacheAct G a { a with anonymousContent := r.apply now a.anonymousContent }

/-- A run in which only some product sets are granted. -/
def CacheRun (G : List String → Prop) : Authority → Authority → Prop :=
  Relation.ReflTransGen (CacheAct G)

/-- Everything that is kept was built, in a state before, for a product set with its text. -/
def Traced (G : List String → Prop) (start a : Authority) : Prop :=
  ∀ e ∈ a.anonymousContent.entries, ∃ ids m, CacheRun G start m ∧ CacheRun G m a ∧ G ids ∧
    anonymousKey ids = e.key ∧ m.Builds ids e.value

theorem Act.mem_entries {P : DirectoryChange → Prop} (h : Act P a b)
    (he : e ∈ b.anonymousContent.entries) : e ∈ a.anonymousContent.entries ∨
      ∃ uuid consumer, a.directory.anonymousConsumer uuid = .ok consumer ∧
        a.KeptOrBuilt consumer.productIds e := by
  cases h with
  | issued role now fresh b' hissue =>
    have he : e ∈ b'.anonymousContent.entries := he
    exact (mem_entries_issue hissue he).imp_right fun hbuilt => ⟨role.subject, hbuilt⟩
  | refused role now f b' hissue =>
    exact (mem_entries_issue hissue he).imp_right fun hbuilt => ⟨role.subject, hbuilt⟩
  | cleared => cases he
  | _ => exact .inl he

/-- **What one step leaves in the cache** was kept, or is built for a product set that is allowed. -/
theorem CacheAct.mem_entries (hgrants : a.directory.Grants G) (h : CacheAct G a b)
    (he : e ∈ b.anonymousContent.entries) : e ∈ a.anonymousContent.entries ∨
      ∃ ids, G ids ∧ anonymousKey ids = e.key ∧ a.Builds ids e.value := by
  cases h with
  | acted h =>
    obtain hkept | ⟨uuid, consumer, hconsumer, hkept | ⟨hkey, hbuilt⟩⟩ := h.mem_entries he
    · exact .inl hkept
    · exact .inl hkept
    · have hgranted := hgrants uuid consumer (Directory.find_eq_ok.1 hconsumer)
      exact .inr ⟨consumer.productIds, hgranted, hkey.symm, hbuilt⟩
  | asked r now hr =>
    obtain hkept | ⟨ids, content, rfl, rfl⟩ := AnonymousCache.mem_entries_apply he
    · exact .inl hkept
    · exact .inr ⟨ids, hr.1, rfl, hr.2⟩

/-- What stays so along a run. -/
structure Serving (G : List String → Prop) (start a : Authority) : Prop where
  consistent : a.Consistent
  grants : a.directory.Grants G
  traced : Traced G start a

theorem Serving.act (hrun : CacheRun G start a) (h : Serving G start a) (hact : CacheAct G a b) :
    Serving G start b where
  consistent := by
    cases hact with
    | acted hact => exact hact.leads.consistent h.consistent
    | asked r now hr =>
      exact Leads.consistent (.of_effect (.quiet a.signatures a.payloads _ a.keys)) h.consistent
  grants := by
    cases hact with
    | acted hact =>
      obtain hsame | ⟨change, hchange, hd⟩ | ⟨id, dirty, hd⟩ := hact.directory h.consistent
      · exact hsame ▸ h.grants
      · exact hd ▸ h.grants.apply hchange
      · exact hd ▸ h.grants.setDirty id dirty
    | asked r now hr => exact h.grants
  traced e he := by
    obtain hkept | ⟨ids, hgranted, hkey, hbuilt⟩ := hact.mem_entries h.grants he
    · obtain ⟨ids, m, hbefore, hafter, htrace⟩ := h.traced e hkept
      exact ⟨ids, m, hbefore, hafter.tail hact, htrace⟩
    · exact ⟨ids, a, hrun, .single hact, hgranted, hkey, hbuilt⟩

theorem CacheRun.serving {cryptography : Cryptography} {config : Config}
    (hstart : create cryptography config now = .ok start) (h : CacheRun G start a) : Serving G start a := by
  induction h with
  | refl =>
    have hnew := IsNew.of_create hstart
    refine ⟨.of_create hstart, ?_, ?_⟩
    · rw [hnew.directory]
      exact nofun
    · rw [Traced, hnew.anonymousContent]
      exact nofun
  | tail hrun hact ih => exact ih.act hrun hact

/-- **Where what a consumer gets comes from.** Product sets are kept under the same text exactly if
they have the same fields, so that plain sets are told apart. Along any run, what is put on the
certificate of an anonymous consumer was built, in a state before, for a product set with the text
of its own. It is its own set if those that are granted have different texts. -/
theorem anonymousContent_by_key {cryptography : Cryptography} {config : Config} {t : Instant}
    {uuid : String} {fresh : IssuedCertificate}
    (hstart : create cryptography config t = .ok start) (hrun : CacheRun G start a)
    (hissue : issue ⟨.anonymousContentAccess, uuid⟩ now a = (.ok fresh, b)) :
    (∀ S T, anonymousKey S = anonymousKey T ↔ anonymousFields S = anonymousFields T) ∧
    (∀ S T, IsPlainSet S → IsPlainSet T → anonymousKey S = anonymousKey T → S = T) ∧
    ∃ consumer ids m content, a.directory.anonymousConsumer uuid = .ok consumer ∧
      CacheRun G start m ∧ CacheRun G m a ∧ m.Builds ids content ∧
      fresh.Carries consumer.uuid content ∧ anonymousKey ids = anonymousKey consumer.productIds ∧
      ((∀ S T, G S → G T → anonymousKey S = anonymousKey T → S = T) →
        ids = consumer.productIds) := by
  refine ⟨fun S T => anonymousKey_eq_iff, fun S T hS hT => hS.eq_of_key hT, ?_⟩
  have hserving := hrun.serving hstart
  obtain ⟨consumer, content, a₁, hconsumer, hcontent, hcarries, -⟩ := issue_anonymous_eq_ok hissue
  have hgranted := hserving.grants uuid consumer (Directory.find_eq_ok.1 hconsumer)
  obtain ⟨e, hkey, rfl, hkept | ⟨-, hbuilt⟩⟩ := exists_entry_of_anonymousContentFor hcontent
  · obtain ⟨ids, m, hbefore, hafter, hids, htext, hbuilt⟩ := hserving.traced e hkept
    exact ⟨consumer, ids, m, e.value, hconsumer, hbefore, hafter, hbuilt, hcarries,
      htext.trans hkey, fun hapart => hapart _ _ hids hgranted (htext.trans hkey)⟩
  · exact ⟨consumer, consumer.productIds, a, e.value, hconsumer, hrun, .refl, hbuilt, hcarries, rfl,
      fun _ => rfl⟩

end Authority

/-! ### Two consumers -/

namespace SharedText

open Authority

/-- A product with some contents. -/
def product (id : String) (contents : Nat) : Product :=
  { Sample.system contents with id }

/-- Three products, and two anonymous consumers. -/
def changes (first second : List String) : List DirectoryChange :=
  [.addProduct (product "1" 2), .addProduct (product "2" 3), .addProduct (product "1,2" 1),
    .addAnonymousConsumer ⟨"anon-1", first⟩, .addAnonymousConsumer ⟨"anon-2", second⟩]

/-- The records of these. -/
def records (first second : List String) : Directory :=
  (changes first second).foldl (fun d c => c.apply d) .empty

/-- For how long their certificates are valid. -/
def validity : Validity :=
  Validity.days (({} : Config).backdated ⟨0, 0⟩) ({} : Config).certificates.anonymousDays

variable {a b : Authority} {uuid : String} {ids : List String} {content : AnonymousContent}

theorem exists_stocked (G : List String → Prop) (first second : List String) (hfirst : G first)
    (hsecond : G second) : ∃ start a, create .numbered {} ⟨0, 0⟩ = .ok start ∧ CacheRun G start a ∧
      a.config = {} ∧ a.directory = records first second ∧
      a.anonymousContent = .empty 1000 3600000000000 := by
  obtain ⟨start, hstart, hconfig, hdirectory, hcache⟩ : ∃ start,
      create .numbered {} ⟨0, 0⟩ = .ok start ∧
      start.config = {} ∧ start.directory = .empty ∧
      start.anonymousContent = .empty 1000 3600000000000 := ⟨_, rfl, rfl, rfl, rfl⟩
  have hallowed : ∀ c ∈ changes first second, c.Grants G := by
    simp only [changes, List.forall_mem_cons, DirectoryChange.Grants]
    exact ⟨trivial, trivial, trivial, hfirst, hsecond, nofun⟩
  have hrun := changes_induction (Q := CacheRun G start)
    (fun h hc => h.tail (.acted (.changed _ hc))) .refl hallowed
  exact ⟨start, _, hstart, hrun, hconfig, by rw [hdirectory]; rfl, hcache⟩

/-- Whoever gets content is issued a certificate with it. -/
theorem exists_issue (hconfig : a.config = {})
    (hconsumer : a.directory.anonymousConsumer uuid = .ok ⟨uuid, ids⟩)
    (hsubject : validateSubject ⟨uuid, none⟩ none validity = .ok ())
    (hcontent : anonymousContentFor ids ⟨0, 0⟩ a = (.ok content, b)) :
    ∃ fresh c, issue ⟨.anonymousContentAccess, uuid⟩ ⟨0, 0⟩ a = (.ok fresh, c) ∧
      fresh.Carries uuid content ∧ c.anonymousContent = b.anonymousContent := by
  have hplan : plan ⟨.anonymousContentAccess, uuid⟩ ⟨0, 0⟩ a = (.ok {
      role := ⟨.anonymousContentAccess, uuid⟩
      subject := ⟨uuid, none⟩
      validity
      keySubject := uuid
      body := some (anonymousBody uuid content.contents)
      extensions := compactExtensions (anonymousBody uuid content.contents) .basic
        ({} : Config).certificates.entitlementVersion none
      payload := .signed content.payload }, b) := by
    unfold plan anonymousPlan
    dsimp only
    rw [Request.bind_ok (Request.get_apply _ a), hconfig, if_neg (by decide)]
    dsimp only
    rw [Request.bind_ok (by rw [Request.read_apply, hconsumer])]
    rw [Request.bind_ok (by rw [Request.ofOutcome_apply, ← hsubject]; rfl)]
    rw [Request.bind_ok hcontent]
    rfl
  obtain ⟨fresh, c, hissue⟩ := BorrowedName.exists_issue_of_plan hplan
    ⟨hsubject, isBlank_of_validateSubject hsubject, rfl⟩
  obtain ⟨consumer, content', b', hconsumer', hcontent', hcarries, hkept⟩ :=
    issue_anonymous_eq_ok hissue
  rw [hconsumer] at hconsumer'
  cases hconsumer'
  rw [hcontent] at hcontent'
  cases hcontent'
  exact ⟨fresh, c, hissue, hcarries, hkept⟩

/-- If no id holds a comma, a consumer with two products gets what was built for these. -/
theorem anonymousContent_by_key_plain : anonymousKey ["1"] ≠ anonymousKey ["1", "2"] ∧
    ∃ start a m fresh b, CacheRun IsPlainSet start a ∧
      issue ⟨.anonymousContentAccess, "anon-2"⟩ ⟨0, 0⟩ a = (.ok fresh, b) ∧
      CacheRun IsPlainSet start m ∧ CacheRun IsPlainSet m a ∧
      fresh.Carries "anon-2" (m.freshAnonymousContent ["1", "2"]) := by
  have hplain : IsPlainSet ["1"] ∧ IsPlainSet ["1", "2"] := by
    unfold IsPlainSet
    decide
  obtain ⟨start, a, hstart, hrun, hconfig, hdirectory, hcache⟩ :=
    exists_stocked IsPlainSet ["1"] ["1", "2"] hplain.1 hplain.2
  have hconsumer : a.directory.anonymousConsumer "anon-2" = .ok ⟨"anon-2", ["1", "2"]⟩ := by
    rw [hdirectory]
    rfl
  have hproducts : a.directory.productsOf ["1", "2"] ≠ [] := by
    rw [hdirectory]
    exact List.cons_ne_nil _ _
  obtain ⟨b, hcontent⟩ := anonymousContentFor_of_empty (by rw [hcache]; rfl) hproducts ⟨0, 0⟩
  obtain ⟨fresh, c, hissue, -⟩ := exists_issue hconfig hconsumer rfl hcontent
  obtain ⟨-, hapart, consumer, ids, m, content, hconsumer', hbefore, hafter, hbuilt, hcarries, -,
    hsame⟩ := anonymousContent_by_key hstart hrun hissue
  rw [hconsumer] at hconsumer'
  cases hconsumer'
  rw [hbuilt.2, hsame hapart] at hcarries
  refine ⟨fun hkey => ?_, start, a, m, fresh, c, hrun, hissue, hbefore, hafter, hcarries⟩
  exact absurd (hapart _ _ hplain.1 hplain.2 hkey) (by decide)

/-- What a consumer gets is determined. -/
theorem contents_of_carries {c : IssuedCertificate} {content' : AnonymousContent}
    (h : c.Carries uuid content) (h' : c.Carries uuid content') :
    content.contents = content'.contents := by
  have hbody := Option.some.inj (h.1.symm.trans h'.1)
  have hproducts := congrArg (fun body => body.products.map (·.contents)) hbody
  exact List.head_eq_of_cons_eq hproducts

/-- A consumer with the products 1 and 2 gets what was built for the product with the id 1,2, one
content in the place of three. -/
theorem served_for_other_set : anonymousKey ["1,2"] = anonymousKey ["1", "2"] ∧
    ∃ start a first b fresh c, create .numbered {} ⟨0, 0⟩ = .ok start ∧
      CacheRun (fun _ => True) start a ∧
      a.directory = records ["1,2"] ["1", "2"] ∧
      issue ⟨.anonymousContentAccess, "anon-1"⟩ ⟨0, 0⟩ a = (.ok first, b) ∧
      (b.superseded first).directory = a.directory ∧
      issue ⟨.anonymousContentAccess, "anon-2"⟩ ⟨0, 0⟩ (b.superseded first) = (.ok fresh, c) ∧
      fresh.Carries "anon-2" (a.freshAnonymousContent ["1,2"]) ∧
      ¬ fresh.Carries "anon-2" (a.freshAnonymousContent ["1", "2"]) := by
  have hkey : anonymousKey ["1", "2"] = anonymousKey ["1,2"] := by decide
  obtain ⟨start, a, hstart, hrun, hconfig, hdirectory, hcache⟩ :=
    exists_stocked (fun _ => True) ["1,2"] ["1", "2"] trivial trivial
  have hfirst : a.directory.anonymousConsumer "anon-1" = .ok ⟨"anon-1", ["1,2"]⟩ := by
    rw [hdirectory]
    rfl
  have hproducts : a.directory.productsOf ["1,2"] ≠ [] := by
    rw [hdirectory]
    exact List.cons_ne_nil _ _
  obtain ⟨a₁, hcontent⟩ := anonymousContentFor_of_empty (by rw [hcache]; rfl) hproducts ⟨0, 0⟩
  obtain ⟨first, b, hissue, -, hkept⟩ := exists_issue hconfig hfirst rfl hcontent
  obtain ⟨hconfig', hdirectory'⟩ := issue_fixed hissue
  have hsame : (b.superseded first).directory = a.directory := by
    obtain h | h := superseded_records first b
    · rw [h, hdirectory']
    · rw [h, hdirectory', hdirectory, Directory.setDirty_of_none false rfl]
  have hsecond : (b.superseded first).directory.anonymousConsumer "anon-2" =
      .ok ⟨"anon-2", ["1", "2"]⟩ := by
    rw [hsame, hdirectory]
    rfl
  -- what was built for the first consumer is found for the second
  have hfound : ((b.superseded first).anonymousContent.get ["1", "2"] ⟨0, 0⟩).1 =
      some (a.freshAnonymousContent ["1,2"]) := by
    show (b.anonymousContent.get _ _).1 = _
    rw [hkept]
    exact get_of_same_key hcontent hkey (hcache ▸ by decide) (hcache ▸ by decide)
  obtain ⟨a₂, hcontent'⟩ := anonymousContentFor_of_found hfound
  obtain ⟨fresh, c, hissue', hcarries, -⟩ :=
    exists_issue (a := b.superseded first) (hconfig'.trans hconfig) hsecond rfl hcontent'
  refine ⟨hkey.symm, start, a, first, b, fresh, c, hstart, hrun, hdirectory, hissue, hsame, hissue',
    hcarries, fun hother => ?_⟩
  have hcontents := contents_of_carries hcarries hother
  rw [freshAnonymousContent, freshAnonymousContent, hconfig, hdirectory] at hcontents
  have hlength : (anonymousModels {} ((records ["1,2"] ["1", "2"]).productsOf ["1,2"])).length =
      (anonymousModels {} ((records ["1,2"] ["1", "2"]).productsOf ["1", "2"])).length :=
    congrArg List.length hcontents
  exact absurd hlength (by decide)

end SharedText

end EntitlementAuthority
