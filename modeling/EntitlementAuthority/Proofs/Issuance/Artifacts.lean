import EntitlementAuthority.Proofs.Certificate.Artifact
import EntitlementAuthority.Proofs.Issuance.CleanRecords

/-!
# Certificates that agree with their payloads

What a compact certificate grants stands in two places: as the tree of content paths in the
certificate, and as the body in the signed payload. Clients look into both.

* `IssuedCertificate.Agrees` — both say the same.
* `Plan.issued_agrees`, `Plan.not_agrees_of_no_payload` — whether they do is decided by the plan.
* `Authority.agrees_of_issue_ueber`, `Authority.agrees_of_issue_anonymous`,
  `Authority.agrees_of_issue_iff` — they do in what is issued for an owner and for anonymous
  consumers, and for an entitlement if its consumer reads compact certificates.
* `Authority.IsOrigin` — a state in which a certificate was issued.
* `Authority.agrees_of_generate` — what is handed out agrees if it is for an owner or an anonymous
  consumer, or if its consumer read compact certificates when it was issued.
* `UpgradedConsumer` — a consumer that has come to read compact certificates since then.
-/

namespace EntitlementAuthority

/-! ### Agreement -/

/-- The artifact has a payload that the authority has signed, the certificate has one tree of
content paths, and that lists the content paths of the body in normal form. -/
def IssuedCertificate.Agrees (ca : CertificateAuthority) (c : IssuedCertificate) : Prop :=
  ∃ p body tree, SignedPayload.parse c.artifact = .ok (some p) ∧ p.verify ca.signer = .ok () ∧
    p.body = .ok body ∧ c.certificate.certificate.contentTrees = [tree] ∧
    PathTree.decode tree = .ok (Text.sortedSet (PathTree.normalPaths body.contentPaths))

/-- The nodes of the tree of content paths and its bytes can be counted in 64 bits. -/
structure EntitlementBody.IsStorable (b : EntitlementBody) : Prop where
  nodes : PathTree.nodeCount b.contentPaths < 2 ^ 64
  bytes : (PathTree.encode b.contentPaths).length < 2 ^ 64

namespace Plan

variable {p : Plan} {a : Authority} {key : KeyPair} {now : Instant} {body signed : EntitlementBody}
  {level : EntitlementLevel} {version : String} {productNamespace : Option String}

/-- **A compact certificate agrees** with a payload for a body with the same paths. -/
theorem issued_agrees
    (hextensions : p.extensions = compactExtensions body level version productNamespace)
    (hpayload : p.payload.text a.ca.signer = some (Payload.ofBody a.ca.signer signed))
    (hsigned : signed.IsClean) (hpaths : signed.contentPaths = body.contentPaths)
    (hbody : body.IsStorable) : (p.issued a key now).Agrees a.ca := by
  have hpayloads := SignedPayload.parse_payload Zlib.isCompressor_deflate
    (p.issued a key now).certificate.endsLine_pem a.ca.signer_sound ""
  obtain ⟨found, hparse, -, -, -, hverify, hread⟩ := hpayloads.2 signed hsigned.fits
  have hartifact : (p.issued a key now).artifact = (p.issued a key now).certificate.pem ++
      Payload.ofBodyWith Zlib.deflate a.ca.signer signed ++ "" := by
    unfold IssuedCertificate.artifact issued
    rw [hpayload, String.append_empty]
    rfl
  have hlength : (PathTree.encode body.contentPaths).length < 256 ^ Der.maxLengthBytes :=
    Nat.lt_of_lt_of_le hbody.bytes (by decide)
  refine ⟨found, signed, _, hartifact ▸ hparse, hverify, hread,
    a.ca.contentTrees_assemble hextensions hlength, ?_⟩
  rw [hpaths]
  exact PathTree.decode_of_encodeWith Zlib.isCompressor_deflate (hpaths ▸ hsigned.paths)
    hbody.nodes (PathTree.encodeWith_deflate _)

/-- A certificate without a payload does not. -/
theorem not_agrees_of_no_payload (hpayload : p.payload = .none) (ca : CertificateAuthority) :
    ¬ (p.issued a key now).Agrees ca := by
  rintro ⟨found, body, tree, hparse, -⟩
  have hartifact : (p.issued a key now).artifact = (p.issued a key now).certificate.pem ++ "" := by
    unfold IssuedCertificate.artifact issued
    rw [hpayload]
    rfl
  rw [hartifact, String.append_empty, SignedPayload.parse_pem] at hparse
  cases hparse

end Plan

namespace Authority

variable {P : DirectoryChange → Prop} {a b m : Authority} {c : IssuedCertificate} {id : String}
  {role : Role} {now : Instant}

/-! ### What is issued -/

/-- What is issued says what its plan says. -/
theorem exists_plan_of_issue (ha : a.Consistent) (h : issue role now a = (.ok c, b)) :
    ∃ p a₁ key, plan role now a = (.ok p, a₁) ∧ a₁.ca = a.ca ∧ c = p.issued a₁ key now := by
  obtain ⟨p, a₁, hplan, hsign⟩ := Request.bind_eq_ok.1 h
  obtain ⟨key, keys, hc, -⟩ := sign_eq_ok hsign
  have hleads := plan_leads role now a
  rw [hplan] at hleads
  exact ⟨p, a₁, key, hplan, (hleads.fixed ha).2, hc⟩

/-- **The certificate for everything that an owner has agrees with its payload.** -/
theorem agrees_of_issue_ueber (ha : a.Consistent) (hclean : a.IsClean)
    (h : issue ⟨.ueber, id⟩ now a = (.ok c, b)) (hbody : ∀ body ∈ c.body, body.IsStorable) :
    c.Agrees a.ca := by
  obtain ⟨p, a₁, key, hplan, hca, rfl⟩ := exists_plan_of_issue ha h
  obtain ⟨owner, -, -, -, hp, hpayload, hextensions⟩ := ueberPlan_eq_ok (congrArg Prod.fst hplan)
  rw [← hca]
  refine Plan.issued_agrees hextensions ?_ (ueberBody_isClean hclean.directory owner) rfl
    (hbody _ hp)
  rw [hpayload]
  rfl

/-- **So does that of an anonymous consumer**, although the payload may have been kept from an
earlier one. -/
theorem agrees_of_issue_anonymous (ha : a.Consistent) (hclean : a.IsClean)
    (h : issue ⟨.anonymousContentAccess, id⟩ now a = (.ok c, b))
    (hbody : ∀ body ∈ c.body, body.IsStorable) : c.Agrees a.ca := by
  obtain ⟨p, a₁, key, hplan, hca, rfl⟩ := exists_plan_of_issue ha h
  obtain ⟨consumer, content, -, hcontent, -, -, hp, hpayload, hextensions⟩ :=
    anonymousPlan_eq_ok hplan
  have hsigned := (anonymousContentFor_isSigned hclean consumer.productIds now).1 content
    (congrArg Prod.fst hcontent)
  rw [← hca] at hsigned ⊢
  -- the shared payload names nobody, the body of the certificate its consumer
  refine Plan.issued_agrees hextensions ?_ (anonymousBody_isClean hsigned.contents "") rfl
    (hbody _ hp)
  rw [hpayload, hsigned.payload]
  rfl

/-- The consumer of an entitlement reads compact certificates. -/
def ReadsCompact (a : Authority) (id : String) : Prop :=
  ∃ entitlement consumer, a.directory.entitlement id = .ok entitlement ∧
    a.directory.consumer entitlement.consumerId = .ok consumer ∧ consumer.readsCompact = true

/-- **That of an entitlement does exactly if its consumer reads compact certificates.** -/
theorem agrees_of_issue_iff (ha : a.Consistent) (hclean : a.IsClean)
    (h : issue (.entitlement id) now a = (.ok c, b)) (hbody : ∀ body ∈ c.body, body.IsStorable) :
    c.Agrees a.ca ↔ a.ReadsCompact id := by
  obtain ⟨p, a₁, key, hplan, hca, rfl⟩ := exists_plan_of_issue ha h
  obtain ⟨entitlement, consumer, owner, pool, hentitlement, hconsumer, -, hpool, -, -, hp,
    hcompact, hlegacy⟩ := entitlementPlan_eq_ok (congrArg Prod.fst hplan)
  have hentitlement : a.directory.entitlement id = .ok entitlement := hentitlement
  have hreads : a.ReadsCompact id ↔ consumer.readsCompact = true := by
    constructor
    · rintro ⟨e, c, he, hc, hread⟩
      rw [hentitlement] at he
      cases he
      rw [hconsumer] at hc
      cases hc
      exact hread
    · exact fun hread => ⟨entitlement, consumer, hentitlement, hconsumer, hread⟩
  rw [hreads, ← hca]
  constructor
  · intro hagrees
    by_contra hnot
    exact Plan.not_agrees_of_no_payload (hlegacy (Bool.eq_false_iff.2 hnot)) _ hagrees
  · intro hread
    obtain ⟨hpayload, hextensions⟩ := hcompact hread _ hp
    have hquantity := (hclean.directory.pools _ _ (Directory.find_eq_ok.1 hpool)).quantity
    have hshare := hclean.directory.entitlements _ _ (Directory.find_eq_ok.1 hentitlement)
    refine Plan.issued_agrees hextensions ?_ (entitlementBody_isClean hquantity hshare
      (entitlementProducts_isClean hclean.directory hpool) consumer.uuid) rfl (hbody _ hp)
    rw [hpayload]
    rfl

/-! ### What is handed out -/

/-- In one state a certificate was issued, and from there acts lead to another. -/
structure IsOrigin (P : DirectoryChange → Prop) (role : Role) (c : IssuedCertificate)
    (m a : Authority) : Prop where
  arises : ArisesBy P m
  acts : Relation.ReflTransGen (Act P) m a
  issued : ∃ now b, issue role now m = (.ok c, b)

/-- Everything that is handed out was issued, for a role of the same kind. -/
theorem exists_isOrigin (h : a.ReachableBy P) (hkind : role.kind ≠ .contentAccess)
    (hgenerate : generate role now a = (.ok (some c), b)) :
    ∃ m asked, IsOrigin P asked c m a ∧ asked.kind = role.kind ∧
      (role.kind = .entitlement → asked = role) := by
  have hresult := generate_result h.reachable.consistent hkind now
  rw [hgenerate] at hresult
  cases hresult with
  | issued fresh b hnone hissue =>
    exact ⟨a, role, ⟨h.arises, .refl, now, b, hissue⟩, rfl, fun _ => rfl⟩
  | kept c hkept =>
    obtain ⟨hcurrent, -⟩ := reusable_eq_some hkept
    have hrole : c.role = role := h.reachable.consistent.roles _ _ c hcurrent
    obtain ⟨m, asked, t, m', hm, hacts, hissue⟩ := h.arises.exists_issued hcurrent
    obtain ⟨p, m₁, key, hplan, -, hc⟩ := exists_plan_of_issue hm.consistent hissue
    have hasked : c.role.kind = asked.kind := hc ▸ (plan_eq_ok hplan).1
    refine ⟨m, asked, ⟨hm, hacts, t, m', hissue⟩, hasked.symm.trans (congrArg Role.kind hrole), ?_⟩
    intro hentitlement
    rw [hrole, hentitlement] at hasked
    obtain ⟨kind, subject⟩ := asked
    obtain rfl : kind = .entitlement := hasked.symm
    exact (issued_entitlement hm.consistent hissue).1.symm.trans hrole

theorem IsOrigin.ca (h : IsOrigin P role c m a) : a.ca = m.ca :=
  ((leads_of_acts h.acts).fixed h.arises.consistent).2

/-- **What is handed out agrees with its payload** if it is for an owner or an anonymous consumer.
What is handed out for an entitlement does exactly if its consumer read compact certificates when
it was issued. -/
theorem agrees_of_generate (h : a.ReachableBy DirectoryChange.IsClean)
    (hgenerate : generate role now a = (.ok (some c), b))
    (hbody : ∀ body ∈ c.body, body.IsStorable) :
    (role.kind = .ueber ∨ role.kind = .anonymousContentAccess → c.Agrees a.ca) ∧
    (role.kind = .entitlement → (∃ m, IsOrigin DirectoryChange.IsClean role c m a) ∧
      ∀ m, IsOrigin DirectoryChange.IsClean role c m a →
        (c.Agrees a.ca ↔ m.ReadsCompact role.subject)) := by
  constructor
  · intro hkind
    have hother : role.kind ≠ .contentAccess := by
      rcases hkind with hkind | hkind <;> rw [hkind] <;> exact nofun
    obtain ⟨m, ⟨kind, subject⟩, horigin, hasked, -⟩ := exists_isOrigin h hother hgenerate
    obtain ⟨t, m', hissue⟩ := horigin.issued
    have hm := horigin.arises
    rw [horigin.ca]
    rw [← hasked] at hkind
    rcases hkind with rfl | rfl
    · exact agrees_of_issue_ueber hm.consistent hm.isClean hissue hbody
    · exact agrees_of_issue_anonymous hm.consistent hm.isClean hissue hbody
  · intro hkind
    have hother : role.kind ≠ .contentAccess := by
      rw [hkind]
      exact nofun
    obtain ⟨m, asked, horigin, -, hasked⟩ := exists_isOrigin h hother hgenerate
    rw [hasked hkind] at horigin
    refine ⟨⟨m, horigin⟩, fun m' horigin' => ?_⟩
    obtain ⟨t, b', hissue⟩ := horigin'.issued
    have hm := horigin'.arises
    obtain ⟨kind, subject⟩ := role
    obtain rfl : kind = .entitlement := hkind
    rw [horigin'.ca]
    exact agrees_of_issue_iff hm.consistent hm.isClean hissue hbody

end Authority

/-! ### A consumer that comes to read compact certificates -/

namespace UpgradedConsumer

open Authority

/-- A content of the sample at a short path. -/
def content : ProductContent :=
  { Sample.content 0 with content := { (Sample.content 0).content with url := "/os" } }

/-- The pool of the sample with that content. -/
def pool : Pool :=
  { Sample.pool 0 ⟨0, 0⟩ with
    product :=
      { Sample.sku 0 with provided := [{ Sample.system 0 with contents := [content] }] } }

/-- The records of the sample with that pool. -/
def changes (legacy : Bool) : List DirectoryChange :=
  [.addOwner (Sample.owner ⟨0, 0⟩), .addConsumer (Sample.consumer "sample-uuid" legacy ⟨0, 0⟩),
    .addPool pool, .addEntitlement Sample.entitlement]

/-- The directory with those records. -/
def directory (legacy : Bool) : Directory :=
  (changes legacy).foldl (fun d c => c.apply d) Directory.empty

/-- The legacy consumer says from now on that it reads compact certificates. -/
def upgrade : DirectoryChange :=
  .updateConsumer "sample-consumer" fun c =>
    { c with facts := (Sample.consumer "sample-uuid" false ⟨0, 0⟩).facts }

theorem changes_isClean (legacy : Bool) : ∀ c ∈ changes legacy, c.IsClean := by
  have hcontents : ∀ q ∈ pool.product.graph, ∀ pc ∈ q.contents, pc.content = content.content := by
    decide
  have hpool : pool.IsClean := by
    refine ⟨fun q hq pc hpc => ?_, by decide⟩
    rw [hcontents q hq pc hpc]
    exact ⟨by decide, nofun⟩
  have hentitlement : Json.IsInt64 Sample.entitlement.quantity := by decide
  simp only [changes, List.forall_mem_cons]
  exact ⟨trivial, trivial, hpool, hentitlement, nofun⟩

/-- The first certificate of the sample is issued from those records. -/
theorem exists_generated (legacy : Bool) : ∃ (start a b : Authority) (p : Plan) (key : KeyPair),
    start.ReachableBy DirectoryChange.IsClean ∧ start.config = {} ∧
    start.directory = directory legacy ∧
    entitlementPlan {} (directory legacy) Sample.entitlement.id ⟨0, 0⟩ = .ok p ∧
    issue (.entitlement Sample.entitlement.id) ⟨0, 0⟩ start = (.ok (p.issued a key ⟨0, 0⟩), b) ∧
    generate (.entitlement Sample.entitlement.id) ⟨0, 0⟩ start =
      (.ok (some (p.issued a key ⟨0, 0⟩)), b.superseded (p.issued a key ⟨0, 0⟩)) := by
  obtain ⟨start, hstart, hconfig, hdirectory, hnone⟩ :=
    ReachableBy.exists_stocked (changes_isClean legacy) (d := directory legacy) rfl
  have hissuable : IsIssuable start.config start.directory Sample.entitlement.id ⟨0, 0⟩ := by
    rw [hconfig, hdirectory]
    cases legacy
    · exact ⟨_, rfl, rfl, rfl, rfl⟩
    · exact ⟨_, rfl, rfl, rfl, rfl⟩
  obtain ⟨fresh, b, hissue, hgenerate⟩ :=
    generate_of_issuable hstart.reachable.consistent (hnone _) hissuable
  obtain ⟨p, a, key, hplan, -, rfl⟩ := exists_plan_of_issue hstart.reachable.consistent hissue
  have hplan : entitlementPlan start.config start.directory Sample.entitlement.id ⟨0, 0⟩ = .ok p :=
    congrArg Prod.fst hplan
  rw [hconfig, hdirectory] at hplan
  exact ⟨start, a, b, p, key, hstart, hconfig, hdirectory, hplan, hissue, hgenerate⟩

/-- The shared tree of the path of the content. -/
def tree : SharedTree :=
  ⟨[[], [("os", 0)]], 1⟩

theorem ofTree_path : SharedTree.ofTree (.edge "os" .stop .stop) = tree := by
  have hleaf : SharedTree.share [] [] = (0, [[]]) := by
    unfold SharedTree.share
    rw [List.mergeSort_nil]
    rfl
  have hroot : SharedTree.share [("os", 0)] [[]] = (1, tree.nodes) := by
    unfold SharedTree.share
    rw [List.mergeSort_singleton]
    rfl
  unfold SharedTree.ofTree
  simp only [SharedTree.shareBelow, hleaf, hroot]
  rfl

theorem segmentOrder_tree : tree.segmentOrder = ["os"] := by
  show (List.mergeSort (SharedTree.runs (List.mergeSort ["os"] _)) _).map Prod.snd = _
  rw [List.mergeSort_singleton]
  show (List.mergeSort [(1, "os")] _).map Prod.snd = _
  rw [List.mergeSort_singleton]
  rfl

theorem nodeOrder_tree : tree.nodeOrder = [1, 0, 2] := by
  have hothers : ((List.range tree.nodes.length).filter (· != tree.root)).map
      (fun n => (tree.parentCount n, n)) = [(1, 0)] := by decide
  unfold SharedTree.nodeOrder
  dsimp only
  rw [hothers, List.mergeSort_singleton]
  rfl

theorem bits_tree : tree.bits = [false, false, true, true, true] := by
  have hsegments : Trie.ofLeaves? (segmentLeaves ["os"].length) =
      some (.node (.leaf 0) (.leaf 1)) := Trie.ofLeaves?_pair (by decide)
  have hnodes : Trie.ofLeaves? (nodeLeaves [1, 0, 2].length) =
      some (.node (.leaf 1) (.leaf 2)) := Trie.ofLeaves?_pair (by decide)
  unfold SharedTree.bits
  rw [segmentOrder_tree, nodeOrder_tree]
  dsimp only
  rw [hsegments, hnodes]
  decide

/-- The bytes of the tree are few. -/
theorem length_encode : (PathTree.encode ["/os"]).length = 16 := by
  have hpaths : PathTree.ofPaths ["/os"] = .edge "os" .stop .stop := by decide
  have hstored : (Zlib.deflate (dictionaryBytes ["os"])).length = 14 :=
    Zlib.length_deflate (by decide)
  unfold PathTree.encode
  rw [hpaths]
  show (SharedTree.ofTree (.edge "os" .stop .stop)).encode.length = 16
  rw [ofTree_path, SharedTree.encode, List.length_append, List.length_append, segmentOrder_tree,
    nodeOrder_tree, bits_tree, hstored]
  decide

theorem isStorable_body {p : Plan}
    (hplan : entitlementPlan {} (directory false) Sample.entitlement.id ⟨0, 0⟩ = .ok p) :
    ∀ body ∈ p.body, body.IsStorable := by
  have hpaths : ∃ p, entitlementPlan {} (directory false) Sample.entitlement.id ⟨0, 0⟩ = .ok p ∧
      p.body.map EntitlementBody.contentPaths = some ["/os"] :=
    ⟨_, rfl, by decide⟩
  obtain ⟨p', hplan', hpaths⟩ := hpaths
  rw [hplan, Except.ok.injEq] at hplan'
  subst hplan'
  intro body hbody
  rw [Option.mem_def.1 hbody, Option.map_some, Option.some.injEq] at hpaths
  constructor
  · rw [hpaths]
    exact Nat.lt_of_le_of_lt (PathTree.nodeCount_le ["/os"]) (by decide)
  · rw [hpaths, length_encode]
    decide

/-- The certificate of the sample agrees with its payload if the consumer reads compact ones. -/
theorem agrees_of_generate_compact : ∃ a c b, a.ReachableBy DirectoryChange.IsClean ∧
    generate (.entitlement Sample.entitlement.id) ⟨0, 0⟩ a = (.ok (some c), b) ∧
    (∀ body ∈ c.body, body.IsStorable) ∧ a.ReadsCompact Sample.entitlement.id ∧ c.Agrees a.ca := by
  obtain ⟨a, a₁, b, p, key, ha, hconfig, hdirectory, hplan, hissue, hgenerate⟩ :=
    exists_generated false
  have hbody : ∀ body ∈ (p.issued a₁ key ⟨0, 0⟩).body, body.IsStorable := isStorable_body hplan
  have hreads : a.ReadsCompact Sample.entitlement.id := by
    rw [ReadsCompact, hdirectory]
    exact ⟨_, _, rfl, rfl, rfl⟩
  refine ⟨a, _, _, ha, hgenerate, hbody, hreads, ?_⟩
  exact (((agrees_of_generate ha hgenerate hbody).2 rfl).2 a
    ⟨ha.arises, .refl, _, _, hissue⟩).2 hreads

/-- A certificate without a payload is handed out again although its consumer has come to read
compact ones. -/
theorem legacy_certificate_outlives_upgrade : ∃ a c b, a.ReachableBy DirectoryChange.IsClean ∧
    a.ReadsCompact Sample.entitlement.id ∧
    generate (.entitlement Sample.entitlement.id) ⟨0, 0⟩ a = (.ok (some c), b) ∧
    ¬ c.Agrees a.ca := by
  obtain ⟨start, a₁, b, p, key, hstart, hconfig, hdirectory, hplan, hissue, hgenerate⟩ :=
    exists_generated true
  have hlegacy : ∃ p, entitlementPlan {} (directory true) Sample.entitlement.id ⟨0, 0⟩ = .ok p ∧
      p.payload = .none ∧ p.validity.notAfter = pool.endDate :=
    ⟨_, rfl, rfl, rfl⟩
  obtain ⟨p', hplan', hpayload, hends⟩ := hlegacy
  rw [hplan, Except.ok.injEq] at hplan'
  subst hplan'
  let fresh := p.issued a₁ key ⟨0, 0⟩
  let a : Authority := { b.superseded fresh with directory := directory false }
  have hrole : fresh.role = .entitlement Sample.entitlement.id :=
    (issued_entitlement hstart.reachable.consistent hissue).1
  have hunflagged : (b.superseded fresh).directory = directory true := by
    rw [superseded_directory hrole, (issue_fixed hissue).2, hdirectory]
    rfl
  -- the consumer changes after its certificate was issued
  have ha : ReachableBy DirectoryChange.IsClean a := by
    have hclean : ∀ c ∈ [upgrade], c.IsClean := List.forall_mem_singleton.2 trivial
    have hchanged := (hstart.of_generate hgenerate).changes hclean
    rw [hunflagged] at hchanged
    exact hchanged
  have hlasting : fresh.serial.isExpired
      ((⟨0, 0⟩ : Instant).addDays (renewalDays start.config .entitlement)) = false := by
    have hexpiration : fresh.serial.expiration = pool.endDate := hends
    rw [hconfig, Serial.isExpired, hexpiration]
    rfl
  have hvalid : a.standing fresh ⟨0, 0⟩ = .ok .valid :=
    standing_of_issue hstart.reachable.consistent hissue (e := Sample.entitlement) rfl rfl hlasting
  exact ⟨a, fresh, a, ha, ⟨_, _, rfl, rfl, rfl⟩,
    generate_of_valid nofun (superseded_entitlement hrole b).1 hvalid,
    Plan.not_agrees_of_no_payload hpayload a.ca⟩

end UpgradedConsumer

end EntitlementAuthority

