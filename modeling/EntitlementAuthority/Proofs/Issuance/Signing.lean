import EntitlementAuthority.Issuance.Requests

/-!
# What planning and signing do

Every way in which planning and signing can end, with the state that they leave behind.

* `PlanResult`, `Authority.plan_result` — a plan reads the records; only the shared content of
  anonymous consumers may be signed on the way.
* `SignResult`, `Authority.sign_result` — a plan is refused, has no key, names an instant out of
  range, or is issued.
* `Authority.sign_ok`, `Authority.sign_outOfRange` — the plan alone decides which of these it is.
* `Authority.ContentResult`, `Authority.anonymousContentFor_result` — content for anonymous consumers
  is found, built, or there are no products for it.
* `entitlementPlan_eq_ok` — what the plan of an entitlement was made from.
-/

namespace EntitlementAuthority

/-! ### Signing -/

/-- How many signatures a payload still needs. -/
def PlannedPayload.signatures : PlannedPayload → Nat
  | .ofBody _ => 1
  | _ => 0

/-- The payload once it is signed. -/
def PlannedPayload.text (signer : Signer) : PlannedPayload → Option String
  | .none => .none
  | .signed text => some text
  | .ofBody body => some (Payload.ofBody signer body)

/-- The certificate of a plan, with the next serial. -/
def Plan.issued (p : Plan) (a : Authority) (key : KeyPair) (now : Instant) : IssuedCertificate where
  role := p.role
  key := key
  certificate := a.ca.assemble
    { subject := p.subject
      alternateName := p.alternateName
      validity := p.validity
      key
      serial := a.serials.nextId
      extensions := p.extensions }
  body := p.body
  payload := p.payload.text a.ca.signer
  serial := ⟨a.serials.nextId, p.validity.notAfter, false⟩
  environmentIds := p.environmentIds
  updated := now

/-- The fault of a key pair for nobody. -/
def noKeyFault : Fault :=
  .validation "key pair subject cannot be empty"

/-- The ways in which signing can end. -/
inductive SignResult (p : Plan) (now : Instant) (a : Authority) :
    Outcome IssuedCertificate × Authority → Prop
  /-- The subject is refused before anything is done. -/
  | refused (e : Fault) (hsubject : validateSubject p.subject p.alternateName p.validity = .error e) :
      SignResult p now a (.error e, a)
  /-- The key pair would belong to nobody; the payload is signed by then. -/
  | noKey (hsubject : validateSubject p.subject p.alternateName p.validity = .ok ())
      (hkey : Text.isBlank p.keySubject = true) :
      SignResult p now a (.error noKeyFault,
        { a with signatures := a.signatures + p.payload.signatures })
  /-- An instant is out of range; the serial is allocated by then. -/
  | outOfRange (e : Fault) (keys : KeyRing)
      (hsubject : validateSubject p.subject p.alternateName p.validity = .ok ())
      (hkey : Text.isBlank p.keySubject = false) (hrange : p.validity.checkRange = .error e) :
      SignResult p now a (.error e,
        { a with
          signatures := a.signatures + p.payload.signatures
          keys
          serials := (a.serials.allocate p.validity.notAfter).2 })
  /-- The certificate is issued. -/
  | issued (key : KeyPair) (keys : KeyRing)
      (hsubject : validateSubject p.subject p.alternateName p.validity = .ok ())
      (hkey : Text.isBlank p.keySubject = false) (hrange : p.validity.checkRange = .ok ()) :
      SignResult p now a (.ok (p.issued a key now),
        { a with
          signatures := a.signatures + p.payload.signatures + 1
          keys
          serials := (a.serials.allocate p.validity.notAfter).2 })

theorem KeyRing.keyFor_of_blank {subject : String} (h : Text.isBlank subject = true)
    (r : KeyRing) : KeyRing.keyFor subject r = (.error noKeyFault, r) := by
  rw [KeyRing.keyFor, if_pos h]
  rfl

theorem KeyRing.keyFor_of_not_blank {subject : String} (h : Text.isBlank subject = false)
    (r : KeyRing) : ∃ key keys, KeyRing.keyFor subject r = (.ok key, keys) := by
  rw [KeyRing.keyFor, if_neg (Bool.not_eq_true _ ▸ h)]
  cases r.subjects.idxOf? subject with
  | some n => exact ⟨_, _, rfl⟩
  | none => exact ⟨_, _, rfl⟩

namespace Authority

theorem signPayload_eq (payload : PlannedPayload) (a : Authority) :
    signPayload payload a = (.ok (payload.text a.ca.signer),
      { a with signatures := a.signatures + payload.signatures }) := by
  cases payload <;> rfl

theorem build_of_valid {ca : CertificateAuthority} {r : CertificateRequest}
    (h : validateSubject r.subject r.alternateName r.validity = .ok ()) :
    ca.build r = r.validity.checkRange.map fun _ => ca.assemble r := by
  rw [CertificateAuthority.build, h]
  cases hrange : r.validity.checkRange <;> rfl

theorem certify_ok {r : CertificateRequest} (a : Authority)
    (hsubject : validateSubject r.subject r.alternateName r.validity = .ok ())
    (hrange : r.validity.checkRange = .ok ()) :
    certify r a = (.ok (a.ca.assemble r), { a with signatures := a.signatures + 1 }) := by
  unfold certify
  rw [build_of_valid hsubject, hrange]
  rfl

theorem certify_outOfRange {r : CertificateRequest} {e : Fault} (a : Authority)
    (hsubject : validateSubject r.subject r.alternateName r.validity = .ok ())
    (hrange : r.validity.checkRange = .error e) : certify r a = (.error e, a) := by
  unfold certify
  rw [build_of_valid hsubject, hrange]
  rfl

/-- **Signing ends in one of four ways.** -/
theorem sign_result (p : Plan) (now : Instant) (a : Authority) :
    SignResult p now a (sign p now a) := by
  unfold sign
  cases hsubject : validateSubject p.subject p.alternateName p.validity with
  | error e => exact .refused e hsubject
  | ok u =>
    cases u
    rw [Request.bind_ok (Request.ofOutcome_apply _ a), Request.bind_ok (signPayload_eq _ a)]
    cases hkey : Text.isBlank p.keySubject with
    | true =>
      rw [Request.bind_error (e := noKeyFault) (by
        rw [onKeys, Request.within_apply, KeyRing.keyFor_of_blank hkey])]
      exact .noKey hsubject hkey
    | false =>
      obtain ⟨key, keys, hk⟩ := KeyRing.keyFor_of_not_blank hkey a.keys
      rw [Request.bind_ok (a := key) (by rw [onKeys, Request.within_apply, hk])]
      rw [Request.bind_ok (by rw [onSerials, Request.within_apply, Request.state_apply])]
      cases hrange : p.validity.checkRange with
      | error e =>
        rw [Request.bind_error (certify_outOfRange (e := e) _ ?_ ?_)]
        · exact .outOfRange e keys hsubject hkey hrange
        · exact hsubject
        · exact hrange
      | ok u =>
        cases u
        rw [Request.bind_ok (certify_ok _ ?_ ?_)]
        · exact .issued key keys hsubject hkey hrange
        · exact hsubject
        · exact hrange

end Authority

/-! ### Planning -/

/-- The cache for anonymous consumers is as it was, or as it is once the content of some products
has been asked for. -/
def Authority.AskedOnce (a : Authority) (anonymousContent : AnonymousCache) : Prop :=
  anonymousContent = a.anonymousContent ∨
    ∃ ids now, anonymousContent = (anonymousContentFor ids now a).2.anonymousContent

/-- The ways in which planning can end. -/
inductive PlanResult (a : Authority) : Outcome Plan × Authority → Prop
  /-- Nothing is signed; the cache for anonymous consumers may have been asked. -/
  | unsigned (answer : Outcome Plan) (anonymousContent : AnonymousCache)
      (hasked : a.AskedOnce anonymousContent) : PlanResult a (answer, { a with anonymousContent })
  /-- The shared content of anonymous consumers is signed, for a subject that is not refused and
  has a key pair. -/
  | signed (p : Plan) (anonymousContent : AnonymousCache)
      (hsubject : validateSubject p.subject p.alternateName p.validity = .ok ())
      (hkey : Text.isBlank p.keySubject = false) (hasked : a.AskedOnce anonymousContent) :
      PlanResult a (.ok p, { a with signatures := a.signatures + 1, anonymousContent })

/-- A subject that is not refused has a name. -/
theorem isBlank_of_validateSubject {subject : DistinguishedName} {alternateName : Option String}
    {validity : Validity} (h : validateSubject subject alternateName validity = .ok ()) :
    Text.isBlank subject.commonName = false := by
  cases hb : Text.isBlank subject.commonName with
  | false => rfl
  | true =>
    rw [validateSubject, if_pos hb] at h
    cases h

namespace Authority

/-- What anonymous consumers with some products get, as the records say. -/
def freshAnonymousContent (a : Authority) (productIds : List String) : AnonymousContent :=
  let contents := anonymousModels a.config (a.directory.productsOf productIds)
  ⟨contents, Payload.ofBody a.ca.signer (anonymousBody "" contents)⟩

/-- What is built for a product set: the records have products of it, and the content is theirs. -/
def Builds (a : Authority) (ids : List String) (content : AnonymousContent) : Prop :=
  a.directory.productsOf ids ≠ [] ∧ content = a.freshAnonymousContent ids

/-- The fault of a product set of which the records have no product. -/
def noProductsFault (ids : List String) : Fault :=
  .creation ("no products found for anonymous consumer products [" ++ anonymousKey ids ++ "]")

/-- The ways in which content for a product set is come by. -/
inductive ContentResult (ids : List String) (now : Instant) (a : Authority) :
    Outcome AnonymousContent × Authority → Prop
  | found (content : AnonymousContent) (h : (a.anonymousContent.get ids now).1 = some content) :
      ContentResult ids now a
        (.ok content, { a with anonymousContent := (a.anonymousContent.get ids now).2 })
  | built (content : AnonymousContent) (h : (a.anonymousContent.get ids now).1 = none)
      (hbuilt : a.Builds ids content) :
      ContentResult ids now a (.ok content,
        { a with
          signatures := a.signatures + 1
          anonymousContent := (a.anonymousContent.get ids now).2.put ids content now })
  | failed (h : (a.anonymousContent.get ids now).1 = none)
      (hproducts : a.directory.productsOf ids = []) :
      ContentResult ids now a (.error (noProductsFault ids),
        { a with anonymousContent := (a.anonymousContent.get ids now).2 })

theorem buildAnonymousContent_of_nil {ids : List String} {a : Authority}
    (h : a.directory.productsOf ids = []) :
    buildAnonymousContent ids a = (.error (noProductsFault ids), a) := by
  unfold buildAnonymousContent
  rw [Request.bind_error (by rw [Request.read_apply, h])]
  rfl

theorem buildAnonymousContent_of_ne_nil {ids : List String} {a : Authority}
    (h : a.directory.productsOf ids ≠ []) :
    buildAnonymousContent ids a =
      (.ok (a.freshAnonymousContent ids), { a with signatures := a.signatures + 1 }) := by
  obtain ⟨p, ps, hproducts⟩ := List.exists_cons_of_ne_nil h
  unfold buildAnonymousContent freshAnonymousContent
  rw [Request.bind_ok (by rw [Request.read_apply, hproducts]), hproducts]
  rfl

/-- **Content is found, built and signed, or there are no products for it.** -/
theorem anonymousContentFor_result (ids : List String) (now : Instant) (a : Authority) :
    ContentResult ids now a (anonymousContentFor ids now a) := by
  have hget : onAnonymousContent (Request.state (AnonymousCache.get ids now)) a =
      (.ok (a.anonymousContent.get ids now).1,
        { a with anonymousContent := (a.anonymousContent.get ids now).2 }) := rfl
  unfold anonymousContentFor
  rw [Request.bind_ok hget]
  cases hanswer : (a.anonymousContent.get ids now).1 with
  | some content => exact .found content hanswer
  | none =>
    dsimp only
    generalize hlooked : ({ a with anonymousContent := _ } : Authority) = b
    by_cases hproducts : a.directory.productsOf ids = []
    · have hbuild : buildAnonymousContent ids b = (.error (noProductsFault ids), b) :=
        buildAnonymousContent_of_nil (by rw [← hlooked, hproducts])
      rw [Request.bind_error hbuild, ← hlooked]
      exact .failed hanswer hproducts
    · have hbuild : buildAnonymousContent ids b =
          (.ok (b.freshAnonymousContent ids), { b with signatures := b.signatures + 1 }) :=
        buildAnonymousContent_of_ne_nil (by rw [← hlooked]; exact hproducts)
      rw [Request.bind_ok hbuild, ← hlooked]
      exact .built _ hanswer ⟨hproducts, rfl⟩

theorem anonymousPlan_result (uuid : String) (now : Instant) (a : Authority) :
    PlanResult a (anonymousPlan uuid now a) := by
  unfold anonymousPlan
  rw [Request.bind_ok (Request.get_apply _ a)]
  by_cases hhosted : (!a.config.content.hosted) = true
  · rw [if_pos hhosted, Request.bind_error (Request.fail_apply _ a)]
    exact .unsigned _ a.anonymousContent (.inl rfl)
  · rw [if_neg hhosted]
    dsimp only
    cases hc : a.directory.anonymousConsumer uuid with
    | error e =>
      rw [Request.bind_error (by rw [Request.read_apply, hc])]
      exact .unsigned _ a.anonymousContent (.inl rfl)
    | ok consumer =>
      rw [Request.bind_ok (by rw [Request.read_apply, hc])]
      cases hs : validateSubject ⟨consumer.uuid, none⟩ none
          (Validity.days (a.config.backdated now) a.config.certificates.anonymousDays) with
      | error e =>
        rw [Request.bind_error (by rw [Request.ofOutcome_apply])]
        exact .unsigned _ a.anonymousContent (.inl rfl)
      | ok u =>
        rw [Request.bind_ok (by rw [Request.ofOutcome_apply])]
        have hcontent := anonymousContentFor_result consumer.productIds now a
        rcases hf : anonymousContentFor consumer.productIds now a with ⟨answer, b⟩
        have hasked : a.AskedOnce b.anonymousContent := .inr ⟨consumer.productIds, now, by rw [hf]⟩
        rw [hf] at hcontent
        cases hcontent with
        | found content =>
          rw [Request.bind_ok hf]
          exact .unsigned _ _ hasked
        | built content =>
          rw [Request.bind_ok hf]
          exact .signed _ _ hs (isBlank_of_validateSubject hs) hasked
        | failed =>
          rw [Request.bind_error hf]
          exact .unsigned _ _ hasked

/-- **Planning signs nothing that is not issued**, unless a later step fails. -/
theorem plan_result (role : Role) (now : Instant) (a : Authority) :
    PlanResult a (plan role now a) := by
  unfold plan
  cases role.kind with
  | anonymousContentAccess => exact anonymousPlan_result role.subject now a
  | entitlement => exact .unsigned _ a.anonymousContent (.inl rfl)
  | identity => exact .unsigned _ a.anonymousContent (.inl rfl)
  | product => exact .unsigned _ a.anonymousContent (.inl rfl)
  | ueber => exact .unsigned _ a.anonymousContent (.inl rfl)
  | contentAccess => exact .unsigned _ a.anonymousContent (.inl rfl)

end Authority

/-! ### What a plan was made from -/

theorem Request.map_ok {σ α β : Type} {r : Request σ α} {s t : σ} {x : α} (f : α → β)
    (h : r s = (.ok x, t)) : (f <$> r) s = (.ok (f x), t) :=
  Request.bind_ok h

theorem Request.map_error {σ α β : Type} {r : Request σ α} {s t : σ} {e : Fault} (f : α → β)
    (h : r s = (.error e, t)) : (f <$> r) s = (.error e, t) :=
  Request.bind_error h

/-- The plan of an entitlement is made from its consumer, its owner and its pool. The key pair is
that of the consumer, and whether there is a payload depends on it. -/
theorem entitlementPlan_eq_ok {config : Config} {d : Directory} {id : String} {now : Instant}
    {p : Plan} (h : entitlementPlan config d id now = .ok p) :
    ∃ entitlement consumer owner pool,
      d.entitlement id = .ok entitlement ∧ d.consumer entitlement.consumerId = .ok consumer ∧
        d.owner consumer.ownerId = .ok owner ∧ d.pool entitlement.poolId = .ok pool ∧
        p.role = .entitlement entitlement.id ∧ p.keySubject = consumer.uuid ∧
        p.body = some (entitlementBody consumer.uuid pool entitlement.quantity
          (entitlementProducts config d consumer owner pool)) ∧
        (consumer.readsCompact = true → ∀ body ∈ p.body, p.payload = .ofBody body ∧
          p.extensions = compactExtensions body .basic config.certificates.entitlementVersion
            pool.productNamespace) ∧
        (consumer.readsCompact = false → p.payload = .none) := by
  unfold entitlementPlan at h
  obtain ⟨entitlement, he, h⟩ := Outcome.bind_eq_ok.1 h
  obtain ⟨consumer, hc, h⟩ := Outcome.bind_eq_ok.1 h
  obtain ⟨owner, ho, h⟩ := Outcome.bind_eq_ok.1 h
  obtain ⟨pool, hp, h⟩ := Outcome.bind_eq_ok.1 h
  obtain ⟨-, -, h⟩ := Outcome.bind_eq_ok.1 h
  obtain ⟨-, -, h⟩ := Outcome.bind_eq_ok.1 h
  refine ⟨entitlement, consumer, owner, pool, he, hc, ho, hp, ?_⟩
  split at h
  · rename_i hcompact
    cases h
    refine ⟨rfl, rfl, rfl, ?_, fun hlegacy => ?_⟩
    · rintro - body ⟨⟩
      exact ⟨rfl, rfl⟩
    · rw [hcompact] at hlegacy
      cases hlegacy
  · rename_i hlegacy
    obtain ⟨extensions, -, h⟩ := Outcome.bind_eq_ok.1 h
    cases h
    exact ⟨rfl, rfl, rfl, fun hcompact => absurd hcompact hlegacy, fun _ => rfl⟩

theorem identityPlan_eq_ok {config : Config} {d : Directory} {id : String} {now : Instant}
    {p : Plan} (h : identityPlan config d id now = .ok p) :
    ∃ consumer, d.consumer id = .ok consumer ∧ p.role = ⟨.identity, id⟩ ∧
      p.keySubject = consumer.uuid := by
  obtain ⟨consumer, hconsumer, h⟩ := Outcome.bind_eq_ok.1 h
  obtain ⟨owner, -, h⟩ := Outcome.bind_eq_ok.1 h
  cases h
  exact ⟨consumer, hconsumer, rfl, rfl⟩

theorem productPlan_eq_ok {config : Config} {d : Directory} {id : String} {now : Instant}
    {p : Plan} (h : productPlan config d id now = .ok p) :
    ∃ product, d.product id = .ok product ∧ p.role = ⟨.product, id⟩ ∧
      p.keySubject = "product:" ++ product.id := by
  obtain ⟨product, hproduct, h⟩ := Outcome.bind_eq_ok.1 h
  obtain ⟨extensions, -, h⟩ := Outcome.bind_eq_ok.1 h
  cases h
  exact ⟨product, hproduct, rfl, rfl⟩

theorem ueberPlan_eq_ok {config : Config} {d : Directory} {id : String} {now : Instant}
    {p : Plan} (h : ueberPlan config d id now = .ok p) :
    ∃ owner, d.owner id = .ok owner ∧ p.role = ⟨.ueber, id⟩ ∧
      p.keySubject = ueberName ++ ":" ++ owner.key ∧
      p.body = some (ueberBody config d owner) ∧ p.payload = .ofBody (ueberBody config d owner) ∧
      p.extensions = compactExtensions (ueberBody config d owner) .basic
        config.certificates.entitlementVersion none := by
  obtain ⟨owner, howner, h⟩ := Outcome.bind_eq_ok.1 h
  cases h
  exact ⟨owner, howner, rfl, rfl, rfl, rfl, rfl⟩

namespace Authority

/-- The plan for an anonymous consumer is made from the shared content of its products. -/
theorem anonymousPlan_eq_ok {uuid : String} {now : Instant} {a b : Authority} {p : Plan}
    (h : anonymousPlan uuid now a = (.ok p, b)) :
    ∃ consumer content, a.directory.anonymousConsumer uuid = .ok consumer ∧
      anonymousContentFor consumer.productIds now a = (.ok content, b) ∧
      p.role = ⟨.anonymousContentAccess, consumer.uuid⟩ ∧ p.keySubject = consumer.uuid ∧
      p.body = some (anonymousBody consumer.uuid content.contents) ∧
      p.payload = .signed content.payload ∧
      p.extensions = compactExtensions (anonymousBody consumer.uuid content.contents) .basic
        a.config.certificates.entitlementVersion none := by
  unfold anonymousPlan at h
  rw [Request.bind_ok (Request.get_apply _ a)] at h
  by_cases hhosted : (!a.config.content.hosted) = true
  · rw [if_pos hhosted] at h
    obtain ⟨u, a₂, hf, -⟩ := Request.bind_eq_ok.1 h
    cases hf
  · rw [if_neg hhosted] at h
    obtain ⟨consumer, a₁, hconsumer, h⟩ := Request.bind_eq_ok.1 h
    obtain rfl : a = a₁ := congrArg Prod.snd hconsumer
    obtain ⟨u, a₂, hsubject, h⟩ := Request.bind_eq_ok.1 h
    obtain rfl : a = a₂ := congrArg Prod.snd hsubject
    obtain ⟨content, a₃, hcontent, h⟩ := Request.bind_eq_ok.1 h
    cases h
    exact ⟨consumer, content, congrArg Prod.fst hconsumer, hcontent, rfl, rfl, rfl, rfl, rfl⟩

theorem contentAccessPlan_eq_ok {role : Role} {now : Instant} {a : Authority} {p : Plan}
    (hkind : role.kind = .contentAccess) :
    (plan role now a).1 = .ok p ↔
      ∃ x, ContentAccess.find a.directory role.subject = .ok (some x) ∧ p = x.plan a.config now := by
  unfold plan
  rw [hkind]
  constructor
  · intro h
    obtain ⟨x, hx, h⟩ := Outcome.bind_eq_ok.1 h
    cases x with
    | none => cases h
    | some x =>
      cases h
      exact ⟨x, hx, rfl⟩
  · rintro ⟨x, hx, rfl⟩
    exact Outcome.bind_eq_ok.2 ⟨some x, hx, rfl⟩

/-- A plan is of the kind that was asked for; that of an entitlement is for one that exists. -/
theorem plan_eq_ok {role : Role} {now : Instant} {a b : Authority} {p : Plan}
    (h : plan role now a = (.ok p, b)) :
    p.role.kind = role.kind ∧ (role.kind = .entitlement →
      entitlementPlan a.config a.directory role.subject now = .ok p) := by
  have h₁ : (plan role now a).1 = .ok p := congrArg Prod.fst h
  cases hkind : role.kind with
  | entitlement =>
    unfold plan at h₁
    rw [hkind] at h₁
    obtain ⟨e, -, -, -, -, -, -, -, hrole, -⟩ := entitlementPlan_eq_ok h₁
    exact ⟨by rw [hrole]; rfl, fun _ => h₁⟩
  | identity =>
    unfold plan at h₁
    rw [hkind] at h₁
    obtain ⟨consumer, -, hrole, -⟩ := identityPlan_eq_ok h₁
    exact ⟨congrArg Role.kind hrole, fun hk => nomatch hk⟩
  | product =>
    unfold plan at h₁
    rw [hkind] at h₁
    obtain ⟨product, -, hrole, -⟩ := productPlan_eq_ok h₁
    exact ⟨congrArg Role.kind hrole, fun hk => nomatch hk⟩
  | ueber =>
    unfold plan at h₁
    rw [hkind] at h₁
    obtain ⟨owner, -, hrole, -⟩ := ueberPlan_eq_ok h₁
    exact ⟨congrArg Role.kind hrole, fun hk => nomatch hk⟩
  | anonymousContentAccess =>
    unfold plan at h
    rw [hkind] at h
    obtain ⟨consumer, content, -, -, hrole, -⟩ := anonymousPlan_eq_ok h
    exact ⟨congrArg Role.kind hrole, fun hk => nomatch hk⟩
  | contentAccess =>
    obtain ⟨x, -, rfl⟩ := (contentAccessPlan_eq_ok hkind).1 h₁
    exact ⟨rfl, fun hk => nomatch hk⟩

/-- A plan without faults is issued. -/
theorem sign_ok {p : Plan} (hsubject : validateSubject p.subject p.alternateName p.validity = .ok ())
    (hkey : Text.isBlank p.keySubject = false) (hrange : p.validity.checkRange = .ok ())
    (now : Instant) (a : Authority) : ∃ fresh b, sign p now a = (.ok fresh, b) := by
  have hr := sign_result p now a
  generalize sign p now a = r at hr
  cases hr with
  | refused e h =>
    rw [hsubject] at h
    cases h
  | noKey _ h =>
    rw [hkey] at h
    cases h
  | outOfRange e keys _ _ h =>
    rw [hrange] at h
    cases h
  | issued key keys => exact ⟨_, _, rfl⟩

/-- A plan whose only fault is an instant out of range costs a serial. -/
theorem sign_outOfRange {p : Plan} {e : Fault}
    (hsubject : validateSubject p.subject p.alternateName p.validity = .ok ())
    (hkey : Text.isBlank p.keySubject = false) (hrange : p.validity.checkRange = .error e)
    (now : Instant) (a : Authority) :
    ∃ b, sign p now a = (.error e, b) ∧
      b.serials = (a.serials.allocate p.validity.notAfter).2 := by
  have hr := sign_result p now a
  generalize sign p now a = r at hr
  cases hr with
  | refused e' h =>
    rw [hsubject] at h
    cases h
  | noKey _ h =>
    rw [hkey] at h
    cases h
  | outOfRange e' keys _ _ h =>
    rw [hrange] at h
    cases h
    exact ⟨_, rfl, rfl⟩
  | issued key keys _ _ h =>
    rw [hrange] at h
    cases h

/-- A plan that was issued, with the state after it. -/
theorem sign_eq_ok {p : Plan} {now : Instant} {a b : Authority} {fresh : IssuedCertificate}
    (h : sign p now a = (.ok fresh, b)) :
    ∃ key keys, fresh = p.issued a key now ∧
      b = { a with
        signatures := a.signatures + p.payload.signatures + 1
        keys
        serials := (a.serials.allocate p.validity.notAfter).2 } := by
  have hr := sign_result p now a
  rw [h] at hr
  cases hr with
  | issued key keys hsubject hkey hrange => exact ⟨key, keys, rfl, rfl⟩

end Authority

end EntitlementAuthority
