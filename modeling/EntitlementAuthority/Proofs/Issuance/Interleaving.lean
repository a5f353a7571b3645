import EntitlementAuthority.Proofs.Issuance.RequestEffects
import EntitlementAuthority.Proofs.Promotion.DriftSoundness

/-!
# Between issuing and superseding

A certificate says what the records said when it was issued. Other requests may come in before it
takes its place, and when it does, the flag of its entitlement is cleared whatever happened in
between.

* `entitlementModels` — the products that the certificate of an entitlement would show.
* `entitlementModels_setDirty` — they do not depend on any flag.
* `Authority.IsFlagged`, `Authority.ShowsRecords` — the entitlement is flagged, or its certificate
  shows what the records say.
* `Authority.Overtaken` — a request with any operations between its two steps.
* `Authority.showsRecords_of_request` — without any, the certificate shows what the records say.
* `Authority.flagged_or_shows_iff` — in general it does exactly if the records say the same as when
  it was issued, and the flag is gone either way.
-/

namespace EntitlementAuthority

/-- The products that the certificate of an entitlement would show. -/
def entitlementModels (config : Config) (d : Directory) (id : String) :
    Outcome (List ProductModel) := do
  let entitlement ← d.entitlement id
  let consumer ← d.consumer entitlement.consumerId
  let owner ← d.owner consumer.ownerId
  let pool ← d.pool entitlement.poolId
  .ok (entitlementProducts config d consumer owner pool)

/-! ### Flags and products -/

/-- An entitlement with its flag cleared. -/
def Entitlement.unflagged (e : Entitlement) : Entitlement :=
  { e with dirty := false }

theorem Table.map_insertEntry {κ α β : Type} [DecidableEq κ] {k : κ} {v w : α} (f : α → β)
    {es : List (κ × α)} (h : lookupEntry k es = some w) (hf : f v = f w) :
    (insertEntry k v es).map (fun e => f e.2) = es.map fun e => f e.2 := by
  induction es with
  | nil => cases h
  | cons e es ih =>
    rw [lookupEntry] at h
    rw [insertEntry]
    split at h
    · rename_i hk
      rw [if_pos hk, List.map_cons, List.map_cons, hf, Option.some.inj h]
    · rename_i hk
      rw [if_neg hk, List.map_cons, List.map_cons, ih h]

/-- What is put together from `k` is the same for lists that `g` makes the same, if `k` does not
see `g`. -/
theorem flatMap_eq_of_map_eq {α β : Type} (g : α → α) {k : α → List β} (hk : ∀ x, k (g x) = k x)
    {l l' : List α} (h : l.map g = l'.map g) : l.flatMap k = l'.flatMap k := by
  have hall : ∀ l : List α, (l.map g).flatMap k = l.flatMap k := by
    intro l
    rw [List.flatMap_map]
    exact congrArg (l.flatMap ·) (funext hk)
  rw [← hall l, h, hall l']

namespace Directory

variable {d : Directory}

theorem unflagged_setDirty (id : String) (dirty : Bool) (d : Directory) :
    (setDirty id dirty d).2.entitlements.values.map Entitlement.unflagged =
      d.entitlements.values.map Entitlement.unflagged := by
  cases h : d.entitlements.get? id with
  | none => rw [setDirty_of_none dirty h]
  | some e =>
    rw [setDirty_of_some dirty h]
    simp only [Table.values, List.map_map]
    exact Table.map_insertEntry Entitlement.unflagged h rfl

/-- The entitlements of a consumer without their flags, by id. -/
theorem unflagged_entitlementsOf (d : Directory) (consumerId : String) :
    (d.entitlementsOf consumerId).map Entitlement.unflagged =
      ((d.entitlements.values.map Entitlement.unflagged).filter
        fun e => e.consumerId == consumerId).mergeSort fun a b => a.id ≤ b.id := by
  have hsorted : ∀ es : List Entitlement,
      (es.mergeSort fun a b => a.id ≤ b.id).map Entitlement.unflagged =
        (es.map Entitlement.unflagged).mergeSort fun a b => a.id ≤ b.id := by
    intro es
    exact List.map_mergeSort fun _ _ _ _ => rfl
  rw [entitlementsOf, hsorted, List.filter_map]
  rfl

/-- What a consumer is entitled to does not depend on any flag. -/
theorem entitledProductIds_setDirty (id : String) (dirty : Bool) (d : Directory)
    (consumerId : String) :
    (setDirty id dirty d).2.entitledProductIds consumerId = d.entitledProductIds consumerId := by
  have hpools : (setDirty id dirty d).2.pools = d.pools := by
    obtain ⟨entitlements, hd, -⟩ := setDirty_result id dirty d
    rw [hd]
  have hentitlements : ((setDirty id dirty d).2.entitlementsOf consumerId).map
      Entitlement.unflagged = (d.entitlementsOf consumerId).map Entitlement.unflagged := by
    rw [unflagged_entitlementsOf, unflagged_entitlementsOf, unflagged_setDirty]
  unfold entitledProductIds
  rw [hpools]
  exact congrArg Text.sortedSet (flatMap_eq_of_map_eq Entitlement.unflagged (fun _ => rfl)
    hentitlements)

end Directory

/-- What a consumer sees of its entitlements does not depend on any flag. -/
theorem entitlementProducts_setDirty (config : Config) (id : String) (dirty : Bool) (d : Directory)
    (consumer : Consumer) (owner : Owner) (pool : Pool) :
    entitlementProducts config (Directory.setDirty id dirty d).2 consumer owner pool =
      entitlementProducts config d consumer owner pool := by
  unfold entitlementProducts entitlementView
  rw [Directory.entitledProductIds_setDirty]
  obtain ⟨entitlements, hd, -⟩ := Directory.setDirty_result id dirty d
  rw [hd]
  rfl

/-- The products that certificates show do not depend on any flag. -/
theorem entitlementModels_setDirty (config : Config) (id : String) (dirty : Bool) (d : Directory)
    (id' : String) :
    entitlementModels config (Directory.setDirty id dirty d).2 id' =
      entitlementModels config d id' := by
  obtain ⟨entitlements, hd, hget⟩ := Directory.setDirty_result id dirty d
  unfold entitlementModels
  simp only [entitlementProducts_setDirty]
  rw [hd]
  unfold Directory.entitlement Directory.find
  dsimp only
  rw [hget]
  by_cases hid : id = id'
  · rw [if_pos hid]
    cases d.entitlements.get? id' <;> rfl
  · rw [if_neg hid]
    rfl

/-! ### Overtaken requests -/

namespace Authority

variable {a b c : Authority} {id : String} {now : Instant} {fresh : IssuedCertificate}

/-- What the certificate of an entitlement would show now. -/
def models (a : Authority) (id : String) : Outcome (List ProductModel) :=
  entitlementModels a.config a.directory id

/-- The entitlement exists and is flagged. -/
def IsFlagged (a : Authority) (id : String) : Prop :=
  ∃ e, a.directory.entitlements.get? id = some e ∧ e.dirty = true

/-- The stored certificate of an entitlement shows what the records say. -/
def ShowsRecords (a : Authority) (id : String) : Prop :=
  ∃ c body, a.current? (.entitlement id) = some c ∧ c.body = some body ∧
    a.models id = .ok body.products

/-- A request for the certificate of an entitlement that others overtake: it issued `fresh` in the
state `a`, any operations led to `b`, and it put `fresh` in its place, which led to `c`. -/
structure Overtaken (id : String) (now : Instant) (fresh : IssuedCertificate)
    (a b c : Authority) : Prop where
  reachable : Reachable a
  overtaken : ∃ a₁, issue (.entitlement id) now a = (.ok fresh, a₁) ∧
    Relation.ReflTransGen Step a₁ b
  placed : c = (supersede fresh b).2

/-- What is issued for an entitlement shows what the records say. -/
theorem issued_entitlement (ha : a.Consistent)
    (h : issue (.entitlement id) now a = (.ok fresh, b)) :
    fresh.role = .entitlement id ∧
      ∃ body, fresh.body = some body ∧ a.models id = .ok body.products := by
  obtain ⟨p, a₁, hplan, hsign⟩ := Request.bind_eq_ok.1 h
  obtain ⟨-, hentitlement⟩ := plan_eq_ok hplan
  obtain ⟨e, consumer, owner, pool, he, hconsumer, howner, hpool, hrole, -, hbody, -⟩ :=
    entitlementPlan_eq_ok (hentitlement rfl)
  obtain ⟨key, keys, rfl, -⟩ := sign_eq_ok hsign
  have hid : e.id = id := ha.entitlements id e (Directory.entitlement_eq_ok.1 he)
  refine ⟨?_, _, hbody, ?_⟩
  · show p.role = .entitlement id
    rw [hrole, hid]
  · refine Outcome.bind_eq_ok.2 ⟨e, he, ?_⟩
    refine Outcome.bind_eq_ok.2 ⟨consumer, hconsumer, ?_⟩
    refine Outcome.bind_eq_ok.2 ⟨owner, howner, ?_⟩
    exact Outcome.bind_eq_ok.2 ⟨pool, hpool, rfl⟩

theorem superseded_directory (hrole : fresh.role = .entitlement id) (b : Authority) :
    (b.superseded fresh).directory = (Directory.setDirty id false b.directory).2 := by
  unfold superseded
  rw [hrole]
  rfl

/-- A certificate that takes its place unflags its entitlement and changes no models. -/
theorem superseded_entitlement (hrole : fresh.role = .entitlement id) (b : Authority) :
    (b.superseded fresh).current? (.entitlement id) = some fresh ∧
      ¬ IsFlagged (b.superseded fresh) id ∧ (b.superseded fresh).models id = b.models id := by
  have hdirectory := superseded_directory hrole b
  refine ⟨?_, ?_, ?_⟩
  · have hput := CertificateStore.get?_put fresh.role.kind .entitlement fresh.role.subject id fresh
      b.certificates
    rw [hrole, if_pos ⟨rfl, rfl⟩] at hput
    unfold superseded
    rw [hrole]
    exact hput
  · rintro ⟨e, he, hdirty⟩
    obtain ⟨entitlements, hd, hget⟩ := Directory.setDirty_result id false b.directory
    rw [hdirectory, hd] at he
    have he : entitlements.get? id = some e := he
    rw [hget, if_pos rfl] at he
    obtain ⟨e', -, rfl⟩ := Option.map_eq_some_iff.1 he
    cases hdirty
  · unfold models
    rw [hdirectory]
    exact entitlementModels_setDirty b.config id false b.directory id

/-- What follows when an overtaken request comes to its end. -/
theorem Overtaken.result (h : Overtaken id now fresh a b c) :
    c.current? (.entitlement id) = some fresh ∧ ¬ IsFlagged c id ∧ c.models id = b.models id ∧
      ∃ body, fresh.body = some body ∧ a.models id = .ok body.products := by
  obtain ⟨hreachable, ⟨a₁, hissue, hrun⟩, rfl⟩ := h
  have ha := hreachable.consistent
  have hb : b.Consistent := ((leads_of_issue hissue).trans (leads_of_run hrun)).consistent ha
  obtain ⟨hrole, hbody⟩ := issued_entitlement ha hissue
  rw [supersede_result hb]
  obtain ⟨hcurrent, hflag, hmodels⟩ := superseded_entitlement hrole b
  exact ⟨hcurrent, hflag, hmodels, hbody⟩

/-- If the certificate shows what the records say in the end, they say the same as when it was
issued. -/
theorem Overtaken.models_eq (h : Overtaken id now fresh a b c) (hc : ShowsRecords c id) :
    b.models id = a.models id := by
  obtain ⟨hcurrent, -, hmodels, body, hbody, hshown⟩ := h.result
  obtain ⟨stored, body', hstored, hbody', hshown'⟩ := hc
  rw [hcurrent] at hstored
  obtain rfl := Option.some.inj hstored
  rw [hbody] at hbody'
  obtain rfl := Option.some.inj hbody'
  rw [← hmodels, hshown', hshown]

/-- Issuing changes neither the records nor the configuration. -/
theorem issue_fixed {role : Role} (h : issue role now a = (.ok fresh, b)) :
    b.config = a.config ∧ b.directory = a.directory := by
  obtain ⟨p, a₁, hplan, hsign⟩ := Request.bind_eq_ok.1 h
  obtain ⟨key, keys, -, rfl⟩ := sign_eq_ok hsign
  have hr := plan_result role now a
  rw [hplan] at hr
  cases hr <;> exact ⟨rfl, rfl⟩

/-- Issuing does not store anything. -/
theorem issue_certificates {role : Role} (h : issue role now a = (.ok fresh, b)) :
    b.certificates = a.certificates := by
  obtain ⟨p, a₁, hplan, hsign⟩ := Request.bind_eq_ok.1 h
  obtain ⟨key, keys, -, rfl⟩ := sign_eq_ok hsign
  have hr := plan_result role now a
  rw [hplan] at hr
  cases hr <;> rfl

/-- Only a valid certificate is reused. -/
theorem reusable_eq_some {role : Role} (h : a.reusable role now = .ok (some fresh)) :
    a.current? role = some fresh ∧ a.standing fresh now = .ok .valid := by
  unfold reusable at h
  cases hcurrent : a.current? role with
  | none =>
    rw [hcurrent] at h
    cases h
  | some stored =>
    rw [hcurrent] at h
    dsimp only at h
    cases hstanding : a.standing stored now with
    | error e =>
      rw [hstanding] at h
      cases h
    | ok s =>
      rw [hstanding] at h
      have h : (if s = .valid then some stored else none) = some fresh := Except.ok.inj h
      split at h
      · rename_i hvalid
        obtain rfl := Option.some.inj h
        exact ⟨rfl, hstanding.trans (congrArg _ hvalid)⟩
      · cases h

/-- A request for a new certificate is one that nobody overtakes. -/
theorem overtaken_of_request (ha : Reachable a)
    (h : generate (.entitlement id) now a = (.ok (some fresh), c) ∨
      regenerate (.entitlement id) false now a = (.ok (some fresh), c))
    (hnew : a.current? (.entitlement id) ≠ some fresh) :
    ∃ b, issue (.entitlement id) now a = (.ok fresh, b) ∧ Overtaken id now fresh a b c := by
  have hkind : (Role.entitlement id).kind ≠ .contentAccess := by
    intro h
    cases h
  have done : ∀ fresh' b, issue (.entitlement id) now a = (.ok fresh', b) →
      (some <$> supersede fresh') b = (.ok (some fresh), c) →
      ∃ b, issue (.entitlement id) now a = (.ok fresh, b) ∧ Overtaken id now fresh a b c := by
    intro fresh' b hissue hplaced
    have hsupersede := supersede_after_issue ha.consistent hissue
    rw [Request.map_ok some hsupersede] at hplaced
    cases hplaced
    refine ⟨b, hissue, ha, ⟨b, hissue, Relation.ReflTransGen.refl⟩, ?_⟩
    rw [hsupersede]
  rcases h with h | h
  · unfold generate at h
    rw [if_neg hkind] at h
    obtain ⟨kept, a₁, hread, h⟩ := Request.bind_eq_ok.1 h
    obtain ⟨hkept, rfl⟩ := Prod.mk.inj hread
    cases kept with
    | some previous =>
      cases h
      exact absurd (reusable_eq_some hkept).1 hnew
    | none =>
      obtain ⟨fresh', b, hissue, hplaced⟩ := Request.bind_eq_ok.1 h
      exact done fresh' b hissue hplaced
  · rw [regenerate_eager hkind] at h
    unfold renew at h
    rw [Request.bind_ok (Request.get_apply _ a), Request.bind_ok (Request.attempt_apply _ a)] at h
    rcases hissue : issue (.entitlement id) now a with ⟨o, b⟩
    cases o with
    | error e =>
      rw [hissue] at h
      generalize a.current? (.entitlement id) = previous at h hnew
      cases e <;> cases previous <;> cases h
      exact absurd rfl hnew
    | ok fresh' =>
      rw [← hissue]
      rw [hissue] at h
      exact done fresh' b hissue h

/-- A request that nobody overtakes leaves a certificate behind that shows what the records say. -/
theorem showsRecords_of_request (ha : Reachable a)
    (h : generate (.entitlement id) now a = (.ok (some fresh), c) ∨
      regenerate (.entitlement id) false now a = (.ok (some fresh), c))
    (hnew : a.current? (.entitlement id) ≠ some fresh) : ShowsRecords c id := by
  obtain ⟨b, hissue, hovertaken⟩ := overtaken_of_request ha h hnew
  obtain ⟨hcurrent, -, hmodels, body, hbody, hshown⟩ := hovertaken.result
  obtain ⟨hconfig, hdirectory⟩ := issue_fixed hissue
  refine ⟨fresh, body, hcurrent, hbody, ?_⟩
  rw [hmodels, ← hshown]
  unfold models
  rw [hconfig, hdirectory]

/-! ### A consumer whose environment changes -/

/-- The records of the sample, with the consumer in an environment that promotes the content. -/
def promotedChanges : List DirectoryChange :=
  [.addOwner (Sample.owner ⟨0, 0⟩), .addEnvironment MovingConsumer.dev,
    .addConsumer (MovingConsumer.consumer.within [MovingConsumer.dev]),
    .addPool MovingConsumer.pool, .addEntitlement Sample.entitlement]

/-- The directory with those records. -/
def promotedDirectory : Directory :=
  promotedChanges.foldl (fun d c => c.apply d) Directory.empty

/-- What is needed for the certificate of an entitlement. -/
def IsIssuable (config : Config) (d : Directory) (id : String) (now : Instant) : Prop :=
  ∃ p, entitlementPlan config d id now = .ok p ∧
    validateSubject p.subject p.alternateName p.validity = .ok () ∧
    Text.isBlank p.keySubject = false ∧ p.validity.checkRange = .ok ()

theorem exists_issue (h : IsIssuable a.config a.directory id now) :
    ∃ fresh b, issue (.entitlement id) now a = (.ok fresh, b) := by
  obtain ⟨p, hplan, hsubject, hkey, hrange⟩ := h
  have hread : plan (.entitlement id) now a = (.ok p, a) := by
    show (entitlementPlan a.config a.directory id now, a) = _
    rw [hplan]
  obtain ⟨fresh, b, hsign⟩ := sign_ok hsubject hkey hrange now a
  refine ⟨fresh, b, ?_⟩
  unfold issue
  rw [Request.bind_ok hread]
  exact hsign

/-- The certificate of the sample entitlement can be issued from those records. -/
theorem exists_issued : ∃ a fresh a₁, Reachable a ∧ a.config = {} ∧
    a.directory = promotedDirectory ∧
    issue (.entitlement Sample.entitlement.id) ⟨0, 0⟩ a = (.ok fresh, a₁) := by
  obtain ⟨start, hstart, hconfig, hdirectory, -⟩ := exists_start
  have ha := (Reachable.of_create hstart).changes promotedChanges
  rw [hdirectory] at ha
  have hissuable : IsIssuable start.config promotedDirectory Sample.entitlement.id ⟨0, 0⟩ := by
    rw [hconfig]
    exact ⟨_, rfl, rfl, rfl, rfl⟩
  obtain ⟨fresh, a₁, hissue⟩ :=
    exists_issue (a := { start with directory := promotedDirectory }) hissuable
  exact ⟨_, fresh, a₁, ha, hconfig, rfl, hissue⟩

/-- **What becomes of a flag that is set while a certificate is on its way.** It is cleared in any
case. The certificate shows what the records say exactly if they say the same as when it was
issued. -/
theorem flagged_or_shows_iff (h : Overtaken id now fresh a b c) :
    ¬ IsFlagged c id ∧ ((IsFlagged c id ∨ ShowsRecords c id) ↔ b.models id = a.models id) := by
  obtain ⟨hcurrent, hflag, hmodels, body, hbody, hshown⟩ := h.result
  refine ⟨hflag, ?_⟩
  constructor
  · rintro (hflagged | hshows)
    · exact absurd hflagged hflag
    · exact h.models_eq hshows
  · intro hsame
    refine .inr ⟨fresh, body, hcurrent, hbody, ?_⟩
    rw [hmodels, hsame, hshown]

theorem flagged_or_shows_iff_same :
    ∃ fresh a b c, Overtaken Sample.entitlement.id ⟨0, 0⟩ fresh a b c ∧
      IsFlagged b Sample.entitlement.id ∧
      ((IsFlagged c Sample.entitlement.id ∨ ShowsRecords c Sample.entitlement.id) ↔
        b.models Sample.entitlement.id = a.models Sample.entitlement.id) := by
  obtain ⟨a, fresh, a₁, ha, -, hdirectory, hissue⟩ := exists_issued
  obtain ⟨-, hsame⟩ := issue_fixed hissue
  -- somebody flags the entitlement in between
  have hstep : Step a₁ (Operation.apply ⟨0, 0⟩ (.change (.setDirty Sample.entitlement.id true)) a₁) :=
    ⟨_, _, rfl⟩
  have hovertaken := Overtaken.mk ha ⟨a₁, hissue, Relation.ReflTransGen.single hstep⟩ rfl
  refine ⟨fresh, a, _, _, hovertaken, ?_, (flagged_or_shows_iff hovertaken).2⟩
  refine ⟨{ Sample.entitlement with dirty := true }, ?_, rfl⟩
  show (Directory.setDirty _ true a₁.directory).2.entitlements.get? _ = _
  rw [hsame, hdirectory]
  rfl

/-- The promotion is taken back. -/
def demotion : DirectoryChange :=
  .updateEnvironment "dev" fun e => e.demote "1000" ⟨0, 0⟩

/-- The records after that. -/
def demotedDirectory : Directory :=
  demotion.apply promotedDirectory

theorem affectedBy_demoted :
    affectedBy demotedDirectory "dev" ["1000"] = .ok [Sample.entitlement.id] := by
  have hconsumers : demotedDirectory.consumersIn "dev" =
      [MovingConsumer.consumer.within [MovingConsumer.dev]] := by
    show List.mergeSort [_] _ = _
    rw [List.mergeSort_singleton]
  have hentitlements : demotedDirectory.entitlementsOf
      (MovingConsumer.consumer.within [MovingConsumer.dev]).id = [Sample.entitlement] := by
    show List.mergeSort [_] _ = _
    rw [List.mergeSort_singleton]
  unfold affectedBy carriedBy
  rw [hconsumers, List.mapM_cons, hentitlements]
  rfl

/-- The products that the certificate of the sample entitlement would show. -/
def shownProducts (d : Directory) : List ProductModel :=
  entitlementProducts {} d (MovingConsumer.consumer.within [MovingConsumer.dev])
    (Sample.owner ⟨0, 0⟩) MovingConsumer.pool

theorem models_demoted_ne :
    entitlementModels {} demotedDirectory Sample.entitlement.id ≠
      entitlementModels {} promotedDirectory Sample.entitlement.id := by
  intro h
  have hproducts : shownProducts demotedDirectory = shownProducts promotedDirectory :=
    Except.ok.inj h
  exact absurd hproducts (by decide)

/-- A flag that is set while a certificate is on its way is lost: the content of the entitlement is
no longer promoted and the entitlement is flagged, but in the end it is not flagged, and its
certificate still shows the content. -/
theorem flag_lost_on_the_way :
    ∃ fresh a b c, Overtaken Sample.entitlement.id ⟨0, 0⟩ fresh a b c ∧
      IsFlagged b Sample.entitlement.id ∧
      ¬ (IsFlagged c Sample.entitlement.id ∨ ShowsRecords c Sample.entitlement.id) := by
  obtain ⟨a, fresh, a₁, ha, hconfig, hdirectory, hissue⟩ := exists_issued
  obtain ⟨hconfig₁, hdirectory₁⟩ := issue_fixed hissue
  rw [hdirectory] at hdirectory₁
  -- the promotion is taken back
  have hdemote : Step a₁ { a₁ with directory := demotedDirectory } := by
    refine ⟨.change demotion, ⟨0, 0⟩, ?_⟩
    show _ = { a₁ with directory := demotion.apply a₁.directory }
    rw [hdirectory₁]
    rfl
  -- and those who see the content are flagged
  have hflag : Step { a₁ with directory := demotedDirectory }
      { a₁ with directory := (Directory.setDirty Sample.entitlement.id true demotedDirectory).2 } := by
    refine ⟨.regenerateForEnvironment "dev" ["1000"] true, ⟨0, 0⟩, ?_⟩
    unfold Operation.apply regenerateForEnvironment
    dsimp only
    rw [Request.bind_ok (by rw [Request.read_apply, affectedBy_demoted])]
    rfl
  have hovertaken := Overtaken.mk ha
    ⟨a₁, hissue, (Relation.ReflTransGen.single hdemote).tail hflag⟩ rfl
  refine ⟨fresh, a, _, _, hovertaken, ⟨_, rfl, rfl⟩, ?_⟩
  rintro (hflagged | hshows)
  · exact hovertaken.result.2.1 hflagged
  · have hsame := hovertaken.models_eq hshows
    unfold models at hsame
    dsimp only at hsame
    rw [entitlementModels_setDirty, hconfig₁, hconfig, hdirectory] at hsame
    exact models_demoted_ne hsame

end Authority

end EntitlementAuthority
