import EntitlementAuthority.Proofs.Issuance.Effect

/-!
# Requests as sequences of effects

* `Authority.Leads` — from a consistent state, some effects lead to another.
* `Authority.supersede_result` — a certificate takes its place, in a consistent state always.
* `Authority.generate_leads`, `Authority.regenerate_leads`, … — one lemma for each request.
* `Authority.Reachable.consistent` — every reachable state is consistent.
* `Authority.Reachable.fixed` — the configuration and the key stay.
-/

namespace EntitlementAuthority

namespace Authority

variable {a b c : Authority} {α β : Type}

/-- From a consistent state, some effects lead to another. -/
def Leads (a b : Authority) : Prop :=
  a.Consistent → Relation.ReflTransGen Effect a b

theorem Consistent.effects (ha : a.Consistent) (h : Relation.ReflTransGen Effect a b) :
    b.Consistent := by
  induction h with
  | refl => exact ha
  | tail _ he ih => exact ih.effect he

namespace Leads

theorem refl (a : Authority) : Leads a a :=
  fun _ => Relation.ReflTransGen.refl

theorem of_effect (h : Effect a b) : Leads a b :=
  fun _ => Relation.ReflTransGen.single h

theorem trans (hab : Leads a b) (hbc : Leads b c) : Leads a c := by
  intro ha
  have hb := ha.effects (hab ha)
  exact (hab ha).trans (hbc hb)

theorem consistent (h : Leads a b) (ha : a.Consistent) : b.Consistent :=
  ha.effects (h ha)

/-- A request is followed by another one only if it did not fail. -/
theorem bind {r : Request Authority α} {f : α → Request Authority β}
    (hr : Leads a (r a).2)
    (hf : ∀ x b, r a = (.ok x, b) → b.Consistent → Leads b (f x b).2) :
    Leads a ((r >>= f) a).2 := by
  rcases hs : r a with ⟨o, b⟩
  rw [hs] at hr
  cases o with
  | error e =>
    rw [Request.bind_error hs]
    exact hr
  | ok x =>
    rw [Request.bind_ok hs]
    intro ha
    exact hr.trans (hf x b hs (hr.consistent ha)) ha

/-- What is read decides how a request goes on, and changes nothing. -/
theorem bind_read {f : Authority → Outcome α} {g : α → Request Authority β}
    (hg : ∀ x, f a = .ok x → Leads a (g x a).2) : Leads a ((Request.read f >>= g) a).2 := by
  refine bind (refl a) ?_
  intro x b h _
  obtain rfl : a = b := congrArg Prod.snd h
  exact hg x (congrArg Prod.fst h)

theorem map {r : Request Authority α} (f : α → β) (hr : Leads a (r a).2) :
    Leads a ((f <$> r) a).2 :=
  bind hr fun _ b _ _ => refl b

end Leads

/-! ### Parts that change nothing but caches -/

theorem leads_of_payloads (r : Request (PayloadCache PayloadRows) α) (a : Authority) :
    Leads a (Request.within Authority.payloads (fun payloads a => { a with payloads }) r a).2 :=
  Leads.of_effect (.quiet a.signatures _ a.anonymousContent a.keys)

theorem signBody_leads (body : EntitlementBody) (a : Authority) : Leads a (signBody body a).2 :=
  Leads.of_effect (.quiet (a.signatures + 1) a.payloads a.anonymousContent a.keys)

theorem contentPayload_leads (x : ContentAccess) (now : Instant) (a : Authority) :
    Leads a (contentPayload x now a).2 := by
  unfold contentPayload PayloadCache.getOrCreate
  refine Leads.bind (Leads.refl a) ?_
  intro config a₁ _ _
  refine Leads.bind (leads_of_payloads _ a₁) ?_
  intro found a₂ _ _
  have hbuild : ∀ a, Leads a (buildContentPayload x a).2 := by
    intro a
    exact Leads.bind (Leads.refl a) fun body a' _ _ => signBody_leads body a'
  cases found with
  | fresh row => exact Leads.refl a₂
  | stale => exact Leads.bind (hbuild a₂) fun _ a₃ _ _ => leads_of_payloads _ a₃
  | absent => exact Leads.bind (hbuild a₂) fun _ a₃ _ _ => leads_of_payloads _ a₃

theorem plan_leads (role : Role) (now : Instant) (a : Authority) :
    Leads a (plan role now a).2 := by
  have h := plan_result role now a
  generalize plan role now a = r at h
  cases h with
  | unsigned answer anonymousContent =>
    exact Leads.of_effect (.quiet a.signatures a.payloads anonymousContent a.keys)
  | signed p anonymousContent =>
    exact Leads.of_effect (.quiet (a.signatures + 1) a.payloads anonymousContent a.keys)

/-! ### Issuing -/

theorem allocate_leads (a : Authority) (signatures : Nat) (keys : KeyRing)
    (expiration : Instant) :
    Leads a { a with signatures, keys, serials := (a.serials.allocate expiration).2 } :=
  (Leads.of_effect (.quiet signatures a.payloads a.anonymousContent keys)).trans
    (Leads.of_effect (.allocated expiration))

theorem sign_leads (p : Plan) (now : Instant) (a : Authority) : Leads a (sign p now a).2 := by
  have h := sign_result p now a
  generalize sign p now a = r at h
  cases h with
  | refused e hsubject => exact Leads.refl a
  | noKey hsubject hkey =>
    exact Leads.of_effect (.quiet _ a.payloads a.anonymousContent a.keys)
  | outOfRange e keys hsubject hkey hrange => exact allocate_leads a _ keys _
  | issued key keys hsubject hkey hrange => exact allocate_leads a _ keys _

/-- A certificate that has just been issued can take its place. -/
theorem supersedable_of_sign {p : Plan} {now : Instant} {fresh : IssuedCertificate}
    (h : sign p now a = (.ok fresh, b))
    (hp : p.role.kind = .entitlement →
      ∃ e, a.directory.entitlements.get? p.role.subject = some e) : Supersedable b fresh := by
  obtain ⟨key, keys, rfl, rfl⟩ := sign_eq_ok h
  exact ⟨⟨_, get?_allocate_self p.validity.notAfter a.serials⟩, hp⟩

/-- Planning does not change the records. -/
theorem plan_directory {role : Role} {now : Instant} {o : Outcome Plan}
    (h : plan role now a = (o, b)) : b.directory = a.directory := by
  have hr := plan_result role now a
  rw [h] at hr
  cases hr <;> rfl

theorem supersedable_of_issue {role : Role} {now : Instant} {fresh : IssuedCertificate}
    (ha : a.Consistent) (h : issue role now a = (.ok fresh, b)) : Supersedable b fresh := by
  obtain ⟨p, a₁, hplan, hsign⟩ := Request.bind_eq_ok.1 h
  refine supersedable_of_sign hsign ?_
  intro hkind
  obtain ⟨hrole, hentitlement⟩ := plan_eq_ok hplan
  obtain ⟨e, -, -, -, he, -, -, -, hp, -⟩ := entitlementPlan_eq_ok (hentitlement (hrole ▸ hkind))
  rw [Directory.entitlement_eq_ok] at he
  have hid := ha.entitlements _ _ he
  refine ⟨e, ?_⟩
  rw [plan_directory hplan, hp]
  show a.directory.entitlements.get? e.id = some e
  rw [hid, he]

theorem issue_leads (role : Role) (now : Instant) (a : Authority) :
    Leads a (issue role now a).2 :=
  Leads.bind (plan_leads role now a) fun p a' _ _ => sign_leads p now a'

theorem leads_of_issue {role : Role} {now : Instant} {o : Outcome IssuedCertificate}
    (h : issue role now a = (o, b)) : Leads a b := by
  have hleads := issue_leads role now a
  rwa [h] at hleads

/-! ### Superseding -/

/-- **In a consistent state a certificate takes its place**, even if in the end there is no
entitlement to unflag. -/
theorem supersede_result (ha : a.Consistent) (fresh : IssuedCertificate) :
    supersede fresh a =
      (if fresh.role.kind = .entitlement then
          (a.directory.entitlement fresh.role.subject).map fun _ => fresh
        else .ok fresh, a.superseded fresh) := by
  have hstore : store fresh a = (.ok (a.current? fresh.role),
      { a with
        certificates := (a.certificates.put fresh.role.kind fresh.role.subject fresh).2 }) := rfl
  have hretire : retire (a.current? fresh.role)
      { a with
        certificates := (a.certificates.put fresh.role.kind fresh.role.subject fresh).2 } =
      (.ok (), { a.superseded fresh with directory := a.directory }) := by
    unfold superseded
    cases hc : a.current? fresh.role with
    | none => rfl
    | some previous =>
      obtain ⟨s, hs⟩ := ha.serials _ _ previous hc
      have hrevoke : SerialLedger.revoke previous.serial.id a.serials =
          (.ok (), a.serials.markRevoked previous.serial.id) := by
        rw [SerialLedger.revoke, hs]
      simp only [retire, onSerials, Request.within_apply, hrevoke]
  unfold supersede
  rw [Request.bind_ok hstore, Request.bind_ok hretire]
  unfold markClean superseded
  by_cases hkind : fresh.role.kind = .entitlement
  · rw [if_pos hkind, if_pos hkind, if_pos hkind]
    cases he : a.directory.entitlements.get? fresh.role.subject with
    | none =>
      have hf : a.directory.entitlement fresh.role.subject =
          .error (.notFound ("entitlement " ++ fresh.role.subject)) := by
        unfold Directory.entitlement Directory.find
        rw [he]
        rfl
      have hset := Directory.setDirty_of_none false he
      rw [Request.bind_error (by rw [onDirectory, Request.within_apply, hset]), hset, hf]
      rfl
    | some e =>
      have hset := Directory.setDirty_of_some false he
      rw [Request.bind_ok (by rw [onDirectory, Request.within_apply, hset]), hset,
        Directory.entitlement_eq_ok.2 he]
      rfl
  · rw [if_neg hkind, if_neg hkind, if_neg hkind]
    rfl

theorem supersede_of_supersedable {fresh : IssuedCertificate} (ha : a.Consistent)
    (h : Supersedable a fresh) : supersede fresh a = (.ok fresh, a.superseded fresh) := by
  rw [supersede_result ha]
  by_cases hkind : fresh.role.kind = .entitlement
  · obtain ⟨e, he⟩ := h.entitlement hkind
    rw [if_pos hkind, Directory.entitlement_eq_ok.2 he]
    rfl
  · rw [if_neg hkind]

theorem supersede_leads {fresh : IssuedCertificate} (h : Supersedable a fresh) :
    Leads a (supersede fresh a).2 := by
  intro ha
  rw [supersede_of_supersedable ha h]
  exact Relation.ReflTransGen.single (.superseded fresh h)

/-- In a consistent state, what was issued takes its place. -/
theorem supersede_after_issue (ha : a.Consistent) {fresh : IssuedCertificate} {a₁ : Authority}
    (hissue : issue role now a = (.ok fresh, a₁)) :
    supersede fresh a₁ = (.ok fresh, a₁.superseded fresh) :=
  supersede_of_supersedable ((leads_of_issue hissue).consistent ha)
    (supersedable_of_issue ha hissue)

/-! ### What can be asked of the authority -/

theorem contentAccessCertificate_leads (x : ContentAccess) (forced : Bool) (now : Instant)
    (a : Authority) : Leads a (contentAccessCertificate x forced now a).2 := by
  unfold contentAccessCertificate
  refine Leads.bind_read ?_
  intro kept _
  cases kept with
  | some c => exact Leads.refl a
  | none =>
    refine Leads.bind (Leads.refl a) ?_
    intro config a₁ _ _
    refine Leads.bind (sign_leads _ now a₁) ?_
    intro fresh a₂ hsign _
    refine supersede_leads (supersedable_of_sign hsign ?_)
    intro hkind
    cases hkind

theorem contentAccess_leads (consumerId : String) (forced : Bool) (now : Instant) (a : Authority) :
    Leads a (contentAccess consumerId forced now a).2 := by
  unfold contentAccess
  refine Leads.bind_read ?_
  intro x _
  cases x with
  | none => exact Leads.refl a
  | some x =>
    refine Leads.bind (contentAccessCertificate_leads x forced now a) ?_
    intro c a₁ _ _
    exact Leads.bind (contentPayload_leads x now a₁) fun row a₂ _ _ => Leads.refl a₂

theorem plainContentAccess_leads (consumerId : String) (now : Instant) (a : Authority) :
    Leads a (plainContentAccess consumerId now a).2 := by
  unfold plainContentAccess
  refine Leads.bind_read ?_
  intro x _
  cases x with
  | none => exact Leads.refl a
  | some x => exact Leads.map some (contentAccessCertificate_leads x false now a)

theorem contentPayloadFor_leads (consumerId : String) (now : Instant) (a : Authority) :
    Leads a (contentPayloadFor consumerId now a).2 := by
  unfold contentPayloadFor
  refine Leads.bind_read ?_
  intro x _
  cases x with
  | none => exact Leads.refl a
  | some x => exact Leads.map _ (contentPayload_leads x now a)

theorem generate_leads (role : Role) (now : Instant) (a : Authority) :
    Leads a (generate role now a).2 := by
  unfold generate
  by_cases hkind : role.kind = .contentAccess
  · rw [if_pos hkind]
    exact contentAccess_leads role.subject false now a
  · rw [if_neg hkind]
    intro ha
    refine Leads.bind_read ?_ ha
    intro kept _
    cases kept with
    | some c => exact Leads.refl a
    | none =>
      refine Leads.bind (issue_leads role now a) ?_
      intro fresh b hissue _
      exact Leads.map some (supersede_leads (supersedable_of_issue ha hissue))

theorem renew_leads (role : Role) (now : Instant) (a : Authority) :
    Leads a (renew role now a).2 := by
  intro ha
  unfold renew
  refine Leads.bind (Leads.refl a) ?_ ha
  intro previous a₁ hprevious _
  obtain rfl : a = a₁ := congrArg Prod.snd hprevious
  refine Leads.bind (issue_leads role now a) ?_
  intro answer b hattempt _
  have hissue : issue role now a = (answer, b) := by
    rw [Request.attempt_apply] at hattempt
    obtain ⟨hanswer, hstate⟩ := Prod.mk.inj hattempt
    exact Prod.ext (Except.ok.inj hanswer) hstate
  rcases answer with e | fresh
  · cases e <;> cases previous <;> exact Leads.refl b
  · exact Leads.map some (supersede_leads (supersedable_of_issue ha hissue))

theorem setDirty_leads (id : String) (dirty : Bool) (a : Authority) :
    Leads a (onDirectory (Directory.setDirty id dirty) a).2 :=
  Leads.of_effect (.changed (.setDirty id dirty))

/-- Unless it is put off, a certificate that is not for content access is renewed. -/
theorem regenerate_eager {role : Role} (h : role.kind ≠ .contentAccess) (now : Instant) :
    regenerate role false now = renew role now := by
  unfold regenerate
  cases hkind : role.kind with
  | contentAccess => exact absurd hkind h
  | _ => rfl

/-- Putting a certificate off is flagging its entitlement. -/
theorem regenerate_putOff (id : String) (now : Instant) :
    regenerate (.entitlement id) true now = (do
      onDirectory (Directory.setDirty id true)
      Request.get fun a => a.current? (.entitlement id)) := rfl

theorem regenerate_leads (role : Role) (putOff : Bool) (now : Instant) (a : Authority) :
    Leads a (regenerate role putOff now a).2 := by
  by_cases hkind : role.kind = .contentAccess
  · unfold regenerate
    rw [hkind]
    exact contentAccess_leads role.subject true now a
  · cases putOff with
    | false =>
      rw [regenerate_eager hkind]
      exact renew_leads role now a
    | true =>
      unfold regenerate
      cases hk : role.kind with
      | contentAccess => exact absurd hk hkind
      | entitlement =>
        exact Leads.bind (setDirty_leads role.subject true a) fun _ b _ _ => Leads.refl b
      | _ => exact renew_leads role now a

theorem forEach_leads {f : String → Request Authority Unit}
    (hf : ∀ id a, Leads a (f id a).2) (ids : List String) (a : Authority) :
    Leads a (forEach f ids a).2 := by
  induction ids generalizing a with
  | nil => exact Leads.refl a
  | cons id ids ih => exact Leads.bind (hf id a) fun _ b _ _ => ih b

theorem flagDrifted_leads (consumerIds : List String) (before after : List EnvironmentPromotions)
    (a : Authority) : Leads a (flagDrifted consumerIds before after a).2 := by
  unfold flagDrifted
  refine Leads.bind_read ?_
  intro carried _
  refine Leads.bind (forEach_leads (fun id a => setDirty_leads id true a) _ a) ?_
  intro _ b _ _
  exact Leads.refl b

theorem regenerateForEnvironment_leads (environmentId : String) (contentIds : List String)
    (putOff : Bool) (now : Instant) (a : Authority) :
    Leads a (regenerateForEnvironment environmentId contentIds putOff now a).2 := by
  unfold regenerateForEnvironment
  refine Leads.bind_read ?_
  intro affected _
  refine Leads.bind (forEach_leads ?_ affected a) fun _ b _ _ => Leads.refl b
  intro id a
  exact Leads.bind (regenerate_leads (.entitlement id) putOff now a) fun _ b _ _ => Leads.refl b

theorem revokeSerial_leads (id : Nat) (a : Authority) :
    Leads a (onSerials (SerialLedger.revoke id) a).2 := by
  rw [onSerials, Request.within_apply, SerialLedger.revoke]
  cases a.serials.get? id with
  | none => exact Leads.refl a
  | some s => exact Leads.of_effect (.revoked id)

/-! ### Runs -/

/-- **Every operation is a sequence of effects.** -/
theorem Operation.apply_leads (operation : Operation) (now : Instant) (a : Authority) :
    Leads a (operation.apply now a) := by
  cases operation with
  | change c => exact Leads.of_effect (.changed c)
  | generate role => exact generate_leads role now a
  | regenerate role putOff => exact regenerate_leads role putOff now a
  | plainContentAccess consumerId => exact plainContentAccess_leads consumerId now a
  | contentPayload consumerId => exact contentPayloadFor_leads consumerId now a
  | flagDrifted consumerIds before after => exact flagDrifted_leads consumerIds before after a
  | regenerateForEnvironment environmentId contentIds putOff =>
    exact regenerateForEnvironment_leads environmentId contentIds putOff now a
  | revokeSerial id => exact revokeSerial_leads id a
  | clearAnonymousContent =>
    exact Leads.of_effect (.quiet a.signatures a.payloads a.anonymousContent.clear a.keys)

/-- A run is a sequence of effects. -/
theorem leads_of_run (h : Relation.ReflTransGen Step a b) : Leads a b := by
  induction h with
  | refl => exact Leads.refl a
  | tail _ hstep ih =>
    obtain ⟨operation, now, rfl⟩ := hstep
    exact ih.trans (Operation.apply_leads operation now _)

/-- **Every reachable state is consistent.** -/
theorem Reachable.consistent (h : Reachable a) : a.Consistent := by
  obtain ⟨cryptography, config, now, start, hstart, hrun⟩ := h
  exact (leads_of_run hrun).consistent (Consistent.of_create hstart)

/-- No effects change the configuration or the key of the authority. -/
theorem fixed_of_effects (h : Relation.ReflTransGen Effect a b) :
    b.config = a.config ∧ b.ca = a.ca := by
  induction h with
  | refl => exact ⟨rfl, rfl⟩
  | tail _ he ih => exact ⟨he.fixed.1.trans ih.1, he.fixed.2.trans ih.2⟩

theorem Leads.fixed (h : Leads a b) (ha : a.Consistent) :
    b.config = a.config ∧ b.ca = a.ca :=
  fixed_of_effects (h ha)

/-- No run changes the configuration or the key of the authority. -/
theorem Reachable.fixed (ha : Reachable a) (h : Relation.ReflTransGen Step a b) :
    b.config = a.config ∧ b.ca = a.ca :=
  (leads_of_run h).fixed ha.consistent

end Authority

end EntitlementAuthority
