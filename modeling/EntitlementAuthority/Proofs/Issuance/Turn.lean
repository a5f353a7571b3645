import EntitlementAuthority.Issuance.Issuer
import EntitlementAuthority.Proofs.Issuance.RequestEffects

/-!
# What one request does to serials and certificates

A request for one certificate leaves serials and certificates as they are, or loses a serial, or
issues a certificate. That certificate has the next serial, and the serial of the one before is
revoked.

* `Authority.IssuedFrom` — a certificate with the next serial, entered before it was signed.
* `Authority.Turn` — the three ways.
* `Authority.generate_turn`, `Authority.regenerate_turn`, … — one lemma for each request.
-/

namespace EntitlementAuthority

/-- What is made of an answer does not matter for the state. -/
theorem Request.map_state {σ α β : Type} (f : α → β) (r : Request σ α) (s : σ) :
    ((f <$> r) s).2 = (r s).2 := by
  rcases hs : r s with ⟨o, t⟩
  cases o with
  | error e => exact congrArg Prod.snd (Request.bind_error hs)
  | ok x => rw [Request.map_ok f hs]

namespace Authority

variable {a b c : Authority} {α β : Type} {role : Role} {now : Instant}

/-- Serials and certificates are the same. -/
structure SameStores (a b : Authority) : Prop where
  serials : b.serials = a.serials
  certificates : b.certificates = a.certificates

theorem SameStores.refl (a : Authority) : SameStores a a := ⟨rfl, rfl⟩

theorem SameStores.current?_eq (h : SameStores a b) (role : Role) :
    b.current? role = a.current? role := by
  rw [current?, h.certificates, current?]

/-- Serials and certificates are the same, and so is who signs. -/
structure SameIssued (a b : Authority) : Prop extends SameStores a b where
  ca : b.ca = a.ca

/-- A certificate that was issued from a state. Its serial was the next one: first the serial was
entered, to expire when the certificate ends, and then the certificate was signed. -/
structure IssuedFrom (a : Authority) (c : IssuedCertificate) : Prop where
  serial : c.serial = ⟨a.serials.nextId, c.certificate.certificate.validity.notAfter, false⟩
  number : c.certificate.certificate.serial = c.serial.id
  signed : ∃ plan payload key now a₁ a₂ a₃, SameIssued a a₁ ∧ ∀ t : Issuer,
    (t.atStage (.allocating plan payload key)).advance now a₁ =
        (t.atStage (.certifying plan payload key c.serial), a₂) ∧
      (t.atStage (.certifying plan payload key c.serial)).advance now a₂ =
        (t.atStage (.storing c), a₃)

/-- The ledger once a certificate has taken the place of the one before. -/
def ledgerAfter (a : Authority) (fresh : IssuedCertificate) : SerialLedger :=
  match a.current? fresh.role with
  | none => (a.serials.allocate fresh.serial.expiration).2
  | some previous => (a.serials.allocate fresh.serial.expiration).2.markRevoked previous.serial.id

/-- The three ways in which a request can deal with serials and certificates. -/
inductive Turn (a b : Authority) : Prop
  /-- Nothing is issued. -/
  | kept (h : SameIssued a b)
  /-- A serial is allocated for a certificate that cannot be made. -/
  | lost (expiration : Instant) (hserials : b.serials = (a.serials.allocate expiration).2)
      (hcertificates : b.certificates = a.certificates)
  /-- A certificate is issued and takes the place of the one before. -/
  | issued (fresh : IssuedCertificate) (hfresh : IssuedFrom a fresh)
      (hserials : b.serials = ledgerAfter a fresh)
      (hcertificates : b.certificates =
        (a.certificates.put fresh.role.kind fresh.role.subject fresh).2)

namespace SameIssued

theorem refl (a : Authority) : SameIssued a a := ⟨.refl a, rfl⟩

theorem trans (hab : SameIssued a b) (hbc : SameIssued b c) : SameIssued a c :=
  ⟨⟨hbc.serials.trans hab.serials, hbc.certificates.trans hab.certificates⟩, hbc.ca.trans hab.ca⟩

theorem bind {r : Request Authority α} {f : α → Request Authority β}
    (hr : SameIssued a (r a).2) (hf : ∀ x b, SameIssued b (f x b).2) :
    SameIssued a ((r >>= f) a).2 := by
  rcases hs : r a with ⟨o, b⟩
  rw [hs] at hr
  cases o with
  | error e =>
    rw [Request.bind_error hs]
    exact hr
  | ok x =>
    rw [Request.bind_ok hs]
    exact hr.trans (hf x b)

/-- What is issued later is issued from here, if nothing was issued in between. -/
theorem issuedFrom (hab : SameIssued a b) {fresh : IssuedCertificate} (h : IssuedFrom b fresh) :
    IssuedFrom a fresh := by
  obtain ⟨plan, payload, key, now, a₁, a₂, a₃, hsame, hstages⟩ := h.signed
  exact ⟨hab.serials ▸ h.serial, h.number, plan, payload, key, now, a₁, a₂, a₃, hab.trans hsame,
    hstages⟩

end SameIssued

namespace Turn

theorem refl (a : Authority) : Turn a a := .kept (.refl a)

/-- What does not issue anything may follow. -/
theorem trans_kept (hab : Turn a b) (hbc : SameIssued b c) : Turn a c := by
  cases hab with
  | kept h => exact .kept (h.trans hbc)
  | lost expiration hserials hcertificates =>
    exact .lost expiration (hbc.serials.trans hserials) (hbc.certificates.trans hcertificates)
  | issued fresh hfresh hserials hcertificates =>
    exact .issued fresh hfresh (hbc.serials.trans hserials) (hbc.certificates.trans hcertificates)

/-- What does not issue anything may come first. -/
theorem of_kept (hab : SameIssued a b) (hbc : Turn b c) : Turn a c := by
  cases hbc with
  | kept h => exact .kept (hab.trans h)
  | lost expiration hserials hcertificates =>
    rw [hab.serials] at hserials
    exact .lost expiration hserials (hcertificates.trans hab.certificates)
  | issued fresh hfresh hserials hcertificates =>
    rw [ledgerAfter, hab.serials, hab.current?_eq] at hserials
    rw [hab.certificates] at hcertificates
    exact .issued fresh (hab.issuedFrom hfresh) hserials hcertificates

/-- A request may go on with what issues nothing. -/
theorem bind_kept {r : Request Authority α} {f : α → Request Authority β}
    (hr : Turn a (r a).2) (hf : ∀ x b, SameIssued b (f x b).2) : Turn a ((r >>= f) a).2 := by
  rcases hs : r a with ⟨o, b⟩
  rw [hs] at hr
  cases o with
  | error e =>
    rw [Request.bind_error hs]
    exact hr
  | ok x =>
    rw [Request.bind_ok hs]
    exact hr.trans_kept (hf x b)

/-- A request may begin with what issues nothing. -/
theorem bind_of_kept {r : Request Authority α} {f : α → Request Authority β}
    (hr : SameIssued a (r a).2) (hf : ∀ x b, r a = (.ok x, b) → Turn b (f x b).2) :
    Turn a ((r >>= f) a).2 := by
  rcases hs : r a with ⟨o, b⟩
  rw [hs] at hr
  cases o with
  | error e =>
    rw [Request.bind_error hs]
    exact .kept hr
  | ok x =>
    rw [Request.bind_ok hs]
    exact .of_kept hr (hf x b hs)

/-- What is read decides how a request goes on. -/
theorem bind_read {f : Authority → Outcome α} {g : α → Request Authority β}
    (hg : ∀ x, f a = .ok x → Turn a (g x a).2) : Turn a ((Request.read f >>= g) a).2 := by
  refine bind_of_kept (.refl a) ?_
  intro x b h
  obtain rfl : a = b := congrArg Prod.snd h
  exact hg x (congrArg Prod.fst h)

end Turn

/-! ### Signing -/

/-- A plan that is not issued may cost a serial. -/
theorem turn_of_sign_failed {p : Plan} {e : Fault} (h : sign p now a = (.error e, b)) :
    Turn a b := by
  have hr := sign_result p now a
  rw [h] at hr
  cases hr with
  | refused e hsubject => exact .refl a
  | noKey hsubject hkey => exact .kept ⟨⟨rfl, rfl⟩, rfl⟩
  | outOfRange e keys hsubject hkey hrange => exact .lost p.validity.notAfter rfl rfl

/-- What is issued has the next serial, and the ledger has it when the certificate is signed. -/
theorem issuedFrom_of_sign {p : Plan} {fresh : IssuedCertificate}
    (h : sign p now a = (.ok fresh, b)) : IssuedFrom a fresh ∧
      b.serials = (a.serials.allocate fresh.serial.expiration).2 ∧
      b.certificates = a.certificates := by
  have hr := sign_result p now a
  rw [h] at hr
  cases hr with
  | issued key keys hsubject hkey hrange =>
    let a₁ : Authority := { a with signatures := a.signatures + p.payload.signatures, keys }
    let a₂ : Authority := { a₁ with serials := (a.serials.allocate p.validity.notAfter).2 }
    have hcertify := certify_ok a₂
      (r := { subject := p.subject, alternateName := p.alternateName, validity := p.validity, key,
              serial := a.serials.nextId, extensions := p.extensions }) hsubject hrange
    refine ⟨⟨rfl, rfl, p, p.payload.text a.ca.signer, key, now, a₁, a₂,
      { a₂ with signatures := a₂.signatures + 1 }, ⟨⟨rfl, rfl⟩, rfl⟩, fun t => ⟨rfl, ?_⟩⟩, rfl, rfl⟩
    exact Issuer.after_ok hcertify

/-- What was signed takes its place. -/
theorem turn_of_supersede {p : Plan} {fresh : IssuedCertificate} (ha : a.Consistent)
    (h : sign p now a = (.ok fresh, b)) : Turn a (supersede fresh b).2 := by
  have hb : b.Consistent := by
    have hleads := sign_leads p now a
    rw [h] at hleads
    exact hleads.consistent ha
  obtain ⟨hfresh, hserials, hcertificates⟩ := issuedFrom_of_sign h
  have hcurrent : b.current? fresh.role = a.current? fresh.role := by
    rw [current?, hcertificates, current?]
  rw [supersede_result hb]
  refine .issued fresh hfresh ?_ ?_
  · show (b.superseded fresh).serials = _
    unfold superseded
    rw [hcurrent, hserials]
    rfl
  · show (b.superseded fresh).certificates = _
    unfold superseded
    rw [hcertificates]

/-- A plan is signed and takes its place, or fails. -/
theorem sign_supersede_turn (ha : a.Consistent) (p : Plan) (now : Instant) :
    Turn a ((sign p now >>= supersede) a).2 := by
  rcases hsign : sign p now a with ⟨o, b⟩
  cases o with
  | error e =>
    rw [Request.bind_error hsign]
    exact turn_of_sign_failed hsign
  | ok fresh =>
    rw [Request.bind_ok hsign]
    exact turn_of_supersede ha hsign

/-! ### Requests that issue nothing -/

theorem plan_sameIssued (role : Role) (now : Instant) (a : Authority) :
    SameIssued a (plan role now a).2 := by
  have hr := plan_result role now a
  generalize plan role now a = r at hr
  cases hr <;> exact ⟨⟨rfl, rfl⟩, rfl⟩

theorem setDirty_sameIssued (id : String) (dirty : Bool) (a : Authority) :
    SameIssued a (onDirectory (Directory.setDirty id dirty) a).2 :=
  ⟨⟨rfl, rfl⟩, rfl⟩

theorem contentPayload_sameIssued (x : ContentAccess) (now : Instant) (a : Authority) :
    SameIssued a (contentPayload x now a).2 := by
  unfold contentPayload PayloadCache.getOrCreate
  refine .bind (.refl a) ?_
  intro config a₁
  refine .bind ⟨⟨rfl, rfl⟩, rfl⟩ ?_
  intro found a₂
  cases found with
  | fresh row => exact .refl a₂
  | stale => exact .bind ⟨⟨rfl, rfl⟩, rfl⟩ fun _ _ => ⟨⟨rfl, rfl⟩, rfl⟩
  | absent => exact .bind ⟨⟨rfl, rfl⟩, rfl⟩ fun _ _ => ⟨⟨rfl, rfl⟩, rfl⟩

theorem contentPayloadFor_sameIssued (consumerId : String) (now : Instant) (a : Authority) :
    SameIssued a (contentPayloadFor consumerId now a).2 := by
  unfold contentPayloadFor
  refine .bind ⟨⟨rfl, rfl⟩, rfl⟩ ?_
  intro found b
  cases found with
  | none => exact .refl b
  | some x => exact .bind (contentPayload_sameIssued x now b) fun _ c => .refl c

theorem forEach_sameIssued {f : String → Request Authority Unit}
    (hf : ∀ id a, SameIssued a (f id a).2) (ids : List String) (a : Authority) :
    SameIssued a (forEach f ids a).2 := by
  induction ids generalizing a with
  | nil => exact .refl a
  | cons id ids ih => exact .bind (hf id a) fun _ b => ih b

theorem flagDrifted_sameIssued (consumerIds : List String)
    (before after : List EnvironmentPromotions) (a : Authority) :
    SameIssued a (flagDrifted consumerIds before after a).2 := by
  unfold flagDrifted
  refine .bind ⟨⟨rfl, rfl⟩, rfl⟩ ?_
  intro carried b
  exact .bind (forEach_sameIssued (fun id a => setDirty_sameIssued id true a) _ b)
    fun _ c => .refl c

/-! ### Requests for one certificate -/

theorem contentAccessCertificate_turn (ha : a.Consistent) (x : ContentAccess) (forced : Bool)
    (now : Instant) : Turn a (contentAccessCertificate x forced now a).2 := by
  unfold contentAccessCertificate
  refine .bind_read ?_
  intro kept _
  cases kept with
  | some c => exact .refl a
  | none =>
    dsimp only
    rw [Request.bind_ok (Request.get_apply _ a)]
    exact sign_supersede_turn ha _ now

theorem contentAccess_turn (ha : a.Consistent) (consumerId : String) (forced : Bool)
    (now : Instant) : Turn a (contentAccess consumerId forced now a).2 := by
  unfold contentAccess
  refine .bind_read ?_
  intro found _
  cases found with
  | none => exact .refl a
  | some x =>
    refine .bind_kept (contentAccessCertificate_turn ha x forced now) ?_
    intro c b
    exact .bind (contentPayload_sameIssued x now b) fun _ b' => .refl b'

theorem plainContentAccess_turn (ha : a.Consistent) (consumerId : String) (now : Instant) :
    Turn a (plainContentAccess consumerId now a).2 := by
  unfold plainContentAccess
  refine .bind_read ?_
  intro found _
  cases found with
  | none => exact .refl a
  | some x =>
    dsimp only
    rw [Request.map_state]
    exact contentAccessCertificate_turn ha x false now

/-- However the issuing of a certificate ends, it is a turn, together with the certificate's taking
its place if there is one. -/
theorem issue_turn (ha : a.Consistent) {o : Outcome IssuedCertificate}
    (h : issue role now a = (o, b)) :
    match o with
    | .error _ => Turn a b
    | .ok fresh => Turn a (supersede fresh b).2 := by
  have hplan := plan_sameIssued role now a
  rcases hp : plan role now a with ⟨answer, a₁⟩
  rw [hp] at hplan
  unfold issue at h
  cases answer with
  | error e =>
    rw [Request.bind_error hp] at h
    cases h
    exact .kept hplan
  | ok p =>
    rw [Request.bind_ok hp] at h
    have ha₁ : a₁.Consistent := by
      have hleads := plan_leads role now a
      rw [hp] at hleads
      exact hleads.consistent ha
    cases o with
    | error e => exact .of_kept hplan (turn_of_sign_failed h)
    | ok fresh => exact .of_kept hplan (turn_of_supersede ha₁ h)

theorem generate_turn (ha : a.Consistent) (role : Role) (now : Instant) :
    Turn a (generate role now a).2 := by
  unfold generate
  by_cases hkind : role.kind = .contentAccess
  · rw [if_pos hkind]
    exact contentAccess_turn ha role.subject false now
  · rw [if_neg hkind]
    refine .bind_read ?_
    intro kept _
    cases kept with
    | some c => exact .refl a
    | none =>
      dsimp only
      rcases hissue : issue role now a with ⟨o, b⟩
      have hturn := issue_turn ha hissue
      cases o with
      | error e =>
        rw [Request.bind_error hissue]
        exact hturn
      | ok fresh =>
        rw [Request.bind_ok hissue, Request.map_state]
        exact hturn

theorem renew_turn (ha : a.Consistent) (role : Role) (now : Instant) :
    Turn a (renew role now a).2 := by
  unfold renew
  rw [Request.bind_ok (Request.get_apply _ a), Request.bind_ok (Request.attempt_apply _ a)]
  rcases hissue : issue role now a with ⟨o, b⟩
  have hturn := issue_turn ha hissue
  cases o with
  | error e =>
    generalize a.current? role = previous
    cases e <;> cases previous <;> exact hturn
  | ok fresh =>
    dsimp only
    rw [Request.map_state]
    exact hturn

theorem regenerate_turn (ha : a.Consistent) (role : Role) (putOff : Bool) (now : Instant) :
    Turn a (regenerate role putOff now a).2 := by
  unfold regenerate
  cases role.kind with
  | contentAccess => exact contentAccess_turn ha role.subject true now
  | entitlement =>
    cases putOff with
    | false => exact renew_turn ha role now
    | true => exact .kept (.bind (setDirty_sameIssued role.subject true a) fun _ b => .refl b)
  | _ => exact renew_turn ha role now

end Authority

end EntitlementAuthority
