import EntitlementAuthority.Issuance.Sample
import EntitlementAuthority.Proofs.Issuance.RequestEffects
import EntitlementAuthority.Proofs.Payload.Cache

/-!
# What a failed request leaves behind

A request for a certificate can fail after it has begun to sign. The theorems here say when it
does, and that nothing but a serial and a signature is lost then.

* `Plan.FailsLate`, `Authority.LateFault` — a plan with a fault that is found too late.
* `Authority.LeavesNoTrace` — what a failed request should leave behind.
* `Authority.contentPayload_ok` — content payloads are always made.
* `Authority.leavesNoTrace_iff` — a failed request leaves no trace unless its fault is late.
-/

namespace EntitlementAuthority

/-- Whether a fault says that the request itself is refused. -/
def Fault.isRefusal : Fault → Bool
  | validation _ => true
  | tooManyContentSets .. => true
  | _ => false

/-- A plan with a fault that is found when something irreversible has been done: its key pair would
belong to nobody, which is found after the payload was signed, or an instant is out of range, which
is found after the serial was allocated. -/
def Plan.FailsLate (p : Plan) : Prop :=
  validateSubject p.subject p.alternateName p.validity = .ok () ∧
    ((Text.isBlank p.keySubject = true ∧ p.payload.signatures ≠ 0) ∨
      (Text.isBlank p.keySubject = false ∧ p.validity.checkRange ≠ .ok ()))

namespace Authority

/-- The plan for a role is made but has a fault that is found late. -/
def LateFault (a : Authority) (role : Role) (now : Instant) : Prop :=
  ∃ p, (plan role now a).1 = .ok p ∧ p.FailsLate

/-- A request that failed with `e` in the state `a` and left `b` behind has changed no serial, no
certificate and no record, and if the request itself was refused, nothing has been signed. -/
structure LeavesNoTrace (a : Authority) (e : Fault) (b : Authority) : Prop where
  serials : b.serials = a.serials
  certificates : b.certificates = a.certificates
  directory : b.directory = a.directory
  signatures : e.isRefusal = true → b.signatures = a.signatures

variable {a b : Authority} {e : Fault} {role : Role} {now : Instant}

/-! ### Signing -/

theorem allocate_ne (expiration : Instant) (l : SerialLedger) :
    (l.allocate expiration).2 ≠ l := by
  intro h
  exact Nat.succ_ne_self l.nextId (congrArg SerialLedger.nextId h)

/-- A plan that is not issued leaves a trace exactly if it fails late. -/
theorem sign_failed {p : Plan} (h : sign p now a = (.error e, b)) :
    b.certificates = a.certificates ∧ b.directory = a.directory ∧
      (LeavesNoTrace a e b ↔ ¬ p.FailsLate) := by
  have hr := sign_result p now a
  rw [h] at hr
  cases hr with
  | refused e hsubject =>
    refine ⟨rfl, rfl, iff_of_true ⟨rfl, rfl, rfl, fun _ => rfl⟩ ?_⟩
    rintro ⟨hok, -⟩
    rw [hsubject] at hok
    cases hok
  | noKey hsubject hkey =>
    refine ⟨rfl, rfl, ?_⟩
    constructor
    · rintro ⟨-, -, -, hsignatures⟩ ⟨-, ⟨-, hpayload⟩ | ⟨hnot, -⟩⟩
      · have hsame : a.signatures + p.payload.signatures = a.signatures := hsignatures rfl
        omega
      · rw [hkey] at hnot
        cases hnot
    · intro hlate
      have hpayload : p.payload.signatures = 0 := by
        refine Decidable.byContradiction ?_
        intro hpayload
        exact hlate ⟨hsubject, .inl ⟨hkey, hpayload⟩⟩
      refine ⟨rfl, rfl, rfl, fun _ => ?_⟩
      show a.signatures + p.payload.signatures = a.signatures
      rw [hpayload, Nat.add_zero]
  | outOfRange e keys hsubject hkey hrange =>
    refine ⟨rfl, rfl, iff_of_false ?_ ?_⟩
    · rintro ⟨hserials, -, -, -⟩
      exact allocate_ne p.validity.notAfter a.serials hserials
    · intro hlate
      refine hlate ⟨hsubject, .inr ⟨hkey, ?_⟩⟩
      rw [hrange]
      intro hok
      cases hok

/-- Nothing was signed for a plan that fails, and only the cache for anonymous consumers may have
been asked. -/
theorem leavesNoTrace_of_plan_failed (h : plan role now a = (.error e, b)) :
    LeavesNoTrace a e b := by
  have hr := plan_result role now a
  rw [h] at hr
  cases hr with
  | unsigned answer anonymousContent => exact ⟨rfl, rfl, rfl, fun _ => rfl⟩

theorem not_lateFault_of_plan_failed (h : (plan role now a).1 = .error e) :
    ¬ LateFault a role now := by
  rintro ⟨p, hp, -⟩
  rw [h] at hp
  cases hp

/-- A request that is not carried out leaves a trace exactly if its fault is late. -/
theorem issue_failed (h : issue role now a = (.error e, b)) :
    b.certificates = a.certificates ∧ b.directory = a.directory ∧
      (LeavesNoTrace a e b ↔ ¬ LateFault a role now) := by
  rcases hplan : plan role now a with ⟨o, a₁⟩
  cases o with
  | error e' =>
    unfold issue at h
    rw [Request.bind_error hplan] at h
    cases h
    have hno := leavesNoTrace_of_plan_failed hplan
    exact ⟨hno.certificates, hno.directory,
      iff_of_true hno (not_lateFault_of_plan_failed (congrArg Prod.fst hplan))⟩
  | ok p =>
    have hlate : LateFault a role now ↔ p.FailsLate := by
      unfold LateFault
      rw [hplan]
      simp
    unfold issue at h
    rw [Request.bind_ok hplan] at h
    obtain ⟨hcertificates, hdirectory, hiff⟩ := sign_failed h
    rw [hlate, ← hiff]
    have hr := plan_result role now a
    rw [hplan] at hr
    cases hr with
    | unsigned _ anonymousContent =>
      refine ⟨hcertificates, hdirectory, ?_⟩
      exact ⟨fun hno => ⟨hno.1, hno.2, hno.3, hno.4⟩, fun hno => ⟨hno.1, hno.2, hno.3, hno.4⟩⟩
    | signed _ anonymousContent hsubject hkey =>
      refine ⟨hcertificates, hdirectory, ?_⟩
      -- the subject is not refused and has a key, so only the range is left to fail
      have hs := sign_result p now { a with signatures := a.signatures + 1, anonymousContent }
      rw [h] at hs
      cases hs with
      | refused e hrefused =>
        rw [hsubject] at hrefused
        cases hrefused
      | noKey _ hblank =>
        rw [hkey] at hblank
        cases hblank
      | outOfRange e keys _ _ _ =>
        refine iff_of_false ?_ ?_
        · exact fun hno => allocate_ne p.validity.notAfter a.serials hno.serials
        · exact fun hno => allocate_ne p.validity.notAfter a.serials hno.serials

/-! ### Requests that cannot fail -/

/-- A content payload is always made. -/
theorem contentPayload_ok (x : ContentAccess) (now : Instant) (a : Authority) :
    ∃ row b, contentPayload x now a = (.ok row, b) := by
  have hbuild : ∀ a, ∃ payload b, buildContentPayload x a = (.ok payload, b) :=
    fun a => ⟨_, _, rfl⟩
  obtain ⟨found, c, hfound⟩ := PayloadCache.consult_ok a.payloads x.owner
    (x.payloadKey a.config) x.environments
  have hfinish : ∀ found, ∃ row b, (do
      let payload ← buildContentPayload x
      Request.within Authority.payloads (fun payloads a => { a with payloads })
        (PayloadCache.finish found
          { ownerId := x.owner.id, key := x.payloadKey a.config, timestamp := now, payload })
      : Request Authority PayloadRow) { a with payloads := c } = (.ok row, b) := by
    intro found
    obtain ⟨payload, b, hpayload⟩ := hbuild { a with payloads := c }
    rw [Request.bind_ok hpayload]
    obtain ⟨row, c', hrow⟩ := PayloadCache.finish_ok
      { ownerId := x.owner.id, key := x.payloadKey a.config, timestamp := now, payload }
      b.payloads found
    exact ⟨row, _, Request.within_ok hrow⟩
  unfold contentPayload PayloadCache.getOrCreate
  rw [Request.bind_ok (Request.get_apply _ a), Request.bind_ok (Request.within_ok hfound)]
  cases found with
  | fresh row => exact ⟨row, _, rfl⟩
  | stale => exact hfinish _
  | absent => exact hfinish _

/-- Certificates that are not for entitlements always have a standing. -/
theorem standing_ok (a : Authority) (now : Instant) {c : IssuedCertificate}
    (h : c.role.kind ≠ .entitlement) :
    ∃ s, standing a c now = .ok s := by
  unfold standing isDirty
  rw [if_neg h]
  split
  · exact ⟨_, rfl⟩
  · split
    · exact ⟨_, rfl⟩
    · exact ⟨_, rfl⟩

/-- The certificate of an entitlement that is gone has none. -/
theorem entitlement_of_standing_failed {c : IssuedCertificate}
    (h : standing a c now = .error e) :
    c.role.kind = .entitlement ∧ ∃ e', a.directory.entitlement c.role.subject = .error e' := by
  by_cases hkind : c.role.kind = .entitlement
  · refine ⟨hkind, ?_⟩
    cases he : a.directory.entitlement c.role.subject with
    | error e' => exact ⟨e', rfl⟩
    | ok x =>
      unfold standing isDirty at h
      rw [if_pos hkind, he] at h
      split at h
      · cases h
      · split at h
        · cases h
        · cases h
  · obtain ⟨s, hs⟩ := standing_ok a now hkind
    rw [hs] at h
    cases h

/-! ### Failed requests -/

theorem leavesNoTrace_refl (a : Authority) (e : Fault) : LeavesNoTrace a e a :=
  ⟨rfl, rfl, rfl, fun _ => rfl⟩

/-- The stored certificate for content access always has a standing. -/
theorem keptContentAccess_ok (ha : a.Consistent) (x : ContentAccess) (forced : Bool)
    (now : Instant) : ∃ kept, keptContentAccess a x forced now = .ok kept := by
  unfold keptContentAccess
  cases hc : a.current? (.contentAccess x.consumer.id) with
  | none => exact ⟨none, rfl⟩
  | some c =>
    dsimp only
    split
    · exact ⟨none, rfl⟩
    · have hkind : c.role.kind ≠ .entitlement := by
        rw [ha.roles _ _ c hc]
        intro h
        cases h
      obtain ⟨s, hs⟩ := standing_ok a now hkind
      rw [hs]
      exact ⟨_, rfl⟩

theorem contentAccessCertificate_failed (ha : a.Consistent) {x : ContentAccess} {forced : Bool}
    (h : contentAccessCertificate x forced now a = (.error e, b)) :
    b.certificates = a.certificates ∧ b.directory = a.directory ∧
      (LeavesNoTrace a e b ↔ ¬ (x.plan a.config now).FailsLate) := by
  obtain ⟨kept, hkept⟩ := keptContentAccess_ok ha x forced now
  unfold contentAccessCertificate at h
  rw [Request.bind_ok (by rw [Request.read_apply, hkept])] at h
  cases kept with
  | some c => cases h
  | none =>
    dsimp only at h
    rw [Request.bind_ok (Request.get_apply _ a)] at h
    rcases hsign : sign (x.plan a.config now) now a with ⟨o, a₁⟩
    cases o with
    | error e' =>
      rw [Request.bind_error hsign] at h
      cases h
      exact sign_failed hsign
    | ok fresh =>
      have ha₁ : a₁.Consistent := by
        have hleads := sign_leads (x.plan a.config now) now a
        rw [hsign] at hleads
        exact hleads.consistent ha
      have hplace : Supersedable a₁ fresh := by
        refine supersedable_of_sign hsign ?_
        intro hkind
        cases hkind
      rw [Request.bind_ok hsign, supersede_of_supersedable ha₁ hplace] at h
      cases h

theorem contentAccess_failed (ha : a.Consistent) (hkind : role.kind = .contentAccess)
    {forced : Bool} (h : contentAccess role.subject forced now a = (.error e, b)) :
    b.certificates = a.certificates ∧ b.directory = a.directory ∧
      (LeavesNoTrace a e b ↔ ¬ LateFault a role now) := by
  have hlate : LateFault a role now ↔ ∃ x,
      ContentAccess.find a.directory role.subject = .ok (some x) ∧
        (x.plan a.config now).FailsLate := by
    constructor
    · rintro ⟨p, hp, hfails⟩
      obtain ⟨x, hx, rfl⟩ := (contentAccessPlan_eq_ok hkind).1 hp
      exact ⟨x, hx, hfails⟩
    · rintro ⟨x, hx, hfails⟩
      exact ⟨_, (contentAccessPlan_eq_ok hkind).2 ⟨x, hx, rfl⟩, hfails⟩
  rw [hlate]
  unfold contentAccess at h
  cases hfind : ContentAccess.find a.directory role.subject with
  | error e' =>
    rw [Request.bind_error (by rw [Request.read_apply, hfind])] at h
    cases h
    refine ⟨rfl, rfl, iff_of_true (leavesNoTrace_refl a e) ?_⟩
    rintro ⟨x, hx, -⟩
    cases hx
  | ok found =>
    rw [Request.bind_ok (by rw [Request.read_apply, hfind])] at h
    cases found with
    | none => cases h
    | some x =>
      have hfound : (∃ y, (Except.ok (some x) : Outcome (Option ContentAccess)) = .ok (some y) ∧
          (y.plan a.config now).FailsLate) ↔ (x.plan a.config now).FailsLate := by
        simp
      rw [hfound]
      dsimp only at h
      rcases hcertificate : contentAccessCertificate x forced now a with ⟨o, a₁⟩
      cases o with
      | error e' =>
        rw [Request.bind_error hcertificate] at h
        cases h
        exact contentAccessCertificate_failed ha hcertificate
      | ok c =>
        obtain ⟨row, b', hrow⟩ := contentPayload_ok x now a₁
        rw [Request.bind_ok hcertificate, Request.bind_ok hrow] at h
        cases h

theorem generate_failed (ha : a.Consistent) (h : generate role now a = (.error e, b)) :
    b.certificates = a.certificates ∧ b.directory = a.directory ∧
      (LeavesNoTrace a e b ↔ ¬ LateFault a role now) := by
  unfold generate at h
  by_cases hkind : role.kind = .contentAccess
  · rw [if_pos hkind] at h
    exact contentAccess_failed ha hkind h
  · rw [if_neg hkind] at h
    cases hreusable : a.reusable role now with
    | error e' =>
      rw [Request.bind_error (by rw [Request.read_apply, hreusable])] at h
      cases h
      refine ⟨rfl, rfl, iff_of_true (leavesNoTrace_refl a e) ?_⟩
      -- only an entitlement that is gone has no standing, and for that there is no plan either
      unfold reusable at hreusable
      cases hc : a.current? role with
      | none =>
        rw [hc] at hreusable
        cases hreusable
      | some c =>
        rw [hc] at hreusable
        dsimp only at hreusable
        cases hstanding : a.standing c now with
        | ok s =>
          rw [hstanding] at hreusable
          cases hreusable
        | error e'' =>
          obtain ⟨hentitlement, e₀, hgone⟩ := entitlement_of_standing_failed hstanding
          have hrole : c.role = role := ha.roles _ _ c hc
          rw [hrole] at hentitlement hgone
          rintro ⟨p, hp, -⟩
          have hplan := (plan_eq_ok (b := (plan role now a).2)
            (Prod.ext hp rfl)).2 hentitlement
          obtain ⟨x, -, -, -, hx, -⟩ := entitlementPlan_eq_ok hplan
          rw [hgone] at hx
          cases hx
    | ok kept =>
      rw [Request.bind_ok (by rw [Request.read_apply, hreusable])] at h
      cases kept with
      | some c => cases h
      | none =>
        dsimp only at h
        rcases hissue : issue role now a with ⟨o, a₁⟩
        cases o with
        | error e' =>
          rw [Request.bind_error hissue] at h
          cases h
          exact issue_failed hissue
        | ok fresh =>
          rw [Request.bind_ok hissue, Request.map_ok some (supersede_after_issue ha hissue)] at h
          cases h

theorem renew_failed (ha : a.Consistent) (h : renew role now a = (.error e, b)) :
    b.certificates = a.certificates ∧ b.directory = a.directory ∧
      (LeavesNoTrace a e b ↔ ¬ LateFault a role now) := by
  unfold renew at h
  rw [Request.bind_ok (Request.get_apply _ a), Request.bind_ok (Request.attempt_apply _ a)] at h
  rcases hissue : issue role now a with ⟨o, a₁⟩
  rw [hissue] at h
  cases o with
  | error e' =>
    have hsame : e' = e ∧ a₁ = b := by
      generalize a.current? role = previous at h
      cases e' <;> cases previous <;> cases h <;> exact ⟨rfl, rfl⟩
    obtain ⟨rfl, rfl⟩ := hsame
    exact issue_failed hissue
  | ok fresh =>
    dsimp only at h
    rw [Request.map_ok some (supersede_after_issue ha hissue)] at h
    cases h

/-- A certificate that nothing was stored for, but whose plan names an instant out of range, costs
a serial. -/
theorem generate_outOfRange (a : Authority) (role : Role) (now : Instant) {p : Plan}
    (hkind : role.kind ≠ .contentAccess)
    (hnone : a.current? role = none) (hplan : plan role now a = (.ok p, a))
    (hsubject : validateSubject p.subject p.alternateName p.validity = .ok ())
    (hkey : Text.isBlank p.keySubject = false) (hrange : p.validity.checkRange = .error e) :
    ∃ b, generate role now a = (.error e, b) ∧
      b.serials = (a.serials.allocate p.validity.notAfter).2 := by
  obtain ⟨b, hsign, hserials⟩ := sign_outOfRange hsubject hkey hrange now a
  have hreusable : a.reusable role now = .ok none := by
    rw [reusable, hnone]
  have hissue : issue role now a = (.error e, b) := by
    unfold issue
    rw [Request.bind_ok hplan, hsign]
  refine ⟨b, ?_, hserials⟩
  unfold generate
  rw [if_neg hkind, Request.bind_ok (by rw [Request.read_apply, hreusable])]
  exact Request.bind_error hissue

/-! ### A pool without a real end -/

/-- The pool of the sample, but it ends in the year 10000. -/
def endlessPool : Pool :=
  { Sample.pool 1 ⟨0, 0⟩ with endDate := ⟨253402300800, 0⟩ }

/-- The records of the sample with that pool. -/
def endlessChanges : List DirectoryChange :=
  [.addOwner (Sample.owner ⟨0, 0⟩), .addConsumer (Sample.consumer "sample-uuid" false ⟨0, 0⟩),
    .addPool endlessPool, .addEntitlement Sample.entitlement]

/-- **A failed request leaves no trace, unless its fault is late.** Whatever fails, certificates and
records stay as they were. A serial or a signature is lost exactly if the plan is made and turns out
to have no key pair, with a payload to sign, or an instant out of range. -/
theorem leavesNoTrace_iff (ha : Reachable a)
    (h : generate role now a = (.error e, b) ∨ regenerate role false now a = (.error e, b)) :
    b.certificates = a.certificates ∧ b.directory = a.directory ∧
      (LeavesNoTrace a e b ↔ ¬ LateFault a role now) := by
  have hconsistent := ha.consistent
  rcases h with h | h
  · exact generate_failed hconsistent h
  · by_cases hkind : role.kind = .contentAccess
    · unfold regenerate at h
      rw [hkind] at h
      exact contentAccess_failed hconsistent hkind h
    · rw [regenerate_eager hkind] at h
      exact renew_failed hconsistent h

theorem leavesNoTrace_iff_missing :
    ∃ a e b, Reachable a ∧ generate (.entitlement "missing") ⟨0, 0⟩ a = (.error e, b) ∧
      (LeavesNoTrace a e b ↔ ¬ LateFault a (.entitlement "missing") ⟨0, 0⟩) := by
  obtain ⟨start, hstart, hconfig, hdirectory, hcertificates⟩ := exists_start
  have hreachable := Reachable.of_create hstart
  have hfailed : generate (.entitlement "missing") ⟨0, 0⟩ start =
      (.error (.notFound "entitlement missing"), start) := by
    have hnone : start.current? (.entitlement "missing") = none := by
      rw [current?, hcertificates]
      rfl
    have hreusable : start.reusable (.entitlement "missing") ⟨0, 0⟩ = .ok none := by
      rw [reusable, hnone]
    have hplan : plan (.entitlement "missing") ⟨0, 0⟩ start =
        (.error (.notFound "entitlement missing"), start) := by
      show (entitlementPlan start.config start.directory "missing" ⟨0, 0⟩, start) = _
      rw [hdirectory]
      rfl
    unfold generate
    rw [if_neg (by decide), Request.bind_ok (by rw [Request.read_apply, hreusable])]
    exact Request.bind_error (Request.bind_error hplan)
  exact ⟨start, _, start, hreachable, hfailed,
    (leavesNoTrace_iff hreachable (.inl hfailed)).2.2⟩

/-- An entitlement to a pool that ends in the year 10000 is refused, but a serial is lost. -/
theorem refused_request_costs_serial :
    ∃ a e b, Reachable a ∧ generate (.entitlement Sample.entitlement.id) ⟨0, 0⟩ a = (.error e, b) ∧
      e.isRefusal = true ∧ b.serials ≠ a.serials := by
  obtain ⟨start, hstart, hconfig, hdirectory, hcertificates⟩ := exists_start
  have hreachable := (Reachable.of_create hstart).changes endlessChanges
  obtain ⟨p, hplan, hsubject, hkey, hrange⟩ : ∃ p,
      entitlementPlan {} (endlessChanges.foldl (fun d c => c.apply d) Directory.empty)
          Sample.entitlement.id ⟨0, 0⟩ = .ok p ∧
        validateSubject p.subject p.alternateName p.validity = .ok () ∧
        Text.isBlank p.keySubject = false ∧
        p.validity.checkRange =
          .error (.validation "validity out of range: the year has more than four digits") :=
    ⟨_, rfl, rfl, rfl, rfl⟩
  obtain ⟨b, hfailed, hserials⟩ := generate_outOfRange
    { start with directory := endlessChanges.foldl (fun d c => c.apply d) start.directory }
    (.entitlement Sample.entitlement.id) ⟨0, 0⟩ (by decide)
    (by rw [current?, hcertificates]; rfl)
    (by
      show (entitlementPlan start.config _ Sample.entitlement.id ⟨0, 0⟩, _) = _
      rw [hconfig, hdirectory, hplan])
    hsubject hkey hrange
  refine ⟨_, _, b, hreachable, hfailed, rfl, ?_⟩
  rw [hserials]
  exact allocate_ne p.validity.notAfter start.serials

end Authority

end EntitlementAuthority
