import EntitlementAuthority.Proofs.Issuance.Succession
import EntitlementAuthority.Proofs.Issuance.Upkeep
import EntitlementAuthority.Proofs.Text.Sorted

/-!
# New certificates for an environment

Those who see some contents of an environment get new certificates, one after the other in the order
of their ids. The first fault ends the request, whatever is still to be done.

* `Authority.Onward` — what such renewals, one after the other, leave as it was.
* `Authority.forEach_regenerateOne_failed_iff` — they fail exactly if one of them fails by itself.
* `Renewal`, `Renewal.Settles` — a request for an environment, and what it should see to.
* `Renewal.settles_iff` — it does so for an entitlement if nothing fails up to that one.
-/

namespace EntitlementAuthority

namespace Authority

variable {a b s t : Authority} {id id' : String} {ids ids' : List String} {now : Instant}
  {e : Fault} {fresh : IssuedCertificate}

/-! ### One after the other -/

theorem Turn.grows (h : Turn a b) : SerialLedger.Grows a.serials b.serials := by
  cases h with
  | kept h => exact h.serials ▸ .refl _
  | lost expiration hserials => exact hserials ▸ SerialLedger.grows_allocate expiration _
  | issued fresh hfresh hserials => exact hserials ▸ grows_ledgerAfter a fresh

/-- A moment `b` after `a` when certificates of no other entitlements than `ids` were renewed. -/
structure Onward (ids : List String) (a b : Authority) : Prop where
  consistent : b.Consistent
  nextId_le : a.serials.nextId ≤ b.serials.nextId
  faults : ∀ id now,
    issueFault? b.config b.directory id now = issueFault? a.config a.directory id now
  others : ∀ id, id ∉ ids → b.current? (.entitlement id) = a.current? (.entitlement id)

namespace Onward

theorem refl (ha : a.Consistent) (ids : List String) : Onward ids a a :=
  ⟨ha, Nat.le_refl _, fun _ _ => rfl, fun _ _ => rfl⟩

theorem trans {c : Authority} (hab : Onward ids a b) (hbc : Onward ids b c) : Onward ids a c where
  consistent := hbc.consistent
  nextId_le := Nat.le_trans hab.nextId_le hbc.nextId_le
  faults id now := (hbc.faults id now).trans (hab.faults id now)
  others id hid := (hbc.others id hid).trans (hab.others id hid)

theorem mono (h : Onward ids a b) (hsub : ∀ id ∈ ids, id ∈ ids') : Onward ids' a b where
  consistent := h.consistent
  nextId_le := h.nextId_le
  faults := h.faults
  others id hid := h.others id fun hmem => hid (hsub id hmem)

/-- Whether the renewal of another certificate fails is settled from the beginning. -/
theorem fails_iff (h : Onward ids a b) (ha : a.Consistent) (hid : id ∉ ids) :
    Fails b id now ↔ Fails a id now := by
  rw [Authority.fails_iff h.consistent, Authority.fails_iff ha, h.faults, h.others id hid]

end Onward

theorem onward_of_issue_failed (ha : a.Consistent)
    (h : issue (.entitlement id) now a = (.error e, b)) (hb : b.Consistent)
    (hnext : a.serials.nextId ≤ b.serials.nextId) : Onward ids a b := by
  obtain ⟨hconfig, hdirectory, hcertificates⟩ := issue_failed_same ha h
  refine ⟨hb, hnext, fun _ _ => ?_, fun _ _ => ?_⟩
  · rw [hconfig, hdirectory]
  · rw [current?, hcertificates, current?]

/-- A certificate that is issued leaves those of other entitlements alone. -/
theorem onward_of_issued (ha : a.Consistent) (h : issue (.entitlement id) now a = (.ok fresh, b))
    (hb : (b.superseded fresh).Consistent)
    (hnext : a.serials.nextId ≤ (b.superseded fresh).serials.nextId) :
    Onward [id] a (b.superseded fresh) := by
  obtain ⟨hrole, -⟩ := issued_entitlement ha h
  obtain ⟨hconfig, hdirectory⟩ := issue_fixed h
  refine ⟨hb, hnext, fun id' now => ?_, fun id' hid' => ?_⟩
  · show issueFault? b.config _ id' now = _
    rw [superseded_directory hrole, issueFault?_setDirty, hconfig, hdirectory]
  · rw [(superseded_others hrole (List.mem_singleton.not.1 hid') b).1, current?,
      issue_certificates h, current?]

/-- **What the renewal of one certificate leaves as it was.** -/
theorem regenerateOne_onward (ha : a.Consistent) (id : String) (now : Instant) :
    Onward [id] a (regenerateOne false now id a).2 := by
  have hconsistent := (regenerateOne_leads false now id a).consistent ha
  have hnext := (regenerateOne_turn ha false now id).grows.nextId_le
  have hresult := renew_result ha (.entitlement id) now
  rw [regenerateOne_eq] at hconsistent hnext ⊢
  generalize renew (.entitlement id) now a = answer at hresult hconsistent hnext
  cases hresult with
  | issued fresh b hissue => exact onward_of_issued ha hissue hconsistent hnext
  | kept e b c hissue => exact onward_of_issue_failed ha hissue hconsistent hnext
  | failed e b hissue => exact onward_of_issue_failed ha hissue hconsistent hnext

/-- One renewal after the other leaves the certificates of all other entitlements alone. -/
theorem forEach_regenerateOne_onward (ha : a.Consistent) (ids : List String) (now : Instant) :
    Onward ids a (forEach (regenerateOne false now) ids a).2 := by
  -- what is left behind after each renewal is where the next one begins
  induction ids generalizing a with
  | nil => exact .refl ha []
  | cons id ids ih =>
    have hfirst : Onward (id :: ids) a (regenerateOne false now id a).2 :=
      (regenerateOne_onward ha id now).mono (by simp)
    unfold forEach
    rcases hs : regenerateOne false now id a with ⟨o, b⟩
    rw [hs] at hfirst
    cases o with
    | error e =>
      rw [Request.bind_error hs]
      exact hfirst
    | ok u =>
      rw [Request.bind_ok hs]
      exact hfirst.trans ((ih hfirst.consistent).mono (by simp +contextual))

theorem fails_iff_regenerateOne :
    Fails a id now ↔ ∃ e, (regenerateOne false now id a).1 = .error e := by
  unfold Fails
  rw [regenerateOne_eq, regenerate_entitlement]
  cases (renew (.entitlement id) now a).1 <;> simp [Except.map]

/-- **One renewal after the other fails exactly if one of them fails by itself.** -/
theorem forEach_regenerateOne_failed_iff (ha : a.Consistent) (hids : ids.Nodup) :
    (∃ e, (forEach (regenerateOne false now) ids a).1 = .error e) ↔ ∃ id ∈ ids, Fails a id now := by
  induction ids generalizing a with
  | nil => simp [forEach, Request.pure_apply]
  | cons id ids ih =>
    obtain ⟨hid, hids⟩ := List.nodup_cons.1 hids
    have hfirst := regenerateOne_onward ha id now
    unfold forEach
    rw [List.exists_mem_cons_iff, fails_iff_regenerateOne]
    rcases hs : regenerateOne false now id a with ⟨o, b⟩
    rw [hs] at hfirst
    cases o with
    | error e =>
      rw [Request.bind_error hs]
      exact iff_of_true ⟨e, rfl⟩ (.inl ⟨e, rfl⟩)
    | ok u =>
      rw [Request.bind_ok hs, ih hfirst.consistent hids, or_iff_right (by simp)]
      -- what the first one leaves behind makes no difference to the others
      refine exists_congr fun id' => and_congr_right fun hid' => hfirst.fails_iff ha fun hmem => ?_
      exact hid (List.mem_singleton.1 hmem ▸ hid')

theorem forEach_append (f : String → Request Authority Unit) (ids ids' : List String)
    (a : Authority) :
    forEach f (ids ++ ids') a = (forEach f ids >>= fun _ => forEach f ids') a := by
  induction ids generalizing a with
  | nil => rfl
  | cons id ids ih =>
    show (f id >>= fun _ => forEach f (ids ++ ids')) a =
      ((f id >>= fun _ => forEach f ids) >>= fun _ => forEach f ids') a
    rcases hs : f id a with ⟨o, b⟩
    cases o with
    | error e => rw [Request.bind_error hs, Request.bind_error (Request.bind_error hs)]
    | ok u =>
      rw [Request.bind_ok hs, ih, Request.bind_apply, Request.bind_apply, Request.bind_ok hs]

/-- The certificate of an entitlement was issued after the state `a`: its serial is a later one. -/
def IssuedSince (a b : Authority) (id : String) : Prop :=
  ∃ c, b.current? (.entitlement id) = some c ∧ a.serials.nextId ≤ c.serial.id

theorem not_issuedSince (ha : a.Consistent)
    (h : b.current? (.entitlement id) = a.current? (.entitlement id)) : ¬ IssuedSince a b id := by
  rintro ⟨c, hc, hlater⟩
  rw [h] at hc
  obtain ⟨s, hs⟩ := ha.serials _ _ c hc
  exact Nat.not_lt.2 hlater (a.serials.lt_nextId _ s hs)

end Authority

/-! ### A request for an environment -/

open Authority

/-- A request for new certificates for those who see some contents of an environment. -/
structure Renewal where
  environmentId : String
  contentIds : List String
  now : Instant

namespace Renewal

variable {r : Renewal} {a b s : Authority} {id : String}

/-- The state that the request leaves behind, whether it fails or not. -/
def after (r : Renewal) (a : Authority) : Authority :=
  (regenerateForEnvironment r.environmentId r.contentIds false r.now a).2

/-- The entitlement belongs to a consumer in the environment and carries one of the contents. -/
def Concerns (r : Renewal) (d : Directory) (id : String) : Prop :=
  ∃ c ∈ d.consumersIn r.environmentId, ∃ e ∈ d.entitlementsOf c.id, e.id = id ∧
    ∃ pool, d.pools.get? e.poolId = some pool ∧ ∃ x ∈ grantedContentIds pool c, x ∈ r.contentIds

/-- The pools are there of all entitlements that are looked through. -/
def FindsPools (r : Renewal) (d : Directory) : Prop :=
  ∀ c ∈ d.consumersIn r.environmentId, d.FindsPools c.id

/-- The turn of the entitlement comes, in the state `s`. -/
def ComesTo (r : Renewal) (a : Authority) (id : String) (s : Authority) : Prop :=
  ∃ before after,
    affectedBy a.directory r.environmentId r.contentIds = .ok (before ++ id :: after) ∧
      forEach (regenerateOne false r.now) before a = (.ok (), s)

/-- The entitlement keeps its certificate since a new one would have been too large. -/
def KeepsTooLarge (r : Renewal) (a : Authority) (id : String) : Prop :=
  ∃ s e c, r.ComesTo a id s ∧ (issue (.entitlement id) r.now s).1 = .error e ∧
    e.isTooLarge = true ∧ a.current? (.entitlement id) = some c ∧
      (r.after a).current? (.entitlement id) = some c

/-- What the request should see to for an entitlement: afterwards it has a new certificate, or none
that is valid, or the one that it had since a new one would have been too large. -/
def Settles (r : Renewal) (a : Authority) (id : String) (t : Instant) : Prop :=
  IssuedSince a (r.after a) id ∨ (r.after a).state (.entitlement id) t ≠ .ok .valid ∨
    r.KeepsTooLarge a id

theorem after_eq {affected : List String}
    (h : affectedBy a.directory r.environmentId r.contentIds = .ok affected) :
    r.after a = (forEach (regenerateOne false r.now) affected a).2 := by
  have hwhole : regenerateForEnvironment r.environmentId r.contentIds false r.now a =
      (forEach (regenerateOne false r.now) affected >>= fun _ => pure affected) a :=
    Request.bind_ok (by rw [Request.read_apply, h])
  unfold after
  rw [hwhole]
  rcases hs : forEach (regenerateOne false r.now) affected a with ⟨o, b⟩
  cases o with
  | error e => rw [Request.bind_error hs]
  | ok u =>
    rw [Request.bind_ok hs]
    rfl

/-- Those who are looked up come in the order of their ids, each once. -/
theorem affectedBy_sorted {before after : List String}
    (h : affectedBy a.directory r.environmentId r.contentIds = .ok (before ++ id :: after)) :
    before.Nodup ∧ (∀ id' ∈ before, id' < id) ∧ ∀ id' ∈ after, id < id' := by
  obtain ⟨carried, -, h⟩ := Outcome.bind_eq_ok.1 h
  have hincreasing : (before ++ id :: after).Pairwise (· < ·) := by
    rw [← Except.ok.inj h]
    exact Text.sortedSet_increasing _
  obtain ⟨hbefore, hrest, hlt⟩ := List.pairwise_append.1 hincreasing
  exact ⟨hbefore.imp ne_of_lt, fun id' hmem => hlt id' hmem id List.mem_cons_self,
    (List.pairwise_cons.1 hrest).1⟩

/-- **Whose turn comes**: those before whom nothing fails. -/
theorem exists_comesTo_iff (ha : a.Consistent) (hid : r.Concerns a.directory id) :
    (∃ s, r.ComesTo a id s) ↔ r.FindsPools a.directory ∧
      ∀ id' < id, r.Concerns a.directory id' → ¬ Fails a id' r.now := by
  constructor
  · rintro ⟨s, before, after, haffected, hs⟩
    refine ⟨exists_affectedBy_iff.1 ⟨_, haffected⟩, fun id' hlt hconcerns hfails => ?_⟩
    -- a smaller id comes before, and there nothing has failed
    obtain ⟨hnodup, -, hafter⟩ := affectedBy_sorted haffected
    have hbefore : id' ∈ before := by
      rcases List.mem_append.1 ((mem_affectedBy haffected).2 hconcerns) with hmem | hmem
      · exact hmem
      · rcases List.mem_cons.1 hmem with rfl | hmem
        · exact absurd hlt (lt_irrefl id')
        · exact absurd hlt (lt_asymm (hafter id' hmem))
    obtain ⟨e, he⟩ := (forEach_regenerateOne_failed_iff ha hnodup).2 ⟨id', hbefore, hfails⟩
    rw [hs] at he
    cases he
  · rintro ⟨hpools, hclean⟩
    obtain ⟨affected, haffected⟩ := exists_affectedBy_iff.2 hpools
    obtain ⟨before, after, rfl⟩ := List.append_of_mem ((mem_affectedBy haffected).2 hid)
    obtain ⟨hnodup, hbefore, -⟩ := affectedBy_sorted haffected
    -- a fault on the way would be one of those that come first
    rcases hs : forEach (regenerateOne false r.now) before a with ⟨o, s⟩
    cases o with
    | ok u => exact ⟨s, before, after, haffected, hs⟩
    | error e =>
      obtain ⟨id', hmem, hfails⟩ :=
        (forEach_regenerateOne_failed_iff ha hnodup).1 ⟨e, congrArg Prod.fst hs⟩
      have hconcerns := (mem_affectedBy haffected).1 (List.mem_append_left _ hmem)
      exact absurd hfails (hclean id' (hbefore id' hmem) hconcerns)

/-- Until the turn of an entitlement comes, nothing is done for it. -/
theorem ComesTo.onward (ha : a.Consistent) (h : r.ComesTo a id s) :
    ∃ ids, id ∉ ids ∧ Onward ids a s := by
  obtain ⟨before, after, haffected, hs⟩ := h
  have honward := forEach_regenerateOne_onward ha before r.now
  rw [hs] at honward
  exact ⟨before, fun hmem => lt_irrefl id ((affectedBy_sorted haffected).2.1 id hmem), honward⟩

/-- What is done for an entitlement when its turn comes is not undone. -/
theorem ComesTo.current? (ha : a.Consistent) (h : r.ComesTo a id s) :
    (r.after a).current? (.entitlement id) =
      (regenerateOne false r.now id s).2.current? (.entitlement id) := by
  obtain ⟨ids, -, honward⟩ := h.onward ha
  obtain ⟨before, after, haffected, hs⟩ := h
  have hafter : id ∉ after := fun hmem =>
    lt_irrefl id ((affectedBy_sorted haffected).2.2 id hmem)
  have hconsistent := (regenerateOne_onward honward.consistent id r.now).consistent
  rw [after_eq haffected, forEach_append, Request.bind_ok hs]
  -- its own renewal ends the request or is followed by those with larger ids
  unfold forEach
  rcases ht : regenerateOne false r.now id s with ⟨o, t⟩
  rw [ht] at hconsistent
  cases o with
  | error e => rw [Request.bind_error ht]
  | ok u =>
    rw [Request.bind_ok ht]
    exact (forEach_regenerateOne_onward hconsistent after r.now).others id hafter

/-- If its turn does not come, an entitlement keeps the certificate that it had. -/
theorem current?_of_not_comesTo (ha : a.Consistent) (hid : r.Concerns a.directory id)
    (h : ¬ ∃ s, r.ComesTo a id s) :
    (r.after a).current? (.entitlement id) = a.current? (.entitlement id) := by
  cases haffected : affectedBy a.directory r.environmentId r.contentIds with
  | error e =>
    unfold after
    rw [regenerateForEnvironment_of_error haffected]
  | ok affected =>
    obtain ⟨before, after, rfl⟩ := List.append_of_mem ((mem_affectedBy haffected).2 hid)
    have honward := forEach_regenerateOne_onward ha before r.now
    rw [after_eq haffected, forEach_append]
    rcases hs : forEach (regenerateOne false r.now) before a with ⟨o, s⟩
    rw [hs] at honward
    cases o with
    | ok u => exact absurd ⟨s, before, after, haffected, hs⟩ h
    | error e =>
      rw [Request.bind_error hs]
      exact honward.others id fun hmem => lt_irrefl id ((affectedBy_sorted haffected).2.1 id hmem)

/-- An entitlement keeps its certificate only if renewing it does not count as a failure. -/
theorem KeepsTooLarge.not_fails (ha : a.Consistent) (h : r.KeepsTooLarge a id) :
    ¬ Fails a id r.now := by
  obtain ⟨s, e, c, hcomes, hissue, hlarge, hcurrent, -⟩ := h
  obtain ⟨ids, -, honward⟩ := hcomes.onward ha
  rw [issue_eq_error_iff, honward.faults] at hissue
  rw [fails_iff ha]
  rintro ⟨e', hfault, hnone⟩
  obtain rfl : e = e' := Option.some.inj (hissue.symm.trans hfault)
  rw [hnone hlarge] at hcurrent
  cases hcurrent

/-- When its turn comes, an entitlement gets a new certificate or keeps one, unless that fails. -/
theorem ComesTo.issued_or_kept_iff (ha : a.Consistent) (h : r.ComesTo a id s) :
    (IssuedSince a (r.after a) id ∨ r.KeepsTooLarge a id) ↔ ¬ Fails a id r.now := by
  obtain ⟨ids, hnot, honward⟩ := h.onward ha
  have hcurrent := h.current? ha
  have hfails : Fails a id r.now ↔ ∃ e, (regenerateOne false r.now id s).1 = .error e := by
    rw [← honward.fails_iff ha hnot, fails_iff_regenerateOne]
  have hresult := renew_result honward.consistent (.entitlement id) r.now
  rw [regenerateOne_eq] at hcurrent hfails
  generalize renew (.entitlement id) r.now s = answer at hresult hcurrent hfails
  -- until then and in an attempt that fails, its certificate stays what it was in the beginning
  have hsame : ∀ e b, issue (.entitlement id) r.now s = (.error e, b) →
      b.current? (.entitlement id) = a.current? (.entitlement id) := by
    intro e b hissue
    rw [← honward.others id hnot, Authority.current?, (issue_failed hissue).1, Authority.current?]
  cases hresult with
  | issued fresh b hissue =>
    obtain ⟨hrole, -⟩ := issued_entitlement honward.consistent hissue
    have hserial : fresh.serial.id = s.serials.nextId := by
      rw [(issuedFrom_of_issue hissue).1.serial]
    refine iff_of_true (.inl ⟨fresh, ?_, ?_⟩) (by simp [hfails, Except.map])
    · rw [hcurrent]
      exact (superseded_entitlement hrole b).1
    · rw [hserial]
      exact honward.nextId_le
  | kept e b c hissue hlarge hc =>
    rw [honward.others id hnot] at hc
    refine iff_of_true (.inr ⟨s, e, c, h, congrArg Prod.fst hissue, hlarge, hc, ?_⟩)
      (by simp [hfails, Except.map])
    rw [hcurrent, hsame e b hissue, hc]
  | failed e b hissue hfault =>
    have hfailed := hfails.2 ⟨e, rfl⟩
    refine iff_of_false ?_ (not_not.2 hfailed)
    rintro (hissued | hkept)
    · exact not_issuedSince ha (hcurrent.trans (hsame e b hissue)) hissued
    · exact hkept.not_fails ha hfailed

/-- **Which entitlements get a new certificate or keep one that is too large to be replaced.** -/
theorem issued_or_kept_iff (ha : a.Consistent) (hid : r.Concerns a.directory id) :
    (IssuedSince a (r.after a) id ∨ r.KeepsTooLarge a id) ↔ r.FindsPools a.directory ∧
      ∀ id' ≤ id, r.Concerns a.directory id' → ¬ Fails a id' r.now := by
  have hsplit : (∀ id' ≤ id, r.Concerns a.directory id' → ¬ Fails a id' r.now) ↔
      (∀ id' < id, r.Concerns a.directory id' → ¬ Fails a id' r.now) ∧ ¬ Fails a id r.now := by
    constructor
    · intro h
      exact ⟨fun id' hlt => h id' (le_of_lt hlt), h id le_rfl hid⟩
    · rintro ⟨hbefore, hself⟩ id' hle
      rcases lt_or_eq_of_le hle with hlt | rfl
      · exact hbefore id' hlt
      · exact fun _ => hself
  rw [hsplit, ← and_assoc, ← exists_comesTo_iff ha hid]
  by_cases hcomes : ∃ s, r.ComesTo a id s
  · obtain ⟨s, h⟩ := hcomes
    rw [h.issued_or_kept_iff ha]
    exact (and_iff_right ⟨s, h⟩).symm
  · refine iff_of_false ?_ fun h => hcomes h.1
    rintro (hissued | ⟨s, -, -, h, -⟩)
    · exact not_issuedSince ha (current?_of_not_comesTo ha hid hcomes) hissued
    · exact hcomes ⟨s, h⟩

/-- **When a request for an environment sees to an entitlement.** It does exactly if the pools are
found of all entitlements that are looked through, and if no renewal fails by itself, of those that
it comes to first and of the entitlement's own, or if there is no valid certificate anyway. -/
theorem settles_iff (ha : a.Reachable) (hid : r.Concerns a.directory id) (t : Instant) :
    r.Settles a id t ↔ (r.after a).state (.entitlement id) t ≠ .ok .valid ∨
      r.FindsPools a.directory ∧
        ∀ id' ≤ id, r.Concerns a.directory id' → ¬ Fails a id' r.now := by
  rw [← issued_or_kept_iff ha.consistent hid]
  unfold Settles
  rw [or_left_comm]

/-- New certificates for those who see the content of the sample. -/
def sample : Renewal :=
  ⟨"dev", ["1000"], ⟨1, 0⟩⟩

/-- If nothing fails, the certificate of the sample is issued anew. -/
theorem settles_iff_promoted : ∃ a, Reachable a ∧
    sample.Concerns a.directory Sample.entitlement.id ∧
    (∃ c, a.current? (.entitlement Sample.entitlement.id) = some c) ∧
    sample.Settles a Sample.entitlement.id sample.now := by
  have hd : promotedChanges.foldl (fun d c => c.apply d) Directory.empty = promotedDirectory := rfl
  have hissuable : IsIssuable {} promotedDirectory Sample.entitlement.id ⟨0, 0⟩ :=
    ⟨_, rfl, rfl, rfl, rfl⟩
  obtain ⟨start, fresh, b, hstart, -, -, -, hissue, hgenerate, hconfig, hdirectory⟩ :=
    exists_first_issued hd hissuable rfl
  have ha := hstart.of_generate hgenerate
  have hconcerns : sample.Concerns (b.superseded fresh).directory Sample.entitlement.id := by
    rw [hdirectory]
    exact ⟨_, Directory.mem_consumersIn.2 ⟨⟨"sample-consumer", rfl⟩, List.mem_singleton_self _⟩,
      _, Directory.mem_entitlementsOf.2 ⟨⟨Sample.entitlement.id, rfl⟩, rfl⟩, rfl,
      MovingConsumer.pool, rfl, "1000", by decide, by decide⟩
  obtain ⟨hrole, -⟩ := issued_entitlement hstart.consistent hissue
  refine ⟨_, ha, hconcerns, ⟨fresh, (superseded_entitlement hrole b).1⟩, ?_⟩
  refine (settles_iff ha hconcerns sample.now).2 (.inr ⟨?_, ?_⟩)
  · intro c _ e he
    rw [hdirectory] at he ⊢
    rw [MissingPool.eq_of_mem_promoted he]
    exact ⟨MovingConsumer.pool, rfl⟩
  · rintro id' - ⟨c, -, e, he, rfl, -⟩
    rw [hdirectory] at he
    rw [MissingPool.eq_of_mem_promoted he]
    refine not_fails_of_isIssuable ha.consistent ?_
    rw [hconfig, hdirectory]
    exact ⟨_, rfl, rfl, rfl, rfl⟩

end Renewal

/-! ### A pool that is refused -/

namespace RefusedPool

open Authority

/-- A pool with the content of the sample whose product has a brand without a name. -/
def pool : Pool :=
  { MovingConsumer.pool with
    id := "refused-pool"
    product := { MovingConsumer.pool.product with branding := [⟨"100", "", "OS"⟩] } }

/-- Another entitlement of the consumer of the sample, to that pool. -/
def entitlement : Entitlement :=
  { Sample.entitlement with id := "refused-entitlement", poolId := pool.id }

/-- The records of the sample with that entitlement. -/
def changes : List DirectoryChange :=
  [.addOwner (Sample.owner ⟨0, 0⟩), .addEnvironment MovingConsumer.dev,
    .addConsumer (MovingConsumer.consumer.within [MovingConsumer.dev]),
    .addPool MovingConsumer.pool, .addPool pool,
    .addEntitlement entitlement, .addEntitlement Sample.entitlement]

/-- The directory with those records. -/
def directory : Directory :=
  changes.foldl (fun d c => c.apply d) Directory.empty

/-- The directory once the content is no longer promoted. -/
def withdrawn : Directory :=
  MissingPool.withdrawal.change.apply directory

theorem affectedBy_withdrawn :
    affectedBy withdrawn "dev" ["1000"] = .ok [entitlement.id, Sample.entitlement.id] := by
  have hconsumers : withdrawn.consumersIn "dev" =
      [MovingConsumer.consumer.within [MovingConsumer.dev]] := by
    show List.mergeSort [_] _ = _
    rw [List.mergeSort_singleton]
  have hentitlements : withdrawn.entitlementsOf
      (MovingConsumer.consumer.within [MovingConsumer.dev]).id =
        [entitlement, Sample.entitlement] := by
    show List.mergeSort [entitlement, Sample.entitlement] _ = _
    refine List.mergeSort_of_pairwise ?_
    decide
  unfold affectedBy carriedBy
  rw [hconsumers, List.mapM_cons, hentitlements]
  rfl

/-- The content is no longer shown once the promotion is withdrawn. -/
theorem models_withdrawn_ne : entitlementModels {} withdrawn Sample.entitlement.id ≠
    entitlementModels {} directory Sample.entitlement.id := by
  let products (d : Directory) : List ProductModel :=
    entitlementProducts {} d (MovingConsumer.consumer.within [MovingConsumer.dev])
      (Sample.owner ⟨0, 0⟩) MovingConsumer.pool
  intro h
  have hproducts : products withdrawn = products directory := Except.ok.inj h
  exact absurd hproducts (by decide)

/-- The entitlement to the refused pool gets no certificate, and nothing is done for it. -/
theorem regenerateOne_refused {a : Authority} (ha : a.Consistent) (hconfig : a.config = {})
    (hdirectory : a.directory = withdrawn) :
    ∃ e, regenerateOne false Renewal.sample.now entitlement.id a = (.error e, a) := by
  have hplan : ∃ e, entitlementPlan {} withdrawn entitlement.id Renewal.sample.now = .error e ∧
      e.isTooLarge = false := ⟨_, rfl, rfl⟩
  obtain ⟨e, hplan, hsmall⟩ := hplan
  have hissue : issue (.entitlement entitlement.id) Renewal.sample.now a = (.error e, a) := by
    refine Request.bind_error ?_
    show (entitlementPlan a.config a.directory entitlement.id Renewal.sample.now, a) = _
    rw [hconfig, hdirectory, hplan]
  refine ⟨e, ?_⟩
  rw [regenerateOne_eq, renew_of_issue_failed ha hissue hsmall]
  rfl

/-- The request ends before anything is done. -/
theorem after_sample {a : Authority} (ha : a.Consistent) (hconfig : a.config = {})
    (hdirectory : a.directory = withdrawn) : Renewal.sample.after a = a := by
  have haffected : affectedBy a.directory Renewal.sample.environmentId Renewal.sample.contentIds =
      .ok [entitlement.id, Sample.entitlement.id] := hdirectory ▸ affectedBy_withdrawn
  obtain ⟨e, hfirst⟩ := regenerateOne_refused ha hconfig hdirectory
  rw [Renewal.after_eq haffected]
  exact congrArg Prod.snd (Request.bind_error hfirst)

/-- The certificate of the sample is not due when the request comes. -/
theorem isExpired_issued {start b : Authority} {fresh : IssuedCertificate}
    (hconfig : start.config = {}) (hdirectory : start.directory = directory)
    (hissue : issue (.entitlement Sample.entitlement.id) ⟨0, 0⟩ start = (.ok fresh, b)) :
    fresh.serial.isExpired
      (Renewal.sample.now.addDays (renewalDays {} .entitlement)) = false := by
  obtain ⟨p, hplan, hexpiration⟩ := expiration_of_issue hissue
  have hends : ∃ p, entitlementPlan {} directory Sample.entitlement.id ⟨0, 0⟩ = .ok p ∧
      p.validity.notAfter = MovingConsumer.pool.endDate := ⟨_, rfl, rfl⟩
  obtain ⟨p', hplan', hends⟩ := hends
  rw [hconfig, hdirectory, hplan', Except.ok.injEq] at hplan
  subst hplan
  rw [Serial.isExpired, hexpiration, hends]
  rfl

/-- The content is no longer promoted, but the certificate that shows it is still valid. -/
theorem exists_withdrawn : ∃ a, Reachable a ∧ a.config = {} ∧ a.directory = withdrawn ∧
    a.state (.entitlement Sample.entitlement.id) Renewal.sample.now = .ok .valid ∧
    ¬ ShowsRecords a Sample.entitlement.id := by
  have hd : changes.foldl (fun d c => c.apply d) Directory.empty = directory := rfl
  have hissuable : IsIssuable {} directory Sample.entitlement.id ⟨0, 0⟩ :=
    ⟨_, rfl, rfl, rfl, rfl⟩
  obtain ⟨start, fresh, b, hstart, hconfig, hdirectory, -, hissue, hgenerate, hconfig',
    hdirectory'⟩ := exists_first_issued hd hissuable rfl
  obtain ⟨hrole, -⟩ := issued_entitlement hstart.consistent hissue
  have hreachable := (hstart.of_generate hgenerate).changes [MissingPool.withdrawal.change]
  rw [hdirectory'] at hreachable
  let a : Authority := { b.superseded fresh with directory := withdrawn }
  have hcurrent : a.current? (.entitlement Sample.entitlement.id) = some fresh :=
    (superseded_entitlement hrole b).1
  refine ⟨a, hreachable, hconfig', rfl, ?_, ?_⟩
  · rw [state_of_current (kind_entitlement_ne _) hcurrent]
    refine standing_of_issue hstart.consistent hissue (e := Sample.entitlement) rfl rfl ?_
    rw [hconfig]
    exact isExpired_issued hconfig hdirectory hissue
  · refine not_showsRecords_of_models_ne hstart.consistent hissue hcurrent ?_
    show entitlementModels (b.superseded fresh).config withdrawn _ ≠
      entitlementModels start.config start.directory _
    rw [hconfig', hconfig, hdirectory]
    exact models_withdrawn_ne

/-- An entitlement whose pool is refused keeps the ones after it from being seen to: the content is
no longer promoted, but a valid certificate still shows it. -/
theorem refused_pool_hides_withdrawal : ∃ a, Reachable a ∧
    Renewal.sample.Concerns a.directory Sample.entitlement.id ∧
    ¬ Renewal.sample.Settles a Sample.entitlement.id Renewal.sample.now ∧
    ¬ ShowsRecords (Renewal.sample.after a) Sample.entitlement.id := by
  obtain ⟨a, ha, hconfig, hdirectory, hvalid, hshows⟩ := exists_withdrawn
  have hafter := after_sample ha.consistent hconfig hdirectory
  have hconcerns : ∀ id ∈ [entitlement.id, Sample.entitlement.id],
      Renewal.sample.Concerns a.directory id := by
    intro id hid
    rw [hdirectory]
    exact (mem_affectedBy affectedBy_withdrawn).1 hid
  have hself := hconcerns Sample.entitlement.id (by decide)
  refine ⟨a, ha, hself, ?_, hafter.symm ▸ hshows⟩
  unfold Renewal.Settles
  rw [or_left_comm, Renewal.issued_or_kept_iff ha.consistent hself, hafter]
  rintro (hnot | ⟨-, hclean⟩)
  · exact hnot hvalid
  · obtain ⟨e, hfirst⟩ := regenerateOne_refused ha.consistent hconfig hdirectory
    refine hclean entitlement.id (by decide) (hconcerns entitlement.id (by decide)) ?_
    exact fails_iff_regenerateOne.2 ⟨e, congrArg Prod.fst hfirst⟩

end RefusedPool

end EntitlementAuthority
