import EntitlementAuthority.Proofs.Issuance.OneCertificate
import EntitlementAuthority.Proofs.Issuance.Steps
import EntitlementAuthority.Proofs.Issuance.Succession
import Mathlib.Data.List.Perm.Basic

/-!
# Requests in flight

Any number of requests for certificates may be in flight at once. A request that has entered a
serial holds it until it has put its certificate in; from then on it owes the revocation of the
certificate that was there.

* `Custody` — which serials are held and which certificates are owed while requests are in flight.
* `Custody.allocate`, `Custody.drop`, `Custody.put`, `Custody.revoke` — what changes it.
* `Issuer.Move`, `Issuer.advance_move` — what one step of a request does to it.
* `InFlight`, `InFlight.Step`, `InFlight.Run` — requests that take their steps in any order.
* `InFlight.isLive_of_certifying` — nothing is signed under a serial that is not there.
* `InFlight.one_live_certificate` — when none is in flight, every certificate that was ever stored
  is current or revoked, and the current one is not revoked.
-/

namespace EntitlementAuthority

open Authority

variable {a b : Authority} {c fresh previous : IssuedCertificate} {role : Role} {now : Instant}

/-! ### Who answers for which serial -/

/-- A serial is entered and not revoked. -/
def SerialLedger.IsLive (l : SerialLedger) (id : Nat) : Prop :=
  ∃ s, l.get? id = some s ∧ s.revoked = false

/-- A serial is revoked. -/
def SerialLedger.IsRetired (l : SerialLedger) (id : Nat) : Prop :=
  ∃ s, l.get? id = some s ∧ s.revoked = true

/-- Some current certificate has a serial. -/
def Authority.UsesSerial (a : Authority) (id : Nat) : Prop :=
  ∃ role c, a.current? role = some c ∧ c.serial.id = id

/-- What holds while the serials `held` wait for their certificates to be put in and the
certificates `owed` wait to be revoked. -/
structure Custody (a : Authority) (held : List Nat) (owed : List IssuedCertificate) : Prop where
  roles : ∀ role c, a.current? role = some c → c.role = role
  currentLive : ∀ id, a.UsesSerial id → a.serials.IsLive id
  heldLive : ∀ id ∈ held, a.serials.IsLive id
  /-- No two current certificates have one serial. -/
  currentOnce : ∀ role role' c c', a.current? role = some c → a.current? role' = some c' →
    c.serial.id = c'.serial.id → role = role'
  heldOnce : held.Nodup
  heldUnused : ∀ id ∈ held, ¬ a.UsesSerial id
  owedEntered : ∀ c ∈ owed, ∃ s, a.serials.get? c.serial.id = some s
  owedUnused : ∀ c ∈ owed, ¬ a.UsesSerial c.serial.id ∧ c.serial.id ∉ held

namespace SerialLedger

variable {l : SerialLedger} {id : Nat}

theorem isLive_nextId (expiration : Instant) (l : SerialLedger) :
    (l.allocate expiration).2.IsLive l.nextId :=
  ⟨_, get?_allocate_self expiration l, rfl⟩

theorem IsLive.ne_nextId (h : l.IsLive id) : id ≠ l.nextId := by
  obtain ⟨s, hs, -⟩ := h
  exact get?_ne_nextId hs

theorem IsLive.allocate (h : l.IsLive id) (expiration : Instant) :
    (l.allocate expiration).2.IsLive id := by
  obtain ⟨s, hs, hrevoked⟩ := h
  exact ⟨s, by rw [get?_allocate, if_neg (get?_ne_nextId hs), hs], hrevoked⟩

theorem IsLive.markRevoked (h : l.IsLive id) {id' : Nat} (hne : id' ≠ id) :
    (l.markRevoked id').IsLive id := by
  obtain ⟨s, hs, hrevoked⟩ := h
  exact ⟨s, by rw [get?_markRevoked, if_neg hne, hs], hrevoked⟩

theorem IsRetired.grows {l' : SerialLedger} (h : l.IsRetired id) (hgrows : Grows l l') :
    l'.IsRetired id := by
  obtain ⟨s, hs, hrevoked⟩ := h
  obtain ⟨s', hs', -, hkept⟩ := hgrows.kept id s hs
  exact ⟨s', hs', hkept hrevoked⟩

theorem isRetired_markRevoked {s : Serial} (h : l.get? id = some s) :
    (l.markRevoked id).IsRetired id :=
  ⟨{ s with revoked := true }, by rw [get?_markRevoked, if_pos rfl, h, Option.map_some], rfl⟩

end SerialLedger

namespace Custody

variable {held : List Nat} {owed : List IssuedCertificate}

/-- An authority that has not issued anything. -/
theorem of_isNew (h : a.IsNew) : Custody a [] [] := by
  have hnone : ∀ {role c}, a.current? role ≠ some c := by
    intro role c hc
    rw [current?, h.certificates] at hc
    cases hc
  exact {
    roles := fun _ _ hc => absurd hc hnone
    currentLive := by
      rintro _ ⟨role, c, hc, -⟩
      exact absurd hc hnone
    heldLive := fun _ hid => absurd hid List.not_mem_nil
    currentOnce := fun _ _ _ _ hc => absurd hc hnone
    heldOnce := List.nodup_nil
    heldUnused := fun _ hid => absurd hid List.not_mem_nil
    owedEntered := fun _ hc => absurd hc List.not_mem_nil
    owedUnused := fun _ hc => absurd hc List.not_mem_nil }

/-- It does not matter in which order they stand. -/
theorem perm {held' : List Nat} {owed' : List IssuedCertificate} (h : Custody a held owed)
    (hheld : held.Perm held') (howed : owed.Perm owed') : Custody a held' owed' where
  roles := h.roles
  currentLive := h.currentLive
  heldLive id hid := h.heldLive id (hheld.mem_iff.2 hid)
  currentOnce := h.currentOnce
  heldOnce := hheld.nodup_iff.1 h.heldOnce
  heldUnused id hid := h.heldUnused id (hheld.mem_iff.2 hid)
  owedEntered c hc := h.owedEntered c (howed.mem_iff.2 hc)
  owedUnused c hc := by
    obtain ⟨hunused, hnot⟩ := h.owedUnused c (howed.mem_iff.2 hc)
    exact ⟨hunused, fun hid => hnot (hheld.mem_iff.2 hid)⟩

theorem usesSerial_congr (h : b.certificates = a.certificates) (id : Nat) :
    b.UsesSerial id ↔ a.UsesSerial id := by
  unfold UsesSerial current?
  rw [h]

/-- What is neither a serial nor a certificate does not matter. -/
theorem same (h : Custody a held owed) (hsame : SameStores a b) : Custody b held owed where
  roles role c hc := h.roles role c (hsame.current?_eq role ▸ hc)
  currentLive id hid := by
    rw [hsame.serials]
    exact h.currentLive id ((usesSerial_congr hsame.certificates id).1 hid)
  heldLive id hid := by
    rw [hsame.serials]
    exact h.heldLive id hid
  currentOnce role role' c c' hc hc' :=
    h.currentOnce role role' c c' (hsame.current?_eq role ▸ hc) (hsame.current?_eq role' ▸ hc')
  heldOnce := h.heldOnce
  heldUnused id hid := by
    rw [usesSerial_congr hsame.certificates]
    exact h.heldUnused id hid
  owedEntered c hc := by
    rw [hsame.serials]
    exact h.owedEntered c hc
  owedUnused c hc := by
    rw [usesSerial_congr hsame.certificates]
    exact h.owedUnused c hc

/-- A serial is entered and held. -/
theorem allocate (h : Custody a held owed) {expiration : Instant}
    (hserials : b.serials = (a.serials.allocate expiration).2)
    (hcertificates : b.certificates = a.certificates) :
    Custody b (a.serials.nextId :: held) owed where
  roles role c hc := h.roles role c (by rwa [current?, hcertificates] at hc)
  currentLive id hid := by
    rw [hserials]
    exact (h.currentLive id ((usesSerial_congr hcertificates id).1 hid)).allocate expiration
  heldLive id hid := by
    rw [hserials]
    obtain rfl | hid := List.mem_cons.1 hid
    · exact SerialLedger.isLive_nextId expiration _
    · exact (h.heldLive id hid).allocate expiration
  currentOnce role role' c c' hc hc' :=
    h.currentOnce role role' c c' (by rwa [current?, hcertificates] at hc)
      (by rwa [current?, hcertificates] at hc')
  heldOnce := List.nodup_cons.2
    ⟨fun hid => (h.heldLive _ hid).ne_nextId rfl, h.heldOnce⟩
  heldUnused id hid := by
    rw [usesSerial_congr hcertificates]
    obtain rfl | hid := List.mem_cons.1 hid
    · exact fun huses => (h.currentLive _ huses).ne_nextId rfl
    · exact h.heldUnused id hid
  owedEntered c hc := by
    obtain ⟨s, hs⟩ := h.owedEntered c hc
    rw [hserials]
    exact get?_allocate_of_some expiration hs
  owedUnused c hc := by
    obtain ⟨hunused, hnot⟩ := h.owedUnused c hc
    obtain ⟨s, hs⟩ := h.owedEntered c hc
    rw [usesSerial_congr hcertificates]
    exact ⟨hunused, List.not_mem_cons_of_ne_of_not_mem (SerialLedger.get?_ne_nextId hs) hnot⟩

/-- A serial is given up. -/
theorem drop {id : Nat} (h : Custody a (id :: held) owed) : Custody a held owed where
  roles := h.roles
  currentLive := h.currentLive
  heldLive id hid := h.heldLive id (List.mem_cons_of_mem _ hid)
  currentOnce := h.currentOnce
  heldOnce := (List.nodup_cons.1 h.heldOnce).2
  heldUnused id hid := h.heldUnused id (List.mem_cons_of_mem _ hid)
  owedEntered := h.owedEntered
  owedUnused c hc := by
    obtain ⟨hunused, hnot⟩ := h.owedUnused c hc
    exact ⟨hunused, fun hid => hnot (List.mem_cons_of_mem _ hid)⟩

section Put

variable (h : Custody a (fresh.serial.id :: held) owed)
  (hcertificates : b.certificates =
    (a.certificates.put fresh.role.kind fresh.role.subject fresh).2)

include hcertificates in
/-- What is current after a certificate was put in is that certificate or was current before. -/
theorem usesSerial_put {id : Nat} (huses : b.UsesSerial id) :
    id = fresh.serial.id ∨ a.UsesSerial id := by
  obtain ⟨role, c, hc, rfl⟩ := huses
  rw [current?_of_put hcertificates] at hc
  split at hc
  · exact .inl (congrArg (·.serial.id) (Option.some.inj hc)).symm
  · exact .inr ⟨role, c, hc, rfl⟩

include h hcertificates in
/-- A certificate with the serial of the one that was replaced is no longer current. -/
theorem not_usesSerial_put (hprevious : a.current? fresh.role = some previous) :
    ¬ b.UsesSerial previous.serial.id := by
  have huses : a.UsesSerial previous.serial.id := ⟨_, previous, hprevious, rfl⟩
  rintro ⟨role, c, hc, hid⟩
  rw [current?_of_put hcertificates] at hc
  split at hc
  · obtain rfl := Option.some.inj hc
    exact h.heldUnused _ List.mem_cons_self (hid ▸ huses)
  · rename_i hrole
    exact hrole (h.currentOnce _ _ previous c hprevious hc hid.symm)

include h hcertificates in
/-- A certificate is put in with a serial that was held; what it replaces is owed from then on. -/
theorem put (hserials : b.serials = a.serials) :
    Custody b held ((a.current? fresh.role).toList ++ owed) where
  roles role c hc := by
    rw [current?_of_put hcertificates] at hc
    split at hc
    · rename_i hrole
      rw [← Option.some.inj hc, hrole]
    · exact h.roles role c hc
  currentLive id hid := by
    rw [hserials]
    obtain rfl | hid := usesSerial_put hcertificates hid
    · exact h.heldLive _ List.mem_cons_self
    · exact h.currentLive id hid
  heldLive id hid := by
    rw [hserials]
    exact h.heldLive id (List.mem_cons_of_mem _ hid)
  currentOnce role role' c c' hc hc' hid := by
    have hunused := h.heldUnused _ List.mem_cons_self
    rw [current?_of_put hcertificates] at hc hc'
    split at hc <;> rename_i hrole <;> split at hc' <;> rename_i hrole'
    · exact hrole.symm.trans hrole'
    · exact absurd ⟨role', c', hc', by rw [← hid, Option.some.inj hc]⟩ hunused
    · exact absurd ⟨role, c, hc, by rw [hid, Option.some.inj hc']⟩ hunused
    · exact h.currentOnce role role' c c' hc hc' hid
  heldOnce := (List.nodup_cons.1 h.heldOnce).2
  heldUnused id hid huses := by
    obtain rfl | huses := usesSerial_put hcertificates huses
    · exact (List.nodup_cons.1 h.heldOnce).1 hid
    · exact h.heldUnused id (List.mem_cons_of_mem _ hid) huses
  owedEntered c hc := by
    rw [hserials]
    obtain hc | hc := List.mem_append.1 hc
    · obtain ⟨s, hs, -⟩ := h.currentLive _ ⟨_, c, Option.mem_toList.1 hc, rfl⟩
      exact ⟨s, hs⟩
    · exact h.owedEntered c hc
  owedUnused c hc := by
    obtain hc | hc := List.mem_append.1 hc
    · have hc := Option.mem_toList.1 hc
      exact ⟨not_usesSerial_put h hcertificates hc, fun hid =>
        h.heldUnused _ (List.mem_cons_of_mem _ hid) ⟨_, c, hc, rfl⟩⟩
    · obtain ⟨hunused, hnot⟩ := h.owedUnused c hc
      refine ⟨fun huses => ?_, fun hid => hnot (List.mem_cons_of_mem _ hid)⟩
      obtain hid | huses := usesSerial_put hcertificates huses
      · exact hnot (hid ▸ List.mem_cons_self)
      · exact hunused huses

end Put

/-- A certificate that was owed is revoked. -/
theorem revoke (h : Custody a held (previous :: owed))
    (hserials : b.serials = a.serials.markRevoked previous.serial.id)
    (hcertificates : b.certificates = a.certificates) : Custody b held owed where
  roles role c hc := h.roles role c (by rwa [current?, hcertificates] at hc)
  currentLive id hid := by
    have hid := (usesSerial_congr hcertificates id).1 hid
    rw [hserials]
    refine (h.currentLive id hid).markRevoked ?_
    rintro rfl
    exact (h.owedUnused previous List.mem_cons_self).1 hid
  heldLive id hid := by
    rw [hserials]
    refine (h.heldLive id hid).markRevoked ?_
    rintro rfl
    exact (h.owedUnused previous List.mem_cons_self).2 hid
  currentOnce role role' c c' hc hc' :=
    h.currentOnce role role' c c' (by rwa [current?, hcertificates] at hc)
      (by rwa [current?, hcertificates] at hc')
  heldOnce := h.heldOnce
  heldUnused id hid := by
    rw [usesSerial_congr hcertificates]
    exact h.heldUnused id hid
  owedEntered c hc := by
    obtain ⟨s, hs⟩ := h.owedEntered c (List.mem_cons_of_mem _ hc)
    rw [hserials]
    exact get?_markRevoked_of_some _ hs
  owedUnused c hc := by
    rw [usesSerial_congr hcertificates]
    exact h.owedUnused c (List.mem_cons_of_mem _ hc)

end Custody

/-- A certificate that was stored for a role is current, owed or revoked. -/
def Settled (a : Authority) (owed : List IssuedCertificate) (role : Role) (c : IssuedCertificate) :
    Prop :=
  a.current? role = some c ∨ c ∈ owed ∨ a.serials.IsRetired c.serial.id

theorem Settled.perm {owed owed' : List IssuedCertificate} (h : Settled a owed role c)
    (howed : owed.Perm owed') : Settled a owed' role c :=
  h.imp_right (Or.imp_left howed.mem_iff.1)

/-! ### What one step of a request does -/

namespace IssueStage

/-- The serial that a request holds. -/
def held : IssueStage → Option Nat
  | .certifying _ _ _ serial => some serial.id
  | .storing fresh => some fresh.serial.id
  | _ => none

/-- The certificate whose revocation a request owes. -/
def owed : IssueStage → Option IssuedCertificate
  | .retiring _ previous => previous
  | _ => none

end IssueStage

namespace Issuer

/-- What one step of a request can do. -/
inductive Move (t : Issuer) (a : Authority) : Issuer × Authority → Prop
  /-- Serials and certificates stay. A serial that is held may be given up. -/
  | keeps (t' : Issuer) (b : Authority) (hsame : SameStores a b)
      (hheld : t'.stage.held = none ∨ t'.stage.held = t.stage.held) (howed : t.stage.owed = none)
      (howed' : t'.stage.owed = none) : Move t a (t', b)
  | allocates (t' : Issuer) (b : Authority) (expiration : Instant)
      (hserials : b.serials = (a.serials.allocate expiration).2)
      (hcertificates : b.certificates = a.certificates) (hheld : t.stage.held = none)
      (hheld' : t'.stage.held = some a.serials.nextId) (howed : t.stage.owed = none)
      (howed' : t'.stage.owed = none) : Move t a (t', b)
  | puts (t' : Issuer) (b : Authority) (fresh : IssuedCertificate)
      (hserials : b.serials = a.serials) (hcertificates : b.certificates =
        (a.certificates.put fresh.role.kind fresh.role.subject fresh).2)
      (hheld : t.stage.held = some fresh.serial.id) (hheld' : t'.stage.held = none)
      (howed : t.stage.owed = none) (howed' : t'.stage.owed = a.current? fresh.role) :
      Move t a (t', b)
  | revokes (t' : Issuer) (b : Authority) (previous : IssuedCertificate)
      (hserials : b.serials = a.serials.markRevoked previous.serial.id)
      (hcertificates : b.certificates = a.certificates) (hheld : t.stage.held = none)
      (hheld' : t'.stage.held = none) (howed : t.stage.owed = some previous)
      (howed' : t'.stage.owed = none) : Move t a (t', b)

variable {α : Type} {t : Issuer} {r : Request Authority α} {fails : Fault → Issuer}
  {next : α → Issuer}

/-- A request that neither holds nor owes anything. -/
def IsFree (t : Issuer) : Prop :=
  t.stage.held = none ∧ t.stage.owed = none

theorem isFree_fails (t : Issuer) (e : Fault) : (t.fails e).IsFree := ⟨rfl, rfl⟩

theorem isFree_issueFails (t : Issuer) (e : Fault) : (t.issueFails e).IsFree := by
  unfold issueFails
  split
  · exact ⟨rfl, rfl⟩
  · exact isFree_fails t _

theorem isFree_finishes (t : Issuer) (c : IssuedCertificate) : (t.finishes c).IsFree := by
  unfold finishes
  split
  · exact ⟨rfl, rfl⟩
  · exact ⟨rfl, rfl⟩

/-- A step that neither enters a serial nor stores a certificate. -/
theorem move_after (hsame : SameIssued a (r a).2) (howed : t.stage.owed = none)
    (hfails : ∀ e, (fails e).IsFree)
    (hnext : ∀ x, ((next x).stage.held = none ∨ (next x).stage.held = t.stage.held) ∧
      (next x).stage.owed = none) :
    Move t a (after r fails next a) := by
  rcases hr : r a with ⟨o, b⟩
  rw [hr] at hsame
  cases o with
  | error e =>
    rw [after_error hr]
    exact .keeps _ b hsame.toSameStores (.inl (hfails e).1) howed (hfails e).2
  | ok x =>
    rw [after_ok hr]
    exact .keeps _ b hsame.toSameStores (hnext x).1 howed (hnext x).2

theorem move_after_free (hsame : SameIssued a (r a).2) (howed : t.stage.owed = none)
    (hfails : ∀ e, (fails e).IsFree) (hnext : ∀ x, (next x).IsFree) :
    Move t a (after r fails next a) :=
  move_after hsame howed hfails fun x => ⟨.inl (hnext x).1, (hnext x).2⟩

theorem plan_sameIssued (t : Issuer) (now : Instant) (a : Authority) :
    SameIssued a (t.plan now a).2 := by
  unfold plan
  cases t.access with
  | some x => exact .refl a
  | none => exact Authority.plan_sameIssued t.call.role now a

theorem prepare_sameIssued (plan : Plan) (a : Authority) : SameIssued a (prepare plan a).2 := by
  unfold prepare
  refine .bind (.refl a) fun _ b => ?_
  refine .bind ?_ fun payload b => ?_
  · rw [signPayload_eq]
    exact ⟨⟨rfl, rfl⟩, rfl⟩
  · exact .bind ⟨⟨rfl, rfl⟩, rfl⟩ fun key b => .refl b

theorem certifyPlan_sameIssued (plan : Plan) (key : KeyPair) (serial : Serial) (a : Authority) :
    SameIssued a (certifyPlan plan key serial a).2 := by
  unfold certifyPlan certify
  split
  · exact ⟨⟨rfl, rfl⟩, rfl⟩
  · exact ⟨⟨rfl, rfl⟩, rfl⟩

theorem markClean_sameIssued (fresh : IssuedCertificate) (a : Authority) :
    SameIssued a (markClean fresh a).2 := by
  unfold markClean
  split
  · exact setDirty_sameIssued fresh.role.subject false a
  · exact .refl a

theorem begins_move (t : Issuer) (howed : t.stage.owed = none) (a : Authority) :
    Move t a (t.begins a) := by
  obtain ⟨call, access, fallback, stage⟩ := t
  unfold begins
  split
  · refine move_after_free (.refl a) howed (isFree_fails _) fun found => ?_
    cases found <;> exact ⟨rfl, rfl⟩
  · cases call with
    | generate role =>
      refine move_after_free (.refl a) howed (isFree_fails _) fun previous => ?_
      cases previous <;> exact ⟨rfl, rfl⟩
    | regenerate role putOff =>
      dsimp only
      split
      · exact move_after_free (setDirty_sameIssued _ true a) howed (isFree_fails _)
          fun _ => ⟨rfl, rfl⟩
      · exact move_after_free (.refl a) howed (isFree_fails _) fun _ => ⟨rfl, rfl⟩

theorem retire_ok {s : Serial} (hs : a.serials.get? previous.serial.id = some s) :
    retire (some previous) a =
      (.ok (), { a with serials := a.serials.markRevoked previous.serial.id }) := by
  show (let (o, l) := SerialLedger.revoke previous.serial.id a.serials
    (o, { a with serials := l })) = _
  rw [SerialLedger.revoke, hs]

/-- **One step of a request.** What it owes can be revoked since its serial is entered. -/
theorem advance_move (t : Issuer) (now : Instant) (a : Authority)
    (hentered : ∀ c, t.stage.owed = some c → ∃ s, a.serials.get? c.serial.id = some s) :
    Move t a (t.advance now a) := by
  obtain ⟨call, access, fallback, stage⟩ := t
  let t : Issuer := ⟨call, access, fallback, .called⟩
  show Move (t.atStage stage) a ((t.atStage stage).advance now a)
  cases stage with
  | called => exact begins_move t rfl a
  | flagged =>
    rw [advance_flagged]
    exact move_after_free (.refl a) rfl (isFree_fails t) fun _ => ⟨rfl, rfl⟩
  | looking x =>
    rw [advance_looking]
    refine move_after_free (.refl a) rfl (isFree_fails t) fun previous => ?_
    cases previous with
    | none => exact ⟨rfl, rfl⟩
    | some c =>
      dsimp only
      split <;> exact ⟨rfl, rfl⟩
  | judging c =>
    rw [advance_judging]
    refine move_after_free (.refl a) rfl (isFree_fails t) fun s => ?_
    split
    · exact isFree_finishes t c
    · exact ⟨rfl, rfl⟩
  | planning =>
    rw [advance_planning]
    exact move_after_free (plan_sameIssued t now a) rfl (isFree_issueFails t) fun _ => ⟨rfl, rfl⟩
  | preparing plan =>
    rw [advance_preparing]
    exact move_after_free (prepare_sameIssued plan a) rfl (isFree_issueFails t)
      fun _ => ⟨rfl, rfl⟩
  | allocating plan payload key =>
    exact .allocates _ _ plan.validity.notAfter rfl rfl rfl rfl rfl rfl
  | certifying plan payload key serial =>
    rw [advance_certifying]
    exact move_after (certifyPlan_sameIssued plan key serial a) rfl (isFree_issueFails t)
      fun _ => ⟨.inr rfl, rfl⟩
  | storing fresh => exact .puts _ _ fresh rfl rfl rfl rfl rfl rfl
  | retiring fresh previous =>
    rw [advance_retiring]
    cases previous with
    | none => exact move_after_free (.refl a) rfl (isFree_fails t) fun _ => ⟨rfl, rfl⟩
    | some previous =>
      obtain ⟨s, hs⟩ := hentered previous rfl
      rw [after_ok (retire_ok hs)]
      exact .revokes _ _ previous rfl rfl rfl rfl rfl rfl
  | clearing fresh =>
    rw [advance_clearing]
    exact move_after_free (markClean_sameIssued fresh a) rfl (isFree_fails t)
      fun _ => isFree_finishes t fresh
  | attaching x c =>
    rw [advance_attaching]
    exact move_after_free (contentPayload_sameIssued x now a) rfl (isFree_fails t)
      fun _ => ⟨rfl, rfl⟩
  | answered answer => exact .keeps _ a (.refl a) (.inl rfl) rfl rfl

section Moved

variable {t' : Issuer} {held : List Nat} {owed : List IssuedCertificate}

/-- Others hold `held` and owe `owed` meanwhile. -/
theorem Move.custody (h : Move t a (t', b))
    (hcustody : Custody a (t.stage.held.toList ++ held) (t.stage.owed.toList ++ owed)) :
    Custody b (t'.stage.held.toList ++ held) (t'.stage.owed.toList ++ owed) := by
  cases h with
  | keeps _ _ hsame hheld howed howed' =>
    rw [howed] at hcustody
    rw [howed']
    refine Custody.same ?_ hsame
    obtain hheld | hheld := hheld
    · rw [hheld]
      cases hwas : t.stage.held with
      | none => rwa [hwas] at hcustody
      | some id =>
        rw [hwas] at hcustody
        exact hcustody.drop
    · rwa [hheld]
  | allocates _ _ expiration hserials hcertificates hheld hheld' howed howed' =>
    rw [hheld, howed] at hcustody
    rw [hheld', howed']
    exact hcustody.allocate hserials hcertificates
  | puts _ _ fresh hserials hcertificates hheld hheld' howed howed' =>
    rw [hheld, howed] at hcustody
    rw [hheld', howed']
    exact hcustody.put hcertificates hserials
  | revokes _ _ previous hserials hcertificates hheld hheld' howed howed' =>
    rw [hheld, howed] at hcustody
    rw [hheld', howed']
    exact hcustody.revoke hserials hcertificates

/-- A certificate that was stored once is never lost sight of. -/
theorem Move.settled (h : Move t a (t', b))
    (hcustody : Custody a (t.stage.held.toList ++ held) (t.stage.owed.toList ++ owed))
    (hc : Settled a (t.stage.owed.toList ++ owed) role c) :
    Settled b (t'.stage.owed.toList ++ owed) role c := by
  cases h with
  | keeps _ _ hsame hheld howed howed' =>
    rw [howed] at hc
    rw [howed']
    unfold Settled
    rwa [hsame.current?_eq, hsame.serials]
  | allocates _ _ expiration hserials hcertificates hheld hheld' howed howed' =>
    rw [howed] at hc
    rw [howed']
    obtain hc | hc | hc := hc
    · exact .inl (by rwa [current?, hcertificates])
    · exact .inr (.inl hc)
    · refine .inr (.inr ?_)
      rw [hserials]
      exact hc.grows (SerialLedger.grows_allocate expiration _)
  | puts _ _ fresh hserials hcertificates hheld hheld' howed howed' =>
    rw [howed] at hc
    rw [howed']
    unfold Settled
    rw [current?_of_put hcertificates, hserials]
    obtain hc | hc | hc := hc
    · by_cases hrole : fresh.role = role
      · refine .inr (.inl (List.mem_append_left _ ?_))
        rw [hrole, hc]
        exact List.mem_singleton_self c
      · exact .inl (by rwa [if_neg hrole])
    · exact .inr (.inl (List.mem_append_right _ hc))
    · exact .inr (.inr hc)
  | revokes _ _ previous hserials hcertificates hheld hheld' howed howed' =>
    rw [howed] at hc hcustody
    rw [howed']
    obtain hc | hc | hc := hc
    · exact .inl (by rwa [current?, hcertificates])
    · obtain rfl | hc := List.mem_cons.1 hc
      · obtain ⟨s, hs⟩ := hcustody.owedEntered c List.mem_cons_self
        refine .inr (.inr ?_)
        rw [hserials]
        exact SerialLedger.isRetired_markRevoked hs
      · exact .inr (.inl hc)
    · refine .inr (.inr ?_)
      rw [hserials]
      exact hc.grows (SerialLedger.grows_markRevoked _ _)

/-- A role that has a certificate keeps having one. -/
theorem Move.exists_current (h : Move t a (t', b)) (hc : ∃ c, a.current? role = some c) :
    ∃ c, b.current? role = some c := by
  cases h with
  | keeps _ _ hsame => rwa [hsame.current?_eq]
  | allocates _ _ expiration hserials hcertificates => rwa [current?, hcertificates]
  | puts _ _ fresh hserials hcertificates =>
    rw [current?_of_put hcertificates]
    split
    · exact ⟨fresh, rfl⟩
    · exact hc
  | revokes _ _ previous hserials hcertificates => rwa [current?, hcertificates]

end Moved

end Issuer

/-! ### Any order of steps -/

/-- An authority and the requests that are in flight on it. -/
structure InFlight where
  authority : Authority
  requests : List Issuer

namespace InFlight

/-- Some request comes in, takes its next step at some instant, or something else changes that is
neither a serial nor a certificate. -/
inductive Step : InFlight → InFlight → Prop
  | arrives (a : Authority) (requests : List Issuer) (call : IssueCall) :
      Step ⟨a, requests⟩ ⟨a, requests ++ [.ofCall call]⟩
  | advances (a : Authority) (before : List Issuer) (t : Issuer) (after : List Issuer)
      (now : Instant) :
      Step ⟨a, before ++ t :: after⟩ ⟨(t.advance now a).2, before ++ (t.advance now a).1 :: after⟩
  | others (a b : Authority) (requests : List Issuer) (h : SameStores a b) :
      Step ⟨a, requests⟩ ⟨b, requests⟩

/-- Any number of steps. -/
abbrev Run : InFlight → InFlight → Prop :=
  Relation.ReflTransGen Step

/-- No request is in flight. -/
def IsIdle (w : InFlight) : Prop :=
  ∀ t ∈ w.requests, ∃ answer, t.stage = .answered answer

/-- The serials that are held. -/
def held (w : InFlight) : List Nat :=
  w.requests.filterMap (·.stage.held)

/-- The certificates that are owed. -/
def owed (w : InFlight) : List IssuedCertificate :=
  w.requests.filterMap (·.stage.owed)

variable {w w' : InFlight}

/-- What holds between any two steps. -/
def InOrder (w : InFlight) : Prop :=
  Custody w.authority w.held w.owed

/-- Certificates that were stored are settled and stay so, and a role that has one keeps having
one. -/
structure Onward (w w' : InFlight) : Prop where
  settled : ∀ role c, Settled w.authority w.owed role c → Settled w'.authority w'.owed role c
  current : ∀ role, (∃ c, w.authority.current? role = some c) →
    ∃ c, w'.authority.current? role = some c

/-- What one of several requests has can be put in front of what the others have. -/
theorem perm_filterMap {α : Type} (f : Issuer → Option α) (before : List Issuer) (t : Issuer)
    (after : List Issuer) :
    ((before ++ t :: after).filterMap f).Perm ((f t).toList ++ (before ++ after).filterMap f) := by
  refine (List.perm_middle.filterMap f).trans (.of_eq ?_)
  rw [List.filterMap_cons]
  cases f t <;> rfl

/-- **One step of any request.** -/
theorem InOrder.step (h : w.InOrder) (hstep : Step w w') :
    w'.InOrder ∧ Onward w w' := by
  cases hstep with
  | arrives a requests call =>
    have hheld : held ⟨a, requests ++ [.ofCall call]⟩ = held ⟨a, requests⟩ := by
      simp [held, Issuer.ofCall, IssueStage.held]
    have howed : owed ⟨a, requests ++ [.ofCall call]⟩ = owed ⟨a, requests⟩ := by
      simp [owed, Issuer.ofCall, IssueStage.owed]
    rw [InOrder, hheld, howed]
    refine ⟨h, ?_, fun _ hc => hc⟩
    rw [howed]
    exact fun _ _ hc => hc
  | advances a before t after now =>
    have hheld := perm_filterMap (·.stage.held) before t after
    have howed := perm_filterMap (·.stage.owed) before t after
    have hcustody := Custody.perm h hheld howed
    have hmove := t.advance_move now a fun c hc =>
      hcustody.owedEntered c (List.mem_append_left _ (by rw [hc]; exact List.mem_singleton_self c))
    have hheld' := perm_filterMap (·.stage.held) before (t.advance now a).1 after
    have howed' := perm_filterMap (·.stage.owed) before (t.advance now a).1 after
    refine ⟨(hmove.custody hcustody).perm hheld'.symm howed'.symm, ?_, ?_⟩
    · intro role c hc
      exact (hmove.settled hcustody (hc.perm howed)).perm howed'.symm
    · exact fun role hc => hmove.exists_current hc
  | others a b requests hsame =>
    refine ⟨Custody.same h hsame, ?_, ?_⟩
    · intro role c hc
      unfold Settled
      rwa [hsame.current?_eq, hsame.serials]
    · intro role hc
      rwa [hsame.current?_eq]

/-- **Any number of steps.** -/
theorem InOrder.run (h : w.InOrder) (hrun : Run w w') :
    w'.InOrder ∧ Onward w w' := by
  induction hrun with
  | refl => exact ⟨h, fun _ _ hc => hc, fun _ hc => hc⟩
  | tail _ hstep ih =>
    obtain ⟨hmid, honward⟩ := ih
    obtain ⟨hnext, honward'⟩ := hmid.step hstep
    exact ⟨hnext, fun role c hc => honward'.settled role c (honward.settled role c hc),
      fun role hc => honward'.current role (honward.current role hc)⟩

theorem inOrder_of_run {cryptography : Cryptography} {config : Config} {start : Authority}
    (hstart : create cryptography config now = .ok start) (hrun : Run ⟨start, []⟩ w) : w.InOrder :=
  (InOrder.run (w := ⟨start, []⟩) (Custody.of_isNew (.of_create hstart)) hrun).1

/-- **Nothing is signed under a serial that is not there.** A request that is about to sign a
certificate has a serial that is entered and not revoked, and that no current certificate has,
whatever other requests did since it was entered. -/
theorem isLive_of_certifying {cryptography : Cryptography} {config : Config} {start : Authority}
    (hstart : create cryptography config now = .ok start) (hrun : Run ⟨start, []⟩ w) {t : Issuer}
    (ht : t ∈ w.requests) {plan : Plan} {payload : Option String} {key : KeyPair} {serial : Serial}
    (hstage : t.stage = .certifying plan payload key serial) :
    w.authority.serials.IsLive serial.id ∧ ¬ w.authority.UsesSerial serial.id := by
  have hw := inOrder_of_run hstart hrun
  have hheld : serial.id ∈ w.held :=
    List.mem_filterMap.2 ⟨t, ht, by rw [hstage]; rfl⟩
  exact ⟨hw.heldLive _ hheld, hw.heldUnused _ hheld⟩

theorem owed_of_isIdle (h : w.IsIdle) : w.owed = [] := by
  rw [owed, List.filterMap_eq_nil_iff]
  intro t ht
  obtain ⟨answer, hanswer⟩ := h t ht
  rw [hanswer]
  rfl

/-- **One live certificate for each role.** Requests for certificates come in at any time, each of
them takes its steps between those of the others, and records change meanwhile. Whenever none of
them is in flight, every role that ever had a certificate stored has one whose serial is not
revoked, and the serial of every other certificate that was ever stored for it is. -/
theorem one_live_certificate {cryptography : Cryptography} {config : Config} {now : Instant}
    {start : Authority} {former : IssuedCertificate}
    (hstart : create cryptography config now = .ok start)
    (hbefore : Run ⟨start, []⟩ w) (hstored : w.authority.current? role = some former)
    (hafter : Run w w') (hidle : w'.IsIdle) :
    ∃ c, w'.authority.current? role = some c ∧ w'.authority.serials.IsLive c.serial.id ∧
      (former ≠ c → w'.authority.serials.IsRetired former.serial.id) := by
  obtain ⟨hw', honward⟩ := (inOrder_of_run hstart hbefore).run hafter
  obtain ⟨c, hc⟩ := honward.current role ⟨former, hstored⟩
  refine ⟨c, hc, hw'.currentLive _ ⟨role, c, hc, rfl⟩, fun hne => ?_⟩
  obtain hformer | howed | hretired := honward.settled role former (.inl hstored)
  · rw [hc] at hformer
    exact absurd (Option.some.inj hformer).symm hne
  · rw [owed_of_isIdle hidle] at howed
    cases howed
  · exact hretired

/-! ### Two requests for one certificate -/

/-- One request may take several steps in a row. -/
theorem Run.of_alone {t t' : Issuer} (h : Issuer.Alone now (t, a) (t', b))
    (before after : List Issuer) :
    Run ⟨a, before ++ t :: after⟩ ⟨b, before ++ t' :: after⟩ := by
  refine h.lift (fun x => InFlight.mk x.2 (before ++ x.1 :: after)) ?_
  rintro x y rfl
  exact .advances ..

/-- A request for a certificate that is not there issues one. -/
theorem alone_issued (hkind : role.kind ≠ .contentAccess) (hnone : a.current? role = none)
    (hissue : issue role now a = (.ok fresh, b)) :
    Issuer.Alone now (.ofCall (.generate role), a)
      ((Issuer.ofCall (.generate role)).atStage (.storing fresh), b) := by
  let t := Issuer.ofCall (.generate role)
  have hbegins : t.advance now a = (t.atStage .planning, a) := by
    refine (congrFun (Issuer.begins_generate hkind) a).trans ?_
    rw [Issuer.after_ok (Request.get_apply ..), hnone]
  have hplan : (t.plan now >>= fun plan => sign plan now) a = (.ok fresh, b) := hissue
  have hsteps := Issuer.alone_issue t now a
  rw [Issuer.after_ok hplan] at hsteps
  exact .head hbegins.symm hsteps

/-- The request then puts it in its place. -/
theorem alone_placed (ha : a.Consistent) (h : Supersedable a fresh) :
    Issuer.Alone now ((Issuer.ofCall (.generate role)).atStage (.storing fresh), a)
      ((Issuer.ofCall (.generate role)).atStage (.answered (.ok (some fresh))),
        a.superseded fresh) := by
  have hsteps := Issuer.alone_supersede (.ofCall (.generate role)) now fresh a
  rwa [Issuer.after_ok (supersede_of_supersedable ha h)] at hsteps

/-- Two requests both find no certificate and issue one. The first to be stored is revoked. -/
theorem one_live_certificate_of_two_requests :
    ∃ start w w' former c, create .numbered {} ⟨0, 0⟩ = .ok start ∧ Run ⟨start, []⟩ w ∧ Run w w' ∧
      w.authority.current? identityRole = some former ∧ w'.IsIdle ∧
      w'.authority.current? identityRole = some c ∧ former ≠ c ∧
      w'.authority.serials.IsLive c.serial.id ∧
      w'.authority.serials.IsRetired former.serial.id := by
  obtain ⟨start, hstart, hconfig, hdirectory, hcertificates⟩ := exists_start
  let a : Authority := { start with directory := identityDirectory }
  have ha : a.Consistent := by
    have hreachable := (Reachable.of_create hstart).changes identityChanges
    rw [hdirectory] at hreachable
    exact hreachable.consistent
  have hnone : a.current? identityRole = none := by
    show start.certificates.get? _ _ = none
    rw [hcertificates]
    rfl
  have hkind : identityRole.kind ≠ .contentAccess := by decide
  have hother : identityRole.kind ≠ .entitlement := by decide
  -- both issue before either stores anything
  obtain ⟨former, a₁, hissue₁, hrole₁, -, hconfig₁, hdirectory₁⟩ :=
    exists_issued_identity (a := a) hconfig rfl
  have hnone₁ : a₁.current? identityRole = none := by
    rwa [current?, issue_certificates hissue₁]
  obtain ⟨c, a₂, hissue₂, hrole₂, hid₂, -⟩ := exists_issued_identity hconfig₁ hdirectory₁
  have ha₁ : a₁.Consistent := (leads_of_issue hissue₁).consistent ha
  have ha₂ : a₂.Consistent := (leads_of_issue hissue₂).consistent ha₁
  have hplace₁ : Supersedable a₂ former :=
    (supersedable_of_issue ha hissue₁).issued (hrole₁.symm ▸ hother) hissue₂
  have hnone₂ : a₂.current? former.role = none := by
    rw [hrole₁, current?, issue_certificates hissue₂]
    exact hnone₁
  have hplace₂ : Supersedable (a₂.superseded former) c :=
    (supersedable_of_issue ha₁ hissue₂).stored (hrole₂.symm ▸ hother) hnone₂
  let t := Issuer.ofCall (.generate identityRole)
  have hbegun : Run ⟨start, []⟩ ⟨a, [t, t]⟩ :=
    .head (.others start a [] ⟨rfl, rfl⟩) (.head (.arrives a [] _) (.single (.arrives a [t] _)))
  have hissued : Run ⟨a, [t, t]⟩ ⟨a₂, [t.atStage (.storing former), t.atStage (.storing c)]⟩ :=
    (Run.of_alone (alone_issued hkind hnone hissue₁) [] [t]).trans
      (Run.of_alone (alone_issued hkind hnone₁ hissue₂) [t.atStage (.storing former)] [])
  have hplacing : Issuer.Alone ⟨0, 0⟩ (t.atStage (.storing former), a₂)
      (t.atStage (.answered (.ok (some former))), a₂.superseded former) := alone_placed ha₂ hplace₁
  have hending : Issuer.Alone ⟨0, 0⟩ (t.atStage (.storing c), a₂.superseded former)
      (t.atStage (.answered (.ok (some c))), (a₂.superseded former).superseded c) :=
    alone_placed (ha₂.superseded hplace₁) hplace₂
  have hplaced := Run.of_alone hplacing [] [t.atStage (.storing c)]
  have hlast := Run.of_alone hending [t.atStage (.answered (.ok (some former)))] []
  have hstored : (a₂.superseded former).current? identityRole = some former :=
    (current?_of_put rfl _).trans (if_pos hrole₁)
  have hidle : IsIdle ⟨(a₂.superseded former).superseded c,
      [t.atStage (.answered (.ok (some former))), t.atStage (.answered (.ok (some c)))]⟩ := by
    rintro t' (_ | ⟨_, _ | ⟨_, ⟨⟩⟩⟩) <;> exact ⟨_, rfl⟩
  obtain ⟨c', hc', hlive, hretired⟩ := one_live_certificate hstart
    ((hbegun.trans hissued).trans hplaced) hstored hlast hidle
  have hne : former ≠ c' := by
    obtain rfl : c = c' := Option.some.inj
      (((current?_of_put rfl _).trans (if_pos hrole₂)).symm.trans hc')
    rintro rfl
    -- the second serial is entered when the first one is there
    obtain ⟨s, hs⟩ := (supersedable_of_issue ha hissue₁).serial
    exact SerialLedger.get?_ne_nextId hs hid₂
  exact ⟨start, _, _, former, c', hstart, (hbegun.trans hissued).trans hplaced, hlast, hstored,
    hidle, hc', hne, hlive, hretired hne⟩

end InFlight

end EntitlementAuthority
