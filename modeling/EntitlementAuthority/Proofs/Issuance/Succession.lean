import EntitlementAuthority.Issuance.Sample
import EntitlementAuthority.Proofs.Issuance.Ledger
import EntitlementAuthority.Proofs.Issuance.Moments

/-!
# Serials and certificates over whole runs

At every moment of a run, the ledger of serials and the store of certificates tell the same story.

* `Authority.Orderly` — what holds of a state with all states before it.
* `Authority.Orderly.turn` — a turn keeps it.
* `Authority.SerialsKept` — what can be seen of it.
* `Authority.serials_of_run` — so it can be seen at every moment of a run.
-/

namespace EntitlementAuthority

namespace Authority

variable {a b : Authority} {now : Instant}

/-! ### What every moment keeps -/

/-- A certificate was stored at one of some moments. -/
def StoredAt (moments : List Authority) (c : IssuedCertificate) : Prop :=
  ∃ m ∈ moments, ∃ role, m.current? role = some c

/-- What holds of a state `a` that came after the states `past`. -/
structure Orderly (past : List Authority) (a : Authority) : Prop where
  grows : ∀ b ∈ past, SerialLedger.Grows b.serials a.serials
  /-- No serial has the number of another, and a later one has a larger one. -/
  increasing : (a.serials.serials.map (·.id)).Pairwise (· < ·)
  roles : ∀ role c, a.current? role = some c → c.role = role
  /-- A certificate is only ever replaced. -/
  replaced : ∀ c, StoredAt (past ++ [a]) c → ∃ c', a.current? c.role = some c'
  issued : ∀ c, StoredAt (past ++ [a]) c → ∃ b ∈ past, IssuedFrom b c
  recorded : ∀ c, StoredAt (past ++ [a]) c →
    ∃ s, a.serials.get? c.serial.id = some s ∧ s.expiration = c.serial.expiration
  distinct : ∀ c c', StoredAt (past ++ [a]) c → StoredAt (past ++ [a]) c' →
    c.serial.id = c'.serial.id → c = c'
  revoked : ∀ id s, a.serials.get? id = some s →
    (s.revoked = true ↔
      ∃ c, StoredAt (past ++ [a]) c ∧ c.serial.id = id ∧ a.current? c.role ≠ some c)

variable {past : List Authority} {c : IssuedCertificate}

theorem storedAt_append {moments moments' : List Authority} :
    StoredAt (moments ++ moments') c ↔ StoredAt moments c ∨ StoredAt moments' c := by
  simp only [StoredAt, List.mem_append, or_and_right, exists_or]

theorem storedAt_snoc {moments : List Authority} :
    StoredAt (moments ++ [a]) c ↔ StoredAt moments c ∨ ∃ role, a.current? role = some c := by
  rw [storedAt_append]
  simp only [StoredAt, List.mem_singleton, exists_eq_left]

/-- Before anything is issued, there is nothing to keep. -/
theorem Orderly.of_isNew (h : a.IsNew) : Orderly [] a := by
  have hcurrent : ∀ role, a.current? role = none := by
    intro role
    rw [current?, h.certificates]
    rfl
  have hnone : ∀ {c}, ¬ StoredAt ([] ++ [a]) c := by
    rintro c hc
    rcases storedAt_snoc.1 hc with ⟨m, hm, -⟩ | ⟨role, hrole⟩
    · cases hm
    · rw [hcurrent] at hrole
      cases hrole
  exact {
    grows := by
      intro b hb
      cases hb
    increasing := by
      rw [h.serials]
      exact List.Pairwise.nil
    roles := by
      intro role c hc
      rw [hcurrent] at hc
      cases hc
    replaced := fun c hc => absurd hc hnone
    issued := fun c hc => absurd hc hnone
    recorded := fun c hc => absurd hc hnone
    distinct := fun c c' hc => absurd hc hnone
    revoked := by
      intro id s hs
      rw [h.serials] at hs
      cases hs }

/-- In an orderly state, a certificate that is not stored has been replaced by one with another
serial. -/
theorem Orderly.exists_successor (h : Orderly past a) (hc : StoredAt (past ++ [a]) c)
    (hnot : a.current? c.role ≠ some c) :
    StoredAt past c ∧ ∃ c', a.current? c.role = some c' ∧ c'.serial.id ≠ c.serial.id := by
  obtain ⟨c', hc'⟩ := h.replaced c hc
  refine ⟨?_, c', hc', ?_⟩
  · rcases storedAt_snoc.1 hc with hpast | ⟨role, hrole⟩
    · exact hpast
    · rw [← h.roles role c hrole] at hrole
      exact absurd hrole hnot
  · intro hid
    have hstored' : StoredAt (past ++ [a]) c' := storedAt_snoc.2 (.inr ⟨c.role, hc'⟩)
    rw [h.distinct c' c hstored' hc hid] at hc'
    exact hnot hc'

theorem grows_retired (a : Authority) (fresh : IssuedCertificate) :
    SerialLedger.Grows (a.serials.allocate fresh.serial.expiration).2 (ledgerAfter a fresh) := by
  unfold ledgerAfter
  cases a.current? fresh.role with
  | none => exact .refl _
  | some previous => exact SerialLedger.grows_markRevoked _ _

theorem grows_ledgerAfter (a : Authority) (fresh : IssuedCertificate) :
    SerialLedger.Grows a.serials (ledgerAfter a fresh) :=
  (SerialLedger.grows_allocate _ _).trans (grows_retired a fresh)

/-- Revoked are the serials that were, and that of the certificate that was replaced. -/
theorem revoked_ledgerAfter {fresh : IssuedCertificate} {id : Nat} {s : Serial}
    (hs : (ledgerAfter a fresh).get? id = some s) :
    s.revoked = true ↔ (∃ s', a.serials.get? id = some s' ∧ s'.revoked = true) ∨
      ∃ previous, a.current? fresh.role = some previous ∧ previous.serial.id = id := by
  unfold ledgerAfter at hs
  cases hcurrent : a.current? fresh.role with
  | none =>
    rw [hcurrent] at hs
    rw [SerialLedger.revoked_allocate hs]
    simp
  | some previous =>
    rw [hcurrent] at hs
    dsimp only at hs
    rw [SerialLedger.get?_markRevoked] at hs
    simp only [Option.some.injEq, exists_eq_left']
    split at hs
    · rename_i hid
      obtain ⟨s', -, rfl⟩ := Option.map_eq_some_iff.1 hs
      exact iff_of_true rfl (.inr hid)
    · rename_i hid
      rw [SerialLedger.revoked_allocate hs, or_iff_left hid]

theorem current?_of_put {fresh : IssuedCertificate}
    (h : b.certificates = (a.certificates.put fresh.role.kind fresh.role.subject fresh).2)
    (role : Role) :
    b.current? role = if fresh.role = role then some fresh else a.current? role := by
  obtain ⟨kind, subject⟩ := role
  have hrole : fresh.role = ⟨kind, subject⟩ ↔
      fresh.role.kind = kind ∧ fresh.role.subject = subject := by
    cases fresh.role
    exact Role.mk.injEq .. ▸ Iff.rfl
  rw [current?, h, CertificateStore.get?_put]
  exact if_congr hrole.symm rfl rfl

/-- A certificate that is put in is the only one that was not stored before. -/
theorem storedAt_of_put {fresh : IssuedCertificate}
    (h : b.certificates = (a.certificates.put fresh.role.kind fresh.role.subject fresh).2) :
    StoredAt (past ++ [a] ++ [b]) c ↔ StoredAt (past ++ [a]) c ∨ c = fresh := by
  rw [storedAt_snoc]
  refine or_congr_right' fun hnot => ⟨?_, ?_⟩
  · rintro ⟨role, hrole⟩
    rw [current?_of_put h] at hrole
    split at hrole
    · exact (Option.some.inj hrole).symm
    · exact absurd (storedAt_snoc.2 (.inr ⟨role, hrole⟩)) hnot
  · rintro rfl
    exact ⟨c.role, by rw [current?_of_put h, if_pos rfl]⟩

section Step

variable (h : Orderly past a)
include h

/-- No certificate that was ever stored has the next serial. -/
theorem Orderly.ne_nextId (hc : StoredAt (past ++ [a]) c) :
    c.serial.id ≠ a.serials.nextId := by
  obtain ⟨s, hs, -⟩ := h.recorded c hc
  exact SerialLedger.get?_ne_nextId hs

/-- Revoked are the serials of the certificates that were replaced. -/
theorem Orderly.exists_revoked_iff {id : Nat} :
    (∃ s, a.serials.get? id = some s ∧ s.revoked = true) ↔
      ∃ c, StoredAt (past ++ [a]) c ∧ c.serial.id = id ∧ a.current? c.role ≠ some c := by
  constructor
  · rintro ⟨s, hs, hrevoked⟩
    exact (h.revoked id s hs).1 hrevoked
  · rintro ⟨c, hc, rfl, hnot⟩
    obtain ⟨s, hs, -⟩ := h.recorded c hc
    exact ⟨s, hs, (h.revoked _ s hs).2 ⟨c, hc, rfl, hnot⟩⟩

theorem Orderly.grows_snoc {l : SerialLedger} (hgrows : SerialLedger.Grows a.serials l) :
    ∀ m ∈ past ++ [a], SerialLedger.Grows m.serials l := by
  intro m hm
  rcases List.mem_append.1 hm with hm | hm
  · exact (h.grows m hm).trans hgrows
  · rw [List.mem_singleton.1 hm]
    exact hgrows

theorem Orderly.issued_snoc (hc : StoredAt (past ++ [a]) c) :
    ∃ m ∈ past ++ [a], IssuedFrom m c := by
  obtain ⟨m, hm, hissued⟩ := h.issued c hc
  exact ⟨m, List.mem_append_left _ hm, hissued⟩

theorem Orderly.recorded_of_grows {l : SerialLedger} (hgrows : SerialLedger.Grows a.serials l)
    (hc : StoredAt (past ++ [a]) c) :
    ∃ s, l.get? c.serial.id = some s ∧ s.expiration = c.serial.expiration := by
  obtain ⟨s, hs, hexpiration⟩ := h.recorded c hc
  obtain ⟨s', hs', hexpiration', -⟩ := hgrows.kept _ s hs
  exact ⟨s', hs', hexpiration'.trans hexpiration⟩

/-- What the ledger gained is all that changed. -/
theorem Orderly.step_of_same {l : SerialLedger} (hgrows : SerialLedger.Grows a.serials l)
    (hserials : b.serials = l) (hcertificates : b.certificates = a.certificates)
    (hrevoked : ∀ id s, l.get? id = some s →
      (s.revoked = true ↔ ∃ s', a.serials.get? id = some s' ∧ s'.revoked = true)) :
    Orderly (past ++ [a]) b := by
  have hcurrent : ∀ role, b.current? role = a.current? role := by
    intro role
    rw [current?, hcertificates, current?]
  have hstored : ∀ {c}, StoredAt (past ++ [a] ++ [b]) c ↔ StoredAt (past ++ [a]) c := by
    intro c
    rw [storedAt_snoc]
    refine or_iff_left_of_imp ?_
    rintro ⟨role, hrole⟩
    rw [hcurrent] at hrole
    exact storedAt_snoc.2 (.inr ⟨role, hrole⟩)
  subst hserials
  exact {
    grows := h.grows_snoc hgrows
    increasing := hgrows.increasing h.increasing
    roles := by
      intro role c hc
      rw [hcurrent] at hc
      exact h.roles role c hc
    replaced := by
      intro c hc
      rw [hcurrent]
      exact h.replaced c (hstored.1 hc)
    issued := fun c hc => h.issued_snoc (hstored.1 hc)
    recorded := fun c hc => h.recorded_of_grows hgrows (hstored.1 hc)
    distinct := fun c c' hc hc' => h.distinct c c' (hstored.1 hc) (hstored.1 hc')
    revoked := by
      intro id s hs
      rw [hrevoked id s hs, h.exists_revoked_iff]
      simp only [hstored, hcurrent] }

section Issued

variable {fresh : IssuedCertificate} (hfresh : IssuedFrom a fresh)
  (hserials : b.serials = ledgerAfter a fresh)
  (hcertificates : b.certificates =
    (a.certificates.put fresh.role.kind fresh.role.subject fresh).2)

include hfresh

/-- The serials of certificates that were stored before are told apart from that of the new one. -/
theorem Orderly.ne_fresh (hc : StoredAt (past ++ [a]) c) : c.serial.id ≠ fresh.serial.id := by
  have hnext : fresh.serial.id = a.serials.nextId := by rw [hfresh.serial]
  rw [hnext]
  exact h.ne_nextId hc

theorem Orderly.distinct_fresh {c' : IssuedCertificate}
    (hc : StoredAt (past ++ [a]) c ∨ c = fresh) (hc' : StoredAt (past ++ [a]) c' ∨ c' = fresh)
    (hid : c.serial.id = c'.serial.id) : c = c' := by
  rcases hc with hc | rfl <;> rcases hc' with hc' | rfl
  · exact h.distinct c c' hc hc' hid
  · exact absurd hid (h.ne_fresh hfresh hc)
  · exact absurd hid.symm (h.ne_fresh hfresh hc')
  · rfl

omit h in
theorem recorded_fresh :
    ∃ s, (ledgerAfter a fresh).get? fresh.serial.id = some s ∧
      s.expiration = fresh.serial.expiration := by
  have hentered : (a.serials.allocate fresh.serial.expiration).2.get? fresh.serial.id =
      some (a.serials.allocate fresh.serial.expiration).1 := by
    have hnext : fresh.serial.id = a.serials.nextId := by rw [hfresh.serial]
    rw [hnext, get?_allocate_self]
  obtain ⟨s, hs, hexpiration, -⟩ := (grows_retired a fresh).kept _ _ hentered
  exact ⟨s, hs, hexpiration⟩

include hcertificates in
/-- Replaced is what was, and what the new certificate has taken the place of. -/
theorem Orderly.replaced_iff {id : Nat} :
    (∃ c, StoredAt (past ++ [a] ++ [b]) c ∧ c.serial.id = id ∧ b.current? c.role ≠ some c) ↔
      (∃ c, StoredAt (past ++ [a]) c ∧ c.serial.id = id ∧ a.current? c.role ≠ some c) ∨
        ∃ previous, a.current? fresh.role = some previous ∧ previous.serial.id = id := by
  have hcurrent := current?_of_put hcertificates
  constructor
  · rintro ⟨c, hc, hid, hnot⟩
    rw [hcurrent] at hnot
    split at hnot
    · rename_i hrole
      rcases (storedAt_of_put hcertificates).1 hc with hc | rfl
      · by_cases hwas : a.current? c.role = some c
        · exact .inr ⟨c, hrole ▸ hwas, hid⟩
        · exact .inl ⟨c, hc, hid, hwas⟩
      · exact absurd rfl hnot
    · rename_i hrole
      rcases (storedAt_of_put hcertificates).1 hc with hc | rfl
      · exact .inl ⟨c, hc, hid, hnot⟩
      · exact absurd rfl hrole
  · -- neither of them is the new certificate
    have hother : ∀ {c}, StoredAt (past ++ [a]) c → some fresh ≠ some c := fun hc heq =>
      h.ne_fresh hfresh hc (by rw [Option.some.inj heq])
    rintro (⟨c, hc, hid, hnot⟩ | ⟨previous, hprevious, hid⟩)
    · refine ⟨c, (storedAt_of_put hcertificates).2 (.inl hc), hid, ?_⟩
      rw [hcurrent]
      split
      · exact hother hc
      · exact hnot
    · have hc : StoredAt (past ++ [a]) previous := storedAt_snoc.2 (.inr ⟨_, hprevious⟩)
      refine ⟨previous, (storedAt_of_put hcertificates).2 (.inl hc), hid, ?_⟩
      rw [h.roles _ previous hprevious, hcurrent, if_pos rfl]
      exact hother hc

include hserials hcertificates

/-- A fresh certificate has the next serial, and the serial of the one that it replaces is
revoked. -/
theorem Orderly.step_of_issued : Orderly (past ++ [a]) b := by
  have hcurrent := current?_of_put hcertificates
  have hstored : ∀ {c}, StoredAt (past ++ [a] ++ [b]) c ↔
      StoredAt (past ++ [a]) c ∨ c = fresh := storedAt_of_put hcertificates
  have hgrows : SerialLedger.Grows a.serials b.serials := hserials ▸ grows_ledgerAfter a fresh
  exact {
    grows := h.grows_snoc hgrows
    increasing := hgrows.increasing h.increasing
    roles := by
      intro role c hc
      rw [hcurrent] at hc
      split at hc
      · rename_i hrole
        rw [← Option.some.inj hc, hrole]
      · exact h.roles role c hc
    replaced := by
      intro c hc
      rw [hcurrent]
      split
      · exact ⟨fresh, rfl⟩
      · rename_i hrole
        rcases hstored.1 hc with hc | rfl
        · exact h.replaced c hc
        · exact absurd rfl hrole
    issued := by
      intro c hc
      rcases hstored.1 hc with hc | rfl
      · exact h.issued_snoc hc
      · exact ⟨a, List.mem_append_right _ List.mem_cons_self, hfresh⟩
    recorded := by
      intro c hc
      rcases hstored.1 hc with hc | rfl
      · exact h.recorded_of_grows hgrows hc
      · exact hserials ▸ recorded_fresh hfresh
    distinct := fun c c' hc hc' => h.distinct_fresh hfresh (hstored.1 hc) (hstored.1 hc')
    revoked := by
      intro id s hs
      rw [hserials] at hs
      rw [revoked_ledgerAfter hs, h.replaced_iff hfresh hcertificates, h.exists_revoked_iff] }

end Issued

/-- **A turn keeps everything in order.** -/
theorem Orderly.turn (hturn : Turn a b) : Orderly (past ++ [a]) b := by
  cases hturn with
  | kept hsame =>
    exact h.step_of_same (.refl _) hsame.serials hsame.certificates
      fun id s hs => SerialLedger.revoked_iff hs
  | lost expiration hserials hcertificates =>
    exact h.step_of_same (SerialLedger.grows_allocate expiration _) hserials hcertificates
      fun id s hs => SerialLedger.revoked_allocate hs
  | issued fresh hfresh hserials hcertificates =>
    exact h.step_of_issued hfresh hserials hcertificates

/-- What holds at the beginning of a chain of turns holds at each of its moments. -/
theorem Orderly.chain {mid future : List Authority}
    (hchain : List.IsChain Turn (a :: (mid ++ b :: future))) :
    Orderly (past ++ a :: mid) b := by
  induction mid generalizing past a with
  | nil => exact h.turn (List.isChain_cons_cons.1 hchain).1
  | cons m mid ih =>
    obtain ⟨hturn, hrest⟩ := List.isChain_cons_cons.1 hchain
    have hnext := ih (h.turn hturn) hrest
    rwa [List.append_assoc] at hnext

end Step

/-! ### Runs -/

theorem standing_ne_superseded (hrevoked : a.isRevoked c = false) (now : Instant) :
    a.standing c now ≠ .ok .superseded := by
  unfold standing
  rw [hrevoked, if_neg Bool.false_ne_true]
  split
  · exact fun h => nomatch h
  · cases a.isDirty c with
    | error e => exact fun h => nomatch h
    | ok dirty => cases dirty <;> exact fun h => nomatch h

/-- A certificate whose serial is not revoked is not superseded. -/
theorem state_ne_superseded {role : Role}
    (hrevoked : ∀ c, a.current? role = some c → a.isRevoked c = false) (now : Instant) :
    a.state role now ≠ .ok .superseded := by
  unfold state
  cases hc : a.current? role with
  | none => exact fun h => nomatch h
  | some c =>
    have hstanding := standing_ne_superseded (hrevoked c hc) now
    dsimp only
    split
    · cases a.directory.consumer role.subject with
      | error e => exact fun h => nomatch h
      | ok consumer =>
        show (if c.environmentIds ≠ consumer.environmentIds then _ else _) ≠ _
        split
        · exact fun h => nomatch h
        · exact hstanding
    · exact hstanding

/-- What can be seen of serials and certificates in a state `a` that came after the states `past`.
-/
structure SerialsKept (past : List Authority) (a : Authority) : Prop where
  /-- No serial has the number of another, and a later one has a larger one. -/
  increasing : (a.serials.serials.map (·.id)).Pairwise (· < ·)
  appended : ∀ b ∈ past, b.serials.serials.map (·.id) <+: a.serials.serials.map (·.id)
  /-- A certificate has the number of a serial that was entered before it was signed. -/
  issued : ∀ c, StoredAt (past ++ [a]) c → ∃ b ∈ past, IssuedFrom b c
  recorded : ∀ c, StoredAt (past ++ [a]) c → ∃ s, a.serials.get? c.serial.id = some s ∧
    s.expiration = c.certificate.certificate.validity.notAfter
  distinct : ∀ c c', StoredAt (past ++ [a]) c → StoredAt (past ++ [a]) c' →
    c.serial.id = c'.serial.id → c = c'
  /-- The certificates that count are not revoked. -/
  current : ∀ role c, a.current? role = some c →
    ∃ s, a.serials.get? c.serial.id = some s ∧ s.revoked = false
  neverSuperseded : ∀ role now, a.state role now ≠ .ok .superseded
  /-- Those that were replaced are, and nothing else. -/
  revoked : ∀ id, id ∈ a.serials.revoked.map (·.id) ↔
    ∃ b ∈ past, ∃ role c c', b.current? role = some c ∧ c.serial.id = id ∧
      a.current? role = some c' ∧ c'.serial.id ≠ id

/-- A certificate that is stored has not been replaced. -/
theorem Orderly.not_revoked (h : Orderly past a) {role : Role} (hc : a.current? role = some c)
    {s : Serial} (hs : a.serials.get? c.serial.id = some s) : s.revoked = false := by
  have hstored : StoredAt (past ++ [a]) c := storedAt_snoc.2 (.inr ⟨role, hc⟩)
  refine Bool.eq_false_iff.2 fun hrevoked => ?_
  obtain ⟨c', hc', hid, hnot⟩ := (h.revoked _ s hs).1 hrevoked
  obtain rfl := h.distinct c' c hc' hstored hid
  rw [h.roles role c' hc] at hnot
  exact hnot hc

theorem Orderly.mem_revoked (h : Orderly past a) {id : Nat} :
    id ∈ a.serials.revoked.map (·.id) ↔
      ∃ c, StoredAt (past ++ [a]) c ∧ c.serial.id = id ∧ a.current? c.role ≠ some c := by
  rw [List.mem_map, ← h.exists_revoked_iff]
  constructor
  · rintro ⟨s, hs, rfl⟩
    exact ⟨s, SerialLedger.mem_revoked.1 hs⟩
  · rintro ⟨s, hs, hrevoked⟩
    have hid := SerialLedger.id_of_get? hs
    exact ⟨s, SerialLedger.mem_revoked.2 ⟨by rw [hid, hs], hrevoked⟩, hid⟩

/-- A state in order keeps its promises. The states before it have to be in order as well, since a
certificate was stored under its own role. -/
theorem Orderly.serialsKept (h : Orderly past a)
    (hpast : ∀ b ∈ past, ∀ role c, b.current? role = some c → c.role = role) :
    SerialsKept past a := by
  have hcurrent : ∀ role c, a.current? role = some c →
      ∃ s, a.serials.get? c.serial.id = some s ∧ s.revoked = false := by
    intro role c hc
    obtain ⟨s, hs, -⟩ := h.recorded c (storedAt_snoc.2 (.inr ⟨role, hc⟩))
    exact ⟨s, hs, h.not_revoked hc hs⟩
  refine ⟨h.increasing, ?_, h.issued, ?_, h.distinct, hcurrent, ?_, ?_⟩
  · exact fun b hb => (h.grows b hb).appended
  · intro c hc
    obtain ⟨b, -, hissued⟩ := h.issued c hc
    obtain ⟨s, hs, hexpiration⟩ := h.recorded c hc
    refine ⟨s, hs, ?_⟩
    rw [hexpiration, hissued.serial]
  · intro role now
    refine state_ne_superseded ?_ now
    intro c hc
    obtain ⟨s, hs, hrevoked⟩ := hcurrent role c hc
    rw [isRevoked, hs]
    exact hrevoked
  · intro id
    rw [h.mem_revoked]
    constructor
    · rintro ⟨c, hc, rfl, hnot⟩
      obtain ⟨⟨b, hb, role, hrole⟩, c', hc', hid⟩ := h.exists_successor hc hnot
      rw [hpast b hb role c hrole] at hc'
      exact ⟨b, hb, role, c, c', hrole, rfl, hc', hid⟩
    · rintro ⟨b, hb, role, c, c', hc, rfl, hc', hid⟩
      refine ⟨c, storedAt_append.2 (.inl ⟨b, hb, role, hc⟩), rfl, ?_⟩
      rw [hpast b hb role c hc, hc']
      intro heq
      exact hid (by rw [Option.some.inj heq])

section Run

variable {cryptography : Cryptography} {config : Config} {now₀ : Instant} {start : Authority}
  {run : List (Instant × Operation)}
  {future : List Authority}

/-- Every moment of a run is in order. -/
theorem orderly_of_run (hstart : create cryptography config now₀ = .ok start)
    (hrun : ∀ x ∈ run, x.2.IsOrdinary) (hmoment : start :: later run start = past ++ a :: future) :
    Orderly past a := by
  have hempty : Orderly [] start := .of_isNew (.of_create hstart)
  have hchain := later_chain (Consistent.of_create hstart) hrun
  cases past with
  | nil =>
    obtain ⟨rfl, -⟩ := List.cons.inj hmoment
    exact hempty
  | cons first past =>
    obtain ⟨rfl, hlater⟩ := List.cons.inj hmoment
    rw [hlater] at hchain
    exact hempty.chain hchain

/-- **Serials and certificates agree at every moment of a run.** -/
theorem serials_of_run (hstart : create cryptography config now₀ = .ok start)
    (hrun : ∀ x ∈ run, x.2.IsOrdinary) (hmoment : start :: later run start = past ++ a :: future) :
    SerialsKept past a := by
  refine (orderly_of_run hstart hrun hmoment).serialsKept ?_
  intro b hb
  obtain ⟨before, after, rfl⟩ := List.append_of_mem hb
  rw [List.append_assoc] at hmoment
  exact (orderly_of_run hstart hrun hmoment).roles

end Run

/-! ### A consumer that gets a new identity -/

/-- The role of its certificates. -/
def identityRole : Role := ⟨.identity, "sample-consumer"⟩

/-- What they are issued from. -/
def identityChanges : List DirectoryChange :=
  [.addOwner (Sample.owner ⟨0, 0⟩), .addConsumer (Sample.consumer "uuid" false ⟨0, 0⟩)]

/-- The directory with those records. -/
def identityDirectory : Directory :=
  identityChanges.foldl (fun d c => c.apply d) Directory.empty

/-- The consumer gets an identity certificate and then another one. -/
def identityRun : List (Instant × Operation) :=
  identityChanges.map (fun c => (⟨0, 0⟩, .change c)) ++
    [(⟨0, 0⟩, .regenerate identityRole false), (⟨0, 0⟩, .regenerate identityRole false)]

/-- The identity certificate can be issued from those records. -/
theorem exists_issued_identity (hconfig : a.config = {})
    (hdirectory : a.directory = identityDirectory) :
    ∃ fresh b, issue identityRole ⟨0, 0⟩ a = (.ok fresh, b) ∧ fresh.role = identityRole ∧
      fresh.serial.id = a.serials.nextId ∧ b.config = {} ∧ b.directory = identityDirectory := by
  obtain ⟨p, hplan, hrole, hsubject, hkey, hrange⟩ : ∃ p,
      identityPlan {} identityDirectory "sample-consumer" ⟨0, 0⟩ = .ok p ∧
        p.role = identityRole ∧
        validateSubject p.subject p.alternateName p.validity = .ok () ∧
        Text.isBlank p.keySubject = false ∧ p.validity.checkRange = .ok () :=
    ⟨_, rfl, rfl, rfl, rfl, rfl⟩
  have hread : plan identityRole ⟨0, 0⟩ a = (.ok p, a) := by
    show (identityPlan a.config a.directory "sample-consumer" _, _) = _
    rw [hconfig, hdirectory, hplan]
  obtain ⟨fresh, b, hsign⟩ := sign_ok hsubject hkey hrange ⟨0, 0⟩ a
  have hissue : issue identityRole ⟨0, 0⟩ a = (.ok fresh, b) := by
    unfold issue
    rw [Request.bind_ok hread]
    exact hsign
  obtain ⟨key, keys, rfl, rfl⟩ := sign_eq_ok hsign
  exact ⟨_, _, hissue, hrole, rfl, hconfig, hdirectory⟩

/-- The consumer gets an identity certificate whenever it asks. -/
theorem regenerate_identity (ha : a.Consistent) (hconfig : a.config = {})
    (hdirectory : a.directory = identityDirectory) :
    ∃ fresh b, Operation.apply ⟨0, 0⟩ (.regenerate identityRole false) a = b ∧
      b.config = {} ∧ b.directory = identityDirectory ∧ b.current? identityRole = some fresh ∧
      fresh.serial.id = a.serials.nextId := by
  obtain ⟨fresh, b, hissue, hrole, hid, hconfig', hdirectory'⟩ :=
    exists_issued_identity hconfig hdirectory
  have happly : Operation.apply ⟨0, 0⟩ (.regenerate identityRole false) a = b.superseded fresh := by
    show (renew identityRole ⟨0, 0⟩ a).2 = _
    unfold renew
    rw [Request.bind_ok (Request.get_apply _ a), Request.bind_ok (Request.attempt_apply _ a),
      hissue]
    dsimp only
    rw [Request.map_state, supersede_after_issue ha hissue]
  refine ⟨fresh, _, happly, hconfig', ?_, ?_, hid⟩
  · show (if fresh.role.kind = .entitlement then _ else b.directory) = _
    rw [hrole, if_neg (fun h => nomatch h), hdirectory']
  · refine (current?_of_put rfl identityRole).trans ?_
    rw [if_pos hrole]

/-- The certificate that is replaced has the first serial, which is revoked from then on. -/
theorem serials_of_identityRun : ∃ start a past, create .numbered {} ⟨0, 0⟩ = .ok start ∧
    (∀ x ∈ identityRun, x.2.IsOrdinary) ∧ start :: later identityRun start = past ++ [a] ∧
    SerialsKept past a ∧ 1 ∈ a.serials.revoked.map (·.id) := by
  obtain ⟨start, hstart, hconfig, hdirectory, -⟩ := exists_start
  have hrun : ∀ x ∈ identityRun, x.2.IsOrdinary := by
    simp [identityRun, identityChanges, Operation.IsOrdinary]
  let stocked : Authority :=
    { start with directory := identityChanges.foldl (fun d c => c.apply d) start.directory }
  have hrecords : stocked.directory = identityDirectory := by
    show List.foldl _ start.directory _ = _
    rw [hdirectory]
    rfl
  have hstocked : stocked.Consistent :=
    ((Reachable.of_create hstart).changes identityChanges).consistent
  obtain ⟨c, b, hb, hconfig', hdirectory', hc, hid⟩ :=
    regenerate_identity hstocked hconfig hrecords
  have hconsistent : b.Consistent := by
    rw [← hb]
    exact (Operation.apply_leads _ _ _).consistent hstocked
  obtain ⟨c', a, ha, -, -, hc', hid'⟩ := regenerate_identity hconsistent hconfig' hdirectory'
  have hmoments : ∃ first, start :: later identityRun start =
      [start, first, stocked, b] ++ [a] := by
    rw [← ha, ← hb]
    exact ⟨_, rfl⟩
  obtain ⟨first, hmoments⟩ := hmoments
  have hkept := serials_of_run hstart hrun hmoments
  refine ⟨start, a, _, hstart, hrun, hmoments, hkept, ?_⟩
  have hone : c.serial.id = 1 := by
    rw [hid]
    show start.serials.nextId = 1
    rw [(IsNew.of_create hstart).serials]
    rfl
  refine (hkept.revoked 1).2 ⟨b, by simp, identityRole, c, c', hc, hone, hc', ?_⟩
  obtain ⟨s, hs⟩ := hconsistent.serials _ _ _ hc
  rw [hid', ← hone]
  exact (SerialLedger.get?_ne_nextId hs).symm

end Authority

end EntitlementAuthority
