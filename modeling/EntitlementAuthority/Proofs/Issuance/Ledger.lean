import EntitlementAuthority.Issuance.SerialLedger
import Mathlib.Data.List.Basic

/-!
# Ledgers that grow

Serials are added to a ledger, and stay.

* `SerialLedger.Grows` — one ledger is what another one may become.
* `SerialLedger.grows_allocate`, `SerialLedger.grows_markRevoked` — every change makes it grow.
-/

namespace EntitlementAuthority

namespace SerialLedger

variable {l l' l'' : SerialLedger} {id : Nat} {s : Serial}

/-- The numbers of all serials, the one first that was entered first. -/
def ids (l : SerialLedger) : List Nat :=
  l.serials.map (·.id)

/-- Serials are added behind the others and stay under their numbers, and what is revoked stays
revoked. -/
structure Grows (l l' : SerialLedger) : Prop where
  nextId_le : l.nextId ≤ l'.nextId
  kept : ∀ id s, l.get? id = some s → ∃ s', l'.get? id = some s' ∧
    s'.expiration = s.expiration ∧ (s.revoked = true → s'.revoked = true)
  appended : l.ids <+: l'.ids
  increasing : l.ids.Pairwise (· < ·) → l'.ids.Pairwise (· < ·)

namespace Grows

theorem refl (l : SerialLedger) : Grows l l :=
  ⟨Nat.le_refl _, fun _ s hs => ⟨s, hs, rfl, fun h => h⟩, List.prefix_rfl, fun h => h⟩

theorem trans (h : Grows l l') (h' : Grows l' l'') : Grows l l'' := by
  refine ⟨Nat.le_trans h.nextId_le h'.nextId_le, ?_, h.appended.trans h'.appended,
    fun hl => h'.increasing (h.increasing hl)⟩
  intro id s hs
  obtain ⟨s', hs', hexpiration', hrevoked'⟩ := h.kept id s hs
  obtain ⟨s'', hs'', hexpiration'', hrevoked''⟩ := h'.kept id s' hs'
  exact ⟨s'', hs'', hexpiration''.trans hexpiration', fun h => hrevoked'' (hrevoked' h)⟩

end Grows

theorem id_of_get? (h : l.get? id = some s) : s.id = id :=
  l.id_eq id s h

theorem get?_ne_nextId (h : l.get? id = some s) : id ≠ l.nextId :=
  Nat.ne_of_lt (l.lt_nextId id s h)

theorem lt_nextId_of_mem_ids (h : id ∈ l.ids) : id < l.nextId := by
  obtain ⟨s, hs, rfl⟩ := List.mem_map.1 h
  obtain ⟨id, hid⟩ := Table.mem_values_iff.1 hs
  rw [l.id_eq id s hid]
  exact l.lt_nextId id s hid

/-- The number of a new serial comes last. -/
theorem ids_allocate (expiration : Instant) (l : SerialLedger) :
    (l.allocate expiration).2.ids = l.ids ++ [l.nextId] := by
  have hnew : l.nextId ∉ l.entries.entries.map Prod.fst := by
    intro hmem
    obtain ⟨s, hs⟩ := Option.isSome_iff_exists.1 (Table.contains_iff_mem_keys.2 hmem)
    exact get?_ne_nextId hs rfl
  rw [ids, serials, allocate, Table.values, Table.entries_insert_of_notMem hnew, List.map_append,
    List.map_append]
  rfl

theorem ids_markRevoked (id : Nat) (l : SerialLedger) : (l.markRevoked id).ids = l.ids := by
  simp only [ids, serials, markRevoked, Table.values, Table.adjust, List.map_map]
  refine List.map_congr_left fun e _ => ?_
  simp only [Function.comp_apply]
  split <;> rfl

theorem grows_allocate (expiration : Instant) (l : SerialLedger) :
    Grows l (l.allocate expiration).2 := by
  refine ⟨Nat.le_succ l.nextId, ?_, ?_, ?_⟩
  · intro id s hs
    refine ⟨s, ?_, rfl, fun h => h⟩
    rw [get?_allocate, if_neg (get?_ne_nextId hs), hs]
  · rw [ids_allocate]
    exact List.prefix_append _ _
  · intro hl
    rw [ids_allocate, List.pairwise_append]
    refine ⟨hl, List.pairwise_singleton _ _, fun id hid next hnext => ?_⟩
    rw [List.mem_singleton.1 hnext]
    exact lt_nextId_of_mem_ids hid

theorem grows_markRevoked (id : Nat) (l : SerialLedger) : Grows l (l.markRevoked id) := by
  refine ⟨Nat.le_refl _, ?_, ?_, ?_⟩
  · intro id' s hs
    rw [get?_markRevoked, hs]
    split
    · exact ⟨_, rfl, rfl, fun _ => rfl⟩
    · exact ⟨s, rfl, rfl, fun h => h⟩
  · exact (ids_markRevoked id l).symm ▸ List.prefix_rfl
  · intro hl
    rwa [ids_markRevoked]

theorem revoked_iff (h : l.get? id = some s) :
    s.revoked = true ↔ ∃ s', l.get? id = some s' ∧ s'.revoked = true := by
  rw [h]
  simp only [Option.some.injEq, exists_eq_left']

/-- Allocating a serial revokes none. -/
theorem revoked_allocate {expiration : Instant} (h : (l.allocate expiration).2.get? id = some s) :
    s.revoked = true ↔ ∃ s', l.get? id = some s' ∧ s'.revoked = true := by
  rw [get?_allocate] at h
  split at h
  · rename_i hid
    rw [← Option.some.inj h, hid]
    refine iff_of_false Bool.false_ne_true ?_
    rintro ⟨s', hs', -⟩
    exact get?_ne_nextId hs' rfl
  · exact revoked_iff h

/-- The revoked serials are listed. -/
theorem mem_revoked : s ∈ l.revoked ↔ l.get? s.id = some s ∧ s.revoked = true := by
  rw [revoked, List.mem_mergeSort, List.mem_filter]
  refine and_congr_left fun _ => ?_
  rw [serials, Table.mem_values_iff]
  constructor
  · rintro ⟨id, hs⟩
    rw [l.id_eq id s hs]
    exact hs
  · exact fun hs => ⟨s.id, hs⟩

end SerialLedger

end EntitlementAuthority
