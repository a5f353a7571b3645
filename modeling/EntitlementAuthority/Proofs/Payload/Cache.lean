import EntitlementAuthority.Payload.Cache

/-!
# Payload rows always come to something

With rows in a table, every request on the payload cache ends with a row.

* `PayloadCache.settle_result` — a new row is stored unless there is one for its key.
* `PayloadCache.finish_ok` — then the row that was there is answered.
* `PayloadCache.consult_of_none`, `PayloadCache.finish_of_none`, … — what a request does that nobody
  races with.
-/

namespace EntitlementAuthority.PayloadCache

variable (row : PayloadRow) (c : PayloadCache PayloadRows)

theorem count_eq (f : CacheCounts → CacheCounts) :
    count f c = (.ok (), { c with counts := f c.counts }) := rfl

theorem createUnique_eq :
    onStore (PayloadStore.createUnique row) c =
      (.ok (PayloadRows.createUnique row c.store).1,
        { c with store := (PayloadRows.createUnique row c.store).2 }) := rfl

/-- A new row is stored, or another one for its key is in the way. -/
theorem settle_result :
    ∃ counts, settle false row c =
      (.ok (if (PayloadRows.createUnique row c.store).1 then .stored row else .conflict),
        { store := (PayloadRows.createUnique row c.store).2, counts }) := by
  unfold settle
  rw [if_neg Bool.false_ne_true, Request.bind_ok (count_eq c _),
    Request.bind_ok (createUnique_eq row _)]
  dsimp only
  cases (PayloadRows.createUnique row c.store).1 with
  | true => exact ⟨_, rfl⟩
  | false => exact ⟨_, rfl⟩

/-- A row in the way is still there when it is read back. -/
theorem readBack_of_some {ownerId key : String} {other : PayloadRow}
    (h : c.store.get? (ownerId, key) = some other) : readBack ownerId key c = (.ok other, c) := by
  have hget : get ownerId key c = (.ok (some other), c) := by
    show (Except.ok (c.store.get? (ownerId, key)), c) = _
    rw [h]
  unfold readBack
  rw [Request.bind_ok hget]
  rfl

/-- Whether another row is in the way or not, one that counts is answered. -/
theorem finish_ok (wasStale : Bool) :
    ∃ answer c', finish wasStale row c = (.ok answer, c') := by
  cases wasStale with
  | true => exact ⟨row, _, rfl⟩
  | false =>
    obtain ⟨counts, hsettle⟩ := settle_result row c
    unfold finish
    rw [Request.bind_ok hsettle]
    cases hcreate : (PayloadRows.createUnique row c.store).1 with
    | true => exact ⟨row, _, rfl⟩
    | false =>
      cases hrow : c.store.get? (row.ownerId, row.key) with
      | none =>
        rw [PayloadRows.createUnique, Table.contains, hrow] at hcreate
        cases hcreate
      | some other =>
        have hstore : (PayloadRows.createUnique row c.store).2 = c.store := by
          rw [PayloadRows.createUnique, Table.contains, hrow]
          rfl
        rw [hstore]
        exact ⟨other, _, readBack_of_some { store := c.store, counts } hrow⟩

theorem consult_ok (owner : Owner) (key : String) (environments : List Environment) :
    ∃ found c', consult owner key environments c = (.ok found, c') := by
  have hget : get owner.id key c = (.ok (c.store.get? (owner.id, key)), c) := rfl
  unfold consult
  rw [Request.bind_ok hget]
  cases c.store.get? (owner.id, key) with
  | none => exact ⟨.absent, c, rfl⟩
  | some row =>
    dsimp only
    by_cases hstale : row.isStale owner environments = true
    · rw [if_pos hstale]
      exact ⟨.stale, c, rfl⟩
    · rw [if_neg hstale]
      exact ⟨.fresh row, _, rfl⟩

/-! ### Requests that nobody races with -/

section Alone

variable {row c} {owner : Owner} {key : String} {environments : List Environment}
  {other : PayloadRow}

theorem consult_of_none (h : c.store.get? (owner.id, key) = none) :
    consult owner key environments c = (.ok .absent, c) := by
  have hget : get owner.id key c = (.ok (c.store.get? (owner.id, key)), c) := rfl
  unfold consult
  rw [Request.bind_ok hget, h]
  rfl

theorem consult_of_stale (h : c.store.get? (owner.id, key) = some other)
    (hstale : other.isStale owner environments = true) :
    consult owner key environments c = (.ok .stale, c) := by
  have hget : get owner.id key c = (.ok (c.store.get? (owner.id, key)), c) := rfl
  unfold consult
  rw [Request.bind_ok hget, h]
  dsimp only
  rw [if_pos hstale]
  rfl

theorem consult_of_fresh (h : c.store.get? (owner.id, key) = some other)
    (hfresh : other.isStale owner environments = false) :
    ∃ counts, consult owner key environments c = (.ok (.fresh other), { c with counts }) := by
  have hget : get owner.id key c = (.ok (c.store.get? (owner.id, key)), c) := rfl
  unfold consult
  rw [Request.bind_ok hget, h]
  dsimp only
  rw [hfresh, if_neg Bool.false_ne_true]
  exact ⟨_, rfl⟩

/-- A new row is stored where there was none. -/
theorem finish_of_none (h : c.store.get? (row.ownerId, row.key) = none) :
    ∃ counts, finish false row c =
      (.ok row, { store := c.store.insert (row.ownerId, row.key) row, counts }) := by
  have hcreate : PayloadRows.createUnique row c.store =
      (true, c.store.insert (row.ownerId, row.key) row) := by
    rw [PayloadRows.createUnique, Table.contains, h]
    rfl
  obtain ⟨counts, hsettle⟩ := settle_result row c
  rw [hcreate] at hsettle
  unfold finish
  rw [Request.bind_ok hsettle]
  exact ⟨counts, rfl⟩

/-- A new row is stored in the place of a stale one. -/
theorem finish_of_stale (row : PayloadRow) (c : PayloadCache PayloadRows) :
    ∃ counts, finish true row c =
      (.ok row, { store := c.store.insert (row.ownerId, row.key) row, counts }) :=
  ⟨_, rfl⟩

end Alone

end EntitlementAuthority.PayloadCache
