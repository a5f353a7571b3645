/-!
# Tables

A table holds at most one value for a key. Its entries stand in the order in which their keys
were first put in.

* `Table` — the entries, and that no key occurs twice.
* `Table.get?` — the view of a table; `get?_insert`, `get?_erase`, `get?_adjust` and `get?_filter`
  say what the operations do to it.
-/

namespace EntitlementAuthority

/-- A finite map from keys to values. -/
structure Table (κ α : Type) where
  entries : List (κ × α)
  keys_nodup : (entries.map Prod.fst).Nodup

namespace Table

variable {κ α : Type}

/-- The table without entries. -/
def empty : Table κ α :=
  ⟨[], List.nodup_nil⟩

instance : Inhabited (Table κ α) := ⟨empty⟩

/-- The keys, oldest first. -/
def keys (t : Table κ α) : List κ :=
  t.entries.map Prod.fst

/-- The values, those of the oldest keys first. -/
def values (t : Table κ α) : List α :=
  t.entries.map Prod.snd

/-- How many keys there are. -/
def size (t : Table κ α) : Nat :=
  t.entries.length

variable [DecidableEq κ]

/-- The value that a list of entries has for a key. -/
def lookupEntry (k : κ) : List (κ × α) → Option α
  | [] => none
  | e :: es => if e.1 = k then some e.2 else lookupEntry k es

/-- The value of a key. -/
def get? (t : Table κ α) (k : κ) : Option α :=
  lookupEntry k t.entries

/-- Whether a key has a value. -/
def contains (t : Table κ α) (k : κ) : Bool :=
  (t.get? k).isSome

/-- Puts a value in the place of its key, or at the end. -/
def insertEntry (k : κ) (v : α) : List (κ × α) → List (κ × α)
  | [] => [(k, v)]
  | e :: es => if e.1 = k then (k, v) :: es else e :: insertEntry k v es

theorem mem_keys_insertEntry {k k' : κ} {v : α} {es : List (κ × α)} :
    k' ∈ (insertEntry k v es).map Prod.fst ↔ k' = k ∨ k' ∈ es.map Prod.fst := by
  induction es with
  | nil => simp [insertEntry]
  | cons e es ih =>
    unfold insertEntry
    split
    · rename_i he
      subst he
      simp
    · simp only [List.map_cons, List.mem_cons, ih]
      exact or_left_comm

theorem keys_insertEntry_nodup {k : κ} {v : α} {es : List (κ × α)}
    (h : (es.map Prod.fst).Nodup) : ((insertEntry k v es).map Prod.fst).Nodup := by
  induction es with
  | nil => simp [insertEntry]
  | cons e es ih =>
    rw [List.map_cons, List.nodup_cons] at h
    unfold insertEntry
    split
    · rename_i he
      subst he
      simpa using h
    · rename_i he
      rw [List.map_cons, List.nodup_cons]
      refine ⟨?_, ih h.2⟩
      rw [mem_keys_insertEntry]
      exact not_or.2 ⟨he, h.1⟩

/-- Gives a key a value, in the place of the one it had. -/
def insert (t : Table κ α) (k : κ) (v : α) : Table κ α :=
  ⟨insertEntry k v t.entries, keys_insertEntry_nodup t.keys_nodup⟩

/-- Keeps the entries that a test accepts. -/
def filter (p : κ → α → Bool) (t : Table κ α) : Table κ α :=
  ⟨t.entries.filter fun e => p e.1 e.2,
    (List.filter_sublist.map Prod.fst).nodup t.keys_nodup⟩

/-- Takes a key out. -/
def erase (t : Table κ α) (k : κ) : Table κ α :=
  t.filter fun k' _ => decide (k' ≠ k)

/-- Changes every value. -/
def mapValues (f : α → α) (t : Table κ α) : Table κ α :=
  ⟨t.entries.map fun e => (e.1, f e.2), by
    rw [List.map_map]
    exact t.keys_nodup⟩

/-- Changes the value of one key, if it has one. -/
def adjust (t : Table κ α) (k : κ) (f : α → α) : Table κ α :=
  ⟨t.entries.map fun e => (e.1, if e.1 = k then f e.2 else e.2), by
    rw [List.map_map]
    exact t.keys_nodup⟩

/-- The table of a list of entries; of several for one key the last one counts. -/
def ofList (es : List (κ × α)) : Table κ α :=
  es.foldl (fun t e => t.insert e.1 e.2) empty

/-! ### The view -/

@[simp] theorem get?_empty (k : κ) : (empty : Table κ α).get? k = none := rfl

theorem lookupEntry_insertEntry (k k' : κ) (v : α) (es : List (κ × α)) :
    lookupEntry k' (insertEntry k v es) = if k = k' then some v else lookupEntry k' es := by
  induction es with
  | nil => rfl
  | cons e es ih =>
    by_cases he : e.1 = k
    · subst he
      by_cases h : e.1 = k' <;> simp [insertEntry, lookupEntry, h]
    · rw [insertEntry, if_neg he]
      by_cases h : e.1 = k'
      · have hk : ¬ k = k' := fun hk => he (h.trans hk.symm)
        simp [lookupEntry, h, hk]
      · simp [lookupEntry, h, ih]

theorem get?_insert (t : Table κ α) (k k' : κ) (v : α) :
    (t.insert k v).get? k' = if k = k' then some v else t.get? k' :=
  lookupEntry_insertEntry k k' v t.entries

/-- What holds of all entries goes on to hold when an entry is put in of which it holds. -/
theorem forall_insert {Q : κ → α → Prop} {t : Table κ α} (h : ∀ k v, t.get? k = some v → Q k v)
    {k : κ} {v : α} (hv : Q k v) : ∀ k' v', (t.insert k v).get? k' = some v' → Q k' v' := by
  intro k' v' hget
  rw [get?_insert] at hget
  split at hget
  · rename_i hk
    rw [← hk, ← Option.some.inj hget]
    exact hv
  · exact h k' v' hget

theorem lookupEntry_map (f : κ → α → α) (k : κ) (es : List (κ × α)) :
    lookupEntry k (es.map fun e => (e.1, f e.1 e.2)) = (lookupEntry k es).map (f k) := by
  induction es with
  | nil => rfl
  | cons e es ih =>
    by_cases h : e.1 = k
    · simp [lookupEntry, h]
    · simp [lookupEntry, h, ih]

theorem lookupEntry_eq_none {k : κ} {es : List (κ × α)} (h : k ∉ es.map Prod.fst) :
    lookupEntry k es = none := by
  induction es with
  | nil => rfl
  | cons e es ih =>
    rw [List.map_cons, List.mem_cons, not_or] at h
    rw [lookupEntry, if_neg (Ne.symm h.1), ih h.2]

theorem lookupEntry_filter (p : κ → α → Bool) (k : κ) {es : List (κ × α)}
    (hes : (es.map Prod.fst).Nodup) :
    lookupEntry k (es.filter fun e => p e.1 e.2) = (lookupEntry k es).filter (p k) := by
  induction es with
  | nil => rfl
  | cons e es ih =>
    rw [List.map_cons, List.nodup_cons] at hes
    have ih := ih hes.2
    by_cases h : e.1 = k
    · subst h
      cases hp : p e.1 e.2 with
      | true => simp [lookupEntry, hp, Option.filter]
      | false =>
        rw [lookupEntry_eq_none hes.1] at ih
        simpa [lookupEntry, hp, Option.filter] using ih
    · cases hp : p e.1 e.2 <;> simp [lookupEntry, h, hp, ih]

theorem get?_filter (p : κ → α → Bool) (t : Table κ α) (k : κ) :
    (t.filter p).get? k = (t.get? k).filter (p k) :=
  lookupEntry_filter p k t.keys_nodup

theorem get?_erase (t : Table κ α) (k k' : κ) :
    (t.erase k).get? k' = if k = k' then none else t.get? k' := by
  rw [erase, get?_filter]
  by_cases h : k = k'
  · subst h
    cases t.get? k <;> simp
  · cases t.get? k' <;> simp [h, Ne.symm h]

theorem get?_mapValues (f : α → α) (t : Table κ α) (k : κ) :
    (t.mapValues f).get? k = (t.get? k).map f :=
  lookupEntry_map (fun _ => f) k t.entries

theorem get?_adjust (t : Table κ α) (k k' : κ) (f : α → α) :
    (t.adjust k f).get? k' = if k' = k then (t.get? k').map f else t.get? k' := by
  refine (lookupEntry_map (fun key v => if key = k then f v else v) k' t.entries).trans ?_
  split
  · rfl
  · exact Option.map_id'

/-- What holds of all entries goes on to hold when a value is changed that it holds of. -/
theorem forall_adjust {Q : κ → α → Prop} {t : Table κ α} {f : α → α} {k : κ}
    (h : ∀ k v, t.get? k = some v → Q k v) (hf : ∀ k v, Q k v → Q k (f v)) :
    ∀ k' v', (t.adjust k f).get? k' = some v' → Q k' v' := by
  intro k' v' hget
  rw [get?_adjust] at hget
  split at hget
  · obtain ⟨v, hv, rfl⟩ := Option.map_eq_some_iff.1 hget
    exact hf k' v (h k' v hv)
  · exact h k' v' hget

/-- A key has a value exactly if it is among the keys. -/
theorem contains_iff_mem_keys {t : Table κ α} {k : κ} : t.contains k = true ↔ k ∈ t.keys := by
  unfold contains get? keys
  induction t.entries with
  | nil => simp [lookupEntry]
  | cons e es ih =>
    by_cases h : e.1 = k
    · simp [lookupEntry, h]
    · simp [lookupEntry, h, ih, Ne.symm h]

/-- A key has a value exactly if they are an entry. -/
theorem get?_eq_some_iff {t : Table κ α} {k : κ} {v : α} :
    t.get? k = some v ↔ (k, v) ∈ t.entries := by
  obtain ⟨entries, hnodup⟩ := t
  show lookupEntry k entries = some v ↔ (k, v) ∈ entries
  induction entries with
  | nil => simp [lookupEntry]
  | cons e es ih =>
    rw [List.map_cons, List.nodup_cons] at hnodup
    rw [lookupEntry, List.mem_cons]
    split
    · rename_i hkey
      subst hkey
      -- the key of the first entry stands for no other
      have hrest : (e.1, v) ∉ es := fun hmem => hnodup.1 (List.mem_map.2 ⟨_, hmem, rfl⟩)
      rw [or_iff_left hrest, Option.some.injEq, Prod.ext_iff, eq_comm, eq_self, true_and]
    · rename_i hkey
      have hfirst : (k, v) ≠ e := fun heq => hkey (heq ▸ rfl)
      rw [ih hnodup.2, or_iff_right hfirst]

/-- The values are those that the keys have. -/
theorem mem_values_iff {t : Table κ α} {v : α} : v ∈ t.values ↔ ∃ k, t.get? k = some v := by
  simp only [values, get?_eq_some_iff, List.mem_map, Prod.exists, exists_eq_right]

theorem entries_insert_of_notMem {t : Table κ α} {k : κ} (h : k ∉ t.entries.map Prod.fst) (v : α) :
    (t.insert k v).entries = t.entries ++ [(k, v)] := by
  have hentries : ∀ es : List (κ × α), k ∉ es.map Prod.fst →
      insertEntry k v es = es ++ [(k, v)] := by
    intro es hes
    induction es with
    | nil => rfl
    | cons e es ih =>
      rw [List.map_cons, List.mem_cons, not_or] at hes
      rw [insertEntry, if_neg (Ne.symm hes.1), ih hes.2, List.cons_append]
  exact hentries t.entries h

end Table

end EntitlementAuthority
