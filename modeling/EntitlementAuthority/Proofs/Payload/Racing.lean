import EntitlementAuthority.Issuance.Sample
import EntitlementAuthority.Payload.Cache
import EntitlementAuthority.Proofs.Payload.Cache
import Mathlib.Logic.Relation

/-!
# Racing requests

Several requests for one payload may be under way at once. Between two steps of one of them the
others may do any number of theirs.

* `PayloadCall.getOrCreate_eq_advance` — without others around, the steps come to what the whole
  request does.
* `Race`, `Race.Step`, `Race.Run` — requests that take their steps in any order.
* `PayloadCall.advance_spec` — what one step can do while no row is outdated.
* `Race.shares_one_row` — whatever the order, one row is put in and all requests answer with it.
-/

namespace EntitlementAuthority

namespace PayloadCall

/-- How many hits or misses a request has yet to be counted for. -/
def Stage.uncounted : Stage → Nat
  | .called | .building _ | .built _ _ => 1
  | .reading | .answered _ => 0

/-- How many steps a request has left at most. -/
def Stage.stepsLeft : Stage → Nat
  | .called => 4
  | .building _ => 3
  | .built _ _ => 2
  | .reading => 1
  | .answered _ => 0

/-- Neither the owner nor an environment changed at an instant or later. -/
def UnchangedSince (call : PayloadCall) (start : Instant) : Prop :=
  call.owner.contentUpdated < start ∧ ∀ e ∈ call.environments, e.contentUpdated < start

end PayloadCall

/-! ### The steps of the cache, with their counts -/

namespace PayloadCache

variable {c : PayloadCache PayloadRows} {owner : Owner} {key : String}
  {environments : List Environment} {row other : PayloadRow}

theorem consult_hit (h : c.store.get? (owner.id, key) = some other)
    (hfresh : other.isStale owner environments = false) :
    consult owner key environments c =
      (.ok (.fresh other), { c with counts := { c.counts with hits := c.counts.hits + 1 } }) := by
  have hget : get owner.id key c = (.ok (c.store.get? (owner.id, key)), c) := rfl
  unfold consult
  rw [Request.bind_ok hget, h]
  dsimp only
  rw [hfresh, if_neg Bool.false_ne_true]
  rfl

theorem settle_created (h : c.store.get? (row.ownerId, row.key) = none) :
    settle false row c = (.ok (.stored row),
      { store := c.store.insert (row.ownerId, row.key) row
        counts := { c.counts with misses := c.counts.misses + 1 } }) := by
  have hcreate : PayloadRows.createUnique row c.store =
      (true, c.store.insert (row.ownerId, row.key) row) := by
    rw [PayloadRows.createUnique, Table.contains, h]
    rfl
  unfold settle
  rw [if_neg Bool.false_ne_true, Request.bind_ok (count_eq c _),
    Request.bind_ok (createUnique_eq row _)]
  dsimp only
  rw [hcreate]
  rfl

theorem settle_conflict (h : c.store.get? (row.ownerId, row.key) = some other) :
    settle false row c = (.ok .conflict,
      { c with counts := { c.counts with
          misses := c.counts.misses + 1, conflicts := c.counts.conflicts + 1 } }) := by
  have hcreate : PayloadRows.createUnique row c.store = (false, c.store) := by
    rw [PayloadRows.createUnique, Table.contains, h]
    rfl
  unfold settle
  rw [if_neg Bool.false_ne_true, Request.bind_ok (count_eq c _),
    Request.bind_ok (createUnique_eq row _)]
  dsimp only
  rw [hcreate]
  rfl

end PayloadCache

/-! ### Without others around -/

namespace PayloadCall

open PayloadCache

variable {call : PayloadCall} {key payload : String} {begun : Instant}
  {c c' : PayloadCache PayloadRows} {row : PayloadRow}

theorem advance_called_fresh
    (h : consult call.owner key call.environments c = (.ok (.fresh row), c')) :
    call.advance key begun payload .called c = (.ok (.answered (.ok row)), c') := by
  rw [advance, Request.bind_ok h]
  rfl

theorem advance_called_stale
    (h : consult call.owner key call.environments c = (.ok .stale, c')) :
    call.advance key begun payload .called c = (.ok (.building true), c') := by
  rw [advance, Request.bind_ok h]
  rfl

theorem advance_called_absent
    (h : consult call.owner key call.environments c = (.ok .absent, c')) :
    call.advance key begun payload .called c = (.ok (.building false), c') := by
  rw [advance, Request.bind_ok h]
  rfl

theorem advance_built_stored {wasStale : Bool} {stored : PayloadRow}
    (h : settle wasStale row c = (.ok (.stored stored), c')) :
    call.advance key begun payload (.built wasStale row) c =
      (.ok (.answered (.ok stored)), c') := by
  rw [advance, Request.bind_ok h]
  rfl

theorem advance_built_conflict {wasStale : Bool} (h : settle wasStale row c = (.ok .conflict, c')) :
    call.advance key begun payload (.built wasStale row) c = (.ok .reading, c') := by
  rw [advance, Request.bind_ok h]
  rfl

theorem advance_reading (h : c.store.get? (call.owner.id, key) = some row) :
    call.advance key begun payload .reading c = (.ok (.answered (.ok row)), c) := by
  rw [advance, Request.bind_ok (Request.attempt_apply ..), readBack_of_some c h]
  rfl

/-- A step always comes to something. -/
theorem advance_ok (call : PayloadCall) (key payload : String) (begun : Instant)
    (c : PayloadCache PayloadRows) (stage : Stage) :
    ∃ stage' c', call.advance key begun payload stage c = (.ok stage', c') := by
  cases stage with
  | called =>
    obtain ⟨found, c', h⟩ := consult_ok c call.owner key call.environments
    cases found with
    | fresh row => exact ⟨_, c', advance_called_fresh h⟩
    | stale => exact ⟨_, c', advance_called_stale h⟩
    | absent => exact ⟨_, c', advance_called_absent h⟩
  | building wasStale => exact ⟨_, c, rfl⟩
  | built wasStale row =>
    cases wasStale with
    | true => exact ⟨_, _, rfl⟩
    | false =>
      cases h : c.store.get? (row.ownerId, row.key) with
      | none => exact ⟨_, _, advance_built_stored (settle_created h)⟩
      | some other => exact ⟨_, _, advance_built_conflict (settle_conflict h)⟩
  | reading => exact ⟨_, _, rfl⟩
  | answered answer => exact ⟨_, c, rfl⟩

/-- Two steps after the building, a request has put its row in or read back the one in the way. -/
theorem finish_eq_advance (call : PayloadCall) (wasStale : Bool)
    (hkey : row.ownerId = call.owner.id ∧ row.key = key) :
    (call.advance key begun payload (.built wasStale row) >>= call.advance key begun payload) c =
      (.ok (.answered (finish wasStale row c).1), (finish wasStale row c).2) := by
  have hstored : ∀ {stored c'}, settle wasStale row c = (.ok (.stored stored), c') →
      (call.advance key begun payload (.built wasStale row) >>= call.advance key begun payload) c =
        (.ok (.answered (finish wasStale row c).1), (finish wasStale row c).2) := by
    intro stored c' h
    rw [Request.bind_ok (advance_built_stored h), finish, Request.bind_ok h]
    rfl
  cases wasStale with
  | true => exact hstored rfl
  | false =>
    cases h : c.store.get? (row.ownerId, row.key) with
    | none => exact hstored (settle_created h)
    | some other =>
      have hsettle := settle_conflict h
      rw [Request.bind_ok (advance_built_conflict hsettle), finish, Request.bind_ok hsettle,
        hkey.1, hkey.2]
      rfl

/-- **Nobody else around.** A request that takes all its steps in a row does what the whole
request does. -/
theorem getOrCreate_eq_advance (call : PayloadCall) (key payload : String) (begun : Instant)
    (c : PayloadCache PayloadRows) :
    let step := call.advance key begun payload
    let whole := getOrCreate id (fun c _ => c) call.owner key call.environments begun
      (pure payload) c
    (step .called >>= fun s => step s >>= fun s => step s >>= step) c =
      (.ok (.answered whole.1), whole.2) := by
  intro step whole
  obtain ⟨found, c', h⟩ := consult_ok c call.owner key call.environments
  have hwithin : Request.within id (fun c _ => c) (consult call.owner key call.environments) c =
      (.ok found, c') := Request.within_ok h
  have hbuilding : ∀ wasStale, whole = finish wasStale (call.rowOf key begun payload) c' →
      step .called c = (.ok (.building wasStale), c') →
      (step .called >>= fun s => step s >>= fun s => step s >>= step) c =
        (.ok (.answered whole.1), whole.2) := by
    intro wasStale hwhole hcalled
    rw [hwhole, Request.bind_ok hcalled, ← finish_eq_advance call wasStale ⟨rfl, rfl⟩]
    rfl
  cases found with
  | fresh row =>
    have hwhole : whole = (.ok row, c') := Request.bind_ok hwithin
    rw [hwhole, Request.bind_ok (advance_called_fresh h)]
    rfl
  | stale => exact hbuilding true (Request.bind_ok hwithin) (advance_called_stale h)
  | absent => exact hbuilding false (Request.bind_ok hwithin) (advance_called_absent h)

end PayloadCall

/-! ### Several requests -/

/-- A request and how far it has come. -/
structure Racer where
  call : PayloadCall
  stage : PayloadCall.Stage

/-- A cache and the requests that are under way on it. -/
structure Race where
  cache : PayloadCache PayloadRows
  racers : List Racer

namespace Race

/-- All of them are yet to begin, on a cache that has counted nothing. -/
def start (rows : PayloadRows) (calls : List PayloadCall) : Race where
  cache := .ofStore rows
  racers := calls.map fun call => ⟨call, .called⟩

/-- Some request that has not answered yet takes its next step. No payload is begun before
`first`. -/
inductive Step (key : String) (first : Instant) : Race → Race → Prop where
  | advance (before : List Racer) {after : List Racer} {call : PayloadCall}
      {stage stage' : PayloadCall.Stage} {c c' : PayloadCache PayloadRows} (begun : Instant)
      (payload : String) (hbegun : first ≤ begun) (hopen : stage.isAnswered = false)
      (hstep : call.advance key begun payload stage c = (.ok stage', c')) :
      Step key first ⟨c, before ++ ⟨call, stage⟩ :: after⟩ ⟨c', before ++ ⟨call, stage'⟩ :: after⟩

/-- Any number of steps. -/
abbrev Run (key : String) (first : Instant) : Race → Race → Prop :=
  Relation.ReflTransGen (Step key first)

/-- Whether every request has answered. -/
def isOver (race : Race) : Prop :=
  ∀ r ∈ race.racers, r.stage.isAnswered = true

/-- Something of every request, added up. -/
def total (f : PayloadCall.Stage → Nat) : List Racer → Nat
  | [] => 0
  | r :: rs => f r.stage + total f rs

/-- How many hits and misses are yet to be counted. -/
def uncounted (race : Race) : Nat :=
  total (·.uncounted) race.racers

/-- How many steps are left at most. -/
def stepsLeft (race : Race) : Nat :=
  total (·.stepsLeft) race.racers

theorem total_append (f : PayloadCall.Stage → Nat) (rs rs' : List Racer) :
    total f (rs ++ rs') = total f rs + total f rs' := by
  induction rs with
  | nil => exact (Nat.zero_add _).symm
  | cons r rs ih => rw [List.cons_append, total, ih, total, Nat.add_assoc]

/-- A race that is not over goes on. -/
theorem exists_step {race : Race} {key : String} {first : Instant} (h : ¬ race.isOver) :
    ∃ next, Step key first race next := by
  obtain ⟨r, hr, hopen⟩ : ∃ r ∈ race.racers, ¬ r.stage.isAnswered = true := by
    simpa [isOver] using h
  obtain ⟨before, after, hsplit⟩ := List.append_of_mem hr
  obtain ⟨stage', c', hstep⟩ := r.call.advance_ok key "" first race.cache r.stage
  obtain ⟨c, racers⟩ := race
  obtain rfl : racers = _ := hsplit
  exact ⟨_, .advance before first "" (Instant.le_refl first) (Bool.not_eq_true _ ▸ hopen) hstep⟩

end Race

/-! ### What one step can do -/

/-- The rows with the one that a request put in first, if one has. -/
def PayloadRows.withFirst (rows : PayloadRows) (ownerId key : String) :
    Option PayloadRow → PayloadRows
  | none => rows
  | some row => rows.insert (ownerId, key) row

/-- What a cache is like during a race: `counted` requests have been counted, and `winner` is the
row that was put in, if one was. -/
structure PayloadCache.Holds (rows : PayloadRows) (ownerId key : String) (first : Instant)
    (winner : Option PayloadRow) (counted : Nat) (c : PayloadCache PayloadRows) : Prop where
  store : c.store = rows.withFirst ownerId key winner
  recent : ∀ row, winner = some row → first ≤ row.timestamp
  asked : c.counts.hits + c.counts.misses = counted
  missed : c.counts.misses = c.counts.conflicts + winner.isSome.toNat
  regenerated : c.counts.regenerations = 0

namespace PayloadCache.Holds

variable {rows : PayloadRows} {key : String} {ownerId : String} {first : Instant}
  {winner : Option PayloadRow} {counted : Nat} {row : PayloadRow} {c : PayloadCache PayloadRows}

/-- A cache that has counted nothing and has no row for the key. -/
theorem start : (PayloadCache.ofStore rows).Holds rows ownerId key first none 0 :=
  ⟨rfl, nofun, rfl, rfl, rfl⟩

theorem lookup (h : c.Holds rows ownerId key first winner counted)
    (hrows : rows.get? (ownerId, key) = none) : c.store.get? (ownerId, key) = winner := by
  rw [h.store]
  cases winner with
  | none => exact hrows
  | some row => exact (Table.get?_insert ..).trans (if_pos rfl)

theorem hit (h : c.Holds rows ownerId key first winner counted) :
    PayloadCache.Holds rows ownerId key first winner (counted + 1)
      { c with counts := { c.counts with hits := c.counts.hits + 1 } } where
  store := h.store
  recent := h.recent
  asked := by
    have := h.asked
    dsimp only
    omega
  missed := h.missed
  regenerated := h.regenerated

theorem created (h : c.Holds rows row.ownerId row.key first none counted)
    (hrow : first ≤ row.timestamp) :
    PayloadCache.Holds rows row.ownerId row.key first (some row) (counted + 1)
      { store := c.store.insert (row.ownerId, row.key) row
        counts := { c.counts with misses := c.counts.misses + 1 } } where
  store := by
    rw [h.store]
    rfl
  recent := by
    rintro _ ⟨⟩
    exact hrow
  asked := by
    have := h.asked
    dsimp only
    omega
  missed := congrArg (· + 1) h.missed
  regenerated := h.regenerated

theorem conflict (h : c.Holds rows ownerId key first winner counted) :
    PayloadCache.Holds rows ownerId key first winner (counted + 1)
      { c with counts := { c.counts with
          misses := c.counts.misses + 1, conflicts := c.counts.conflicts + 1 } } where
  store := h.store
  recent := h.recent
  asked := by
    have := h.asked
    dsimp only
    omega
  missed := by
    have := h.missed
    dsimp only
    omega
  regenerated := h.regenerated

end PayloadCache.Holds

namespace PayloadCall

/-- What a request knows during a race. It never found a stale row, it waits for a row only if
there is one, and that row is the only answer. -/
def Stage.Sound (ownerId key : String) (first : Instant) (winner : Option PayloadRow) :
    Stage → Prop
  | .called => True
  | .building wasStale => wasStale = false
  | .built wasStale row =>
    wasStale = false ∧ row.ownerId = ownerId ∧ row.key = key ∧ first ≤ row.timestamp
  | .reading => winner.isSome = true
  | .answered answer => ∃ row, answer = .ok row ∧ winner = some row

/-- What a step does: a row that was put in stays, and the request is counted once. -/
structure Advanced (rows : PayloadRows) (ownerId key : String) (first : Instant)
    (winner : Option PayloadRow) (counted : Nat) (stage stage' : Stage)
    (c' : PayloadCache PayloadRows) (winner' : Option PayloadRow) (counted' : Nat) : Prop where
  kept : winner = none ∨ winner' = winner
  holds : c'.Holds rows ownerId key first winner' counted'
  sound : stage'.Sound ownerId key first winner'
  counts : counted' + stage'.uncounted = counted + stage.uncounted
  stepsLeft : stage'.stepsLeft < stage.stepsLeft

variable {rows : PayloadRows} {ownerId key payload : String} {first begun : Instant}
  {winner winner' : Option PayloadRow} {counted : Nat} {call : PayloadCall} {stage stage' : Stage}
  {c c' : PayloadCache PayloadRows}

/-- What a request knows stays true when others put a row in. -/
theorem Stage.Sound.of_kept (h : stage.Sound ownerId key first winner)
    (hkept : winner = none ∨ winner' = winner) : stage.Sound ownerId key first winner' := by
  obtain rfl | rfl := hkept
  · cases stage with
    | called => trivial
    | building wasStale => exact h
    | built wasStale row => exact h
    | reading => cases h
    | answered answer =>
      obtain ⟨row, -, hnone⟩ := h
      cases hnone
  · exact h

theorem not_isStale (h : call.UnchangedSince first) {row : PayloadRow}
    (hrow : first ≤ row.timestamp) : row.isStale call.owner call.environments = false := by
  have howner : ¬ row.timestamp ≤ call.owner.contentUpdated :=
    Instant.not_le.2 (Instant.lt_of_lt_of_le h.1 hrow)
  have henvironments : ∀ e ∈ call.environments, ¬ row.timestamp < e.contentUpdated :=
    fun e he => Instant.not_lt.2 (Instant.le_of_lt (Instant.lt_of_lt_of_le (h.2 e he) hrow))
  simp only [PayloadRow.isStale, howner, decide_false, Bool.false_or, List.any_eq_false,
    decide_eq_true_eq]
  exact henvironments

open PayloadCache

/-- **One step of a request**, as long as nothing that the payload is made from changes. -/
theorem advance_spec (hrows : rows.get? (ownerId, key) = none) (hid : call.owner.id = ownerId)
    (hunchanged : call.UnchangedSince first) (hbegun : first ≤ begun)
    (h : c.Holds rows ownerId key first winner counted)
    (hsound : stage.Sound ownerId key first winner) (hopen : stage.isAnswered = false)
    (hstep : call.advance key begun payload stage c = (.ok stage', c')) :
    ∃ winner' counted', Advanced rows ownerId key first winner counted stage stage' c' winner'
      counted' := by
  subst hid
  have hlookup := h.lookup hrows
  cases stage with
  | called =>
    cases winner with
    | none =>
      rw [advance_called_absent (consult_of_none hlookup)] at hstep
      cases hstep
      exact ⟨none, counted, .inl rfl, h, rfl, rfl, Nat.lt_succ_self _⟩
    | some row =>
      have hfresh := not_isStale hunchanged (h.recent row rfl)
      rw [advance_called_fresh (consult_hit hlookup hfresh)] at hstep
      cases hstep
      exact ⟨some row, counted + 1, .inr rfl, h.hit, ⟨row, rfl, rfl⟩, rfl, Nat.succ_pos _⟩
  | building wasStale =>
    obtain rfl : wasStale = false := hsound
    cases hstep
    exact ⟨winner, counted, .inr rfl, h, ⟨rfl, rfl, rfl, hbegun⟩, rfl, Nat.lt_succ_self _⟩
  | built wasStale row =>
    obtain ⟨rfl, hownerId, rfl, hrow⟩ := hsound
    rw [← hownerId] at h hlookup ⊢
    cases winner with
    | none =>
      rw [advance_built_stored (settle_created hlookup)] at hstep
      cases hstep
      exact ⟨some row, counted + 1, .inl rfl, h.created hrow, ⟨row, rfl, rfl⟩, rfl, Nat.succ_pos _⟩
    | some other =>
      rw [advance_built_conflict (settle_conflict hlookup)] at hstep
      cases hstep
      exact ⟨some other, counted + 1, .inr rfl, h.conflict, rfl, rfl, Nat.lt_succ_self _⟩
  | reading =>
    obtain ⟨row, rfl⟩ := Option.isSome_iff_exists.1 hsound
    rw [advance_reading hlookup] at hstep
    cases hstep
    exact ⟨some row, counted, .inr rfl, h, ⟨row, rfl, rfl⟩, rfl, Nat.lt_succ_self _⟩
  | answered answer => cases hopen

end PayloadCall

/-! ### Any order of steps -/

namespace Race

variable {rows : PayloadRows} {ownerId key : String} {first : Instant} {calls : List PayloadCall}
  {winner : Option PayloadRow} {race next : Race}

/-- What holds all through a race. -/
structure Sound (rows : PayloadRows) (ownerId key : String) (first : Instant)
    (calls : List PayloadCall) (winner : Option PayloadRow) (race : Race) : Prop where
  sameCalls : race.racers.map Racer.call = calls
  stages : ∀ r ∈ race.racers, r.stage.Sound ownerId key first winner
  cache : ∃ counted, race.cache.Holds rows ownerId key first winner counted ∧
    counted + race.uncounted = calls.length

theorem sound_start :
    Sound rows ownerId key first calls none (start rows calls) where
  sameCalls := by
    rw [start, List.map_map]
    exact List.map_id calls
  stages := by
    intro r hr
    obtain ⟨call, -, rfl⟩ := List.mem_map.1 hr
    trivial
  cache := by
    refine ⟨0, .start, ?_⟩
    rw [Nat.zero_add, uncounted, start]
    induction calls with
    | nil => rfl
    | cons call calls ih => exact (Nat.add_comm ..).trans (congrArg (· + 1) ih)

/-- **One step of a race.** A row that was put in stays. -/
theorem Sound.step (h : Sound rows ownerId key first calls winner race)
    (hrows : rows.get? (ownerId, key) = none)
    (hcalls : ∀ call ∈ calls, call.owner.id = ownerId ∧ call.UnchangedSince first)
    (hstep : Step key first race next) :
    (∃ winner', (winner = none ∨ winner' = winner) ∧
      Sound rows ownerId key first calls winner' next) ∧ next.stepsLeft < race.stepsLeft := by
  obtain @⟨before, after, call, stage, stage', c, c', begun, payload, hbegun, hopen, hadvance⟩ :=
    hstep
  obtain ⟨hmap, hstages, counted, hcache, hcount⟩ := h
  obtain ⟨hid, hunchanged⟩ := hcalls call (hmap ▸ List.mem_map.2 ⟨⟨call, stage⟩, by simp, rfl⟩)
  obtain ⟨winner', counted', hkept, hholds, hsound, hcounts, hleft⟩ :=
    PayloadCall.advance_spec hrows hid hunchanged hbegun hcache
      (hstages ⟨call, stage⟩ (by simp)) hopen hadvance
  refine ⟨⟨winner', hkept, by simpa using hmap, ?_, counted', hholds, ?_⟩, ?_⟩
  · intro r hr
    rw [List.mem_append, List.mem_cons] at hr
    obtain hr | rfl | hr := hr
    · exact (hstages r (by simp [hr])).of_kept hkept
    · exact hsound
    · exact (hstages r (by simp [hr])).of_kept hkept
  · rw [← hcount]
    simp only [uncounted, total_append, total] at hcounts ⊢
    omega
  · simp only [stepsLeft, total_append, total]
    exact Nat.add_lt_add_left (Nat.add_lt_add_right hleft _) _

/-- **A whole race.** -/
theorem Sound.run (h : Sound rows ownerId key first calls winner race)
    (hrows : rows.get? (ownerId, key) = none)
    (hcalls : ∀ call ∈ calls, call.owner.id = ownerId ∧ call.UnchangedSince first)
    (hrun : Run key first race next) :
    ∃ winner', (winner = none ∨ winner' = winner) ∧
      Sound rows ownerId key first calls winner' next := by
  induction hrun with
  | refl => exact ⟨winner, .inr rfl, h⟩
  | tail _ hstep ih =>
    obtain ⟨winner₁, hkept₁, h₁⟩ := ih
    obtain ⟨⟨winner₂, hkept₂, h₂⟩, -⟩ := h₁.step hrows hcalls hstep
    refine ⟨winner₂, ?_, h₂⟩
    obtain rfl | rfl := hkept₁
    · exact .inl rfl
    · exact hkept₂

theorem Sound.lookup (h : Sound rows ownerId key first calls winner race)
    (hrows : rows.get? (ownerId, key) = none) :
    race.cache.store.get? (ownerId, key) = winner := by
  obtain ⟨counted, hcache, -⟩ := h.cache
  exact hcache.lookup hrows

theorem stage_of_isAnswered {stage : PayloadCall.Stage} (h : stage.isAnswered = true) :
    ∃ answer, stage = .answered answer := by
  cases stage with
  | answered answer => exact ⟨answer, rfl⟩
  | _ => cases h

theorem uncounted_of_isOver (h : race.isOver) : race.uncounted = 0 := by
  obtain ⟨c, racers⟩ := race
  show total _ racers = 0
  induction racers with
  | nil => rfl
  | cons r rs ih =>
    obtain ⟨answer, hanswer⟩ := stage_of_isAnswered (h r List.mem_cons_self)
    rw [total, hanswer, ih fun r' hr' => h r' (List.mem_cons_of_mem _ hr')]
    rfl

/-- When all have answered, there is one row more than before and all have answered with it. -/
theorem Sound.of_isOver (h : Sound rows ownerId key first calls winner race) (hne : calls ≠ [])
    (hover : race.isOver) :
    ∃ row, winner = some row ∧ race.cache.store = rows.insert (ownerId, key) row ∧
      race.racers = calls.map (fun call => ⟨call, .answered (.ok row)⟩) ∧
      race.cache.counts.hits + race.cache.counts.misses = calls.length ∧
      race.cache.counts.misses = race.cache.counts.conflicts + 1 ∧
      race.cache.counts.regenerations = 0 := by
  obtain ⟨hmap, hstages, counted, hcache, hcount⟩ := h
  have hanswered : ∀ r ∈ race.racers, ∃ row, r.stage = .answered (.ok row) ∧ winner = some row := by
    intro r hr
    have hsound := hstages r hr
    obtain ⟨answer, hanswer⟩ := stage_of_isAnswered (hover r hr)
    rw [hanswer] at hsound
    obtain ⟨row, rfl, hwinner⟩ := hsound
    exact ⟨row, hanswer, hwinner⟩
  obtain ⟨r, hr⟩ : ∃ r, r ∈ race.racers :=
    List.exists_mem_of_ne_nil _ fun hnil => hne (by rw [← hmap, hnil]; rfl)
  obtain ⟨row, -, rfl⟩ := hanswered r hr
  refine ⟨row, rfl, hcache.store, ?_, ?_, hcache.missed, hcache.regenerated⟩
  · rw [← hmap, List.map_map]
    refine (List.map_id' _).symm.trans (List.map_congr_left fun r hr => ?_)
    obtain ⟨_, hstage, ⟨⟩⟩ := hanswered r hr
    rw [Function.comp_apply, ← hstage]
  · rw [hcache.asked, ← hcount, uncounted_of_isOver hover, Nat.add_zero]

/-- A row for any key that was in the cache stays in it. -/
theorem Sound.keeps (h : Sound rows ownerId key first calls winner race)
    (hrows : rows.get? (ownerId, key) = none)
    (hcalls : ∀ call ∈ calls, call.owner.id = ownerId ∧ call.UnchangedSince first)
    (hrun : Run key first race next) {k : String × String} {row : PayloadRow}
    (hrow : race.cache.store.get? k = some row) : next.cache.store.get? k = some row := by
  obtain ⟨winner', hkept, h'⟩ := h.run hrows hcalls hrun
  obtain rfl | rfl := hkept
  · obtain ⟨counted, hcache, -⟩ := h.cache
    obtain ⟨counted', hcache', -⟩ := h'.cache
    have hold : rows.get? k = some row := by rwa [hcache.store] at hrow
    rw [hcache'.store]
    cases winner' with
    | none => exact hold
    | some other =>
      refine (Table.get?_insert ..).trans ((if_neg ?_).trans hold)
      rintro rfl
      rw [hrows] at hold
      cases hold
  · obtain ⟨counted, hcache, -⟩ := h.cache
    obtain ⟨counted', hcache', -⟩ := h'.cache
    rwa [hcache'.store, ← hcache.store]

/-- **One row for all.** Let requests for one key begin while there is no row for it and let the
owner and the environments have last changed before. Then, in whatever order they take their steps
and whatever each of them builds, they never get stuck and are over after a bounded number of steps;
no row is ever replaced; and in the end there is one row more, every request has answered with it,
and the counts say so. -/
theorem shares_one_row (hrows : rows.get? (ownerId, key) = none) (hne : calls ≠ [])
    (hcalls : ∀ call ∈ calls, call.owner.id = ownerId ∧ call.UnchangedSince first)
    (hrun : Run key first (start rows calls) race) :
    (race.isOver ∨ ∃ next, Step key first race next) ∧
    (∀ next, Step key first race next → next.stepsLeft < race.stepsLeft) ∧
    (∀ later k row, Run key first race later → race.cache.store.get? k = some row →
      later.cache.store.get? k = some row) ∧
    (race.isOver → ∃ row,
      race.cache.store = rows.insert (ownerId, key) row ∧
      race.racers = calls.map (fun call => ⟨call, .answered (.ok row)⟩) ∧
      race.cache.counts.hits + race.cache.counts.misses = calls.length ∧
      race.cache.counts.misses - race.cache.counts.conflicts = 1 ∧
      race.cache.counts.regenerations = 0) := by
  obtain ⟨winner, -, h⟩ := sound_start.run hrows hcalls hrun
  refine ⟨?_, fun next hstep => (h.step hrows hcalls hstep).2,
    fun later k row hlater => h.keeps hrows hcalls hlater, fun hover => ?_⟩
  · by_cases hover : race.isOver
    · exact .inl hover
    · exact .inr (exists_step hover)
  · obtain ⟨row, -, hstore, hracers, hasked, hmissed, hregenerated⟩ := h.of_isOver hne hover
    exact ⟨row, hstore, hracers, hasked, by omega, hregenerated⟩

/-! ### A lost race -/

/-- A request for the payload of the sample owner. -/
def sampleCall : PayloadCall := ⟨Sample.owner ⟨0, 0⟩, []⟩

/-- The row that the first request puts in. -/
def sampleRow : PayloadRow := sampleCall.rowOf "key" ⟨1, 0⟩ "one"

/-- The race of two requests after the second one lost. -/
def lostRace : Race where
  cache :=
    { store := Table.empty.insert ("sample-owner", "key") sampleRow
      counts := { misses := 2, conflicts := 1 } }
  racers := [⟨sampleCall, .answered (.ok sampleRow)⟩, ⟨sampleCall, .answered (.ok sampleRow)⟩]

/-- Both requests look before either has put its row in. -/
theorem run_lostRace : Run "key" ⟨1, 0⟩ (start .empty [sampleCall, sampleCall]) lostRace := by
  have hle : (⟨1, 0⟩ : Instant) ≤ ⟨1, 0⟩ := Instant.le_refl _
  have hrow : lostRace.cache.store.get? ("sample-owner", "key") = some sampleRow := by decide
  refine .head (.advance [] ⟨1, 0⟩ "" hle rfl
    (PayloadCall.advance_called_absent (PayloadCache.consult_of_none rfl))) ?_
  refine .head (.advance [_] ⟨1, 0⟩ "" hle rfl
    (PayloadCall.advance_called_absent (PayloadCache.consult_of_none rfl))) ?_
  refine .head (.advance [] ⟨1, 0⟩ "one" hle rfl rfl) ?_
  refine .head (.advance [_] ⟨1, 0⟩ "two" hle rfl rfl) ?_
  refine .head (.advance [] ⟨1, 0⟩ "" hle rfl
    (PayloadCall.advance_built_stored (PayloadCache.settle_created rfl))) ?_
  refine .head (.advance [_] ⟨1, 0⟩ "" hle rfl
    (PayloadCall.advance_built_conflict (PayloadCache.settle_conflict hrow))) ?_
  exact .single (.advance [_] ⟨1, 0⟩ "" hle rfl (PayloadCall.advance_reading hrow))

/-- The request that lost answers with the row of the one that won. -/
theorem shares_one_row_of_lostRace :
    lostRace.isOver ∧ ∃ row, lostRace.cache.store = Table.empty.insert ("sample-owner", "key") row ∧
      lostRace.racers = [sampleCall, sampleCall].map (fun call => ⟨call, .answered (.ok row)⟩) := by
  have hover : lostRace.isOver := by
    rintro r (_ | ⟨_, _ | ⟨_, ⟨⟩⟩⟩) <;> rfl
  have hcalls : ∀ call ∈ [sampleCall, sampleCall],
      call.owner.id = "sample-owner" ∧ call.UnchangedSince ⟨1, 0⟩ := by
    intro call hcall
    obtain rfl : call = sampleCall := by simpa using hcall
    exact ⟨rfl, by decide, nofun⟩
  obtain ⟨-, -, -, h⟩ := shares_one_row rfl (List.cons_ne_nil _ _) hcalls run_lostRace
  obtain ⟨row, hstore, hracers, -⟩ := h hover
  exact ⟨hover, row, hstore, hracers⟩

end Race

end EntitlementAuthority
