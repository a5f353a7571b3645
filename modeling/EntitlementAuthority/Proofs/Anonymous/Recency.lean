import EntitlementAuthority.Anonymous.Cache
import Mathlib.Data.List.Dedup
import Mathlib.Data.List.Pairwise
import Mathlib.Data.List.Perm.Subperm
import Mathlib.Data.List.TakeWhile

/-!
# What the cache for anonymous consumers still knows

The cache answers from what was put into it before. What it still knows depends on how long ago
that was, and on how many other product sets it was used for since.

* `CacheRequest`, `CacheHistory` — what is asked of the cache, the latest request first.
* `CacheHistory.IsLatest` — the latest content that was put under a key and not dropped since.
* `AnonymousCache.usedKeys` — the keys that were put or hit, the latest first.
* `AnonymousCache.IsByUse` — entries stand in the order in which they were last used.
* `AnonymousCache.mem_entries_apply` — what a request leaves in the cache.
* `AnonymousCache.entries_isLatest`, `AnonymousCache.entries_isByUse` — both hold after any history.
* `AnonymousCache.exists_entry` — what has to make room was not used for long.
* `AnonymousCache.knows_recent` — what a cache without entries knows after any history.
-/

namespace EntitlementAuthority

/-! ### Histories -/

/-- Something that is asked of the cache. -/
inductive CacheRequest where
  | get (productIds : List String)
  | put (productIds : List String) (value : AnonymousContent)
  | remove (productIds : List String)
  | clear

namespace CacheRequest

/-- The cache after a request. -/
def apply (now : Instant) : CacheRequest → AnonymousCache → AnonymousCache
  | get ids, c => (c.get ids now).2
  | put ids value, c => c.put ids value now
  | remove ids, c => c.remove ids
  | clear, c => c.clear

/-- Whether something is looked up. -/
def isGet : CacheRequest → Bool
  | get _ => true
  | _ => false

/-- What was put under the key before is not there afterwards. -/
def Replaces (key : String) : CacheRequest → Prop
  | get _ => False
  | put ids _ => anonymousKey ids = key
  | remove ids => anonymousKey ids = key
  | clear => True

/-- The key that is put or hit. -/
def usedKey? (now : Instant) : CacheRequest → AnonymousCache → Option String
  | get ids, c => (c.get ids now).1.map fun _ => anonymousKey ids
  | put ids _, _ => some (anonymousKey ids)
  | _, _ => none

end CacheRequest

/-- Requests with the instants at which they were made, the latest first. -/
abbrev CacheHistory := List (Instant × CacheRequest)

/-- Of what was put under a key, this is the latest, and it was not removed nor cleared since. -/
def CacheHistory.IsLatest (history : CacheHistory) (key : String) (t : Instant)
    (value : AnonymousContent) : Prop :=
  ∃ later ids earlier, history = later ++ (t, .put ids value) :: earlier ∧
    anonymousKey ids = key ∧ ∀ x ∈ later, ¬ x.2.Replaces key

namespace CacheHistory

variable {earlier history : CacheHistory} {key : String} {now t t' : Instant} {r : CacheRequest}
  {v v' : AnonymousContent}

theorem isLatest_cons : IsLatest ((now, r) :: earlier) key t v ↔
    (∃ ids, r = .put ids v ∧ now = t ∧ anonymousKey ids = key) ∨
      (IsLatest earlier key t v ∧ ¬ r.Replaces key) := by
  constructor
  · rintro ⟨later, ids, rest, heq, hkey, hlater⟩
    cases later with
    | nil =>
      cases heq
      exact .inl ⟨ids, rfl, rfl, hkey⟩
    | cons x later =>
      rw [List.forall_mem_cons] at hlater
      rw [List.cons_append, List.cons.injEq] at heq
      obtain ⟨rfl, rfl⟩ := heq
      exact .inr ⟨⟨later, ids, rest, rfl, hkey, hlater.2⟩, hlater.1⟩
  · rintro (⟨ids, rfl, rfl, hkey⟩ | ⟨⟨later, ids, rest, rfl, hkey, hlater⟩, hr⟩)
    · exact ⟨[], ids, earlier, rfl, hkey, nofun⟩
    · exact ⟨(now, r) :: later, ids, rest, rfl, hkey, List.forall_mem_cons.2 ⟨hr, hlater⟩⟩

theorem IsLatest.cons (h : IsLatest earlier key t v) (hr : ¬ r.Replaces key) :
    IsLatest ((now, r) :: earlier) key t v :=
  isLatest_cons.2 (.inr ⟨h, hr⟩)

theorem not_isLatest_nil : ¬ IsLatest [] key t v := by
  rintro ⟨later, ids, rest, heq, -⟩
  exact List.append_ne_nil_of_right_ne_nil later (List.cons_ne_nil _ rest) heq.symm

/-- What was put last under a key is determined. -/
theorem IsLatest.unique (h : IsLatest history key t v) (h' : IsLatest history key t' v') :
    t = t' ∧ v = v' := by
  induction history with
  | nil => exact absurd h not_isLatest_nil
  | cons x earlier ih =>
    obtain ⟨now, r⟩ := x
    rcases isLatest_cons.1 h with ⟨ids, rfl, rfl, hkey⟩ | ⟨h, hr⟩
    · rcases isLatest_cons.1 h' with ⟨ids', heq, rfl, -⟩ | ⟨-, hr'⟩
      · cases heq
        exact ⟨rfl, rfl⟩
      · exact absurd hkey hr'
    · rcases isLatest_cons.1 h' with ⟨ids, rfl, -, hkey⟩ | ⟨h', -⟩
      · exact absurd hkey hr
      · exact ih h h'

end CacheHistory

/-! ### The order of last use -/

/-- The keys that were used since a key last was, of keys with the latest first. -/
def keysSince (used : List String) (key : String) : List String :=
  used.takeWhile (· != key)

theorem keysSince_cons {used : List String} {newest key : String} (hne : newest ≠ key) :
    keysSince (newest :: used) key = newest :: keysSince used key :=
  List.takeWhile_cons_of_pos (bne_iff_ne.2 hne)

theorem ne_of_mem_keysSince {used : List String} {key key' : String}
    (h : key ∈ keysSince used key') : key ≠ key' := by
  have hne := List.mem_takeWhile_imp h
  exact bne_iff_ne.1 hne

/-- How many different keys were used since a key last was. -/
def countSince (used : List String) (key : String) : Nat :=
  (keysSince used key).dedup.length

theorem countSince_le_cons {used : List String} {newest key : String} (hne : newest ≠ key) :
    countSince used key ≤ countSince (newest :: used) key := by
  unfold countSince
  rw [keysSince_cons hne]
  refine ((List.nodup_dedup _).subperm fun k hk => ?_).length_le
  exact List.mem_dedup.2 (List.mem_cons_of_mem newest (List.mem_dedup.1 hk))

namespace AnonymousCache

variable {c : AnonymousCache} {key : String} {ids : List String} {now t : Instant}
  {e e' : AnonymousEntry} {v : AnonymousContent} {used : List String}
  {entries : List AnonymousEntry}

theorem mem_others : e ∈ c.others key ↔ e ∈ c.entries ∧ e.key ≠ key := by
  rw [others, List.mem_filter, bne_iff_ne]

/-- Every entry was used since those behind it last were. -/
def IsByUse (used : List String) (entries : List AnonymousEntry) : Prop :=
  entries.Pairwise fun e e' => e.key ∈ keysSince used e'.key

namespace IsByUse

theorem sublist (h : IsByUse used entries) {entries' : List AnonymousEntry}
    (hs : entries'.Sublist entries) : IsByUse used entries' :=
  List.Pairwise.sublist hs h

theorem keys_pairwise (h : IsByUse used entries) : entries.Pairwise fun e e' => e.key ≠ e'.key :=
  List.Pairwise.imp ne_of_mem_keysSince h

/-- No two entries have the same key. -/
theorem eq_of_key (h : IsByUse used entries) (he : e ∈ entries) (he' : e' ∈ entries)
    (hkey : e.key = e'.key) : e = e' := by
  have : Std.Symm fun e e' : AnonymousEntry => e.key ≠ e'.key := ⟨fun _ _ hne => hne.symm⟩
  by_contra hdiff
  exact h.keys_pairwise.forall he he' hdiff hkey

/-- An entry that is used comes to stand in front of those with other keys. -/
theorem cons_others (h : IsByUse used c.entries) (e : AnonymousEntry) :
    IsByUse (e.key :: used) (e :: c.others e.key) := by
  have hothers : ∀ e' ∈ c.others e.key, e.key ≠ e'.key := fun e' he' => (mem_others.1 he').2.symm
  refine List.pairwise_cons.2 ⟨fun e' he' => ?_, ?_⟩
  · rw [keysSince_cons (hothers e' he')]
    exact List.mem_cons_self
  · refine List.Pairwise.imp_of_mem ?_ (h.sublist List.filter_sublist)
    intro f e' _ he' hsince
    rw [keysSince_cons (hothers e' he')]
    exact List.mem_cons_of_mem _ hsince

/-- In front of an entry there are no more than keys that were used since. -/
theorem mem_take (h : IsByUse used entries) (he : e ∈ entries) {n : Nat}
    (hn : countSince used e.key < n) : e ∈ entries.take n := by
  obtain ⟨front, back, rfl⟩ := List.append_of_mem he
  obtain ⟨-, -, hcross⟩ := List.pairwise_append.1 h
  have hnodup : (front.map (·.key)).Nodup :=
    List.pairwise_map.2 (List.pairwise_append.1 h.keys_pairwise).1
  have hsub : front.map (·.key) ⊆ (keysSince used e.key).dedup := by
    intro k hk
    obtain ⟨f, hf, rfl⟩ := List.mem_map.1 hk
    exact List.mem_dedup.2 (hcross f hf e List.mem_cons_self)
  have hlength : front.length ≤ countSince used e.key := by
    rw [← List.length_map (·.key)]
    exact (hnodup.subperm hsub).length_le
  rw [List.take_append, List.mem_append]
  right
  obtain ⟨m, hm⟩ : ∃ m, n - front.length = m + 1 := ⟨n - front.length - 1, by omega⟩
  rw [hm, List.take_succ_cons]
  exact List.mem_cons_self

end IsByUse

/-! ### Looking something up -/

/-- The ways in which looking something up can end: the answer, and the entries afterwards. -/
inductive GetResult (c : AnonymousCache) (key : String) (now : Instant) :
    Option AnonymousContent → List AnonymousEntry → Prop
  | missing (h : ∀ e ∈ c.entries, e.key ≠ key) : GetResult c key now none c.entries
  | found (e : AnonymousEntry) (he : e ∈ c.entries) (hkey : e.key = key)
      (hfresh : Instant.nanosBetween e.cachedAt now < c.lifetime) :
      GetResult c key now (some e.value) (e :: c.others key)
  | expired (e : AnonymousEntry) (he : e ∈ c.entries) (hkey : e.key = key)
      (hold : c.lifetime ≤ Instant.nanosBetween e.cachedAt now) :
      GetResult c key now none (c.others key)

theorem get_result (c : AnonymousCache) (ids : List String) (now : Instant) :
    GetResult c (anonymousKey ids) now (c.get ids now).1 (c.get ids now).2.entries := by
  unfold AnonymousCache.get
  dsimp only
  split
  · rename_i hnone
    refine .missing fun e he hkey => ?_
    exact List.find?_eq_none.1 hnone e he (beq_iff_eq.2 hkey)
  · rename_i e hfind
    have he := List.mem_of_find?_eq_some hfind
    have hfound := List.find?_some hfind
    have hkey : e.key = anonymousKey ids := beq_iff_eq.1 hfound
    split
    · rename_i hfresh
      exact .found e he hkey (of_decide_eq_true hfresh)
    · rename_i hold
      rw [isFresh, decide_eq_true_iff] at hold
      exact .expired e he hkey (by omega)

theorem get_settings (c : AnonymousCache) (ids : List String) (now : Instant) :
    (c.get ids now).2.capacity = c.capacity ∧ (c.get ids now).2.lifetime = c.lifetime := by
  unfold AnonymousCache.get
  dsimp only
  split
  · exact ⟨rfl, rfl⟩
  · split <;> exact ⟨rfl, rfl⟩

/-- A look-up is counted once. -/
theorem get_counters (c : AnonymousCache) (ids : List String) (now : Instant) :
    (c.get ids now).2.hits + (c.get ids now).2.misses = c.hits + c.misses + 1 ∧
      (c.get ids now).2.expirations + c.misses ≤ (c.get ids now).2.misses + c.expirations := by
  unfold AnonymousCache.get
  dsimp only
  split
  · dsimp only
    omega
  · split <;> dsimp only <;> omega

/-- Looking something up adds nothing. -/
theorem mem_entries_get (h : e ∈ (c.get ids now).2.entries) : e ∈ c.entries := by
  have hresult := c.get_result ids now
  generalize (c.get ids now).2.entries = entries at h hresult
  generalize (c.get ids now).1 = answer at hresult
  cases hresult with
  | missing => exact h
  | found e' he' =>
    rcases List.mem_cons.1 h with rfl | h
    · exact he'
    · exact (mem_others.1 h).1
  | expired => exact (mem_others.1 h).1

/-- What is there after something was put is this or was there before. -/
theorem mem_entries_put (h : e ∈ (c.put ids v now).entries) :
    e = ⟨anonymousKey ids, v, now⟩ ∨ e ∈ c.others (anonymousKey ids) :=
  List.mem_cons.1 (List.mem_of_mem_take h)

/-- What a request leaves in the cache was there before, or has just been put. -/
theorem mem_entries_apply {r : CacheRequest} (h : e ∈ (r.apply now c).entries) :
    e ∈ c.entries ∨ ∃ ids v, r = .put ids v ∧ e = ⟨anonymousKey ids, v, now⟩ := by
  cases r with
  | get ids => exact .inl (mem_entries_get h)
  | put ids v =>
    obtain rfl | h := mem_entries_put h
    · exact .inr ⟨ids, v, rfl, rfl⟩
    · exact .inl (mem_others.1 h).1
  | remove ids => exact .inl (mem_others.1 h).1
  | clear => cases h

/-- What is found stands under the text of the product set and is fresh. -/
theorem exists_entry_of_get (h : (c.get ids now).1 = some v) : ∃ e ∈ c.entries,
    e.key = anonymousKey ids ∧ e.value = v ∧ Instant.nanosBetween e.cachedAt now < c.lifetime := by
  have hresult := c.get_result ids now
  generalize (c.get ids now).2.entries = entries at hresult
  generalize (c.get ids now).1 = answer at h hresult
  cases hresult with
  | missing => cases h
  | found e he hkey hfresh => exact ⟨e, he, hkey, Option.some.inj h, hfresh⟩
  | expired => cases h

namespace IsByUse

/-- An entry is found while it is fresh. -/
theorem get_of_fresh (h : IsByUse used c.entries) (he : e ∈ c.entries)
    (hkey : e.key = anonymousKey ids)
    (hfresh : Instant.nanosBetween e.cachedAt now < c.lifetime) :
    (c.get ids now).1 = some e.value := by
  have hresult := c.get_result ids now
  generalize (c.get ids now).2.entries = entries at hresult
  generalize (c.get ids now).1 = answer at hresult ⊢
  cases hresult with
  | missing hnone => exact absurd hkey (hnone e he)
  | found e' he' hkey' => rw [h.eq_of_key he he' (hkey.trans hkey'.symm)]
  | expired e' he' hkey' hold =>
    rw [← h.eq_of_key he he' (hkey.trans hkey'.symm)] at hold
    omega

/-- An entry that is found to be too old is dropped. -/
theorem get_of_expired (h : IsByUse used c.entries) (he : e ∈ c.entries)
    (hkey : e.key = anonymousKey ids)
    (hold : c.lifetime ≤ Instant.nanosBetween e.cachedAt now) :
    (c.get ids now).1 = none ∧ (c.get ids now).2.entries = c.others (anonymousKey ids) := by
  have hresult := c.get_result ids now
  generalize (c.get ids now).2.entries = entries at hresult ⊢
  generalize (c.get ids now).1 = answer at hresult ⊢
  cases hresult with
  | missing hnone => exact absurd hkey (hnone e he)
  | found e' he' hkey' hfresh =>
    rw [← h.eq_of_key he he' (hkey.trans hkey'.symm)] at hfresh
    omega
  | expired => exact ⟨rfl, rfl⟩

/-- After something was put, there is an entry under every key that fewer others than there is room
for were used since, if there was one before. -/
theorem exists_put (h : IsByUse used c.entries)
    (hfew : countSince (anonymousKey ids :: used) key < c.capacity)
    (hbefore : anonymousKey ids ≠ key → ∃ e ∈ c.entries, e.key = key) :
    ∃ e ∈ (c.put ids v now).entries, e.key = key := by
  have hbyUse := h.cons_others ⟨anonymousKey ids, v, now⟩
  by_cases hsame : anonymousKey ids = key
  · refine ⟨⟨anonymousKey ids, v, now⟩, hbyUse.mem_take List.mem_cons_self ?_, hsame⟩
    rw [hsame] at hfew ⊢
    exact hfew
  · obtain ⟨e, he, rfl⟩ := hbefore hsame
    have hother := mem_others.2 ⟨he, Ne.symm hsame⟩
    exact ⟨e, hbyUse.mem_take (List.mem_cons_of_mem _ hother) hfew, rfl⟩

end IsByUse

/-- The first entry is found while it is fresh. -/
theorem get_of_head {rest : List AnonymousEntry} (hentries : c.entries = e :: rest)
    (hkey : e.key = anonymousKey ids)
    (hfresh : Instant.nanosBetween e.cachedAt now < c.lifetime) :
    (c.get ids now).1 = some e.value := by
  have hfind : c.entries.find? (·.key == anonymousKey ids) = some e := by
    rw [hentries]
    exact List.find?_cons_of_pos (p := fun x : AnonymousEntry => x.key == anonymousKey ids)
      (beq_iff_eq.2 hkey)
  unfold AnonymousCache.get
  dsimp only
  split
  · rename_i hnone
    rw [hfind] at hnone
    cases hnone
  · rename_i e' hsome
    rw [hfind] at hsome
    obtain rfl := Option.some.inj hsome
    have hfresh : c.isFresh now e = true := decide_eq_true hfresh
    rw [if_pos hfresh]

/-! ### After a history -/

/-- The cache after some requests. -/
def after (c : AnonymousCache) : CacheHistory → AnonymousCache
  | [] => c
  | (now, r) :: earlier => r.apply now (c.after earlier)

/-- The keys that were put or hit, the latest first. -/
def usedKeys (c : AnonymousCache) : CacheHistory → List String
  | [] => []
  | (now, r) :: earlier => (r.usedKey? now (c.after earlier)).toList ++ c.usedKeys earlier

theorem after_settings (c : AnonymousCache) (history : CacheHistory) :
    (c.after history).capacity = c.capacity ∧ (c.after history).lifetime = c.lifetime := by
  induction history with
  | nil => exact ⟨rfl, rfl⟩
  | cons x earlier ih =>
    obtain ⟨now, r⟩ := x
    cases r with
    | get ids =>
      obtain ⟨hcapacity, hlifetime⟩ := get_settings (c.after earlier) ids now
      exact ⟨hcapacity.trans ih.1, hlifetime.trans ih.2⟩
    | _ => exact ih

section Empty

variable (capacity lifetime : Nat) (history : CacheHistory)

/-- **Every entry is the latest of its key.** -/
theorem entries_isLatest : ∀ e ∈ ((empty capacity lifetime).after history).entries,
    history.IsLatest e.key e.cachedAt e.value := by
  induction history with
  | nil => exact nofun
  | cons x earlier ih =>
    obtain ⟨now, r⟩ := x
    intro e he
    cases r with
    | get ids => exact (ih e (mem_entries_get he)).cons not_false
    | put ids value =>
      obtain rfl | he := mem_entries_put he
      · exact CacheHistory.isLatest_cons.2 (.inl ⟨ids, rfl, rfl, rfl⟩)
      · obtain ⟨he, hne⟩ := mem_others.1 he
        exact (ih e he).cons hne.symm
    | remove ids =>
      obtain ⟨he, hne⟩ := mem_others.1 he
      exact (ih e he).cons hne.symm
    | clear => cases he

/-- **Entries stand in the order in which they were last used.** -/
theorem entries_isByUse : IsByUse ((empty capacity lifetime).usedKeys history)
    ((empty capacity lifetime).after history).entries := by
  induction history with
  | nil => exact List.Pairwise.nil
  | cons x earlier ih =>
    obtain ⟨now, r⟩ := x
    cases r with
    | get ids =>
      have hresult := get_result ((empty capacity lifetime).after earlier) ids now
      simp only [after, usedKeys, CacheRequest.apply, CacheRequest.usedKey?]
      generalize AnonymousCache.entries (Prod.snd _) = entries at hresult
      generalize Prod.fst _ = answer at hresult
      cases hresult with
      | missing => exact ih
      | found e he hkey =>
        rw [← hkey]
        exact ih.cons_others e
      | expired => exact ih.sublist List.filter_sublist
    | put ids value =>
      exact (ih.cons_others ⟨anonymousKey ids, value, now⟩).sublist (List.take_sublist _ _)
    | remove ids => exact ih.sublist List.filter_sublist
    | clear => exact List.Pairwise.nil

/-- Every look-up is counted as a hit or as a miss, and expirations are misses. -/
theorem counters_after :
    ((empty capacity lifetime).after history).hits +
          ((empty capacity lifetime).after history).misses =
        history.countP (·.2.isGet) ∧
      ((empty capacity lifetime).after history).expirations ≤
        ((empty capacity lifetime).after history).misses := by
  induction history with
  | nil => exact ⟨rfl, Nat.le_refl 0⟩
  | cons x earlier ih =>
    obtain ⟨now, r⟩ := x
    obtain ⟨hcount, hexpired⟩ := ih
    cases r with
    | get ids =>
      obtain ⟨hone, hmiss⟩ := get_counters ((empty capacity lifetime).after earlier) ids now
      rw [List.countP_cons_of_pos rfl, ← hcount]
      exact ⟨hone, by simp only [after, CacheRequest.apply]; omega⟩
    | _ =>
      rw [List.countP_cons_of_neg Bool.false_ne_true]
      exact ⟨hcount, hexpired⟩

end Empty

variable {capacity lifetime : Nat} {history : CacheHistory}

/-- An entry that is not too old now has never been too old. -/
theorem not_expired (hlatest : history.IsLatest key t v)
    (hfresh : Instant.nanosBetween t now < lifetime) {t' : Instant}
    (ht' : 0 ≤ Instant.nanosBetween t' now)
    (he : e ∈ ((empty capacity lifetime).after history).entries) (hkey : e.key = key) :
    Instant.nanosBetween e.cachedAt t' < lifetime := by
  have hput := entries_isLatest capacity lifetime history e he
  rw [hkey] at hput
  rw [(hput.unique hlatest).1]
  unfold Instant.nanosBetween at *
  omega

/-- **What was put last under a key is still there** if it is not too old and fewer other keys were
used since this one last was than there is room for. -/
theorem exists_entry (hlatest : history.IsLatest key t v)
    (hlate : ∀ x ∈ history, 0 ≤ Instant.nanosBetween x.1 now)
    (hfresh : Instant.nanosBetween t now < lifetime)
    (hfew : countSince ((empty capacity lifetime).usedKeys history) key < capacity) :
    ∃ e ∈ ((empty capacity lifetime).after history).entries, e.key = key := by
  induction history with
  | nil => exact absurd hlatest CacheHistory.not_isLatest_nil
  | cons x earlier ih =>
    obtain ⟨t', r⟩ := x
    rw [List.forall_mem_cons] at hlate
    obtain ⟨hcapacity, hlifetime⟩ := after_settings (empty capacity lifetime) earlier
    cases r with
    | get ids =>
      obtain ⟨_, h, -⟩ | ⟨hlatest, -⟩ := CacheHistory.isLatest_cons.1 hlatest
      · cases h
      have hresult := get_result ((empty capacity lifetime).after earlier) ids t'
      simp only [after, usedKeys, CacheRequest.apply, CacheRequest.usedKey?] at hfew ⊢
      generalize AnonymousCache.entries (Prod.snd _) = entries at hresult ⊢
      generalize Prod.fst _ = answer at hresult hfew
      cases hresult with
      | missing => exact ih hlatest hlate.2 hfew
      | found e he hkey =>
        by_cases hsame : e.key = key
        · exact ⟨e, List.mem_cons_self, hsame⟩
        · rw [← hkey] at hfew
          obtain ⟨e', he', hkey'⟩ := ih hlatest hlate.2
            (Nat.lt_of_le_of_lt (countSince_le_cons hsame) hfew)
          refine ⟨e', List.mem_cons_of_mem _ (mem_others.2 ⟨he', ?_⟩), hkey'⟩
          rw [hkey', ← hkey]
          exact Ne.symm hsame
      | expired e he hkey hold =>
        obtain ⟨e', he', hkey'⟩ := ih hlatest hlate.2 hfew
        refine ⟨e', mem_others.2 ⟨he', fun hsame => ?_⟩, hkey'⟩
        have hnew := not_expired hlatest hfresh hlate.1 he (hkey.trans (hsame.symm.trans hkey'))
        rw [hlifetime] at hold
        exact absurd hold (Int.not_le.2 hnew)
    | put ids value =>
      refine (entries_isByUse capacity lifetime earlier).exists_put (hcapacity ▸ hfew) ?_
      intro hother
      obtain ⟨_, h, -, hkey⟩ | ⟨hlatest, -⟩ := CacheHistory.isLatest_cons.1 hlatest
      · cases h
        exact absurd hkey hother
      · exact ih hlatest hlate.2 (Nat.lt_of_le_of_lt (countSince_le_cons hother) hfew)
    | remove ids =>
      obtain ⟨_, h, -⟩ | ⟨hlatest, hkeep⟩ := CacheHistory.isLatest_cons.1 hlatest
      · cases h
      obtain ⟨e, he, hkey⟩ := ih hlatest hlate.2 hfew
      exact ⟨e, mem_others.2 ⟨he, fun hsame => hkeep (hsame.symm.trans hkey)⟩, hkey⟩
    | clear =>
      obtain ⟨_, h, -⟩ | ⟨-, hkeep⟩ := CacheHistory.isLatest_cons.1 hlatest
      · cases h
      · exact absurd trivial hkeep

/-- **What a cache knows.** Whatever was asked of it before, a content that is found is the latest
of its key, was put less than the lifetime ago and neither removed nor cleared since. Such a
content is found if fewer other keys were put or hit since its key last was than there is room for.
There are never more entries than there is room for, an entry that is found to be too old is
dropped, and every look-up is counted as a hit or as a miss, some of these as expirations. -/
theorem knows_recent (capacity lifetime : Nat) (history : CacheHistory) (ids : List String)
    (now : Instant) :
    let c := (empty capacity lifetime).after history
    let key := anonymousKey ids
    (∀ v, (c.get ids now).1 = some v →
      ∃ t, history.IsLatest key t v ∧ Instant.nanosBetween t now < lifetime) ∧
    (∀ t v, history.IsLatest key t v → Instant.nanosBetween t now < lifetime →
      (∀ x ∈ history, 0 ≤ Instant.nanosBetween x.1 now) →
      countSince ((empty capacity lifetime).usedKeys history) key < capacity →
      (c.get ids now).1 = some v) ∧
    c.size ≤ capacity ∧
    (∀ e ∈ c.entries, e.key = key → lifetime ≤ Instant.nanosBetween e.cachedAt now →
      (c.get ids now).1 = none ∧ (c.get ids now).2.entries = c.others key) ∧
    c.hits + c.misses = history.countP (·.2.isGet) ∧ c.expirations ≤ c.misses := by
  intro c key
  have hlatest := entries_isLatest capacity lifetime history
  have hbyUse := entries_isByUse capacity lifetime history
  obtain ⟨hcapacity, hlifetime⟩ := after_settings (empty capacity lifetime) history
  have hcapacity : c.capacity = capacity := hcapacity
  have hlifetime : c.lifetime = lifetime := hlifetime
  refine ⟨?_, ?_, ?_, ?_, counters_after capacity lifetime history⟩
  · intro v hv
    obtain ⟨e, he, hkey, rfl, hage⟩ := exists_entry_of_get hv
    rw [← hlifetime]
    exact ⟨e.cachedAt, (show e.key = key from hkey) ▸ hlatest e he, hage⟩
  · intro t v hv hage hlate hfew
    obtain ⟨e, he, hkey⟩ := exists_entry hv hlate hage hfew
    obtain ⟨rfl, rfl⟩ := (hkey ▸ hlatest e he).unique hv
    rw [← hlifetime] at hage
    exact hbyUse.get_of_fresh he hkey hage
  · exact c.size_le.trans hcapacity.le
  · intro e he hkey hage
    rw [← hlifetime] at hage
    exact hbyUse.get_of_expired he hkey hage

namespace TwoRooms

/-- Two product sets are put, the first is hit, and a third is put. -/
def requests : CacheHistory :=
  [(⟨3, 0⟩, .put ["3"] ⟨[], "three"⟩), (⟨2, 0⟩, .get ["1"]),
    (⟨1, 0⟩, .put ["2"] ⟨[], "two"⟩), (⟨0, 0⟩, .put ["1"] ⟨[], "one"⟩)]

/-- The cache after these requests; it has room for two. -/
def cache : AnonymousCache :=
  (empty 2 60000000000).after requests

end TwoRooms

/-- The first product set was hit after the second was put, so it is still there; a minute after it
was put it is dropped. -/
theorem knows_recent_two :
    (TwoRooms.cache.get ["1"] ⟨4, 0⟩).1 = some ⟨[], "one"⟩ ∧
      (∃ t, TwoRooms.requests.IsLatest "1" t ⟨[], "one"⟩ ∧
        Instant.nanosBetween t ⟨4, 0⟩ < 60000000000) ∧
      (TwoRooms.cache.get ["1"] ⟨60, 0⟩).1 = none := by
  have hknows := knows_recent 2 60000000000 TwoRooms.requests ["1"]
  have hfound : (TwoRooms.cache.get ["1"] ⟨4, 0⟩).1 = some ⟨[], "one"⟩ := by
    have hlater : ∀ x ∈ TwoRooms.requests.take 3, ¬ x.2.Replaces "1" := by
      simp only [TwoRooms.requests, List.take, List.forall_mem_cons, CacheRequest.Replaces]
      exact ⟨by decide, not_false, by decide, nofun⟩
    exact (hknows ⟨4, 0⟩).2.1 ⟨0, 0⟩ _ ⟨_, ["1"], [], rfl, rfl, hlater⟩ (by decide) (by decide)
      (by decide)
  refine ⟨hfound, (hknows ⟨4, 0⟩).1 _ hfound, ?_⟩
  exact ((hknows ⟨60, 0⟩).2.2.2.1 ⟨"1", ⟨[], "one"⟩, ⟨0, 0⟩⟩ (by decide) rfl (by decide)).1

end AnonymousCache

end EntitlementAuthority
