import EntitlementAuthority.Json.Record
import EntitlementAuthority.Proofs.Json.Roundtrip

/-!
# Records in JSON, written and read back

* `Json.Recovers` — a value that can be written and holds what it was made from.
* `Json.RecoversField` — the same of a field, which may be left out.
* `Json.fields?_ofFields` — the fields of a record are found under their names.
* `Json.Written.ofFields` — a record can be written if its fields can.
-/

namespace EntitlementAuthority.Json

variable {α : Type}

/-! ### Values -/

/-- A value that can be written, is not null, and is read as `x`. -/
structure Recovers (f : Json → Option α) (v : Json) (x : α) : Prop where
  written : Written v
  ne_null : v ≠ .null
  reads : f v = some x

theorem recovers_text (s : String) : Recovers text? (ofText s) s where
  written := .text s
  ne_null := Json.noConfusion
  reads := unescape?_escape s

theorem recovers_bool (b : Bool) : Recovers bool? (.bool b) b where
  written := .bool b
  ne_null := Json.noConfusion
  reads := rfl

theorem recovers_int64 {n : Int} (h : IsInt64 n) : Recovers int64? (ofInt n) n where
  written := .int n
  ne_null := Json.noConfusion
  reads := int64?_ofInt h

theorem mapM_eq_some {f : Json → Option α} {g : α → Json} {xs : List α}
    (h : ∀ x ∈ xs, f (g x) = some x) : (xs.map g).mapM f = some xs := by
  induction xs with
  | nil => rfl
  | cons x xs ih =>
    rw [List.map_cons, List.mapM_cons, h x List.mem_cons_self,
      ih fun y hy => h y (List.mem_cons_of_mem x hy)]
    rfl

theorem recovers_list {f : Json → Option α} {g : α → Json} {xs : List α}
    (h : ∀ x ∈ xs, Recovers f (g x) x) : Recovers (listOf? f) (.array (xs.map g)) xs where
  written := .array _ fun v hv => by
    obtain ⟨x, hx, rfl⟩ := List.mem_map.1 hv
    exact (h x hx).written
  ne_null := Json.noConfusion
  reads := mapM_eq_some fun x hx => (h x hx).reads

/-! ### Fields -/

/-- A field that can be written, if it is there, and is read as `x`. -/
structure RecoversField (f : Option Json → Option α) (field : Option Json) (x : α) : Prop where
  written : ∀ v ∈ field, Written v
  reads : f field = some x

namespace RecoversField

theorem bind {β : Type} {f : Option Json → Option α} {field : Option Json} {x : α}
    (h : RecoversField f field x) (k : α → Option β) : (f field >>= k) = k x := by
  rw [h.reads]
  rfl

theorem required {f : Json → Option α} {v : Json} {x : α} (h : Recovers f v x) :
    RecoversField (required? f) (some v) x where
  written := by
    rintro _ ⟨⟩
    exact h.written
  reads := h.reads

/-- A field that is left out if there is nothing to say. -/
theorem maybe {f : Json → Option α} {g : α → Json} {x : Option α}
    (h : ∀ y ∈ x, Recovers f (g y) y) : RecoversField (maybe? f) (x.map g) x := by
  cases x with
  | none => exact ⟨nofun, rfl⟩
  | some y =>
    obtain ⟨hwritten, hne, hreads⟩ := h y rfl
    refine ⟨by rintro _ ⟨⟩; exact hwritten, ?_⟩
    show optional? f (g y) = _
    rw [optional?.eq_def]
    split
    · exact absurd ‹_› hne
    · rw [hreads]
      rfl

theorem orElse {f : Json → Option α} {missing : α} {v : Json} {x : α} (h : Recovers f v x) :
    RecoversField (orElse? missing f) (some v) x where
  written := by
    rintro _ ⟨⟩
    exact h.written
  reads := h.reads

end RecoversField

/-! ### Records -/

theorem Written.ofFields {fields : List (String × Option Json)}
    (h : ∀ field ∈ fields, ∀ v ∈ field.2, Written v) : Written (ofFields fields) := by
  have hobject : Written (.object ((fields.filterMap fun field => field.2.map (field.1, ·)).map
      fun m => (escape m.1, m.2))) := by
    refine .object _ fun m hm => ?_
    obtain ⟨field, hfield, hm⟩ := List.mem_filterMap.1 hm
    obtain ⟨v, hv, rfl⟩ := Option.map_eq_some_iff.1 hm
    exact h field hfield v hv
  rw [List.map_filterMap] at hobject
  simp only [Option.map_map] at hobject
  exact hobject

theorem idxOf?_append_cons {name : String} {before : List String} (h : name ∉ before)
    (after : List String) : (before ++ name :: after).idxOf? name = some before.length := by
  induction before with
  | nil => rw [List.nil_append, List.idxOf?_cons, if_pos BEq.rfl, List.length_nil]
  | cons b before ih =>
    have hne : (b == name) = false := beq_false_of_ne fun heq => h (heq ▸ List.mem_cons_self)
    rw [List.cons_append, List.idxOf?_cons, hne, if_neg Bool.false_ne_true,
      ih fun hmem => h (List.mem_cons_of_mem b hmem)]
    rfl

/-- A member is entered where its name stands. -/
theorem enterMember?_escape {name : String} {before after : List String}
    {found missing : List (Option Json)} (hnew : name ∉ before)
    (hlength : found.length = before.length) (v : Json) :
    enterMember? (before ++ name :: after) (found ++ none :: missing) (escape name, v) =
      some (found ++ some v :: missing) := by
  unfold enterMember?
  dsimp only
  rw [unescape?_escape]
  dsimp only
  rw [idxOf?_append_cons hnew, ← hlength]
  dsimp only
  rw [List.getElem?_append_right (Nat.le_refl _), Nat.sub_self, List.getElem?_cons_zero]
  dsimp only
  rw [List.set_append_right _ _ (Nat.le_refl _), Nat.sub_self, List.set_cons_zero]

/-- The fields are entered one after the other; those that are left out remain free. -/
theorem foldlM_enterMember? (done todo : List (String × Option Json))
    (hnodup : ((done ++ todo).map Prod.fst).Nodup) :
    (todo.filterMap fun (name, v) => v.map fun v => (escape name, v)).foldlM
        (enterMember? ((done ++ todo).map Prod.fst))
        (done.map Prod.snd ++ todo.map fun _ => none) =
      some ((done ++ todo).map Prod.snd) := by
  -- what is done has its values, and what is still to do is free
  induction todo generalizing done with
  | nil =>
    rw [List.map_nil, List.append_nil, List.append_nil]
    rfl
  | cons field todo ih =>
    have hfound : (done ++ [field]).map Prod.snd = done.map Prod.snd ++ [field.2] := List.map_append
    have hrest := ih (done ++ [field])
    rw [List.append_assoc, List.singleton_append, hfound, List.append_assoc] at hrest
    have hrest := hrest hnodup
    obtain ⟨name, _ | v⟩ := field
    · -- nothing was written for this field
      exact hrest
    · rw [List.map_append, List.map_cons, List.nodup_append] at hnodup
      have hnew : name ∉ done.map Prod.fst :=
        fun hmem => hnodup.2.2 name hmem name List.mem_cons_self rfl
      have hlength : (done.map Prod.snd).length = (done.map Prod.fst).length := by
        rw [List.length_map, List.length_map]
      have hmember : enterMember? ((done ++ (name, some v) :: todo).map Prod.fst)
          (done.map Prod.snd ++ none :: todo.map fun _ => none) (escape name, v) =
            some (done.map Prod.snd ++ some v :: todo.map fun _ => none) := by
        rw [List.map_append, List.map_cons]
        exact enterMember?_escape hnew hlength v
      rw [List.filterMap_cons]
      dsimp only [Option.map_some]
      rw [List.foldlM_cons, List.map_cons, hmember]
      exact hrest

/-- **The fields of a record are found** under their names. -/
theorem fields?_ofFields {fields : List (String × Option Json)} {names : List String}
    (hnames : fields.map Prod.fst = names) (hnodup : names.Nodup) :
    fields? names (ofFields fields) = some (fields.map Prod.snd) := by
  subst hnames
  have hfields := foldlM_enterMember? [] fields hnodup
  rw [List.nil_append, List.map_nil, List.nil_append] at hfields
  rw [ofFields, fields?, List.map_map]
  exact hfields

end EntitlementAuthority.Json
