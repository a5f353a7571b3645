import EntitlementAuthority.Certificate.Authority
import EntitlementAuthority.Proofs.Der.Element
import EntitlementAuthority.Proofs.Text.Separated
import Mathlib.Data.List.Lex
import Mathlib.Data.List.Sort
import Mathlib.Data.Prod.Lex
import Mathlib.Data.String.Basic

/-!
# What key identifiers depend on

The digest behind the identifier of a subject's key is taken of the key and of all extensions, one
after the other. Of an extension, only the value is written with its length. Where the identifier
ends shows in the byte behind it, which is too small for a digit or a dot.

* `Oid.text_injective` — an object identifier is known by its dotted form.
* `Extension.keyOrder_iff` — extensions are sorted by a linear order of what they add.
* `Extension.append_keyBytes_inj` — what an extension adds shows where it ends.
* `keyIdentifierInput_exact` — the digest is taken of the key and of the extensions, whatever their
  order.
-/

namespace EntitlementAuthority

/-! ### Object identifiers as text -/

namespace Oid

theorem isDigit_of_mem_arc {arcs : List Nat} {f : List Char} {c : Char}
    (hf : f ∈ (arcs.map toString).map String.toList) (hc : c ∈ f) : c.isDigit = true := by
  obtain ⟨s, hs, rfl⟩ := List.mem_map.1 hf
  obtain ⟨n, -, rfl⟩ := List.mem_map.1 hs
  rw [Nat.toString_eq_ofList_toDigits, String.toList_ofList] at hc
  exact Nat.isDigit_of_mem_toDigits (by decide) (by decide) hc

theorem arc_ne_nil {arcs : List Nat} {f : List Char}
    (hf : f ∈ (arcs.map toString).map String.toList) : f ≠ [] := by
  obtain ⟨s, hs, rfl⟩ := List.mem_map.1 hf
  obtain ⟨n, -, rfl⟩ := List.mem_map.1 hs
  rw [Nat.toString_eq_ofList_toDigits, String.toList_ofList]
  exact Nat.toDigits_ne_nil

/-- **An object identifier is known by its dotted form.** -/
theorem text_injective : Function.Injective text := by
  intro o o' h
  have separated : ∀ arcs : List Nat, ∀ f ∈ (arcs.map toString).map String.toList,
      f ≠ [] ∧ '.' ∉ f := fun arcs f hf =>
    ⟨arc_ne_nil hf, fun hdot => absurd (isDigit_of_mem_arc hf hdot) (by decide)⟩
  have hchars := Text.intercalate_inj (separated o.arcs) (separated o'.arcs)
    (String.ofList_injective h)
  have htexts := List.map_injective_iff.2 (fun _ _ => String.toList_inj.1) hchars
  exact congrArg Oid.mk (List.map_injective_iff.2 (fun _ _ => Text.toString_injective) htexts)

/-- No byte of the dotted form is as small as a truth value. -/
theorem one_lt_of_mem_ofText {o : Oid} {b : UInt8} (h : b ∈ Bytes.ofText o.text) :
    1 < b.toNat := by
  obtain ⟨c, hc, hb⟩ := List.mem_flatMap.1 h
  rcases Bytes.toNat_of_mem_utf8EncodeChar hb with hvalue | hlarge
  · rw [hvalue]
    rw [text, Text.joinWith, String.toList_ofList] at hc
    rcases Text.mem_intercalate hc with rfl | ⟨f, hf, hc⟩
    · decide
    · have hdigit := isDigit_of_mem_arc hf hc
      rw [Char.isDigit, Bool.and_eq_true, decide_eq_true_eq] at hdigit
      exact Nat.lt_of_lt_of_le (by decide) (UInt32.le_iff_toNat_le.1 hdigit.1)
  · omega

end Oid

namespace Extension

/-! ### The order of extensions -/

theorem bytesLe_iff {a b : Bytes} : bytesLe a b = true ↔ a.map UInt8.toNat ≤ b.map UInt8.toNat := by
  fun_induction bytesLe a b with
  | case1 b => exact iff_of_true rfl (not_lt.1 (List.not_lt_nil _))
  | case2 a as => exact iff_of_false Bool.false_ne_true (not_le.2 (List.nil_lt_cons _ _))
  | case3 a as b bs ih =>
    rw [← not_lt] at ih
    rw [List.map_cons, List.map_cons, ← not_lt, List.cons_lt_cons_iff, Bool.or_eq_true,
      Bool.and_eq_true, decide_eq_true_eq, beq_iff_eq, ih, UInt8.lt_iff_toNat_lt,
      ← UInt8.toNat_inj]
    rcases Nat.lt_trichotomy a.toNat b.toNat with h | h | h
    · simp [h, h.ne', h.not_gt]
    · simp [h]
    · simp [h, h.ne', h.not_gt]

/-- What extensions are sorted by. -/
def sortKey (e : Extension) : String ×ₗ Bool ×ₗ List Nat :=
  toLex (e.oid.text, toLex (e.critical, e.value.der.map UInt8.toNat))

/-- Extensions are sorted by a linear order of what they add to the digest. -/
theorem keyOrder_iff {a b : Extension} : keyOrder a b = true ↔ a.sortKey ≤ b.sortKey := by
  rw [sortKey, sortKey, Prod.Lex.toLex_le_toLex, Prod.Lex.toLex_le_toLex]
  dsimp only
  simp only [keyOrder, Bool.or_eq_true, Bool.and_eq_true, decide_eq_true_eq, beq_iff_eq,
    bytesLe_iff, Bool.not_eq_true', Bool.lt_iff]

theorem keyBytes_eq_of_sortKey {a b : Extension} (h : a.sortKey = b.sortKey) :
    a.keyBytes = b.keyBytes := by
  obtain ⟨htext, hrest⟩ := Prod.mk.inj (toLex_inj.1 h)
  obtain ⟨hcritical, hmap⟩ := Prod.mk.inj (toLex_inj.1 hrest)
  have hder := List.map_injective_iff.2 (fun _ _ => UInt8.toNat_inj.1) hmap
  rw [keyBytes, keyBytes, htext, hcritical, hder]

theorem flatMap_keyBytes_eq {l l' : List Extension} (h : l.map sortKey = l'.map sortKey) :
    l.flatMap keyBytes = l'.flatMap keyBytes := by
  induction l generalizing l' with
  | nil => rw [List.map_eq_nil_iff.1 h.symm]
  | cons e l ih =>
    obtain ⟨e', l', rfl, he, hl⟩ := List.map_eq_cons_iff.1 h.symm
    rw [List.flatMap_cons, List.flatMap_cons, keyBytes_eq_of_sortKey he, ih hl.symm]

theorem pairwise_map_sortKey (l : List Extension) :
    ((l.mergeSort keyOrder).map sortKey).Pairwise (· ≤ ·) := by
  rw [List.pairwise_map]
  refine (List.pairwise_mergeSort ?_ ?_ l).imp keyOrder_iff.1
  · intro a b c hab hbc
    exact keyOrder_iff.2 ((keyOrder_iff.1 hab).trans (keyOrder_iff.1 hbc))
  · intro a b
    rw [Bool.or_eq_true, keyOrder_iff, keyOrder_iff]
    exact le_total _ _

/-! ### What an extension adds -/

/-- What is cut in front of the first element that stops is known with what stands behind it. -/
theorem append_cons_inj {p : UInt8 → Bool} {as as' bs bs' : Bytes} {b b' : UInt8}
    (has : ∀ a ∈ as, p a = true) (has' : ∀ a ∈ as', p a = true) (hb : ¬ p b = true)
    (hb' : ¬ p b' = true) (h : as ++ b :: bs = as' ++ b' :: bs') :
    as = as' ∧ b = b' ∧ bs = bs' := by
  have hfront := congrArg (List.takeWhile p) h
  rw [List.takeWhile_append_of_pos has, List.takeWhile_append_of_pos has',
    List.takeWhile_cons_of_neg hb, List.takeWhile_cons_of_neg hb', List.append_nil,
    List.append_nil] at hfront
  rw [hfront, List.append_cancel_left_eq] at h
  exact ⟨hfront, List.cons.inj h⟩

/-- **What an extension adds shows where it ends**, if the length of its value can be written. -/
theorem append_keyBytes_inj {e e' : Extension} {rest rest' : Bytes}
    (he : e.value.der.length < 2 ^ 64) (he' : e'.value.der.length < 2 ^ 64)
    (h : e.keyBytes ++ rest = e'.keyBytes ++ rest') : e = e' ∧ rest = rest' := by
  have plain : ∀ {o : Oid}, ∀ b ∈ Bytes.ofText o.text, (decide (1 < b.toNat)) = true :=
    fun b hb => decide_eq_true (Oid.one_lt_of_mem_ofText hb)
  have stops : ∀ c : Bool, ¬ decide (1 < (if c then (1 : UInt8) else 0).toNat) = true := by decide
  -- The mark behind an identifier is smaller than all of its bytes, so that both end at the mark.
  unfold keyBytes at h
  dsimp only at h
  simp only [List.append_assoc, List.singleton_append] at h
  obtain ⟨htext, hcritical, hrest⟩ := append_cons_inj plain plain (stops _) (stops _) h
  obtain ⟨hlength, hrest⟩ := List.append_inj hrest (by simp only [Bytes.length_bigEndian])
  have hlength := congrArg Bytes.ofBigEndian hlength
  rw [Bytes.ofBigEndian_bigEndian he, Bytes.ofBigEndian_bigEndian he'] at hlength
  obtain ⟨hder, hrest⟩ := List.append_inj hrest hlength
  have hoid := Oid.text_injective (Bytes.ofText_injective htext)
  have hvalue := ExtensionValue.der_injective hder
  refine ⟨?_, hrest⟩
  obtain ⟨oid, critical, value⟩ := e
  obtain ⟨oid', critical', value'⟩ := e'
  dsimp only at hoid hvalue hcritical
  rw [hoid, hvalue]
  cases critical <;> cases critical' <;> first | rfl | cases hcritical

theorem keyBytes_ne_nil (e : Extension) : e.keyBytes ≠ [] := by
  simp [keyBytes]

/-- Extensions are known by what they add, one after the other. -/
theorem flatMap_keyBytes_inj {l l' : List Extension} (hl : ∀ e ∈ l, e.value.der.length < 2 ^ 64)
    (hl' : ∀ e ∈ l', e.value.der.length < 2 ^ 64) (h : l.flatMap keyBytes = l'.flatMap keyBytes) :
    l = l' := by
  induction l generalizing l' with
  | nil =>
    cases l' with
    | nil => rfl
    | cons e' l' => exact absurd (List.append_eq_nil_iff.1 h.symm).1 e'.keyBytes_ne_nil
  | cons e l ih =>
    cases l' with
    | nil => exact absurd (List.append_eq_nil_iff.1 h).1 e.keyBytes_ne_nil
    | cons e' l' =>
      rw [List.forall_mem_cons] at hl hl'
      obtain ⟨he, hrest⟩ := append_keyBytes_inj hl.1 hl'.1 h
      rw [he, ih hl.2 hl'.2 hrest]

end Extension

/-! ### Keys -/

namespace KeyPair

theorem length_keyAlgorithmDer_le (a : KeyAlgorithm) : a.keyAlgorithmDer.length ≤ 21 := by
  cases a <;> decide +kernel

theorem length_publicKeyDer_contents {k : KeyPair} (h : k.publicKey.length < 127) :
    [k.algorithm.keyAlgorithmDer, Der.bits k.publicKey].flatten.length <
      256 ^ Der.maxLengthBytes := by
  have halgorithm := length_keyAlgorithmDer_le k.algorithm
  have hbits : (Der.bits k.publicKey).length = k.publicKey.length + 3 := by
    have hshort : k.publicKey.length + 1 < 128 := Nat.succ_lt_succ h
    simp [Der.bits, Der.element, Der.length, hshort]
  refine Nat.lt_of_lt_of_le ?_ (show 151 ≤ 256 ^ Der.maxLengthBytes by decide)
  simp only [List.flatten_cons, List.flatten_nil, List.length_append, List.length_nil, hbits]
  omega

/-- The element that holds a public key is not the front of another one. -/
theorem publicKeyDer_eq_of_prefix {k k' : KeyPair} (hk : k.publicKey.length < 127)
    (hk' : k'.publicKey.length < 127) (h : k.publicKeyDer <+: k'.publicKeyDer) :
    k.publicKeyDer = k'.publicKeyDer :=
  Der.element_eq_of_prefix (length_publicKeyDer_contents hk) (length_publicKeyDer_contents hk') h

end KeyPair

/-! ### The digest -/

/-- **The digest is taken of the key and of the extensions, whatever their order**, and what it is
taken of tells them apart, if none of two keys is the front of the other and the lengths of the
values fit into the eight bytes they are written in. -/
theorem keyIdentifierInput_exact :
    (∀ (publicKey : Bytes) (extensions extensions' : List Extension),
      extensions.Perm extensions' →
      keyIdentifierInput publicKey extensions = keyIdentifierInput publicKey extensions') ∧
    ∀ (publicKey publicKey' : Bytes) (extensions extensions' : List Extension),
      (publicKey <+: publicKey' → publicKey = publicKey') →
      (publicKey' <+: publicKey → publicKey' = publicKey) →
      (∀ e ∈ extensions ++ extensions', e.value.der.length < 2 ^ 64) →
      keyIdentifierInput publicKey extensions = keyIdentifierInput publicKey' extensions' →
      publicKey = publicKey' ∧ extensions.Perm extensions' := by
  constructor
  · intro publicKey extensions extensions' hperm
    have hsorted : (extensions.mergeSort Extension.keyOrder).Perm
        (extensions'.mergeSort Extension.keyOrder) :=
      ((List.mergeSort_perm _ _).trans hperm).trans (List.mergeSort_perm _ _).symm
    have hkeys := List.Perm.eq_of_pairwise' (Extension.pairwise_map_sortKey extensions)
      (Extension.pairwise_map_sortKey extensions') (hsorted.map Extension.sortKey)
    rw [keyIdentifierInput, keyIdentifierInput, Extension.flatMap_keyBytes_eq hkeys]
  · intro publicKey publicKey' extensions extensions' hfront hfront' hfits heq
    have hkey : publicKey = publicKey' := by
      have hprefix : publicKey <+: keyIdentifierInput publicKey' extensions' :=
        heq ▸ List.prefix_append _ _
      exact (List.prefix_or_prefix_of_prefix hprefix (List.prefix_append _ _)).elim hfront
        fun h => (hfront' h).symm
    subst hkey
    refine ⟨rfl, ?_⟩
    rw [keyIdentifierInput, keyIdentifierInput, List.append_cancel_left_eq] at heq
    have hsorted := Extension.flatMap_keyBytes_inj
      (fun e he => hfits e (List.mem_append_left _ (List.mem_mergeSort.1 he)))
      (fun e he => hfits e (List.mem_append_right _ (List.mem_mergeSort.1 he))) heq
    exact (List.mergeSort_perm extensions Extension.keyOrder).symm.trans
      (hsorted ▸ List.mergeSort_perm extensions' Extension.keyOrder)

theorem keyIdentifierInput_exact_swapped :
    let key := (Cryptography.numbered.draw .ecdsaP256 1).publicKeyDer
    let version := Extension.text Oid.version "3.4"
    let tree := Extension.bytes Oid.contentTree [1, 2, 3]
    keyIdentifierInput key [version, tree] = keyIdentifierInput key [tree, version] ∧
      key = key ∧ [version, tree].Perm [tree, version] := by
  intro key version tree
  have heq := keyIdentifierInput_exact.1 key [version, tree] [tree, version] (.swap tree version [])
  have hshort : (Cryptography.numbered.draw .ecdsaP256 1).publicKey.length < 127 := by decide
  have hfront := KeyPair.publicKeyDer_eq_of_prefix hshort hshort
  exact ⟨heq, keyIdentifierInput_exact.2 key key _ _ hfront hfront (by decide) heq⟩

end EntitlementAuthority
