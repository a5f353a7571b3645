import EntitlementAuthority.Der.ExtensionValue
import EntitlementAuthority.Proofs.Bytes.Text

/-!
# DER elements, written and read back

The long form of a length says how many bytes the length has, in seven bits of which one value is
reserved. So a length of 127 bytes or more cannot be written.

* `Der.byteCount_le` — a number that fits into some bytes is written in as many at most.
* `Der.readLength?_length` — a length is read back from its shortest form.
* `Der.readWhole?_element` — so are the tag and the contents of an element.
* `Der.element_eq_of_prefix` — no element is the front of another one.
* `Der.element_inj` — elements are known by their bytes.
* `ExtensionValue.ofDer_der`, `ExtensionValue.der_faithful` — so are the values of extensions, which
  are read back as what they are.
-/

namespace EntitlementAuthority

namespace Der

variable {n k : Nat}

theorem byteCount_pos (n : Nat) : 0 < byteCount n := by
  unfold byteCount
  split
  · exact Nat.one_pos
  · exact Nat.succ_pos _

/-- A number fits into as many bytes as it takes. -/
theorem lt_pow_byteCount (n : Nat) : n < 256 ^ byteCount n := by
  induction n using byteCount.induct with
  | case1 n hn =>
    rw [byteCount, if_pos hn]
    exact hn
  | case2 n hn ih =>
    rw [byteCount, if_neg hn, Nat.pow_succ]
    omega

/-- A number takes no more bytes than it fits into. -/
theorem byteCount_le (hk : 0 < k) (h : n < 256 ^ k) : byteCount n ≤ k := by
  induction k generalizing n with
  | zero => exact absurd hk (Nat.lt_irrefl 0)
  | succ k ih =>
    unfold byteCount
    split
    · exact hk
    · rename_i hn
      cases k with
      | zero => exact absurd h hn
      | succ k =>
        refine Nat.succ_le_succ (ih (Nat.succ_pos k) ?_)
        rw [Nat.pow_succ] at h
        omega

/-- The greatest number of bytes that a length can have. -/
def maxLengthBytes : Nat := 126

/-- A length in its shortest form is read back, whatever stands behind it. -/
theorem readLength?_length (h : n < 256 ^ maxLengthBytes) (rest : Bytes) :
    readLength? (length n ++ rest) = some (n, rest) := by
  unfold length
  split
  · rename_i hshort
    have hn : (UInt8.ofNat n).toNat = n := by
      rw [UInt8.toNat_ofNat']
      omega
    show (if (UInt8.ofNat n).toNat < 128 then some ((UInt8.ofNat n).toNat, rest) else _) = _
    rw [hn, if_pos hshort]
  · rename_i hlong
    have hcount : byteCount n ≤ 126 := byteCount_le (by decide) h
    have hpos := byteCount_pos n
    have hfirst : (UInt8.ofNat (128 + byteCount n)).toNat = 128 + byteCount n := by
      rw [UInt8.toNat_ofNat']
      omega
    have hdigits : (Bytes.bigEndian (byteCount n) n ++ rest).take (byteCount n) =
        Bytes.bigEndian (byteCount n) n := List.take_left' (Bytes.length_bigEndian _ _)
    rw [List.cons_append, readLength?]
    dsimp only
    rw [hfirst, if_neg (by omega), Nat.add_sub_cancel_left, hdigits,
      Bytes.ofBigEndian_bigEndian (lt_pow_byteCount n), if_neg, List.drop_left'
      (Bytes.length_bigEndian _ _)]
    rw [List.length_append, Bytes.length_bigEndian]
    omega

/-- **An element is read back** if its length can be written. -/
theorem readWhole?_element (tag : UInt8) {contents : Bytes}
    (h : contents.length < 256 ^ maxLengthBytes) :
    readWhole? (element tag contents) = some (tag, contents) := by
  rw [element, List.cons_append, readWhole?, readLength?_length h]
  exact if_pos rfl

/-- What stands in front of something else shows where it ends, if it is an element. -/
theorem element_inj_of_append {tag tag' : UInt8} {contents contents' rest rest' : Bytes}
    (h : contents.length < 256 ^ maxLengthBytes) (h' : contents'.length < 256 ^ maxLengthBytes)
    (heq : element tag contents ++ rest = element tag' contents' ++ rest') :
    tag = tag' ∧ contents = contents' ∧ rest = rest' := by
  rw [element, element, List.cons_append, List.cons_append, List.cons_append, List.cons_append,
    List.append_assoc, List.append_assoc] at heq
  obtain ⟨htag, hbehind⟩ := List.cons.inj heq
  have hread := congrArg readLength? hbehind
  rw [readLength?_length h, readLength?_length h', Option.some.injEq, Prod.mk.injEq] at hread
  obtain ⟨hlength, hcontents⟩ := hread
  exact ⟨htag, List.append_inj hcontents hlength⟩

/-- If an element is the front of another one, it is all of it. -/
theorem element_eq_of_prefix {tag tag' : UInt8} {contents contents' : Bytes}
    (h : contents.length < 256 ^ maxLengthBytes) (h' : contents'.length < 256 ^ maxLengthBytes)
    (hfront : element tag contents <+: element tag' contents') :
    element tag contents = element tag' contents' := by
  obtain ⟨rest, hrest⟩ := hfront
  rw [← List.append_nil (element tag' contents')] at hrest
  obtain ⟨htag, hcontents, -⟩ := element_inj_of_append h h' hrest
  rw [htag, hcontents]

/-! ### Elements are known by their bytes -/

theorem byteCount_mono {m n : Nat} (h : m ≤ n) : byteCount m ≤ byteCount n :=
  byteCount_le (byteCount_pos n) (Nat.lt_of_le_of_lt h (lt_pow_byteCount n))

/-- A greater length takes as many bytes at least. -/
theorem length_length_mono {m n : Nat} (h : m ≤ n) : (length m).length ≤ (length n).length := by
  have hcount := byteCount_mono h
  unfold length
  split <;> split <;> simp <;> omega

/-- Elements are the same only if their tags and their contents are. Their sizes already say how long
the contents are, so this holds of lengths that cannot be written as well. -/
theorem element_inj {tag tag' : UInt8} {contents contents' : Bytes}
    (h : element tag contents = element tag' contents') : tag = tag' ∧ contents = contents' := by
  simp only [element, List.cons_append, List.cons.injEq] at h
  obtain ⟨htag, h⟩ := h
  have hsize := congrArg List.length h
  simp only [List.length_append] at hsize
  have hlength : contents.length = contents'.length := by
    rcases Nat.lt_trichotomy contents.length contents'.length with hlt | heq | hgt
    · have hmono := length_length_mono hlt.le
      omega
    · exact heq
    · have hmono := length_length_mono hgt.le
      omega
  rw [hlength] at h
  exact ⟨htag, List.append_cancel_left h⟩

end Der

namespace ExtensionValue

/-! ### Values of extensions -/

/-- The tag byte of the element for a value. -/
def tag : ExtensionValue → UInt8
  | text _ => textTag
  | bytes _ => bytesTag

/-- The contents of the element for a value. -/
def contents : ExtensionValue → Bytes
  | text s => Bytes.ofText s
  | bytes b => b

theorem der_eq (v : ExtensionValue) : v.der = Der.element v.tag v.contents := by
  cases v <;> rfl

/-- A value is read back from its element, text as text and bytes as bytes. -/
theorem ofDer_der {v : ExtensionValue} (h : v.contents.length < 256 ^ Der.maxLengthBytes) :
    ofDer v.der = .ok v := by
  rw [der_eq, ofDer, Der.readWhole?_element v.tag h]
  cases v with
  | text s => simp [tag, contents, Bytes.toText?_ofText]
  | bytes b => rfl

/-- A value is known by its element. -/
theorem der_injective : Function.Injective der := by
  intro v v' h
  rw [der_eq, der_eq] at h
  obtain ⟨htag, hcontents⟩ := Der.element_inj h
  cases v <;> cases v' <;> simp only [tag, textTag, bytesTag, contents] at htag hcontents
  · rw [Bytes.ofText_injective hcontents]
  · exact absurd htag (by decide)
  · exact absurd htag (by decide)
  · rw [hcontents]

/-- **Values survive their elements.** Every value whose length can be written is read back from its
element, as the text or the bytes that it is, and no two values have the same element. -/
theorem der_faithful :
    (∀ v : ExtensionValue, v.contents.length < 256 ^ Der.maxLengthBytes → ofDer v.der = .ok v) ∧
      ∀ v v' : ExtensionValue, v.der = v'.der → v = v' :=
  ⟨fun _ => ofDer_der, fun _ _ h => der_injective h⟩

/-- Text whose length takes three bytes, behind a mark that says so. -/
theorem der_faithful_long :
    (text (String.ofList (List.replicate 40000 'é'))).contents.length < 256 ^ Der.maxLengthBytes ∧
      ofDer (text (String.ofList (List.replicate 40000 'é'))).der =
        .ok (text (String.ofList (List.replicate 40000 'é'))) := by
  have hlength :
      (text (String.ofList (List.replicate 40000 'é'))).contents.length = 40000 * 2 := by
    rw [contents, Bytes.ofText, String.toList_ofList, List.length_flatMap, List.map_replicate,
      List.sum_replicate_nat]
    rfl
  have hshort : 40000 * 2 < 256 ^ Der.maxLengthBytes := by decide
  rw [← hlength] at hshort
  exact ⟨hshort, der_faithful.1 _ hshort⟩

end ExtensionValue

end EntitlementAuthority
