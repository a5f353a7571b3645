import EntitlementAuthority.Certificate.Authority
import EntitlementAuthority.Certificate.Inspection
import EntitlementAuthority.Extension.Compact
import EntitlementAuthority.Proofs.Der.Element
import EntitlementAuthority.Proofs.Der.Identifier
import EntitlementAuthority.Proofs.Payload.Framing

/-!
# What an artifact holds

An artifact is a certificate, with a signed payload behind it if there is one. The tree of content
paths is found among the extensions of the certificate, the payload behind its last line.

* `X509.contentTrees` — the trees of content paths that the extensions of a certificate hold.
* `CertificateAuthority.contentTrees_assemble` — a compact certificate holds the tree of its body.
* `BuiltCertificate.endsLine_pem` — the text of a certificate can have a payload behind it.
* `SignedPayload.parse_pem` — without one, it has none.
-/

namespace EntitlementAuthority

/-! ### The tree of content paths -/

/-- The tree of content paths that an extension holds. -/
def RawExtension.contentTree? (e : RawExtension) : Option Bytes :=
  match e.underBase? with
  | some (oid, .ok (.bytes tree)) => if oid = Oid.contentTree then some tree else none
  | _ => none

/-- The trees of content paths that the extensions of a certificate hold. -/
def X509.contentTrees (c : X509) : List Bytes :=
  c.extensions.filterMap RawExtension.contentTree?

namespace RawExtension

variable {oid : Oid}

theorem underBase?_ofOid (h : oid.IsShort) (critical : Bool) (value : Bytes) :
    (ofOid oid critical value).underBase? =
      if oid.isUnder Oid.base then some (oid, ExtensionValue.ofDer value) else none := by
  rw [underBase?, ofOid, Oid.ofDerContents?_derContents h]

/-- Only an extension with the right identifier holds a tree. -/
theorem contentTree?_of_ne (h : oid.IsShort ∧ oid ≠ Oid.contentTree) (critical : Bool)
    (value : Bytes) : (ofOid oid critical value).contentTree? = none := by
  rw [contentTree?, underBase?_ofOid h.1]
  by_cases hunder : oid.isUnder Oid.base = true
  · rw [if_pos hunder]
    cases ExtensionValue.ofDer value with
    | error e => rfl
    | ok v =>
      cases v with
      | text s => rfl
      | bytes tree => exact if_neg h.2
  · rw [if_neg hunder]

theorem contentTree?_text (h : oid.IsShort ∧ oid ≠ Oid.contentTree) (value : String) :
    (Extension.text oid value).raw.contentTree? = none :=
  contentTree?_of_ne h false _

theorem filterMap_text? (h : oid.IsShort ∧ oid ≠ Oid.contentTree) (value : Option String) :
    ((Extension.text? oid value).map Extension.raw).filterMap contentTree? = [] := by
  cases value with
  | none => rfl
  | some s => exact List.filterMap_cons_none (contentTree?_text h s)

theorem contentTree?_bytes {tree : Bytes} (h : tree.length < 256 ^ Der.maxLengthBytes) :
    (Extension.bytes Oid.contentTree tree).raw.contentTree? = some tree := by
  have hunder : (ofOid Oid.contentTree false (ExtensionValue.bytes tree).der).underBase? =
      some (Oid.contentTree, .ok (.bytes tree)) := by
    rw [underBase?_ofOid (by decide), ExtensionValue.ofDer_der (v := .bytes tree) h]
    rfl
  show (ofOid Oid.contentTree false (ExtensionValue.bytes tree).der).contentTree? = _
  rw [contentTree?, hunder]
  exact if_pos rfl

end RawExtension

namespace CertificateAuthority

open RawExtension

/-- The extensions that every certificate has hold no tree. -/
theorem filterMap_requestExtensions (ca : CertificateAuthority) (r : CertificateRequest)
    (keyIdentifier : Bytes) : (ca.requestExtensions r keyIdentifier).filterMap contentTree? =
      (r.extensions.map Extension.raw).filterMap contentTree? := by
  have hfixed : ∀ e ∈ [authorityKey ca.key.identifier, keyUsage 4 0xB0, clientPurpose,
      subjectKey keyIdentifier, basicConstraints false, clientType], e.contentTree? = none := by
    simp only [List.forall_mem_cons]
    exact ⟨contentTree?_of_ne (by decide) _ _, contentTree?_of_ne (by decide) _ _,
      contentTree?_of_ne (by decide) _ _, contentTree?_of_ne (by decide) _ _,
      contentTree?_of_ne (by decide) _ _, contentTree?_of_ne (by decide) _ _,
      List.forall_mem_nil _⟩
  have hnames : (r.alternateName.map fun name => alternateNames
      [r.subject.name, (DistinguishedName.mk name none).name]).toList.filterMap contentTree? =
        [] := by
    cases r.alternateName with
    | none => rfl
    | some name => exact List.filterMap_cons_none (contentTree?_of_ne (by decide) _ _)
  rw [requestExtensions, List.filterMap_append, List.filterMap_append, hnames,
    List.filterMap_eq_nil_iff.2 hfixed]
  rfl

/-- **A compact certificate holds the tree of its body** and no other. -/
theorem contentTrees_assemble (ca : CertificateAuthority) {r : CertificateRequest}
    {body : EntitlementBody} {level : EntitlementLevel} {version : String}
    {productNamespace : Option String}
    (h : r.extensions = compactExtensions body level version productNamespace)
    (hlength : (PathTree.encode body.contentPaths).length < 256 ^ Der.maxLengthBytes) :
    (ca.assemble r).certificate.contentTrees = [PathTree.encode body.contentPaths] := by
  refine (filterMap_requestExtensions ca r _).trans ?_
  have hfirst : ∀ e ∈ [Extension.text Oid.version version,
      Extension.text Oid.certificateType level.text].map Extension.raw, e.contentTree? = none := by
    simp only [List.map_cons, List.map_nil, List.forall_mem_cons]
    exact ⟨contentTree?_text (by decide) _, contentTree?_text (by decide) _,
      List.forall_mem_nil _⟩
  rw [h, compactExtensions, List.map_append, List.map_append, List.filterMap_append,
    List.filterMap_append, List.filterMap_eq_nil_iff.2 hfirst,
    filterMap_text? (by decide)]
  exact List.filterMap_cons_some (contentTree?_bytes hlength)

end CertificateAuthority

/-! ### The text of a certificate -/

namespace Pem

theorem mem_of_mem_lines {cs line : List Char} {c : Char} (hline : line ∈ lines cs)
    (hc : c ∈ line) : c ∈ cs := by
  induction cs using lines.induct with
  | case1 cs hempty =>
    rw [lines, if_pos hempty] at hline
    cases hline
  | case2 cs hsome ih =>
    rw [lines, if_neg hsome] at hline
    rcases List.mem_cons.1 hline with rfl | hline
    · exact List.mem_of_mem_take hc
    · exact List.mem_of_mem_drop (ih hline)

/-- A certificate is written in lines. -/
theorem toList_encode (der : Bytes) :
    (encode der).toList = (certificateBegin.toList ::
      (lines (Base64.encode der).toList ++ [certificateEnd.toList])).flatMap (· ++ ['\n']) := by
  have hnewline : "\n".toList = ['\n'] := rfl
  simp only [encode, String.toList_append, String.toList_ofList, hnewline, List.flatMap_cons,
    List.flatMap_append, List.flatMap_nil, List.append_assoc, List.append_nil]

/-- No line of a certificate holds the marker of a payload. -/
theorem containsText_encode (der : Bytes) :
    Text.containsText Payload.dataBegin (encode der) = false := by
  refine Bool.eq_false_iff.2 fun hfound => ?_
  rw [Text.containsText_iff, toList_encode] at hfound
  obtain ⟨line, hline, hfound⟩ :=
    Text.infix_of_infix_flatMap (by decide) (by decide) hfound
  rcases List.mem_cons.1 hline with rfl | hline
  · exact absurd (Text.containsText_iff.2 hfound) (by decide)
  rcases List.mem_append.1 hline with hline | hline
  · have hblank : ' ' ∈ (Base64.encode der).toList :=
      mem_of_mem_lines hline (hfound.subset (by decide))
    exact absurd (Base64.isPlain_of_mem_encode hblank).2 (by decide)
  · rw [List.mem_singleton.1 hline] at hfound
    exact absurd (Text.containsText_iff.2 hfound) (by decide)

end Pem

/-- **The text of a certificate can have a payload behind it.** -/
theorem BuiltCertificate.endsLine_pem (b : BuiltCertificate) : SignedPayload.EndsLine b.pem where
  newline := .inr ⟨_, rfl⟩
  noMarker := Pem.containsText_encode _

/-- **A certificate alone has no payload.** -/
theorem SignedPayload.parse_pem (b : BuiltCertificate) : parse b.pem = .ok none := by
  have hnone : (Text.cutAt? Payload.dataBegin.toList b.pem.toList).isSome = false :=
    b.endsLine_pem.noMarker
  rw [parse, Option.not_isSome_iff_eq_none.1 (Bool.eq_false_iff.1 hnone)]

end EntitlementAuthority
