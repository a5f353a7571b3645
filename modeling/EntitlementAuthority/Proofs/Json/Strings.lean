import EntitlementAuthority.Json.Text
import EntitlementAuthority.Proofs.Bytes.Text

/-!
# Texts in JSON, written and read back

* `Json.Escaped`, `Json.escaped_escapeChar` — the three ways in which a character is written.
* `Json.lexString?_escape` — a text between quotes is read up to its closing quote.
* `Json.unescape?_escape` — and stands for itself.
-/

namespace EntitlementAuthority.Json

variable {c : Char} {b : UInt8}

/-! ### Characters -/

/-- A byte that stands for itself: no quote, no backslash and no control character. -/
def IsLiteral (b : UInt8) : Prop :=
  b ≠ 0x22 ∧ b ≠ 0x5C ∧ ¬ b < 0x20

/-- How a character is written. -/
inductive Escaped (c : Char) : Bytes → Prop
  /-- As an escape of two bytes. -/
  | short (e : UInt8) (hshort : isShortEscape e = true)
      (hutf8 : String.utf8EncodeChar c = [shortEscape e]) :
      Escaped c [0x5C, e]
  /-- With the digits of its code. -/
  | code (h1 h2 : UInt8) (hhex : isHexDigit h1 = true ∧ isHexDigit h2 = true)
      (hcode : hexWord 0x30 0x30 h1 h2 = c.toNat) (hsmall : c.toNat < 0x20) :
      Escaped c [0x5C, 0x75, 0x30, 0x30, h1, h2]
  /-- As it is. -/
  | literal (h : ∀ b ∈ String.utf8EncodeChar c, IsLiteral b) : Escaped c (String.utf8EncodeChar c)

theorem isLiteral_of_mem_utf8EncodeChar (hb : b ∈ String.utf8EncodeChar c) (hquote : c ≠ '"')
    (hbackslash : c ≠ '\\') (hcontrol : ¬ c.toNat < 0x20) : IsLiteral b := by
  have hne : ∀ d : Char, c ≠ d → c.toNat ≠ d.toNat := fun d h => fun heq => h (Char.toNat_inj.1 heq)
  have h1 := hne _ hquote
  have h2 := hne _ hbackslash
  have hvalue := Bytes.toNat_of_mem_utf8EncodeChar hb
  change c.toNat ≠ 0x22 at h1
  change c.toNat ≠ 0x5C at h2
  refine ⟨?_, ?_, ?_⟩
  · rintro rfl
    change 0x22 = c.toNat ∨ 128 ≤ 0x22 at hvalue
    omega
  · rintro rfl
    change 0x5C = c.toNat ∨ 128 ≤ 0x5C at hvalue
    omega
  · intro hlt
    have hlt : b.toNat < 0x20 := hlt
    omega

theorem hexBytes_of_control {n : Nat} (h : n < 0x20) :
    (isHexDigit (hexByte (n / 16)) = true ∧ isHexDigit (hexByte (n % 16)) = true) ∧
      hexWord 0x30 0x30 (hexByte (n / 16)) (hexByte (n % 16)) = n := by
  have hall : ∀ m : Fin 0x20,
      (isHexDigit (hexByte (m / 16)) = true ∧ isHexDigit (hexByte (m % 16)) = true) ∧
        hexWord 0x30 0x30 (hexByte (m / 16)) (hexByte (m % 16)) = m := by decide
  exact hall ⟨n, h⟩

theorem eq_ofNat {n : Nat} (h : c.toNat = n) : c = Char.ofNat n := by
  rw [← h, Char.ofNat_toNat]

/-- Every character is written in one of these ways. -/
theorem escaped_escapeChar (c : Char) : Escaped c (escapeChar c) := by
  unfold escapeChar
  split
  · rename_i h
    subst h
    exact .short 0x22 rfl rfl
  split
  · rename_i h
    subst h
    exact .short 0x5C rfl rfl
  split
  · rename_i h
    exact .short 0x62 rfl (by rw [eq_ofNat h]; rfl)
  split
  · rename_i h
    exact .short 0x74 rfl (by rw [eq_ofNat h]; rfl)
  split
  · rename_i h
    exact .short 0x6E rfl (by rw [eq_ofNat h]; rfl)
  split
  · rename_i h
    exact .short 0x66 rfl (by rw [eq_ofNat h]; rfl)
  split
  · rename_i h
    exact .short 0x72 rfl (by rw [eq_ofNat h]; rfl)
  split
  · rename_i h
    obtain ⟨hhex, hcode⟩ := hexBytes_of_control h
    exact .code _ _ hhex hcode h
  · exact .literal fun b hb => isLiteral_of_mem_utf8EncodeChar hb ‹_› ‹_› ‹_›

/-! ### Strings -/

theorem lexString?_literal (h : IsLiteral b) (rest : Bytes) :
    lexString? (b :: rest) = (lexString? rest).map fun (raw, after) => (b :: raw, after) := by
  obtain ⟨hquote, hbackslash, hcontrol⟩ := h
  rw [lexString?.eq_def]
  dsimp only
  rw [if_neg hquote, if_neg hbackslash, if_neg hcontrol]

theorem lexString?_literals {bytes : Bytes} (h : ∀ b ∈ bytes, IsLiteral b) (rest : Bytes) :
    lexString? (bytes ++ rest) =
      (lexString? rest).map fun (raw, after) => (bytes ++ raw, after) := by
  induction bytes with
  | nil => simp
  | cons b bytes ih =>
    rw [List.cons_append, lexString?_literal (h b List.mem_cons_self),
      ih fun b' hb => h b' (List.mem_cons_of_mem b hb), Option.map_map]
    rfl

/-- A character that is written in one of the three ways is read as it stands. -/
theorem Escaped.lexString? {bytes : Bytes} (h : Escaped c bytes) (rest : Bytes) :
    lexString? (bytes ++ rest) =
      (Json.lexString? rest).map fun (raw, after) => (bytes ++ raw, after) := by
  cases h with
  | short e hshort hutf8 =>
    rw [List.cons_append, List.cons_append, List.nil_append, Json.lexString?.eq_def]
    dsimp only
    rw [if_neg (by decide), if_pos rfl, if_pos hshort]
    rfl
  | code h1 h2 hhex hcode hsmall =>
    have hdigits :
        (isHexDigit 0x30 && isHexDigit 0x30 && isHexDigit h1 && isHexDigit h2) = true := by
      rw [hhex.1, hhex.2]
      decide
    simp only [List.cons_append, List.nil_append]
    rw [Json.lexString?.eq_def]
    dsimp only
    rw [if_neg (by decide), if_pos rfl, if_neg (by decide), if_pos rfl, if_pos hdigits]
  | literal hliteral => exact lexString?_literals hliteral rest

/-- **A text between quotes is read** up to its closing quote. -/
theorem lexString?_escape (s : String) (rest : Bytes) :
    lexString? (escape s ++ 0x22 :: rest) = some (escape s, rest) := by
  unfold escape
  induction s.toList with
  | nil =>
    rw [List.flatMap_nil, List.nil_append, lexString?.eq_def]
    dsimp only
    rw [if_pos rfl]
  | cons c cs ih =>
    rw [List.flatMap_cons, List.append_assoc, (escaped_escapeChar c).lexString?, ih]
    rfl

/-! ### What strings stand for -/

theorem unescapeBytes?_literals {bytes : Bytes} (h : ∀ b ∈ bytes, IsLiteral b) (rest : Bytes) :
    unescapeBytes? (bytes ++ rest) = (unescapeBytes? rest).map (bytes ++ ·) := by
  induction bytes with
  | nil => simp
  | cons b bytes ih =>
    rw [List.cons_append, unescapeBytes?.eq_def]
    dsimp only
    rw [if_pos (h b List.mem_cons_self).2.1, ih fun b' hb => h b' (List.mem_cons_of_mem b hb),
      Option.map_map]
    rfl

/-- What is written for a character stands for its UTF-8 form. -/
theorem Escaped.unescapeBytes? {bytes : Bytes} (h : Escaped c bytes) (rest : Bytes) :
    unescapeBytes? (bytes ++ rest) =
      (Json.unescapeBytes? rest).map (String.utf8EncodeChar c ++ ·) := by
  cases h with
  | short e hshort hutf8 =>
    have hu : e ≠ 0x75 := fun h => absurd (h ▸ hshort) (by decide)
    rw [List.cons_append, List.cons_append, List.nil_append, Json.unescapeBytes?.eq_def]
    dsimp only
    rw [if_neg (by decide), if_pos hu, hutf8]
    rfl
  | code h1 h2 hhex hcode hsmall =>
    have htrailing : isTrailingHalf c.toNat = false := by
      simp only [isTrailingHalf, Bool.and_eq_false_iff, decide_eq_false_iff_not]
      omega
    have hleading : isLeadingHalf c.toNat = false := by
      simp only [isLeadingHalf, Bool.and_eq_false_iff, decide_eq_false_iff_not]
      omega
    simp only [List.cons_append, List.nil_append]
    rw [Json.unescapeBytes?.eq_def]
    dsimp only
    rw [if_neg (by decide), if_neg (by decide), hcode, htrailing, hleading,
      if_neg Bool.false_ne_true, if_neg Bool.false_ne_true, codePointBytes, Char.ofNat_toNat]
  | literal hliteral => exact unescapeBytes?_literals hliteral rest

theorem unescapeBytes?_escape (s : String) : unescapeBytes? (escape s) = some (Bytes.ofText s) := by
  unfold escape Bytes.ofText
  induction s.toList with
  | nil => rfl
  | cons c cs ih =>
    rw [List.flatMap_cons, (escaped_escapeChar c).unescapeBytes?, ih]
    rfl

/-- **A text that is written between quotes stands for itself.** -/
theorem unescape?_escape (s : String) : unescape? (escape s) = some s := by
  unfold unescape?
  rw [unescapeBytes?_escape]
  exact Bytes.toText?_ofText s

end EntitlementAuthority.Json
