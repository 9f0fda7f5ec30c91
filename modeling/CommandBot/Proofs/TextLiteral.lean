import CommandBot.Token.Literal

/-
  The literal of a text. `Text.literal` is undone by `Literal.textValue?`, whatever characters the
  text has (`textValue?_literal`), and the scanner of literals takes it whole and stops behind it
  (`scan_literal`).
-/

namespace CommandBot.Text

/-! ## Code points in hexadecimal -/

theorem hexValue_digitChar : ∀ n, n < 16 → hexValue n.digitChar = n := by decide

theorem isHexDigit_digitChar : ∀ n, n < 16 → isHexDigit n.digitChar = true := by decide

/-- The value of some hexadecimal digits behind others of the value `v`. -/
def hexFold (v : Nat) (ds : List Char) : Nat := ds.foldl (fun v d => 16 * v + hexValue d) v

theorem hexFold_toDigits (n : Nat) : hexFold 0 (Nat.toDigits 16 n) = n := by
  induction n using Nat.strongRecOn with
  | _ n ih =>
    rw [Nat.toDigits_eq_if (by omega)]
    split
    · rename_i hlt
      simp [hexFold, hexValue_digitChar n hlt]
    · have hdiv := ih (n / 16) (by omega)
      simp only [hexFold] at hdiv
      rw [hexFold, List.foldl_append, hdiv]
      simp only [List.foldl_cons, List.foldl_nil, hexValue_digitChar (n % 16) (by omega)]
      omega

theorem isHexDigit_of_mem_toDigits (n : Nat) : ∀ d ∈ Nat.toDigits 16 n, isHexDigit d = true := by
  induction n using Nat.strongRecOn with
  | _ n ih =>
    intro d hd
    rw [Nat.toDigits_eq_if (by omega)] at hd
    split at hd
    · rename_i hlt
      rw [List.mem_singleton] at hd
      rw [hd]
      exact isHexDigit_digitChar n hlt
    · rw [List.mem_append, List.mem_singleton] at hd
      rcases hd with hd | hd
      · exact ih (n / 16) (by omega) d hd
      · rw [hd]
        exact isHexDigit_digitChar (n % 16) (by omega)

theorem ne_of_isHexDigit {d : Char} (h : isHexDigit d = true) : d ≠ '}' ∧ d ≠ '_' := by
  constructor <;> (rintro rfl; revert h; decide)

theorem isCodePoint_toNat (c : Char) : isCodePoint c.toNat = true := by
  have hvalid := c.valid
  simp only [isCodePoint, Bool.or_eq_true, decide_eq_true_eq, Bool.and_eq_true]
  rcases hvalid with h | ⟨h, h'⟩
  · have : c.toNat < 0xD800 := h
    omega
  · have : 0xDFFF < c.toNat := h
    have : c.toNat < 0x110000 := h'
    omega

theorem length_toDigits_toNat_le (c : Char) : (Nat.toDigits 16 c.toNat).length ≤ 6 := by
  rw [Nat.length_toDigits_le_iff (by omega) (by omega)]
  have hpoint := isCodePoint_toNat c
  simp only [isCodePoint, Bool.or_eq_true, decide_eq_true_eq, Bool.and_eq_true] at hpoint
  have : (16 : Nat) ^ 6 = 16777216 := by decide
  omega

/-! ## Reading what `escapeLiteral` writes -/

theorem unescape_code_digits (v : Nat) (ds rest : List Char) (h : ∀ d ∈ ds, isHexDigit d = true) :
    unescape (.code v) (ds ++ rest) = unescape (.code (hexFold v ds)) rest := by
  induction ds generalizing v with
  | nil => rfl
  | cons d ds ih =>
    obtain ⟨hbrace, hbreak⟩ := ne_of_isHexDigit (h d (List.mem_cons_self ..))
    rw [List.cons_append, unescape, if_neg hbrace, if_neg hbreak,
      ih _ fun d' hd' => h d' (List.mem_cons_of_mem _ hd')]
    rfl

theorem unescape_codeEscape (c : Char) (rest : List Char) :
    unescape .plain (codeEscape c ++ rest) = c :: unescape .plain rest := by
  have hstart : codeEscape c ++ rest =
      '\\' :: 'u' :: '{' :: (Nat.toDigits 16 c.toNat ++ '}' :: rest) := by
    simp [codeEscape]
  have hopen : ∀ cs, unescape .plain ('\\' :: 'u' :: '{' :: cs) = unescape (.code 0) cs := by
    intro cs
    rw [unescape]
    simp
  rw [hstart, hopen, unescape_code_digits _ _ _ (isHexDigit_of_mem_toDigits _), hexFold_toDigits,
    unescape, if_pos rfl, Char.ofNat_toNat]

/-- A character that shows as itself between double quotes. -/
theorem unescape_plain {c : Char} (hq : c ≠ '"') (hb : c ≠ '\\') (hr : c ≠ '\r')
    (rest : List Char) : unescape .plain (c :: rest) = c :: unescape .plain rest := by
  rw [unescape] <;> simp_all

theorem unescape_escapeChar {c : Char} (hc : c ≠ '\x00') (rest : List Char) :
    unescape .plain (escapeChar c ++ rest) = c :: unescape .plain rest := by
  unfold escapeChar
  rw [if_neg hc]
  split
  · rename_i h
    subst h
    rfl
  split
  · rename_i h
    subst h
    rfl
  split
  · rename_i h
    subst h
    rfl
  split
  · rename_i h
    subst h
    rfl
  split
  · rename_i h
    subst h
    rfl
  split
  · exact unescape_codeEscape c rest
  · exact unescape_plain ‹_› ‹_› ‹_› rest

theorem unescape_escapeLiteral (cs rest : List Char) :
    unescape .plain (escapeLiteral cs ++ '"' :: rest) = cs := by
  induction cs with
  | nil => rfl
  | cons c cs ih =>
    by_cases hc : c = '\x00'
    · subst hc
      cases cs with
      | nil => rfl
      | cons d ds =>
        rw [escapeLiteral]
        split
        · rw [List.append_assoc]
          have hx : ∀ t, unescape .plain ('\\' :: 'x' :: '0' :: '0' :: t) =
              '\x00' :: unescape .plain t := fun _ => rfl
          simp only [List.cons_append, List.nil_append, hx, ih]
        · rw [List.append_assoc]
          have h0 : ∀ t, unescape .plain ('\\' :: '0' :: t) = '\x00' :: unescape .plain t :=
            fun _ => rfl
          simp only [List.cons_append, List.nil_append, h0, ih]
    · have hstep : escapeLiteral (c :: cs) = escapeChar c ++ escapeLiteral cs := by
        rw [escapeLiteral]
        exact hc
      rw [hstep, List.append_assoc, unescape_escapeChar hc, ih]

/-- The literal of a text denotes that text. -/
theorem textValue?_literal (s : String) :
    Literal.textValue? (literal s).toList = some s.toList := by
  have h : (literal s).toList = '"' :: (escapeLiteral s.toList ++ ['"']) := by
    simp [literal]
  rw [h]
  simp only [Literal.textValue?, unescape_escapeLiteral]

/-! ## Scanning what `escapeLiteral` writes -/

open Literal

theorem quoted_code_digits (k v : Nat) (ds rest : List Char) (h : ∀ d ∈ ds, isHexDigit d = true)
    (hk : k + ds.length ≤ 6) :
    quoted .text (.code k v) (ds ++ rest) =
      quoted .text (.code (k + ds.length) (hexFold v ds)) rest := by
  induction ds generalizing k v with
  | nil => rfl
  | cons d ds ih =>
    have hd := h d (List.mem_cons_self ..)
    obtain ⟨hbrace, hbreak⟩ := ne_of_isHexDigit hd
    rw [List.length_cons] at hk
    rw [List.cons_append, quoted, if_neg hbrace, if_neg hbreak, if_pos ⟨hd, by omega⟩,
      ih _ _ (fun d' hd' => h d' (List.mem_cons_of_mem _ hd')) (by omega), List.length_cons,
      show k + 1 + ds.length = k + (ds.length + 1) by omega]
    rfl

theorem quoted_codeEscape (c : Char) (rest : List Char) :
    quoted .text .plain (codeEscape c ++ rest) = quoted .text .plain rest := by
  have hstart : codeEscape c ++ rest =
      '\\' :: 'u' :: '{' :: (Nat.toDigits 16 c.toNat ++ '}' :: rest) := by
    simp [codeEscape]
  have hopen : ∀ cs, quoted .text .plain ('\\' :: 'u' :: '{' :: cs) =
      quoted .text (.code 0 0) cs := by
    intro cs
    rw [quoted] <;> simp
  have hlength := length_toDigits_toNat_le c
  have hpos : 0 < (Nat.toDigits 16 c.toNat).length := Nat.length_toDigits_pos
  rw [hstart, hopen, quoted_code_digits 0 0 _ _ (isHexDigit_of_mem_toDigits _) (by omega),
    hexFold_toDigits, quoted, if_pos rfl, if_pos]
  exact ⟨by omega, isCodePoint_toNat c, nofun⟩

theorem quoted_plain {c : Char} (hq : c ≠ '"') (hb : c ≠ '\\') (hr : c ≠ '\r')
    (rest : List Char) : quoted .text .plain (c :: rest) = quoted .text .plain rest := by
  rw [quoted] <;> simp_all [isPlain]

theorem quoted_escapeChar {c : Char} (hc : c ≠ '\x00') (rest : List Char) :
    quoted .text .plain (escapeChar c ++ rest) = quoted .text .plain rest := by
  unfold escapeChar
  rw [if_neg hc]
  split
  · rfl
  split
  · rfl
  split
  · rfl
  split
  · rfl
  split
  · rfl
  split
  · exact quoted_codeEscape c rest
  · exact quoted_plain ‹_› ‹_› ‹_› rest

theorem quoted_escapeLiteral (cs rest : List Char) :
    quoted .text .plain (escapeLiteral cs ++ '"' :: rest) = some (suffix rest) := by
  induction cs with
  | nil => rfl
  | cons c cs ih =>
    by_cases hc : c = '\x00'
    · subst hc
      cases cs with
      | nil => rfl
      | cons d ds =>
        rw [escapeLiteral]
        split
        · rw [List.append_assoc]
          exact ih
        · rw [List.append_assoc]
          exact ih
    · have hstep : escapeLiteral (c :: cs) = escapeChar c ++ escapeLiteral cs := by
        rw [escapeLiteral]
        exact hc
      rw [hstep, List.append_assoc, quoted_escapeChar hc, ih]

/-- The scanner of literals takes the literal of a text whole, with the suffix behind it. -/
theorem scan_literal (s : String) (rest : List Char) :
    scan ((literal s).toList ++ rest) = some (suffix rest) := by
  have h : (literal s).toList ++ rest = '"' :: (escapeLiteral s.toList ++ '"' :: rest) := by
    simp [literal]
  rw [h]
  exact quoted_escapeLiteral s.toList rest

end CommandBot.Text
