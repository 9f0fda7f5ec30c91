import CommandBot.Proofs.NumberScan

/-
  Literals in other places. What a scanner takes depends on the characters it takes, and not on
  those that happen to follow, as long as they end a token. `exists_of_scan` says so of all
  literals, one scanner after the other.
-/

namespace CommandBot.Literal

open CommandBot.Text

/-! ## Between quotes -/

theorem quoted_nil (content : Content) (part : Part) : quoted content part [] = none := by
  rw [quoted]

theorem quoted_plain {content : Content} {c : Char} (hq : c ≠ '"') (hb : c ≠ '\\') (hr : c ≠ '\r')
    (rest : List Char) :
    quoted content .plain (c :: rest) =
      if isPlain content c then quoted content .plain rest else none :=
  quoted.eq_13 content c rest hq (fun _ _ _ h => absurd h hb) (fun _ h => absurd h hb)
    (fun _ h => absurd h hb) (fun _ h => absurd h hb) (fun _ _ h => absurd h hb) hr

theorem quoted_gap {content : Content} {c : Char} (hq : c ≠ '"') (hb : c ≠ '\\') (hr : c ≠ '\r')
    (rest : List Char) :
    quoted content (.gap false) (c :: rest) =
      if c = ' ' ∨ c = '\t' ∨ c = '\n' then quoted content (.gap false) rest
      else if isPlain content c then quoted content .plain rest else none :=
  quoted.eq_14 content c rest hq (fun _ _ _ h => absurd h hb) (fun _ h => absurd h hb)
    (fun _ h => absurd h hb) (fun _ h => absurd h hb) (fun _ _ h => absurd h hb) hr

/-- A backslash at the very end begins no escape. -/
theorem ne_backslash {content : Content} {part : Part} {c : Char} {rest r : List Char}
    (hno : ∀ (d : Char) (more : List Char), c = '\\' → rest = d :: more → False)
    (h : quoted content part rest = some r) : c ≠ '\\' := by
  intro hc
  cases rest with
  | nil => rw [quoted_nil] at h; cases h
  | cons d more => exact hno d more hc rfl

theorem exists_of_quoted {content : Content} {part : Part} {cs r : List Char}
    (h : quoted content part cs = some r) : ∃ t, cs = t ++ r ∧ Takes (quoted content part) t := by
  fun_induction quoted content part cs with
  | case2 digits value rest hc ih =>
    refine exists_of_step ['}'] (fun x => ?_) (ih h)
    rw [List.singleton_append, quoted, if_pos rfl, if_pos hc]
  | case4 digits value rest hc hne ih =>
    refine exists_of_step ['_'] (fun x => ?_) (ih h)
    rw [List.singleton_append, quoted, if_neg hne, if_pos rfl, if_pos hc]
  | case6 digits value c rest hbrace hbreak hc ih =>
    refine exists_of_step [c] (fun x => ?_) (ih h)
    rw [List.singleton_append, quoted, if_neg hbrace, if_neg hbreak, if_pos hc]
  | case8 rest ih =>
    refine exists_of_step ['\n'] (fun x => ?_) (ih h)
    rw [List.singleton_append, quoted, if_pos rfl]
  | case10 part rest hcode hgap =>
    cases h
    obtain ⟨t, ht, htakes⟩ := exists_of_suffix rest
    refine ⟨'"' :: t, by rw [List.cons_append, ← ht], ?_⟩
    intro x hx
    rw [List.cons_append, quoted.eq_4 content part _ hcode hgap, htakes x hx]
  | case11 part a b rest hcode hgap hc ih =>
    refine exists_of_step ['\\', 'x', a, b] (fun x => ?_) (ih h)
    exact (quoted.eq_5 content part a b x hcode hgap).trans (if_pos hc)
  | case14 part rest hcode hgap hc ih =>
    refine exists_of_step ['\\', 'u', '{'] (fun x => ?_) (ih h)
    exact (quoted.eq_6 content part x hcode hgap).trans (if_neg hc)
  | case15 part rest hcode hgap ih =>
    refine exists_of_step ['\\', '\n'] (fun x => ?_) (ih h)
    exact quoted.eq_7 content part x hcode hgap
  | case16 part rest hcode hgap ih =>
    refine exists_of_step ['\\', '\r'] (fun x => ?_) (ih h)
    exact quoted.eq_8 content part x hcode hgap
  | case17 part c rest hcode hgap hx hu hn hr hc ih =>
    refine exists_of_step ['\\', c] (fun x => ?_) (ih h)
    have hcx : c ≠ 'x' := by rintro rfl; revert hc; cases content <;> decide
    have hcu : c ≠ 'u' := by rintro rfl; revert hc; cases content <;> decide
    exact (quoted.eq_9 content part c x (fun _ _ _ e => absurd e hcx) (fun _ e => absurd e hcu)
      hn hr hcode hgap).trans (if_pos hc)
  | case19 more ih =>
    refine exists_of_step ['\r', '\n'] (fun x => ?_) (ih h)
    exact quoted.eq_10 content x
  | case21 rest ih =>
    refine exists_of_step ['\r'] (fun x => ?_) (ih h)
    exact quoted.eq_12 content x
  | case22 c rest hq hx hu hn hr hno hret hc ih =>
    refine exists_of_step [c] (fun x => ?_) (ih h)
    exact (quoted_plain hq (ne_backslash hno h) hret x).trans (if_pos hc)
  | case24 c rest hq hx hu hn hr hno hret hc ih =>
    refine exists_of_step [c] (fun x => ?_) (ih h)
    exact (quoted_gap hq (ne_backslash hno h) hret x).trans (if_pos hc)
  | case25 c rest hq hx hu hn hr hno hret hc hp ih =>
    refine exists_of_step [c] (fun x => ?_) (ih h)
    exact (quoted_gap hq (ne_backslash hno h) hret x).trans ((if_neg hc).trans (if_pos hp))
  | _ => cases h

/-! ## Raw literals -/

theorem rawBody_cons (content : Content) (hashes : Nat) (c : Char) (rest : List Char) :
    rawBody content hashes (c :: rest) =
      if c = '"' ∧ (rest.take hashes).all (· == '#') ∧ hashes ≤ rest.length then
        some (suffix (rest.drop hashes))
      else if c = '\r' then
        match rest with
        | '\n' :: more => rawBody content hashes more
        | _ => none
      else if isPlain content c then rawBody content hashes rest else none := by
  rewrite [rawBody.eq_def]
  rfl

theorem exists_of_rawBody {content : Content} {hashes : Nat} {cs r : List Char}
    (h : rawBody content hashes cs = some r) :
    ∃ t, cs = t ++ r ∧ hashes ≤ t.length ∧ Takes (rawBody content hashes) t := by
  fun_induction rawBody content hashes cs with
  | case2 c rest hc =>
    cases h
    obtain ⟨t, ht, htakes⟩ := exists_of_suffix (rest.drop hashes)
    have hlength : (rest.take hashes).length = hashes := List.length_take_of_le hc.2.2
    refine ⟨c :: (rest.take hashes ++ t), ?_, ?_, fun x hx => ?_⟩
    · rw [List.cons_append, List.append_assoc, ← ht, List.take_append_drop]
    · rw [List.length_cons, List.length_append, hlength]
      omega
    · have htake : (rest.take hashes ++ (t ++ x)).take hashes = rest.take hashes := by
        rw [List.take_append_of_le_length (by omega), List.take_take, Nat.min_self]
      have hdrop : (rest.take hashes ++ (t ++ x)).drop hashes = t ++ x := by
        rw [List.drop_append_of_le_length (by omega), List.drop_of_length_le (by omega),
          List.nil_append]
      rw [List.cons_append, List.append_assoc, rawBody_cons, htake, hdrop, htakes x hx, if_pos]
      refine ⟨hc.1, hc.2.1, ?_⟩
      rw [List.length_append, hlength]
      omega
  | case3 more hc ih =>
    obtain ⟨t, rfl, hlength, ht⟩ := ih h
    refine ⟨'\r' :: '\n' :: t, rfl, by simp only [List.length_cons]; omega, fun x hx => ?_⟩
    rw [List.cons_append, List.cons_append, rawBody_cons, if_neg (fun hq => absurd hq.1 (by decide)),
      if_pos rfl]
    exact ht x hx
  | case5 c rest hc hr hp ih =>
    obtain ⟨t, rfl, hlength, ht⟩ := ih h
    refine ⟨c :: t, rfl, by simp only [List.length_cons]; omega, fun x hx => ?_⟩
    rw [List.cons_append, rawBody_cons, if_neg, if_neg hr, if_pos hp]
    · exact ht x hx
    · rintro ⟨hq, hall, -⟩
      apply hc
      rw [List.take_append_of_le_length hlength] at hall ⊢
      exact ⟨hq, hall, by rw [List.length_append]; omega⟩
  | _ => cases h

theorem exists_of_raw {content : Content} {cs r : List Char} (h : raw content cs = some r) :
    ∃ t, cs = t ++ r ∧ Takes (raw content) t := by
  have hraw : ∀ (hs rest : List Char), hs.all (· == '#') = true →
      raw content (hs ++ '"' :: rest) =
        if hs.length ≤ 255 then rawBody content hs.length rest else none := by
    intro hs rest hall
    have htake : (hs ++ '"' :: rest).takeWhile (· == '#') = hs := takeWhile_append_of_all hall rfl
    have hdrop : (hs ++ '"' :: rest).dropWhile (· == '#') = '"' :: rest := by
      rw [dropWhile_append_of_all hall]
      rfl
    unfold raw
    rw [htake, hdrop]
    rfl
  have hsplit : cs = cs.takeWhile (· == '#') ++ cs.dropWhile (· == '#') :=
    List.takeWhile_append_dropWhile.symm
  unfold raw at h
  split at h
  · rename_i rest hrest
    have h : (if (cs.takeWhile (· == '#')).length ≤ 255 then
        rawBody content (cs.takeWhile (· == '#')).length rest else none) = some r := h
    split at h
    · rename_i hle
      obtain ⟨t, rfl, -, ht⟩ := exists_of_rawBody h
      refine ⟨cs.takeWhile (· == '#') ++ '"' :: t, ?_, fun x hx => ?_⟩
      · rw [List.append_assoc, List.cons_append, ← hrest]
        exact hsplit
      · rw [List.append_assoc, List.cons_append, hraw _ _ List.all_takeWhile, if_pos hle, ht x hx]
    · cases h
  · cases h

/-! ## Characters -/

theorem exists_of_code {digits value : Nat} {cs r : List Char}
    (h : code digits value cs = some r) :
    ∃ t, cs = t ++ r ∧ ∀ x, code digits value (t ++ x) = some x := by
  fun_induction code digits value cs with
  | case2 digits value rest hc =>
    cases h
    refine ⟨['}'], rfl, fun x => ?_⟩
    rw [List.singleton_append, code, if_pos rfl, if_pos hc]
  | case4 digits value rest hd hne ih =>
    obtain ⟨t, rfl, ht⟩ := ih h
    refine ⟨'_' :: t, rfl, fun x => ?_⟩
    rw [List.cons_append, code, if_neg hne, if_pos rfl, if_pos hd, ht x]
  | case6 digits value c rest hbrace hbreak hc ih =>
    obtain ⟨t, rfl, ht⟩ := ih h
    refine ⟨c :: t, rfl, fun x => ?_⟩
    rw [List.cons_append, code, if_neg hbrace, if_neg hbreak, if_pos hc, ht x]
  | _ => cases h

theorem exists_of_unit {content : Content} {cs r : List Char} (h : unit content cs = some r) :
    ∃ t, cs = t ++ r ∧ ∀ x, unit content (t ++ x) = some x := by
  unfold unit at h
  split at h
  · rename_i a b rest
    split at h
    · rename_i hc
      cases h
      exact ⟨['\\', 'x', a, b], rfl, fun x => if_pos hc⟩
    · cases h
  · rename_i rest
    split at h
    · cases h
    · rename_i hc
      obtain ⟨t, rfl, ht⟩ := exists_of_code h
      exact ⟨'\\' :: 'u' :: '{' :: t, rfl, fun x => (if_neg hc).trans (ht x)⟩
  · rename_i c rest hx hu
    split at h
    · rename_i hc
      cases h
      have hcx : c ≠ 'x' := by rintro rfl; revert hc; cases content <;> decide
      have hcu : c ≠ 'u' := by rintro rfl; revert hc; cases content <;> decide
      refine ⟨['\\', c], rfl, fun x => ?_⟩
      exact (unit.eq_3 content c x (fun _ _ _ e => absurd e hcx) (fun _ e => absurd e hcu)).trans
        (if_pos hc)
    · cases h
  · cases h
  · rename_i c rest hx hu hno hnil
    split at h
    · rename_i hc
      cases h
      have hcb : c ≠ '\\' := by
        rintro rfl
        cases r with
        | nil => exact hnil rfl rfl
        | cons d r => exact hno d r rfl rfl
      refine ⟨[c], rfl, fun x => ?_⟩
      exact (unit.eq_5 content c x (fun _ _ _ e => absurd e hcb) (fun _ e => absurd e hcb)
        (fun _ _ e => absurd e hcb) (fun e => absurd e hcb)).trans (if_pos hc)
    · cases h
  · cases h

theorem exists_of_character {content : Content} {cs r : List Char}
    (h : character content cs = some r) : ∃ t, cs = t ++ r ∧ Takes (character content) t := by
  unfold character at h
  split at h
  · rename_i rest hunit
    cases h
    obtain ⟨t, rfl, ht⟩ := exists_of_unit hunit
    obtain ⟨s, hs, hsuffix⟩ := exists_of_suffix rest
    refine ⟨t ++ '\'' :: s, ?_, fun x hx => ?_⟩
    · rw [List.append_assoc, List.cons_append, ← hs]
    · rw [character, List.append_assoc, List.cons_append, ht]
      exact congrArg some (hsuffix x hx)
  · cases h

/-! ## All literals -/

theorem scan_of_isDigit {cs : List Char} (h : cs.head?.any Char.isDigit = true) :
    scan cs = number cs := by
  cases cs with
  | nil => cases h
  | cons c cs =>
    have hne : ∀ d : Char, d.isDigit = false → c ≠ d := by
      rintro d hd rfl
      exact absurd h (by simp [hd])
    exact scan.eq_9 _ (fun _ e => hne '"' rfl (List.cons.inj e).1)
      (fun _ e => hne 'b' rfl (List.cons.inj e).1) (fun _ e => hne 'c' rfl (List.cons.inj e).1)
      (fun _ e => hne 'b' rfl (List.cons.inj e).1) (fun _ e => hne 'b' rfl (List.cons.inj e).1)
      (fun _ e => hne 'c' rfl (List.cons.inj e).1) (fun _ e => hne 'r' rfl (List.cons.inj e).1)
      (fun _ e => hne '\'' rfl (List.cons.inj e).1)

/-- What is taken as a literal is one before the end of every token. -/
theorem exists_of_scan {cs r : List Char} (h : scan cs = some r) :
    ∃ t, cs = t ++ r ∧ Takes scan t := by
  unfold scan at h
  split at h
  · exact exists_of_step ['"'] (fun x => rfl) (exists_of_quoted h)
  · exact exists_of_step ['b', '"'] (fun x => rfl) (exists_of_quoted h)
  · exact exists_of_step ['c', '"'] (fun x => rfl) (exists_of_quoted h)
  · exact exists_of_step ['b', '\''] (fun x => rfl) (exists_of_character h)
  · exact exists_of_step ['b', 'r'] (fun x => rfl) (exists_of_raw h)
  · exact exists_of_step ['c', 'r'] (fun x => rfl) (exists_of_raw h)
  · exact exists_of_step ['r'] (fun x => rfl) (exists_of_raw h)
  · exact exists_of_step ['\''] (fun x => rfl) (exists_of_character h)
  · obtain ⟨t, rfl, hdigit, ht⟩ := exists_of_number h
    refine ⟨t, rfl, fun x hx => ?_⟩
    rw [scan_of_isDigit (head?_append_any hdigit x), ht x hx]

end CommandBot.Literal
