import CommandBot.Proofs.Printing
import CommandBot.Proofs.Unplaced

/-
  What a grammar reads does not depend on where the tokens stand, if its tests and its single tokens
  do not: each test commutes with forgetting the places (`IsBlind`), so does what is read of a token
  (`Blind`), and so does reading by the whole grammar (`Blind.read`).
-/

namespace CommandBot.Grammar

open TokenTree

/-! ## Tests -/

/-- A test of the tokens ahead that does not look at their places. -/
@[simp] def IsBlind (test : Ahead) : Prop := ∀ ts, test (unplacedAll ts) = test ts

section
variable (t : TokenTree)

@[simp] theorem isWord_unplaced (s : String) : isWord s t.unplaced = isWord s t := by
  cases t <;> simp [unplaced, isWord, Word.made]

@[simp] theorem isOneOf_unplaced (ss : List String) : isOneOf ss t.unplaced = isOneOf ss t := by
  cases t <;> simp [unplaced, isOneOf, Word.made]

@[simp] theorem isAnyWord_unplaced : isAnyWord t.unplaced = isAnyWord t := by
  cases t <;> simp [unplaced, isAnyWord]

@[simp] theorem isName_unplaced : isName t.unplaced = isName t := by
  cases t <;> simp [unplaced, isName, Word.made]

@[simp] theorem isGroup_unplaced (d : Delimiter) : isGroup d t.unplaced = isGroup d t := by
  cases t <;> simp [unplaced, isGroup]

@[simp] theorem isAnyGroup_unplaced : isAnyGroup t.unplaced = isAnyGroup t := by
  cases t <;> simp [unplaced, isAnyGroup]

@[simp] theorem isLiteral_unplaced : isLiteral t.unplaced = isLiteral t := by
  cases t <;> simp [unplaced, isLiteral, isOneOf, Word.made]

@[simp] theorem isNumber_unplaced : isNumber t.unplaced = isNumber t := by
  cases t <;> simp [unplaced, isNumber]

@[simp] theorem isText_unplaced : isText t.unplaced = isText t := by
  cases t <;> simp [unplaced, isText]

@[simp] theorem plainSegment_unplaced : plainSegment t.unplaced = plainSegment t := by
  cases t <;> simp [unplaced, plainSegment, Word.made]

@[simp] theorem segmentWord_unplaced : segmentWord t.unplaced = segmentWord t := by
  cases t <;> simp [unplaced, segmentWord, Word.made]

@[simp] theorem pointedNumber_unplaced : pointedNumber t.unplaced = pointedNumber t := by
  cases t <;> simp [unplaced, pointedNumber]

@[simp] theorem closureWord_unplaced : closureWord t.unplaced = closureWord t :=
  isOneOf_unplaced t _

@[simp] theorem isMark_unplaced (c : Char) : isMark c t.unplaced = isMark c t := by
  cases t <;> simp [unplaced, isMark]

end

section
variable (ts : List TokenTree)

@[simp] theorem marks_unplacedAll (cs : List Char) : marks cs (unplacedAll ts) = marks cs ts := by
  induction cs generalizing ts with
  | nil => rfl
  | cons c cs ih =>
    cases ts with
    | nil => rw [unplacedAll_nil]
    | cons t ts =>
      rw [unplacedAll_cons]
      cases t with
      | mark d spacing s =>
        rw [unplaced_mark]
        cases cs with
        | nil => rfl
        | cons c' cs =>
          cases spacing with
          | alone => rfl
          | joint => exact congrArg (c = d && ·) (ih ts)
      | word w =>
        rw [unplaced_word]
        cases cs <;> rfl
      | literal text s =>
        rw [unplaced_literal]
        cases cs <;> rfl
      | group e content s =>
        rw [unplaced_group]
        cases cs <;> rfl

@[simp] theorem operatorAhead_unplacedAll (s : String) :
    operatorAhead s (unplacedAll ts) = operatorAhead s ts := marks_unplacedAll ts _

@[simp] theorem first_unplacedAll {test : TokenTree → Bool}
    (h : ∀ t : TokenTree, test t.unplaced = test t) :
    first test (unplacedAll ts) = first test ts := by
  cases ts with
  | nil => rw [unplacedAll_nil]
  | cons t ts =>
    rw [unplacedAll_cons]
    exact h t

@[simp] theorem wordAhead_unplacedAll (s : String) :
    wordAhead s (unplacedAll ts) = wordAhead s ts :=
  first_unplacedAll ts fun t => isWord_unplaced t s

@[simp] theorem nameAhead_unplacedAll : nameAhead (unplacedAll ts) = nameAhead ts :=
  first_unplacedAll ts isName_unplaced

@[simp] theorem groupAhead_unplacedAll (d : Delimiter) :
    groupAhead d (unplacedAll ts) = groupAhead d ts :=
  first_unplacedAll ts fun t => isGroup_unplaced t d

@[simp] theorem atEnd_unplacedAll : atEnd (unplacedAll ts) = atEnd ts := isEmpty_unplacedAll ts

@[simp] theorem lifetimeAhead_unplacedAll : lifetimeAhead (unplacedAll ts) = lifetimeAhead ts := by
  fun_cases lifetimeAhead ts with
  | case1 s w rest => simp only [unplacedAll_cons, unplaced_mark, unplaced_word, lifetimeAhead]
  | case2 _ h =>
    rw [lifetimeAhead]
    intro s w rest heq
    obtain ⟨t, ts', rfl, ht, hts⟩ := exists_of_unplacedAll_eq_cons heq
    obtain ⟨s', rfl⟩ := exists_of_unplaced_eq_mark ht
    obtain ⟨t', rest', rfl, ht', -⟩ := exists_of_unplacedAll_eq_cons hts
    obtain ⟨v, rfl⟩ := exists_of_unplaced_eq_word ht'
    exact h _ _ _ rfl

@[simp] theorem behind_unplacedAll : behind (unplacedAll ts) = unplacedAll (behind ts) := by
  fun_cases behind ts with
  | case1 s w rest => simp only [unplacedAll_cons, unplaced_mark, unplaced_word, behind]
  | case2 t rest h =>
    rw [unplacedAll_cons, behind]
    intro s w rest' ht heq
    obtain ⟨s', rfl⟩ := exists_of_unplaced_eq_mark ht
    obtain ⟨t', rest'', rfl, ht', -⟩ := exists_of_unplacedAll_eq_cons heq
    obtain ⟨v, rfl⟩ := exists_of_unplaced_eq_word ht'
    exact h _ _ _ rfl rfl
  | case3 => rw [unplacedAll_nil, behind]

@[simp] theorem literalAhead_unplacedAll : literalAhead (unplacedAll ts) = literalAhead ts := by
  fun_cases literalAhead ts with
  | case1 => simp only [unplacedAll_cons, unplaced_mark, literalAhead, isNumber_unplaced]
  | case2 t rest h =>
    rw [unplacedAll_cons, literalAhead, isLiteral_unplaced]
    intro spacing s t' rest' ht heq
    obtain ⟨_, rfl⟩ := exists_of_unplaced_eq_mark ht
    obtain ⟨t'', rest', rfl, -, -⟩ := exists_of_unplacedAll_eq_cons heq
    exact h _ _ _ _ rfl rfl
  | case3 => rw [unplacedAll_nil, literalAhead]

end

/-! ## Tests of several tokens -/

section
variable (a b : Ahead) (ts : List TokenTree)

@[simp] theorem second_apply : second a ts = a (behind ts) := rfl

@[simp] theorem third_apply : third a ts = a (behind (behind ts)) := rfl

@[simp] theorem both_apply : both a b ts = (a ts && b ts) := rfl

@[simp] theorem either_apply : either a b ts = (a ts || b ts) := rfl

@[simp] theorem never_apply : never a ts = !a ts := rfl

@[simp] theorem anyOf_apply (tests : List Ahead) : anyOf tests ts = tests.any fun t => t ts := rfl

end

theorem restriction_unplacedAll (ts : List TokenTree) :
    restriction (unplacedAll ts) = restriction ts := by
  cases ts with
  | nil => rw [unplacedAll_nil]
  | cons t rest =>
    cases t with
    | word w =>
      rcases rest with _ | ⟨t', _ | ⟨t'', rest⟩⟩ <;>
        simp [unplacedAll_cons, unplacedAll_nil, unplaced_word, restriction, Word.made]
    | mark => simp [unplacedAll_cons, unplaced_mark, restriction]
    | literal => simp [unplacedAll_cons, unplaced_literal, restriction]
    | group => simp [unplacedAll_cons, unplaced_group, restriction]

@[simp] theorem restrictionAhead_unplacedAll (ts : List TokenTree) :
    restrictionAhead (unplacedAll ts) = restrictionAhead ts := by
  cases ts with
  | nil => rw [unplacedAll_nil]
  | cons t rest =>
    cases t with
    | group d content s =>
      cases d <;> simp [unplacedAll_cons, unplaced_group, restrictionAhead, restriction_unplacedAll]
    | word => simp [unplacedAll_cons, unplaced_word, restrictionAhead]
    | mark => simp [unplacedAll_cons, unplaced_mark, restrictionAhead]
    | literal => simp [unplacedAll_cons, unplaced_literal, restrictionAhead]

@[simp] theorem braceCallAhead_unplacedAll (ts : List TokenTree) :
    braceCallAhead (unplacedAll ts) = braceCallAhead ts := by
  fun_induction braceCallAhead ts with
  | case1 spacing s spacing' s' rest ih =>
    rw [unplacedAll_cons, unplacedAll_cons, unplaced_mark, unplaced_mark, braceCallAhead, ih]
  | case2 spacing s rest =>
    simp [unplacedAll_cons, unplaced_mark, braceCallAhead, first_unplacedAll, second]
  | case3 t rest hpath hbang ih =>
    rw [unplacedAll_cons, braceCallAhead, ih, plainSegment_unplaced]
    · intro spacing s spacing' s' rest' ht heq
      obtain ⟨_, rfl⟩ := exists_of_unplaced_eq_mark ht
      obtain ⟨t', rest'', rfl, ht', -⟩ := exists_of_unplacedAll_eq_cons heq
      obtain ⟨_, rfl⟩ := exists_of_unplaced_eq_mark ht'
      exact hpath _ _ _ _ _ rfl rfl
    · intro spacing s ht
      obtain ⟨_, rfl⟩ := exists_of_unplaced_eq_mark ht
      exact hbang _ _ rfl
  | case4 => rw [unplacedAll_nil, braceCallAhead]

theorem ite_unplacedAll {test : Ahead} (h : IsBlind test) (ts : List TokenTree) :
    (if test (unplacedAll ts) then behind (unplacedAll ts) else unplacedAll ts) =
      unplacedAll (if test ts then behind ts else ts) := by
  rw [h ts, behind_unplacedAll]
  split <;> rfl

@[simp] theorem receiverAhead_unplacedAll (ts : List TokenTree) :
    receiverAhead (unplacedAll ts) = receiverAhead ts := by
  unfold receiverAhead
  dsimp only
  rw [ite_unplacedAll (operatorAhead_unplacedAll · _), ite_unplacedAll lifetimeAhead_unplacedAll,
    ite_unplacedAll (wordAhead_unplacedAll · _), wordAhead_unplacedAll]

@[simp] theorem signatureAhead_unplacedAll (ts : List TokenTree) :
    signatureAhead (unplacedAll ts) = signatureAhead ts := by
  unfold signatureAhead
  dsimp only
  rw [ite_unplacedAll (wordAhead_unplacedAll · _), ite_unplacedAll (wordAhead_unplacedAll · _),
    ite_unplacedAll (wordAhead_unplacedAll · _), ite_unplacedAll (wordAhead_unplacedAll · _),
    ite_unplacedAll (first_unplacedAll · isText_unplaced), wordAhead_unplacedAll]

theorem any_unplacedAll {test : TokenTree → Bool} (h : ∀ t : TokenTree, test t.unplaced = test t)
    (ts : List TokenTree) : (unplacedAll ts).any test = ts.any test := by
  rw [unplacedAll_eq_map, List.any_map]
  exact congrArg _ (funext h)

@[simp] theorem isComplete_unplacedAll (ts : List TokenTree) :
    isComplete (unplacedAll ts) = isComplete ts := by
  have hbody : (unplacedAll ts).dropWhile (fun t => !isOneOf ["fn", "const", "type"] t) =
      unplacedAll (ts.dropWhile fun t => !isOneOf ["fn", "const", "type"] t) := by
    simp [unplacedAll_eq_map, List.dropWhile_map, Function.comp_def]
  have htake : ∀ (c : Char) (rest : List TokenTree),
      (unplacedAll rest).takeWhile (fun t => !isMark c t) =
        unplacedAll (rest.takeWhile fun t => !isMark c t) := by
    intro c rest
    simp [unplacedAll_eq_map, List.takeWhile_map, Function.comp_def]
  have hlast : (unplacedAll ts).getLast? = ts.getLast?.map unplaced := by
    rw [unplacedAll_eq_map, List.getLast?_map]
  unfold isComplete
  rw [hbody, hlast]
  generalize ts.getLast? = last
  generalize ts.dropWhile (fun t => !isOneOf ["fn", "const", "type"] t) = body
  have hmark : ∀ (c : Char) (ts : List TokenTree),
      (unplacedAll ts).any (isMark c) = ts.any (isMark c) :=
    fun c ts => any_unplacedAll (isMark_unplaced · c) ts
  have hword : ∀ (w : String) (ts : List TokenTree),
      (unplacedAll ts).any (isWord w) = ts.any (isWord w) :=
    fun w ts => any_unplacedAll (isWord_unplaced · w) ts
  have hall : ∀ (c : Char) (ts : List TokenTree),
      (unplacedAll ts).all (fun t => !isMark c t) = ts.all fun t => !isMark c t := by
    intro c ts
    rw [← List.not_any_eq_all_not, ← List.not_any_eq_all_not, hmark]
  rcases last with _ | (_ | _ | _ | ⟨_ | _ | _ | _, _, _⟩) <;>
    rcases body with _ | ⟨_ | _ | _ | _, rest⟩ <;>
      simp only [unplacedAll_nil, unplacedAll_cons, unplaced_word, unplaced_mark, unplaced_literal,
        unplaced_group, Option.map_none, Option.map_some, Word.made, htake, hmark, hword, hall]

@[simp] theorem binaryAhead_unplacedAll (ts : List TokenTree) :
    binaryAhead (unplacedAll ts) = binaryAhead ts := by
  simp [binaryAhead]

/-! ## Grammars -/

/-- What is read, without places. -/
abbrev unplacedRead (r : List TokenTree × List TokenTree) : List TokenTree × List TokenTree :=
  (unplacedAll r.1, unplacedAll r.2)

/-- A reader that comes to the same wherever the tokens stand. -/
def BlindReader (r : Reader) : Prop := ∀ ts, r (unplacedAll ts) = (r ts).map unplacedRead

/-- A grammar that does not look at places. -/
@[simp] def Blind : Syntax → Prop
  | .leaf accepts => ∀ t : TokenTree, accepts t.unplaced = (accepts t).map unplacedAll
  | .inside _ content => content.Blind
  | .seq first second => first.Blind ∧ second.Blind
  | .ifAhead test yes no => IsBlind test ∧ yes.Blind ∧ no.Blind
  | .whileAhead test body => IsBlind test ∧ body.Blind
  | .writtenUnless test body => IsBlind test ∧ body.Blind
  | .unlessAlone body => body.Blind
  | .parameters one => one.Blind
  | .nothing | .fail | .operator _ | .lifetime | .rule _ => True

theorem blindReader_readOperator (cs : List Char) : BlindReader (readOperator cs) := by
  intro ts
  induction cs generalizing ts with
  | nil => rfl
  | cons c cs ih =>
    cases ts with
    | nil =>
      rw [unplacedAll_nil]
      cases cs <;> rfl
    | cons t rest =>
      rw [unplacedAll_cons]
      cases t with
      | mark d spacing s =>
        rw [unplaced_mark]
        cases cs with
        | nil =>
          simp only [readOperator]
          split <;> simp [unplacedAll_cons, unplacedAll_nil, unplaced_mark]
        | cons c' cs =>
          cases spacing with
          | alone => rfl
          | joint =>
            simp only [readOperator, ih rest]
            split
            · simp [unplacedRead, unplacedAll_cons, unplaced_mark, Function.comp_def]
            · rfl
      | word w =>
        rw [unplaced_word]
        cases cs <;> rfl
      | literal text s =>
        rw [unplaced_literal]
        cases cs <;> rfl
      | group e content s =>
        rw [unplaced_group]
        cases cs <;> rfl

theorem blindReader_readLifetime : BlindReader readLifetime := by
  intro ts
  fun_cases readLifetime ts with
  | case1 s w rest =>
    simp [unplacedAll_cons, unplaced_mark, unplaced_word, readLifetime, unplacedAll_nil]
  | case2 _ h =>
    rw [readLifetime]
    · rfl
    · intro s w rest heq
      obtain ⟨t, ts', rfl, ht, hts⟩ := exists_of_unplacedAll_eq_cons heq
      obtain ⟨s', rfl⟩ := exists_of_unplaced_eq_mark ht
      obtain ⟨t', rest', rfl, ht', -⟩ := exists_of_unplacedAll_eq_cons hts
      obtain ⟨v, rfl⟩ := exists_of_unplaced_eq_word ht'
      exact h _ _ _ rfl

theorem blindReader_loop {test : Ahead} {body : Reader} (htest : IsBlind test)
    (hbody : BlindReader body) (n : Nat) : BlindReader (loop test body n) := by
  intro ts
  induction n generalizing ts with
  | zero => rfl
  | succ n ih =>
    rw [loop_succ, loop_succ, htest ts]
    split
    · rw [hbody ts, Option.bind_map, Option.map_bind]
      congr 1
      funext r
      rw [Function.comp_apply, Function.comp_apply, ih, Option.map_map, Option.map_map]
      congr 1
      funext q
      simp [unplacedAll_append]
    · rfl

/-- A parameter with the comma behind it, without places. -/
abbrev unplacedParameter (p : List TokenTree × List TokenTree) : List TokenTree × List TokenTree :=
  (unplacedAll p.1, unplacedAll p.2)

/-- What follows a parameter that was read: a comma and further ones, or the end. -/
def afterParameter
    (further : List TokenTree →
      Option (List (List TokenTree × List TokenTree) × List TokenTree))
    (r : List TokenTree × List TokenTree) :
    Option (List (List TokenTree × List TokenTree) × List TokenTree) :=
  match r.2 with
  | .mark ',' _ s :: rest =>
    (further rest).map fun q => ((r.1, [.mark ',' .alone s]) :: q.1, q.2)
  | .mark '>' _ _ :: _ => some ([(r.1, [])], r.2)
  | _ => none

/-- A single sign that is ahead is the first token. -/
theorem exists_of_marks {c : Char} {ts : List TokenTree} (h : marks [c] ts = true) :
    ∃ spacing s rest, ts = .mark c spacing s :: rest := by
  cases ts with
  | nil => cases h
  | cons t rest =>
    cases t with
    | mark d spacing s =>
      obtain rfl : c = d := of_decide_eq_true h
      exact ⟨spacing, s, rest, rfl⟩
    | _ => cases h

theorem readParameters_succ (one : Reader) (n : Nat) (ts : List TokenTree) :
    readParameters one (n + 1) ts =
      if marks ['>'] ts then some ([], ts)
      else (one ts).bind (afterParameter (readParameters one n)) := by
  split
  · rename_i h
    obtain ⟨spacing, s, rest, rfl⟩ := exists_of_marks h
    rfl
  · rename_i h
    rw [readParameters]
    · rfl
    · rintro spacing s rest rfl
      exact h rfl

theorem afterParameter_unplaced {further further' : List TokenTree →
      Option (List (List TokenTree × List TokenTree) × List TokenTree)}
    (h : ∀ ts, further' (unplacedAll ts) =
      (further ts).map fun q => (q.1.map unplacedParameter, unplacedAll q.2))
    (r : List TokenTree × List TokenTree) :
    afterParameter further' (unplacedRead r) =
      (afterParameter further r).map fun q => (q.1.map unplacedParameter, unplacedAll q.2) := by
  obtain ⟨p, ts⟩ := r
  cases ts with
  | nil => simp [afterParameter, unplacedAll_nil]
  | cons t rest =>
    cases t with
    | mark c spacing s =>
      by_cases hcomma : c = ','
      · subst hcomma
        simp [afterParameter, unplacedParameter, unplacedAll_cons, unplaced_mark, h,
          unplacedAll_nil, Function.comp_def]
      · by_cases hclose : c = '>'
        · subst hclose
          simp [afterParameter, unplacedParameter, unplacedAll_cons, unplaced_mark, unplacedAll_nil]
        · simp [afterParameter, unplacedAll_cons, unplaced_mark, hcomma, hclose]
    | word w => simp [afterParameter, unplacedAll_cons, unplaced_word]
    | literal text s => simp [afterParameter, unplacedAll_cons, unplaced_literal]
    | group d content s => simp [afterParameter, unplacedAll_cons, unplaced_group]

theorem readParameters_unplacedAll {one : Reader} (hone : BlindReader one) (n : Nat)
    (ts : List TokenTree) :
    readParameters one n (unplacedAll ts) =
      (readParameters one n ts).map fun q => (q.1.map unplacedParameter, unplacedAll q.2) := by
  induction n generalizing ts with
  | zero => rfl
  | succ n ih =>
    rw [readParameters_succ, readParameters_succ, marks_unplacedAll]
    split
    · rfl
    · rw [hone ts, Option.bind_map, Option.map_bind]
      congr 1
      funext r
      exact afterParameter_unplaced ih r

theorem isLifetimeParameter_unplacedAll (ts : List TokenTree) :
    isLifetimeParameter (unplacedAll ts) = isLifetimeParameter ts := by
  fun_induction isLifetimeParameter ts with
  | case1 spacing s d content s' rest ih =>
    rw [unplacedAll_cons, unplacedAll_cons, unplaced_mark, unplaced_group, isLifetimeParameter, ih]
  | case2 spacing s rest => 
    rw [unplacedAll_cons, unplaced_mark, isLifetimeParameter]
  | case3 ts hattribute hlifetime =>
    rw [isLifetimeParameter]
    · intro spacing s d content s' rest heq
      obtain ⟨t, ts', rfl, ht, hts⟩ := exists_of_unplacedAll_eq_cons heq
      obtain ⟨s'', rfl⟩ := exists_of_unplaced_eq_mark ht
      obtain ⟨t', rest', rfl, ht', -⟩ := exists_of_unplacedAll_eq_cons hts
      cases t' with
      | group => exact hattribute _ _ _ _ _ _ rfl
      | word w => rw [unplaced_word] at ht'; cases ht'
      | mark => rw [unplaced_mark] at ht'; cases ht'
      | literal => rw [unplaced_literal] at ht'; cases ht'
    · intro spacing s rest heq
      obtain ⟨t, ts', rfl, ht, -⟩ := exists_of_unplacedAll_eq_cons heq
      obtain ⟨s', rfl⟩ := exists_of_unplaced_eq_mark ht
      exact hlifetime _ _ _ rfl

theorem arrange_unplaced (ps : List (List TokenTree × List TokenTree)) :
    arrange (ps.map unplacedParameter) = unplacedAll (arrange ps) := by
  have hlifetimes : (fun p => isLifetimeParameter p.1) ∘ unplacedParameter =
      fun p => isLifetimeParameter p.1 :=
    funext fun p => isLifetimeParameter_unplacedAll p.1
  have hothers : (fun p => !isLifetimeParameter p.1) ∘ unplacedParameter =
      fun p => !isLifetimeParameter p.1 :=
    funext fun p => congrArg (!·) (isLifetimeParameter_unplacedAll p.1)
  have hparts : ∀ qs : List (List TokenTree × List TokenTree),
      (qs.map unplacedParameter).flatMap (fun p => p.1 ++ p.2) =
        unplacedAll (qs.flatMap fun p => p.1 ++ p.2) := by
    intro qs
    simp [unplacedAll_eq_map, List.map_flatMap, List.flatMap_map]
  simp only [arrange, List.filter_map, hlifetimes, hothers, hparts, unplacedAll_append,
    List.getLast?_map, Option.map_map, List.isEmpty_map, Function.comp_def, isEmpty_unplacedAll]
  split <;> simp [unplacedAll_cons, unplaced_mark, unplacedAll_nil]

theorem blindReader_readGenerics {one : Reader} (hone : BlindReader one) :
    BlindReader (readGenerics one) := by
  intro ts
  by_cases hopen : marks ['<'] ts = true
  · obtain ⟨spacing, s, rest, rfl⟩ := exists_of_marks hopen
    rw [unplacedAll_cons, unplaced_mark]
    simp only [readGenerics, readParameters_unplacedAll hone, length_unplacedAll]
    cases hread : readParameters one (rest.length + 1) rest with
    | none => simp
    | some q =>
      obtain ⟨ps, after⟩ := q
      by_cases hclose : marks ['>'] after = true
      · obtain ⟨spacing', e, rest', rfl⟩ := exists_of_marks hclose
        cases ps with
        | nil => simp [unplacedAll_cons, unplaced_mark, unplacedAll_nil]
        | cons p ps =>
          simp [unplacedRead, unplacedAll_cons, unplaced_mark, unplacedAll_append, unplacedAll_nil,
            ← arrange_unplaced]
      · cases after with
        | nil => simp [unplacedAll_nil]
        | cons t rest' =>
          cases t with
          | mark d spacing' e =>
            have hd : d ≠ '>' := fun heq => hclose (by rw [heq]; rfl)
            simp [unplacedAll_cons, unplaced_mark, hd]
          | word w => simp [unplacedAll_cons, unplaced_word]
          | literal text s' => simp [unplacedAll_cons, unplaced_literal]
          | group d content s' => simp [unplacedAll_cons, unplaced_group]
  · cases ts with
    | nil => simp [readGenerics, unplacedAll_nil]
    | cons t rest =>
      cases t with
      | mark d spacing s =>
        have hd : d ≠ '<' := fun heq => hopen (by rw [heq]; rfl)
        simp [readGenerics, unplacedAll_cons, unplaced_mark, unplacedAll_nil, hd]
      | word w => simp [readGenerics, unplacedAll_cons, unplaced_word, unplacedAll_nil]
      | literal text s => simp [readGenerics, unplacedAll_cons, unplaced_literal, unplacedAll_nil]
      | group d content s => simp [readGenerics, unplacedAll_cons, unplaced_group, unplacedAll_nil]

/-- A grammar that does not look at places reads the same wherever the tokens stand. -/
theorem Blind.read {call : Phrase → Reader} (hcall : ∀ r, BlindReader (call r)) :
    ∀ {g : Syntax}, g.Blind → BlindReader (g.read call)
  | .nothing, _, _ => rfl
  | .fail, _, _ => rfl
  | .leaf accepts, h, ts => by
    cases ts with
    | nil => rw [unplacedAll_nil]; rfl
    | cons t rest =>
      rw [unplacedAll_cons, Grammar.read, Grammar.read, h t, Option.map_map, Option.map_map]
      rfl
  | .operator signs, _, ts => blindReader_readOperator signs ts
  | .lifetime, _, ts => blindReader_readLifetime ts
  | .inside d content, h, ts => by
    have hcontent := Blind.read hcall (g := content) h
    cases ts with
    | nil => rw [unplacedAll_nil]; rfl
    | cons t rest =>
      cases t with
      | group e inner s =>
        rw [unplacedAll_cons, unplaced_group]
        simp only [Grammar.read, hcontent inner]
        cases content.read call inner with
        | none => split <;> rfl
        | some r =>
          obtain ⟨p, after⟩ := r
          cases after with
          | nil => split <;> simp [unplacedRead, unplacedAll_nil, unplacedAll_cons, unplaced_group]
          | cons t' rest' => split <;> simp [unplacedRead, unplacedAll_cons]
      | word w => simp [Grammar.read, unplacedAll_cons, unplaced_word]
      | mark c spacing s => simp [Grammar.read, unplacedAll_cons, unplaced_mark]
      | literal text s => simp [Grammar.read, unplacedAll_cons, unplaced_literal]
  | .seq first second, h, ts => by
    have hsecond := Blind.read hcall h.2
    rw [Grammar.read, Grammar.read, Blind.read hcall h.1 ts, Option.bind_map, Option.map_bind]
    congr 1
    funext r
    rw [Function.comp_apply, Function.comp_apply, hsecond]
    simp [unplacedRead, unplacedAll_append, Function.comp_def]
  | .ifAhead test yes no, h, ts => by
    rw [Grammar.read, Grammar.read, h.1 ts]
    split
    · exact Blind.read hcall h.2.1 ts
    · exact Blind.read hcall h.2.2 ts
  | .whileAhead test body, h, ts => by
    rw [Grammar.read, Grammar.read, length_unplacedAll]
    exact blindReader_loop h.1 (Blind.read hcall h.2) _ ts
  | .rule name, _, ts => hcall name ts
  | .writtenUnless test body, h, ts => by
    rw [Grammar.read, Grammar.read, Blind.read hcall h.2 ts, Option.map_map, Option.map_map]
    congr 1
    funext r
    simp only [Function.comp_apply, unplacedRead, h.1 r.1, length_unplacedAll]
    split
    · rfl
    · simp [unplacedAll_eq_map, List.map_take]
  | .unlessAlone body, h, ts => by
    rw [Grammar.read, Grammar.read, Blind.read hcall (g := body) h ts, Option.map_map,
      Option.map_map]
    congr 1
    funext r
    simp only [Function.comp_apply, unplacedRead, length_unplacedAll]
    split
    · rw [unplacedAll_nil]
    · rfl
  | .parameters one, h, ts => blindReader_readGenerics (Blind.read hcall (g := one) h) ts

end CommandBot.Grammar
