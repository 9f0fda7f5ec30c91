import CommandBot.Proofs.KeptPlaces

/-
  Where the parts of a block stand. `Take.Finds` says of one step what it gives if the tokens that it
  takes are of a kind, and holds of steps one after the other. If the tokens of a part lie within a
  stretch, with all that is in them, the part stands there as its `LiesIn` says: types, attributes,
  signatures, and blocks made of these.
-/

namespace CommandBot

open TokenTree Grammar

/-! ## Steps -/

namespace Take

variable {α β : Type} {Q : TokenTree → Prop} {P : α → Prop} {R : β → Prop} {part : Take α}
  {next : α → Take β} {r : Span}

/-- If the tokens that a part takes from the front are as `Q` says, what it gives is as `P` says. -/
def Finds (Q : TokenTree → Prop) (P : α → Prop) (part : Take α) : Prop :=
  ∀ ts a rest, part ts = some (a, rest) → ∃ front, ts = front ++ rest ∧ ((∀ t ∈ front, Q t) → P a)

theorem Finds.imp (h : Finds Q P part) {P' : α → Prop} (himp : ∀ a, P a → P' a) :
    Finds Q P' part := by
  intro ts a rest hread
  obtain ⟨front, hfront, hP⟩ := h ts a rest hread
  exact ⟨front, hfront, fun hQ => himp a (hP hQ)⟩

theorem Finds.of_imp (h : Finds Q P part) {Q' : TokenTree → Prop} (himp : ∀ t, Q' t → Q t) :
    Finds Q' P part := by
  intro ts a rest hread
  obtain ⟨front, hfront, hP⟩ := h ts a rest hread
  exact ⟨front, hfront, fun hQ => hP fun t ht => himp t (hQ t ht)⟩

theorem Finds.takesFront (h : Finds Q P part) : TakesFront part := by
  intro ts a rest hread
  obtain ⟨front, rfl, -⟩ := h ts a rest hread
  exact List.suffix_append front rest

theorem finds_pure {a : α} (h : P a) : Finds Q P (pure a : Take α) := by
  intro ts b rest hread
  cases hread
  exact ⟨[], rfl, fun _ => h⟩

theorem finds_fail : Finds Q P (fail : Take α) := fun _ _ _ h => nomatch h

theorem finds_fail_bind : Finds Q R (fail >>= next) := fun _ _ _ h => nomatch h

theorem finds_bind (hpart : Finds Q P part) (hnext : ∀ a, Finds Q (fun b => P a → R b) (next a)) :
    Finds Q R (part >>= next) := by
  intro ts b rest hread
  obtain ⟨⟨a, behind⟩, ha, hb⟩ := Option.bind_eq_some_iff.mp hread
  obtain ⟨front, rfl, hP⟩ := hpart _ _ _ ha
  obtain ⟨front', rfl, hR⟩ := hnext a _ _ _ hb
  refine ⟨front ++ front', (List.append_assoc _ _ _).symm, fun hQ => ?_⟩
  rw [List.forall_mem_append] at hQ
  exact hR hQ.2 (hP hQ.1)

/-- A part may be taken that nothing is said about. -/
theorem finds_after (hpart : TakesFront part) (hnext : ∀ a, Finds Q R (next a)) :
    Finds Q R (part >>= next) := by
  refine finds_bind (P := fun _ => True) (fun ts a rest hread => ?_) fun a =>
    (hnext a).imp fun b hb _ => hb
  obtain ⟨front, rfl⟩ := hpart ts a rest hread
  exact ⟨front, rfl, fun _ => trivial⟩

theorem finds_many {test : Ahead} (h : Finds Q P part) :
    Finds Q (fun as => ∀ a ∈ as, P a) (many test part) := by
  have hrounds : ∀ n, Finds Q (fun as => ∀ a ∈ as, P a) (manyUpTo test part n) := by
    intro n
    induction n with
    | zero => exact finds_pure fun a ha => nomatch ha
    | succ n ih =>
      rw [manyUpTo]
      refine finds_after (takesFront_ahead test) fun b => ?_
      split
      · refine finds_bind h fun a => finds_bind ih fun rest => finds_pure fun hrest ha => ?_
        exact List.forall_mem_cons.mpr ⟨ha, hrest⟩
      · exact finds_pure fun a ha => nomatch ha
  exact fun ts => hrounds ts.length ts

theorem Finds.all? (h : Finds Q P part) {ts : List TokenTree} {a : α}
    (ha : Take.all? part ts = some a) (hQ : ∀ t ∈ ts, Q t) : P a := by
  obtain ⟨front, rfl, hP⟩ := h ts a [] (all?_eq_some.mp ha)
  rw [List.append_nil] at hQ
  exact hP hQ

/-! ## Steps within a stretch -/

theorem finds_piece {g : Syntax} (hg : g.Steady) :
    Finds (fun t => t.span.Within r) (StandIn r) (piece g) := by
  intro ts p rest hread
  obtain ⟨front, rfl, hkept⟩ := keepsPlaces_readBy hg ts p rest hread
  refine ⟨front, rfl, fun hfront t ht => ?_⟩
  obtain ⟨u, hu, hspan⟩ := hkept t ht
  rw [← hspan]
  exact hfront u hu

theorem finds_placed {g : Syntax} (hg : g.Steady) : Finds (LiesIn r) (StandIn r) (piece g) :=
  (finds_piece hg).of_imp fun _ => LiesIn.span

theorem finds_printed {g : Syntax} (hg : g.Steady) (hprints : g.Prints) :
    Finds (LiesIn r) (fun p => p ≠ [] ∧ StandIn r p) (piece g) := by
  intro ts p rest hread
  obtain ⟨front, rfl, hfront⟩ := finds_placed (r := r) hg ts p rest hread
  exact ⟨front, rfl, fun h => ⟨ne_nil_of_readBy hprints hread, hfront h⟩⟩

/-- Of type parameters only the brackets stand where they were read. -/
theorem finds_generics :
    Finds (LiesIn r) (fun p => p ≠ [] → (spanOf p).Within r) (piece generics) := by
  intro ts p rest hread
  obtain ⟨front, rfl, hends⟩ := ends_of_generics hread
  refine ⟨front, rfl, fun h hne => ?_⟩
  obtain ⟨t, ht, u, hu, hspan⟩ := hends hne
  rw [hspan]
  exact (h t ht).span.join (h u hu).span

theorem finds_wordWhere (test : TokenTree → Bool) :
    Finds (LiesIn r) (fun w => w.span.Within r) (wordWhere test) := by
  intro ts w rest hread
  unfold wordWhere at hread
  split at hread
  · obtain ⟨-, heq⟩ := Option.ite_none_right_eq_some.mp hread
    cases heq
    exact ⟨[.word w], rfl, fun h => (h _ (List.mem_singleton_self _)).span⟩
  · cases hread

/-- What a group holds lies within a stretch if the group does. -/
theorem finds_within {d : Delimiter} (h : Finds (LiesIn r) P part) :
    Finds (LiesIn r) (fun q => P q.1 ∧ q.2.Within r) (within d part) := by
  rintro ts ⟨a, s⟩ rest hread
  obtain ⟨content, rfl, hpart⟩ := (within_eq_some_iff d part ts rest a s).mp hread
  obtain ⟨front, rfl, hP⟩ := h content a [] hpart
  refine ⟨[.group d (front ++ []) s], rfl, fun hgroup => ?_⟩
  rw [List.append_nil, List.forall_mem_singleton, liesIn_group] at hgroup
  exact ⟨hP hgroup.2, hgroup.1⟩

end Take

open Take

/-! ## Types -/

namespace WrittenType

variable {r : Span} {t : WrittenType}

/-- A type that is not empty and stands in a stretch. -/
structure LiesIn (r : Span) (t : WrittenType) : Prop where
  ne_nil : t.trees ≠ []
  standIn : StandIn r t.trees

theorem LiesIn.span (h : t.LiesIn r) : t.span.Within r := within_spanOf h.ne_nil h.standIn

theorem finds_take (plus : Bool) : Finds (TokenTree.LiesIn r) (LiesIn r) (take plus) :=
  finds_bind (finds_printed rfl rfl) fun _ => finds_pure fun h => ⟨h.1, h.2⟩

theorem finds_takeSegment :
    Finds (fun t => t.span.Within r) (fun s => StandIn r s.arguments) takeSegment := by
  refine finds_after (takesFront_wordWhere _) fun w => ?_
  split
  · exact finds_pure fun t ht => nomatch ht
  · refine finds_bind (finds_piece ?_) fun p => finds_pure id
    simp [segmentArguments, Grammar.cases]

/-- The arguments of a type's last segment stand where the type does. -/
theorem standIn_arguments (ht : StandIn r t.trees) {s : Segment} (hs : t.lastSegment? = some s) :
    StandIn r s.arguments := by
  have hsegments : Finds (fun t => t.span.Within r)
      (fun ss : List Segment => ∀ s ∈ ss, StandIn r s.arguments) takeSegments := by
    refine finds_after (takesFront_piece _) fun _ => ?_
    refine finds_bind finds_takeSegment fun first => ?_
    refine finds_bind (finds_many (finds_after (takesFront_piece _) fun _ => finds_takeSegment))
      fun rest => finds_pure fun hrest hfirst => ?_
    exact List.forall_mem_cons.mpr ⟨hfirst, hrest⟩
  obtain ⟨ss, hss, hlast⟩ := Option.bind_eq_some_iff.mp hs
  exact hsegments.all? hss ht s (List.mem_of_getLast? hlast)

end WrittenType

/-! ## Attributes -/

/-- Arguments whose tokens stand in a stretch. -/
def Arguments.LiesIn (r : Span) : Arguments → Prop
  | .absent => True
  | .listed _ content s => s.Within r ∧ StandIn r content
  | .assigned sign value => sign ≠ [] ∧ StandIn r sign ∧ StandIn r value

namespace Attribute

variable {r : Span} {a : Attribute}

/-- An attribute whose tokens stand in a stretch. -/
structure LiesIn (r : Span) (a : Attribute) : Prop where
  signs : StandIn r a.signs
  path : StandIn r a.path
  arguments : a.arguments.LiesIn r
  bracketSpan : a.bracketSpan.Within r

theorem LiesIn.span (h : a.LiesIn r) : a.span.Within r := by
  refine within_spanOf (List.append_ne_nil_of_right_ne_nil _ (List.cons_ne_nil _ _)) ?_
  exact List.forall_mem_append.mpr ⟨h.signs, List.forall_mem_singleton.mpr h.bracketSpan⟩

theorem finds_takeContent :
    Finds (TokenTree.LiesIn r) (fun q => StandIn r q.1 ∧ q.2.LiesIn r) takeContent := by
  refine finds_bind (finds_placed (by simp)) fun path => ?_
  refine finds_bind (P := Arguments.LiesIn r) ?_ fun arguments =>
    finds_pure fun harguments hpath => ⟨hpath, harguments⟩
  intro ts a rest hread
  dsimp only at hread
  split at hread
  · cases hread
    refine ⟨_, (List.append_nil _).symm, fun h => ?_⟩
    rw [List.forall_mem_singleton, liesIn_group] at h
    exact ⟨h.1, fun t ht => (h.2 t ht).span⟩
  · cases hread
    exact ⟨[], rfl, fun _ => trivial⟩
  · have hassigned : Finds (TokenTree.LiesIn r) (Arguments.LiesIn r) (do
        let sign ← Take.piece (op "=")
        let value ← Take.piece Grammar.expression
        pure (.assigned sign value)) :=
      finds_bind (finds_printed (by simp) (by simp [op])) fun sign =>
        finds_bind (finds_placed (by simp)) fun value =>
          finds_pure fun hvalue hsign => ⟨hsign.1, hsign.2, hvalue⟩
    exact hassigned ts a rest hread

theorem finds_take {signs : Syntax} (h : signs.Steady) :
    Finds (TokenTree.LiesIn r) (LiesIn r) (take signs) := by
  refine finds_bind (finds_placed h) fun signs => ?_
  refine finds_bind (finds_within finds_takeContent) fun q => finds_pure fun hcontent hsigns => ?_
  exact ⟨hsigns, hcontent.1.1, hcontent.1.2, hcontent.2⟩

theorem finds_takeOuter :
    Finds (TokenTree.LiesIn r) (fun as => ∀ a ∈ as, a.LiesIn r) takeOuter :=
  finds_many (finds_take (by simp))

theorem finds_takeInner :
    Finds (TokenTree.LiesIn r) (fun as => ∀ a ∈ as, a.LiesIn r) takeInner :=
  finds_many (finds_take (by simp))

end Attribute

/-! ## Signatures -/

namespace Signature

variable {r : Span}

/-- A signature the parts of which, where they are written, lie within a stretch. -/
structure LiesIn (r : Span) (s : Signature) : Prop where
  asyncness : StandIn r s.asyncness
  unsafety : StandIn r s.unsafety
  abi : StandIn r s.abi
  name : s.name.span.Within r
  generics : s.generics ≠ [] → (spanOf s.generics).Within r
  inputs : ∀ p ∈ s.inputs, p.1.span.Within r
  variadic : StandIn r s.variadic
  inputsSpan : s.inputsSpan.Within r
  output : ∀ o ∈ s.output, o.2.LiesIn r

theorem finds_takeReceiver (attributes : List TokenTree) :
    Finds (TokenTree.LiesIn r)
      (fun form => StandIn r attributes → (Parameter.mk attributes form).span.Within r)
      takeReceiver := by
  refine finds_bind (finds_placed (by simp [receiverReference])) fun reference => ?_
  refine finds_bind (finds_placed (by simp)) fun mutability => ?_
  refine finds_bind (finds_printed (by simp) (by simp)) fun self => ?_
  have hform : ∀ annotation, StandIn r annotation → (self ≠ [] ∧ StandIn r self) →
      StandIn r mutability → StandIn r reference → StandIn r attributes →
        (Parameter.mk attributes (.receiver reference mutability self annotation)).span.Within r := by
    intro annotation hannotation hself hmutability hreference hattributes
    refine within_spanOf ?_ ?_
    · simp [Parameter.trees, hself.1]
    · show StandIn r _
      simp only [Parameter.trees, standIn_append]
      exact ⟨hattributes, ⟨⟨hreference, hmutability⟩, hself.2⟩, hannotation⟩
  split
  · exact finds_bind (finds_placed (by simp [ receiverAnnotation])) fun annotation =>
      finds_pure (hform annotation)
  · exact finds_pure (hform [] fun t ht => nomatch ht)

theorem finds_takeInputs (n : Nat) (isFirst : Bool) :
    Finds (TokenTree.LiesIn r)
      (fun q => (∀ p ∈ q.1, p.1.span.Within r) ∧ StandIn r q.2) (takeInputs n isFirst) := by
  induction n generalizing isFirst with
  | zero => exact finds_fail
  | succ n ih =>
    have hcomma : (Grammar.ifAhead atEnd .nothing (op ",") : Syntax).Steady := by simp
    have hnone : ∀ p ∈ ([] : List (Parameter × List TokenTree)), p.1.span.Within r :=
      fun p hp => nomatch hp
    rw [takeInputs]
    refine finds_after (takesFront_ahead _) fun b => ?_
    cases b with
    | true => exact finds_pure ⟨hnone, fun t ht => nomatch ht⟩
    | false =>
    refine finds_bind (finds_placed (by simp)) fun attributes => ?_
    refine finds_after (takesFront_ahead _) fun b => ?_
    cases b with
    | true =>
      refine finds_bind (finds_placed (by simp)) fun dots => ?_
      refine finds_bind (finds_placed hcomma) fun comma =>
        finds_pure fun hcomma hdots hattributes => ⟨hnone, ?_⟩
      simp only [standIn_append]
      exact ⟨⟨hattributes, hdots⟩, hcomma⟩
    | false =>
    refine finds_after (takesFront_ahead _) fun b => ?_
    cases b with
    | true =>
      refine finds_bind (finds_takeReceiver attributes) fun form => ?_
      cases isFirst with
      | false => exact finds_fail_bind
      | true =>
        refine finds_after (takesFront_piece _) fun after => ?_
        refine finds_bind (ih false) fun q => finds_pure fun hrest hform hattributes => ?_
        exact ⟨List.forall_mem_cons.mpr ⟨hform hattributes, hrest.1⟩, hrest.2⟩
    | false =>
    refine finds_bind (finds_placed (by simp [parameterPattern])) fun pattern => ?_
    refine finds_after (takesFront_ahead _) fun b => ?_
    cases b with
    | true =>
      refine finds_bind (finds_placed (by simp)) fun dots => ?_
      refine finds_bind (finds_placed hcomma) fun comma =>
        finds_pure fun hcomma hdots hpattern hattributes => ⟨hnone, ?_⟩
      simp only [standIn_append]
      exact ⟨⟨⟨hattributes, hpattern⟩, hdots⟩, hcomma⟩
    | false =>
      refine finds_bind (WrittenType.finds_take true) fun type => ?_
      refine finds_after (takesFront_piece _) fun after => ?_
      refine finds_bind (ih false) fun q => finds_pure fun hrest htype hpattern hattributes => ?_
      refine ⟨List.forall_mem_cons.mpr ⟨within_spanOf ?_ ?_, hrest.1⟩, hrest.2⟩
      · simp [Parameter.trees, htype.ne_nil]
      · show StandIn r _
        simp only [Parameter.trees, standIn_append]
        exact ⟨hattributes, hpattern, htype.standIn⟩

theorem finds_takeOutput :
    Finds (TokenTree.LiesIn r) (fun o => ∀ q ∈ o, q.2.LiesIn r) takeOutput := by
  refine finds_after (takesFront_ahead _) fun b => ?_
  split
  · refine finds_after (takesFront_piece _) fun arrow => ?_
    refine finds_bind (WrittenType.finds_take true) fun type => finds_pure fun htype => ?_
    rintro q ⟨⟩
    exact htype
  · exact finds_pure fun q hq => nomatch hq

theorem finds_take : Finds (TokenTree.LiesIn r) (LiesIn r) take := by
  refine finds_after (takesFront_piece _) fun constness => ?_
  refine finds_bind (finds_placed (by simp)) fun asyncness => ?_
  refine finds_bind (finds_placed (by simp)) fun unsafety => ?_
  refine finds_bind (finds_placed (by simp)) fun abi => ?_
  refine finds_after (takesFront_piece _) fun functionWord => ?_
  refine finds_bind (finds_wordWhere _) fun name => ?_
  refine finds_bind finds_generics fun generics => ?_
  refine finds_bind (finds_within fun ts => finds_takeInputs (ts.length + 1) true ts) fun q => ?_
  refine finds_bind finds_takeOutput fun output => ?_
  refine finds_after (takesFront_piece _) fun clause => finds_pure ?_
  intro houtput hinputs hgenerics hname habi hunsafety hasyncness
  exact ⟨hasyncness, hunsafety, habi, hname, hgenerics, hinputs.1.1, hinputs.1.2, hinputs.2,
    houtput⟩

end Signature

/-! ## Methods and blocks -/

theorem Method.finds_take {r : Span} :
    Finds (TokenTree.LiesIn r) (fun m => m.signature.LiesIn r) take := by
  refine finds_after Attribute.takesFront_takeOuter fun outer => ?_
  refine finds_after (takesFront_piece _) fun qualifiers => ?_
  refine finds_bind Signature.finds_take fun signature => ?_
  exact finds_after (takesFront_within _ _) fun body => finds_pure id

theorem Member.finds_take {r : Span} :
    Finds (TokenTree.LiesIn r) (fun m => ∀ n ∈ m.method?, n.signature.LiesIn r) take := by
  intro ts m rest hread
  unfold take at hread
  split at hread
  · rename_i hmethod
    cases hread
    obtain ⟨front, hfront, hm⟩ := Method.finds_take (r := r) _ _ _ hmethod
    refine ⟨front, hfront, fun h => ?_⟩
    rintro n ⟨⟩
    exact hm h
  · obtain ⟨q, hq, heq⟩ := Option.map_eq_some_iff.mp hread
    cases heq
    obtain ⟨front, rfl⟩ := suffix_of_readBy hq
    exact ⟨front, rfl, fun _ n hn => nomatch hn⟩

namespace ImplBlock

variable {r : Span}

/-- A block the parts of which lie within a stretch. -/
structure LiesIn (r : Span) (b : ImplBlock) : Prop where
  attributes : ∀ a ∈ b.attributes, a.LiesIn r
  generics : b.generics ≠ [] → (spanOf b.generics).Within r
  selfType : b.selfType.LiesIn r
  methods : ∀ m ∈ b.methods, m.signature.LiesIn r

theorem finds_implParameters :
    Finds (TokenTree.LiesIn r) (fun p => p ≠ [] → (spanOf p).Within r) (piece implParameters) := by
  intro ts p rest hread
  change (if implParametersAhead ts then readBy Grammar.generics ts else some ([], ts)) = some (p, rest)
    at hread
  split at hread
  · exact finds_generics ts p rest hread
  · cases hread
    exact ⟨[], rfl, fun _ hne => absurd rfl hne⟩

theorem finds_takeSubject : Finds (TokenTree.LiesIn r) (fun q => q.2.LiesIn r) takeSubject := by
  refine finds_after (takesFront_piece _) fun polarity => ?_
  refine finds_bind (WrittenType.finds_take true) fun first => ?_
  refine finds_after (takesFront_ahead _) fun b => ?_
  split
  · refine finds_after (takesFront_piece _) fun _ => ?_
    split
    · exact finds_fail_bind
    · exact finds_bind (WrittenType.finds_take true) fun type => finds_pure fun htype _ => htype
  · split
    · exact finds_fail_bind
    · exact finds_pure id

theorem finds_takeBody :
    Finds (TokenTree.LiesIn r) (fun q => (∀ a ∈ q.1.1, a.LiesIn r) ∧
      ∀ m ∈ q.1.2, ∀ n ∈ m.method?, n.signature.LiesIn r) takeBody := by
  refine Finds.imp (finds_within (P := fun q : List Attribute × List Member =>
    (∀ a ∈ q.1, a.LiesIn r) ∧ ∀ m ∈ q.2, ∀ n ∈ m.method?, n.signature.LiesIn r) ?_) fun q hq => hq.1
  refine finds_bind Attribute.finds_takeInner fun inner => ?_
  refine finds_bind (finds_many Member.finds_take) fun members => ?_
  refine finds_after (takesFront_ahead _) fun b => ?_
  split
  · exact finds_fail_bind
  · exact finds_pure fun hmembers hinner => ⟨hinner, hmembers⟩

theorem finds_take : Finds (TokenTree.LiesIn r) (LiesIn r) take := by
  refine finds_bind Attribute.finds_takeOuter fun outer => ?_
  refine finds_after (takesFront_piece _) fun words => ?_
  refine finds_bind finds_implParameters fun generics => ?_
  refine finds_bind finds_takeSubject fun subject => ?_
  refine finds_after (takesFront_piece _) fun clause => ?_
  refine finds_bind finds_takeBody fun body => finds_pure ?_
  intro hbody hsubject hgenerics houter
  refine ⟨List.forall_mem_append.mpr ⟨houter, hbody.1⟩, hgenerics, hsubject, ?_⟩
  intro m hm
  obtain ⟨member, hmember, hmethod⟩ := List.mem_filterMap.mp hm
  exact hbody.2 member hmember m hmethod

end ImplBlock

end CommandBot
