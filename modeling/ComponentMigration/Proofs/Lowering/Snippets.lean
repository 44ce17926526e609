import ComponentMigration.Proofs.Lowering.Outcome

/-!
The text that lowering takes over.

* **Snippets.** `Jsx.Node.snippets` lists the snippets in the output, those in properties
  included. `IsRead s`: the text of the snippet `s` is read as `s` itself.
* **Main statement.** `root_snippets`: every snippet in the output is read as itself, so it
  begins with an expression of the class that it is printed by.
* **Prefixes.** That is all. A value is read up to the end of its first expression and one token
  more, so a snippet need not be an expression as a whole (`isExpression_semicolon`).
-/

namespace ComponentMigration

/-- The text of the snippet is read as the snippet itself. -/
def Snippet.IsRead (s : Snippet) : Prop := Snippet.read s.code = .ok s

lemma Snippet.isRead_of_read {text : Text} {s : Snippet} (h : Snippet.read text = .ok s) :
    s.IsRead := by
  rw [IsRead, Lowering.code_of_read h]
  rw [Snippet.read] at h ⊢
  rwa [Text.trim_trim]

/-! ### Snippets of the output -/

namespace Jsx

mutual

/-- The snippets in a node. -/
def Node.snippets : Node → List Snippet
  | .element _ properties children =>
      Property.snippetsAll properties ++ Node.snippetsAll children
  | .fragment children => Node.snippetsAll children
  | .text _ => []
  | .expression e => e.snippets

/-- The snippets in nodes. -/
def Node.snippetsAll : List Node → List Snippet
  | [] => []
  | n :: ns => n.snippets ++ Node.snippetsAll ns

/-- The snippets in a property. -/
def Property.snippets : Property → List Snippet
  | .flag _ | .literal _ _ => []
  | .dynamic _ value => value.snippets

/-- The snippets in properties. -/
def Property.snippetsAll : List Property → List Snippet
  | [] => []
  | p :: ps => p.snippets ++ Property.snippetsAll ps

/-- The snippets in an expression. -/
def Expr.snippets : Expr → List Snippet
  | .snippet s => [s]
  | .identifier _ | .comment _ => []
  | .member object _ => object.snippets
  | .call callee arguments => callee.snippets ++ Expr.snippetsAll arguments
  | .arrow _ body => body.snippets
  | .procedure _ statements => Expr.snippetsAll statements
  | .conditional test consequent alternate =>
      test.snippets ++ consequent.snippets ++ alternate.snippets
  | .logicalAnd left right => left.snippets ++ right.snippets
  | .assign target value => target :: value.snippets
  | .jsx n => n.snippets

/-- The snippets in expressions. -/
def Expr.snippetsAll : List Expr → List Snippet
  | [] => []
  | e :: es => e.snippets ++ Expr.snippetsAll es

end

/-- A node has the same snippets as an expression. -/
@[simp] lemma Node.snippets_toExpr (n : Node) : n.toExpr.snippets = n.snippets := by
  cases n with
  | element tag properties children => rfl
  | fragment children => rfl
  | text content => rfl
  | expression e => rfl

lemma Property.snippetsAll_eq_flatMap (ps : List Property) :
    Property.snippetsAll ps = ps.flatMap Property.snippets := by
  induction ps with
  | nil => rfl
  | cons p ps ih => rw [Property.snippetsAll, ih, List.flatMap_cons]

end Jsx

namespace Lowering

open Markup

/-- Every snippet of what is lowered is read as itself. -/
def AreRead (ss : List Snippet) : Prop := ∀ s ∈ ss, s.IsRead

@[simp] lemma areRead_nil : AreRead [] := by simp [AreRead]

@[simp] lemma areRead_cons {s : Snippet} {ss : List Snippet} :
    AreRead (s :: ss) ↔ s.IsRead ∧ AreRead ss := List.forall_mem_cons

@[simp] lemma areRead_append {ss ss' : List Snippet} :
    AreRead (ss ++ ss') ↔ AreRead ss ∧ AreRead ss' := List.forall_mem_append

/-- Whatever a node is lowered to, all its snippets are read. -/
def YieldsRead (x : Except Diagnostic Jsx.Node) : Prop := ∀ out, x = .ok out → AreRead out.snippets

/-! ### Properties -/

lemma isRead_of_snippetOf {d : Directive} {text : Text} {s : Snippet}
    (h : d.snippetOf text = .ok s) : s.IsRead :=
  Snippet.isRead_of_read (mapError_eq_ok.mp h)

lemma propertiesOf_snippets {r : Role} {ps : List Jsx.Property} (h : propertiesOf r = .ok ps) :
    AreRead (Jsx.Property.snippetsAll ps) := by
  cases r with
  | plain a =>
      cases h
      cases a.value <;> simp [Jsx.Property.snippetsAll, Jsx.Property.snippets]
  | bind argument d =>
      obtain ⟨s, hs, h⟩ := bind_eq_ok.mp h
      cases h
      simpa [Jsx.Property.snippetsAll, Jsx.Property.snippets, Jsx.Expr.snippets]
        using isRead_of_snippetOf hs
  | listen event d =>
      obtain ⟨s, hs, h⟩ := bind_eq_ok.mp h
      cases h
      simpa [Jsx.Property.snippetsAll, Jsx.Property.snippets, Jsx.Expr.snippets]
        using isRead_of_snippetOf hs
  | model d =>
      obtain ⟨s, hs, h⟩ := bind_eq_ok.mp h
      obtain ⟨_, -, h⟩ := bind_eq_ok.mp h
      cases h
      simpa [Jsx.Property.snippetsAll, Jsx.Property.snippets, Jsx.Expr.snippets,
        Jsx.Expr.snippetsAll] using isRead_of_snippetOf hs
  | «show» d =>
      cases h
      exact areRead_nil
  | control c d =>
      cases h
      exact areRead_nil

lemma properties_snippets {e : Element} {ps : List Jsx.Property} (h : properties e = .ok ps) :
    AreRead (Jsx.Property.snippetsAll ps) := by
  rw [properties, bind_eq_ok] at h
  obtain ⟨roles, -, h⟩ := h
  rw [bind_eq_ok] at h
  obtain ⟨pss, hpss, h⟩ := h
  cases h
  rw [mapM_eq_ok] at hpss
  induction hpss with
  | nil => exact areRead_nil
  | cons hp _ ih =>
      rw [List.flatten_cons, Jsx.Property.snippetsAll_eq_flatMap, List.flatMap_append,
        ← Jsx.Property.snippetsAll_eq_flatMap, ← Jsx.Property.snippetsAll_eq_flatMap,
        areRead_append]
      exact ⟨propertiesOf_snippets hp, ih⟩

/-! ### Chains -/

lemma choice_snippets {b : Branch} {bs : List Branch} {out : Jsx.Expr}
    (hbs : ∀ x ∈ b :: bs, YieldsRead x.node) (h : choice b bs = .ok out) :
    AreRead out.snippets := by
  induction bs generalizing b out with
  | nil =>
      obtain ⟨node, hnode, rfl⟩ := choice_nil_eq_ok.mp h
      rw [Jsx.Node.snippets_toExpr]
      exact hbs b (by simp) node hnode
  | cons next bs ih =>
      obtain ⟨hb, hbs⟩ := List.forall_mem_cons.mp hbs
      obtain ⟨otherwise, ho, test, ht, node, hnode, rfl⟩ := choice_cons_eq_ok.mp h
      simp only [Jsx.Expr.snippets, areRead_append, Jsx.Node.snippets_toExpr]
      exact ⟨⟨by simpa using isRead_of_snippetOf ht, hb node hnode⟩, ih hbs ho⟩

lemma chain_snippets {b : Branch} {bs : List Branch}
    (hbs : ∀ x ∈ b :: bs, YieldsRead x.node) : YieldsRead (chain b bs) := by
  intro out h
  cases bs with
  | nil =>
      obtain ⟨test, ht, node, hnode, rfl⟩ := chain_nil_eq_ok.mp h
      simp only [Jsx.Node.snippets, Jsx.Expr.snippets, areRead_append, Jsx.Node.snippets_toExpr]
      exact ⟨by simpa using isRead_of_snippetOf ht, hbs b (by simp) node hnode⟩
  | cons next bs =>
      obtain ⟨e, he, rfl⟩ := chain_cons_eq_ok.mp h
      exact choice_snippets hbs he

/-- Siblings that are joined have read snippets if each by itself has. -/
lemma assemble_snippets {ss : List Sibling} {outs : List Jsx.Node}
    (hss : ∀ s ∈ ss, YieldsRead s.2) (h : assemble ss = .ok outs) :
    AreRead (Jsx.Node.snippetsAll outs) := by
  induction ss using chainTail_ind generalizing outs with
  | nil =>
      rw [assemble] at h
      cases h
      exact areRead_nil
  | cons s rest ih ihchain =>
      obtain ⟨hs, hrest⟩ := List.forall_mem_cons.mp hss
      obtain ⟨first, others, rfl, ⟨-, hfirst, hothers⟩ | ⟨d, -, hchain, hothers⟩⟩ :=
        assemble_cons_eq_ok.mp h
      · exact areRead_append.mpr ⟨hs first hfirst, ih hrest hothers⟩
      · have hbranches : ∀ b ∈ (branches rest).1, YieldsRead b.node :=
          forall_mem_branches fun t ht b hb => hb.2 ▸ hrest t ht
        have hbehind : ∀ t ∈ (chainTail rest).2, YieldsRead t.2 := fun t ht =>
          hrest t ((chainTail_snd_suffix rest).subset ht)
        have hfirst := chain_snippets (List.forall_mem_cons.mpr ⟨hs, hbranches⟩) first hchain
        exact areRead_append.mpr ⟨hfirst, ihchain hbehind hothers⟩

/-! ### Forests -/

lemma loop_snippets {d : Directive} {body : Except Diagnostic Jsx.Node}
    (hbody : YieldsRead body) : YieldsRead (loop d body) := by
  intro out h
  obtain ⟨b, -, -, source, hsource, node, hn, rfl⟩ := loop_eq_ok.mp h
  have hread := isRead_of_snippetOf (loopSource_eq_ok.mp hsource).1
  simpa [Jsx.Node.snippets, Jsx.Expr.snippets, Jsx.Expr.snippetsAll] using ⟨hread, hbody node hn⟩

lemma element_snippets {e : Element} {children : List Sibling}
    (hchildren : ∀ s ∈ children, YieldsRead s.2) : YieldsRead (element e children) := by
  have hbody : YieldsRead (body e children) := by
    intro out h
    obtain ⟨ps, hps, inner, hinner, ⟨-, rfl⟩ | ⟨-, rfl⟩⟩ := body_eq_ok.mp h
    · exact assemble_snippets hchildren hinner
    · exact areRead_append.mpr ⟨properties_snippets hps, assemble_snippets hchildren hinner⟩
  intro out h
  obtain ⟨d, -, h⟩ | ⟨-, h⟩ := element_eq_ok.mp h
  · exact loop_snippets hbody out h
  · exact hbody out h

lemma node_snippets (n : Node) : YieldsRead (node n) := by
  induction n using Node.ind with
  | element e children ih =>
      rw [node]
      refine element_snippets ?_
      rw [siblings_eq_map, List.forall_mem_map]
      exact ih
  | text l =>
      rintro out ⟨⟩
      exact areRead_nil
  | comment l =>
      rintro out ⟨⟩
      exact areRead_nil
  | interpolation l =>
      rintro out ⟨⟩

/-- **Text is taken over as it was read**: every snippet of the output, in whatever place, begins
with an expression of the class that it is printed by. -/
theorem root_snippets {nodes : List Node} {out : Jsx.Node} (h : root nodes = .ok out) :
    ∀ s ∈ out.snippets, s.IsRead := by
  have hss : ∀ s ∈ siblings nodes, YieldsRead s.2 := by
    rw [siblings_eq_map, List.forall_mem_map]
    exact fun n _ => node_snippets n
  obtain ⟨outs, houts, rfl | ⟨-, rfl⟩⟩ := root_eq_ok.mp h
  · exact (areRead_append.mp (assemble_snippets hss houts)).1
  · exact assemble_snippets hss houts

/-- An element with a condition that is two words. -/
def wordsNodes : List Node :=
  [.element ⟨"p", .ordinary, [.directive ⟨"if", none, false, some " a b ", [], none, .unknown, []⟩],
    .unknown, []⟩ []]

/-- Both words are taken over. -/
theorem root_snippets_words :
    ∃ out, root wordsNodes = .ok out ∧ out.snippets = [⟨"a b", .member⟩] ∧
      Snippet.IsRead ⟨"a b", .member⟩ := by
  have h : root wordsNodes = .ok (.expression
      (.logicalAnd (.snippet ⟨"a b", .member⟩) (.jsx (.element "p" [] [])))) := by
    with_unfolding_all rfl
  exact ⟨_, h, rfl, root_snippets h _ (.head _)⟩

/-! ### Prefixes -/

/-- A text that is one expression as a whole: only space and comments are behind it. -/
def IsWholeExpression (text : Text) : Prop :=
  ∃ t s, Script.grammar (Script.depthFor text) .expression (.ofText text true) = some (t, s) ∧
    (Script.accept? t s).isSome = true ∧ s.token = .endOfText

instance : DecidablePred IsWholeExpression := fun text =>
  match h : Script.grammar (Script.depthFor text) .expression (.ofText text true) with
  | some (t, s) => decidable_of_iff
      ((Script.accept? t s).isSome = true ∧ s.token = .endOfText) (by simp [IsWholeExpression, h])
  | none => .isFalse (by simp [IsWholeExpression, h])

/-- What the grammar reads from a trimmed text makes it an expression, whatever is behind. -/
lemma isExpression_of_grammar {text : Text} {t : Script.Tree} {s : Script.State}
    (hne : Text.trim text ≠ [])
    (hread : Script.grammar (Script.depthFor (Text.trim text)) .expression
      (.ofText (Text.trim text) true) = some (t, s))
    (haccept : (Script.accept? t s).isSome = true) : IsExpression text := by
  obtain ⟨t', haccept⟩ := Option.isSome_iff_exists.mp haccept
  rw [IsExpression, Snippet.read, if_neg hne, Script.parseExpression?, hread]
  dsimp only
  rw [haccept]
  exact succeeds_ok _

/-- What is an expression as a whole is read. -/
lemma IsWholeExpression.isExpression {text : Text} (h : IsWholeExpression (Text.trim text)) :
    IsExpression text := by
  have hne : Text.trim text ≠ [] := by
    intro hnil
    rw [hnil] at h
    exact absurd h (by decide +kernel)
  obtain ⟨t, s, hread, haccept, -⟩ := h
  exact isExpression_of_grammar hne hread haccept

/-- Behind a name the grammar stops at a semicolon, whatever follows. -/
lemma exists_grammar_semicolon (u : Text) :
    ∃ t s, Script.grammar (Script.depthFor ('a' :: ';' :: u)) .expression
        (.ofText ('a' :: ';' :: u) true) = some (t, s) ∧
      (Script.accept? t s).isSome = true ∧ s.token = .punctuator [';'] := by
  have h : (Script.grammar (Script.depthFor ('a' :: ';' :: u)) .expression
      (.ofText ('a' :: ';' :: u) true)).any (fun x =>
        (Script.accept? x.1 x.2).isSome && x.2.token == .punctuator [';']) = true := by
    -- The scan for the next token looks two characters ahead.
    cases u with
    | nil => with_unfolding_all rfl
    | cons c u => with_unfolding_all rfl
  obtain ⟨⟨t, s⟩, hread, h⟩ := (Option.any_eq_true _ _).mp h
  obtain ⟨haccept, htoken⟩ := Bool.and_eq_true_iff.mp h
  exact ⟨t, s, hread, haccept, beq_iff_eq.mp htoken⟩

/-- **Only a prefix is read**: behind a semicolon anything is taken over with the expression in
front of it. -/
theorem isExpression_semicolon (t : Text) :
    IsExpression ("a;" ++ t) ∧ ¬ IsWholeExpression (Text.trim ("a;" ++ t)) := by
  obtain ⟨u, hu⟩ := Text.exists_trim_append (c := 'a') (s := [';']) rfl rfl t
  change Text.trim ("a;" ++ t) = 'a' :: ';' :: u at hu
  obtain ⟨tree, s, hread, haccept, htoken⟩ := exists_grammar_semicolon u
  constructor
  · rw [← hu] at hread
    exact isExpression_of_grammar (hu ▸ List.cons_ne_nil _ _) hread haccept
  · rw [hu]
    rintro ⟨tree', s', hread', -, hend⟩
    rw [hread] at hread'
    cases hread'
    rw [htoken] at hend
    cases hend

/-- Two words are no expression, and are taken for one. -/
theorem not_isWholeExpression_of_isExpression :
    IsExpression "a b" ∧ ¬ IsWholeExpression (Text.trim "a b") := by
  have hread : Succeeds (Snippet.read "a b") := by decide +kernel
  exact ⟨hread, by decide +kernel⟩

end Lowering

end ComponentMigration
