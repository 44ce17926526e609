import ComponentMigration.Proofs.Lowering.Outcome
import ComponentMigration.Proofs.Markup.Origin

/-!
Which elements lowering keeps, and with which properties.

* **Order.** `Markup.elementsAll` lists the elements of markup as they are written, and
  `Jsx.Node.tags` the tags of the output with their properties.
* **Main statement.** `root_tags`: the tags of the output are the ordinary elements of the
  markup in the same order, each with all its lowered properties. So nothing on an ordinary
  element is lost (`root_keeps_ordinary`).
* **Containers.** A container has no tag in the output, and what is lowered from its properties
  goes with it: `not_root_keeps`.
-/

namespace ComponentMigration

/-! ### Elements of the markup -/

namespace Markup

mutual

/-- The elements of a node, in the order in which they begin. -/
def Node.elements : Node → List Element
  | .element e children => e :: elementsAll children
  | .text _ | .comment _ | .interpolation _ => []

/-- The elements of nodes, in the order in which they begin. -/
def elementsAll : List Node → List Element
  | [] => []
  | n :: ns => n.elements ++ elementsAll ns

end

/-- The elements that have a tag in the output. -/
def ordinary (es : List Element) : List Element := es.filter (·.kind = .ordinary)

@[simp] lemma ordinary_nil : ordinary [] = [] := rfl

@[simp] lemma ordinary_append (es es' : List Element) :
    ordinary (es ++ es') = ordinary es ++ ordinary es' := List.filter_append es es'

lemma mem_ordinary {e : Element} {es : List Element} :
    e ∈ ordinary es ↔ e ∈ es ∧ e.kind = .ordinary := by
  simp [ordinary]

lemma elementsAll_eq_flatMap (ns : List Node) : elementsAll ns = ns.flatMap Node.elements := by
  induction ns with
  | nil => rfl
  | cons n ns ih => rw [elementsAll, ih, List.flatMap_cons]

/-- What occurs at any depth is listed. -/
lemma Occurs.mem_elementsAll {e : Element} {children ns : List Node}
    (h : Occurs (.element e children) ns) : e ∈ elementsAll ns := by
  induction h with
  | member h =>
      rw [elementsAll_eq_flatMap]
      exact List.mem_flatMap_of_mem h List.mem_cons_self
  | child h _ ih =>
      rw [elementsAll_eq_flatMap]
      exact List.mem_flatMap_of_mem h (List.mem_cons_of_mem _ ih)

/-- Nothing that gaps do not have is lost between a chain and what is behind it. -/
lemma flatMap_chainTail {α β : Type} {f : Node × α → List β} (hf : ∀ s, s.1.IsGap → f s = [])
    (ss : List (Node × α)) :
    ss.flatMap f = (chainTail ss).1.flatMap f ++ (chainTail ss).2.flatMap f := by
  induction ss with
  | nil => rfl
  | cons s rest ih =>
      rw [chainTail, List.flatMap_cons, ih]
      split_ifs with hc hg
      · rw [List.flatMap_cons, List.append_assoc]
      · rw [hf s hg.1, List.nil_append]
      · rw [List.flatMap_nil, List.nil_append, List.flatMap_cons, ih]

lemma Node.IsGap.elements_eq_nil {n : Node} (h : n.IsGap) : n.elements = [] := by
  cases n with
  | element e children => exact h.elim
  | text l => rfl
  | comment l => rfl
  | interpolation l => rfl

end Markup

/-! ### Tags of the output -/

namespace Jsx

/-- An element of the output without its children. -/
structure Tag where
  name : Text
  properties : List Property

mutual

/-- The tags of a node, in the order in which they begin. -/
def Node.tags : Node → List Tag
  | .element tag properties children => ⟨tag, properties⟩ :: Node.tagsAll children
  | .fragment children => Node.tagsAll children
  | .text _ => []
  | .expression e => e.tags

/-- The tags of nodes, in the order in which they begin. -/
def Node.tagsAll : List Node → List Tag
  | [] => []
  | n :: ns => n.tags ++ Node.tagsAll ns

/-- The tags in an expression, in the order in which they begin. -/
def Expr.tags : Expr → List Tag
  | .snippet _ | .identifier _ | .comment _ => []
  | .member object _ => object.tags
  | .call callee arguments => callee.tags ++ Expr.tagsAll arguments
  | .arrow _ body => body.tags
  | .procedure _ statements => Expr.tagsAll statements
  | .conditional test consequent alternate => test.tags ++ consequent.tags ++ alternate.tags
  | .logicalAnd left right => left.tags ++ right.tags
  | .assign _ value => value.tags
  | .jsx n => n.tags

/-- The tags in expressions, in the order in which they begin. -/
def Expr.tagsAll : List Expr → List Tag
  | [] => []
  | e :: es => e.tags ++ Expr.tagsAll es

end

/-- A node has the same tags as an expression. -/
@[simp] lemma Node.tags_toExpr (n : Node) : n.toExpr.tags = n.tags := by
  cases n with
  | element tag properties children => rfl
  | fragment children => rfl
  | text content => rfl
  | expression e => rfl

end Jsx

namespace Lowering

open Markup

/-! ### Chains -/

/-- A tag is that of an element, with all its lowered properties. -/
structure IsTagOf (e : Element) (t : Jsx.Tag) : Prop where
  name : t.name = e.tag
  properties : properties e = .ok t.properties

/-- What a node is lowered to has the tags of the elements, in order. -/
def Yields (x : Except Diagnostic Jsx.Node) (es : List Element) : Prop :=
  ∀ out, x = .ok out → List.Forall₂ IsTagOf es out.tags

/-- Nested choices have the tags of all branches. -/
lemma choice_tags {b : Branch} {bs : List Branch} {es : List Element} {ess : List (List Element)}
    {out : Jsx.Expr} (hb : Yields b.node es)
    (hbs : List.Forall₂ (fun b es => Yields b.node es) bs ess) (h : choice b bs = .ok out) :
    List.Forall₂ IsTagOf (es ++ ess.flatten) out.tags := by
  induction hbs generalizing b es out with
  | nil =>
      obtain ⟨node, hnode, rfl⟩ := choice_nil_eq_ok.mp h
      rw [List.flatten_nil, List.append_nil, Jsx.Node.tags_toExpr]
      exact hb node hnode
  | cons hnext _ ih =>
      obtain ⟨otherwise, ho, test, -, node, hnode, rfl⟩ := choice_cons_eq_ok.mp h
      rw [Jsx.Expr.tags, Jsx.Expr.tags, List.nil_append, Jsx.Node.tags_toExpr]
      exact List.rel_append (hb node hnode) (ih hnext ho)

/-- A chain has the tags of all branches. -/
lemma chain_tags {b : Branch} {bs : List Branch} {es : List Element} {ess : List (List Element)}
    {out : Jsx.Node} (hb : Yields b.node es)
    (hbs : List.Forall₂ (fun b es => Yields b.node es) bs ess) (h : chain b bs = .ok out) :
    List.Forall₂ IsTagOf (es ++ ess.flatten) out.tags := by
  cases hbs with
  | nil =>
      obtain ⟨test, -, node, hnode, rfl⟩ := chain_nil_eq_ok.mp h
      rw [List.flatten_nil, List.append_nil, Jsx.Node.tags, Jsx.Expr.tags, Jsx.Expr.tags,
        List.nil_append, Jsx.Node.tags_toExpr]
      exact hb node hnode
  | cons hnext hbs =>
      obtain ⟨e, he, rfl⟩ := chain_cons_eq_ok.mp h
      exact choice_tags hb (.cons hnext hbs) he

/-- A sibling is lowered to something with the tags of its ordinary elements. -/
def Sibling.IsListed (s : Sibling) : Prop := Yields s.2 (ordinary s.1.elements)

/-- The branches that lowering found have the tags of their siblings. -/
lemma yields_of_isBranchOf {ss : List Sibling} {bs : List Branch}
    (hss : ∀ s ∈ ss, Sibling.IsListed s) (hbs : List.Forall₂ IsBranchOf ss bs) :
    List.Forall₂ (fun b es => Yields b.node es) bs (ss.map fun s => ordinary s.1.elements) := by
  induction hbs with
  | nil => exact .nil
  | cons hb _ ih =>
      obtain ⟨hs, hss⟩ := List.forall_mem_cons.mp hss
      exact .cons (hb.2 ▸ hs) (ih hss)

/-- Siblings that are joined have the tags of all of them. -/
lemma assemble_tags {ss : List Sibling} {outs : List Jsx.Node}
    (hss : ∀ s ∈ ss, Sibling.IsListed s) (h : assemble ss = .ok outs) :
    List.Forall₂ IsTagOf (ss.flatMap fun s => ordinary s.1.elements) (Jsx.Node.tagsAll outs) := by
  induction ss using chainTail_ind generalizing outs with
  | nil =>
      rw [assemble] at h
      cases h
      exact .nil
  | cons s rest ih ihchain =>
      obtain ⟨hs, hrest⟩ := List.forall_mem_cons.mp hss
      obtain ⟨first, others, rfl, ⟨-, hfirst, hothers⟩ | ⟨d, -, hchain, hothers⟩⟩ :=
        assemble_cons_eq_ok.mp h
      · exact List.rel_append (hs first hfirst) (ih hrest hothers)
      · have hmembers : ∀ t ∈ (chainTail rest).1, Sibling.IsListed t := fun t ht =>
          hrest t ((chainTail_fst_sublist rest).subset ht)
        have hbehind : ∀ t ∈ (chainTail rest).2, Sibling.IsListed t := fun t ht =>
          hrest t ((chainTail_snd_suffix rest).subset ht)
        have hfirst := chain_tags (show Yields (Branch.node ⟨d, s.2⟩) _ from hs)
          (yields_of_isBranchOf hmembers (branches_spec rest).1) hchain
        rw [List.flatMap_cons, flatMap_chainTail (fun t ht => by simp [ht.elements_eq_nil]),
          ← List.append_assoc]
        exact List.rel_append hfirst (ihchain hbehind hothers)

/-! ### Elements -/

/-- A loop has the tags of its body. -/
lemma loop_tags {d : Directive} {body : Except Diagnostic Jsx.Node} {es : List Element}
    (hbody : Yields body es) : Yields (loop d body) es := by
  intro out h
  obtain ⟨b, -, -, source, -, node, hn, rfl⟩ := loop_eq_ok.mp h
  simpa [Jsx.Node.tags, Jsx.Expr.tags, Jsx.Expr.tagsAll] using hbody node hn

/-- An element has the tags of its children, and its own in front if it is ordinary. -/
lemma element_tags {e : Element} {children : List Sibling} {es : List Element}
    (hchildren : ∀ outs, assemble children = .ok outs →
      List.Forall₂ IsTagOf es (Jsx.Node.tagsAll outs)) :
    Yields (element e children) (ordinary [e] ++ es) := by
  have hbody : Yields (body e children) (ordinary [e] ++ es) := by
    intro out h
    obtain ⟨ps, hps, inner, hinner, ⟨hk, rfl⟩ | ⟨hk, rfl⟩⟩ := body_eq_ok.mp h
    · simpa [ordinary, hk, Jsx.Node.tags] using hchildren inner hinner
    · simpa [ordinary, hk, Jsx.Node.tags] using ⟨⟨rfl, hps⟩, hchildren inner hinner⟩
  intro out h
  obtain ⟨d, -, h⟩ | ⟨-, h⟩ := element_eq_ok.mp h
  · exact loop_tags hbody out h
  · exact hbody out h

/-! ### Forests -/

/-- Joined siblings have the tags of the ordinary elements, provided each by itself has those of
its own. -/
lemma assemble_siblings_tags {nodes : List Node} {outs : List Jsx.Node}
    (hnodes : ∀ n ∈ nodes, Yields (node n) (ordinary n.elements))
    (h : assemble (siblings nodes) = .ok outs) :
    List.Forall₂ IsTagOf (ordinary (elementsAll nodes)) (Jsx.Node.tagsAll outs) := by
  have hss : ∀ s ∈ siblings nodes, Sibling.IsListed s := by
    rw [siblings_eq_map, List.forall_mem_map]
    exact hnodes
  have htags := assemble_tags hss h
  rw [siblings_eq_map, List.flatMap_map] at htags
  rw [elementsAll_eq_flatMap, ordinary, List.filter_flatMap]
  exact htags

/-- A node by itself has the tags of its ordinary elements. -/
lemma node_tags (n : Node) : Yields (node n) (ordinary n.elements) := by
  induction n using Node.ind with
  | element e children ih =>
      rw [node, Node.elements, ← List.singleton_append, ordinary_append]
      exact element_tags fun outs => assemble_siblings_tags ih
  | text l =>
      rintro out ⟨⟩
      exact .nil
  | comment l =>
      rintro out ⟨⟩
      exact .nil
  | interpolation l =>
      rintro out ⟨⟩

/-- **Lowering keeps the ordinary elements**, in order, each with all its lowered properties,
and makes up no others. -/
theorem root_tags {nodes : List Node} {out : Jsx.Node} (h : root nodes = .ok out) :
    List.Forall₂ IsTagOf (ordinary (elementsAll nodes)) out.tags := by
  obtain ⟨outs, houts, rfl | ⟨-, rfl⟩⟩ := root_eq_ok.mp h
  · simpa [Jsx.Node.tagsAll] using assemble_siblings_tags (fun n _ => node_tags n) houts
  · exact assemble_siblings_tags (fun n _ => node_tags n) houts

/-! ### Properties -/

/-- What a property is lowered to by itself. -/
def lowered (p : Property) : Except Diagnostic (List Jsx.Property) := do
  propertiesOf (← Role.ofProperty p)

/-- The properties of an element are lowered one by one. -/
lemma exists_lowered {e : Element} {ps : List Jsx.Property} (h : properties e = .ok ps) :
    ∀ p ∈ e.properties, ∃ qs, lowered p = .ok qs ∧ qs ⊆ ps := by
  rw [properties, bind_eq_ok] at h
  obtain ⟨roles, hroles, h⟩ := h
  rw [bind_eq_ok] at h
  obtain ⟨qss, hqss, h⟩ := h
  cases h
  rw [mapM_eq_ok] at hqss
  replace hroles := Role.forall₂_of_ofProperties hroles
  generalize e.properties = properties at hroles
  induction hroles generalizing qss with
  | nil => simp
  | cons hrole _ ih =>
      cases hqss with
      | @cons _ qs _ qss hqs hqss =>
          refine List.forall_mem_cons.mpr ⟨⟨qs, ?_, List.subset_append_left qs qss.flatten⟩, ?_⟩
          · rw [lowered, hrole]
            exact hqs
          · intro p hp
            obtain ⟨qs', hqs', hsub⟩ := ih _ hqss p hp
            exact ⟨qs', hqs', List.subset_append_of_subset_right qs hsub⟩

/-- Every property of the element is lowered, and each part of that is on a tag of the output. -/
def Keeps (out : Jsx.Node) (e : Element) : Prop :=
  ∀ p ∈ e.properties, ∃ qs, lowered p = .ok qs ∧ ∀ q ∈ qs, ∃ t ∈ out.tags, q ∈ t.properties

/-- **Nothing on an ordinary element is lost**, at any depth. -/
theorem root_keeps_ordinary {nodes children : List Node} {e : Element} {out : Jsx.Node}
    (h : root nodes = .ok out) (he : Occurs (.element e children) nodes)
    (hk : e.kind = .ordinary) : Keeps out e := by
  have htags := root_tags h
  obtain ⟨i, hi, hget⟩ := List.getElem_of_mem (mem_ordinary.mpr ⟨he.mem_elementsAll, hk⟩)
  have hi' : i < out.tags.length := htags.length_eq ▸ hi
  have htag : IsTagOf e out.tags[i] := hget ▸ htags.get hi hi'
  intro p hp
  obtain ⟨qs, hqs, hsub⟩ := exists_lowered htag.properties p hp
  exact ⟨qs, hqs, fun q hq => ⟨_, List.getElem_mem hi', hsub hq⟩⟩

/-- A container with a title, and an element with an id in it. -/
def titledText : Text := "<template v-if=\"ok\" :title=\"t\"><b id=\"n\" /></template>"

/-- The binding of the title. -/
def titledBinding : Directive :=
  ⟨"bind", some "title", false, some "t", [], none, ⟨1, 21⟩, ":title=\"t\""⟩

/-- The container. -/
def titledHead : Element :=
  ⟨"template", .container, [
    .directive ⟨"if", none, false, some "ok", [], none, ⟨1, 11⟩, "v-if=\"ok\""⟩,
    .directive titledBinding], ⟨1, 1⟩, titledText⟩

/-- The element in the container. -/
def titledChild : Element :=
  ⟨"b", .ordinary, [.plain ⟨"id", some "n", ⟨1, 35⟩⟩], ⟨1, 32⟩, "<b id=\"n\" />"⟩

/-- All nodes of the text. -/
def titledNodes : List Node := [.element titledHead [.element titledChild []]]

theorem root_keeps_titledChild :
    ∃ out, root titledNodes = .ok out ∧ titledChild.kind = .ordinary ∧
      Occurs (.element titledChild []) titledNodes ∧ Keeps out titledChild := by
  obtain ⟨out, h⟩ : Succeeds (root titledNodes) := by decide +kernel
  have hoccurs : Occurs (.element titledChild []) titledNodes :=
    .child (.head _) (.member (.head _))
  exact ⟨out, h, rfl, hoccurs, root_keeps_ordinary h hoccurs rfl⟩

lemma lowered_titledBinding {qs : List Jsx.Property}
    (h : lowered (.directive titledBinding) = .ok qs) :
    ∃ s, qs = [.dynamic "title" (.snippet s)] := by
  have hrole : Role.ofProperty (.directive titledBinding) = .ok (.bind "title" titledBinding) :=
    rfl
  rw [lowered, hrole] at h
  obtain ⟨_, ⟨⟩, h⟩ := bind_eq_ok.mp h
  obtain ⟨s, -, h⟩ := bind_eq_ok.mp h
  cases h
  exact ⟨s, rfl⟩

/-- The title of a container is lowered, and then on no tag of the output. -/
theorem not_root_keeps :
    parse titledText = .ok titledNodes ∧
      Occurs (.element titledHead [.element titledChild []]) titledNodes ∧
      ∃ out, root titledNodes = .ok out ∧ ¬ Keeps out titledHead := by
  refine ⟨by with_unfolding_all rfl, .member (.head _), ?_⟩
  obtain ⟨out, h⟩ : Succeeds (root titledNodes) := by decide +kernel
  refine ⟨out, h, fun hkeeps => ?_⟩
  have htags := root_tags h
  obtain ⟨qs, hqs, hq⟩ := hkeeps (.directive titledBinding) (.tail _ (.head _))
  obtain ⟨s, hs⟩ := lowered_titledBinding hqs
  have hordinary : ordinary (elementsAll titledNodes) = [titledChild] := rfl
  rw [hordinary] at htags
  obtain ⟨t, ht, hmem⟩ := hq (.dynamic "title" (.snippet s)) (hs ▸ .head _)
  have hchild : properties titledChild = .ok [.literal "id" "n"] := rfl
  generalize out.tags = tags at htags ht
  cases htags with
  | cons htag hnil =>
      cases hnil
      cases List.mem_singleton.mp ht
      have heq := Except.ok.inj (htag.properties.symm.trans hchild)
      rw [heq] at hmem
      cases List.mem_singleton.mp hmem

end Lowering

end ComponentMigration
