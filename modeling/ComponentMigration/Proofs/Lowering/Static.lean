import ComponentMigration.Jsx.Printer
import ComponentMigration.Lowering.Tree
import ComponentMigration.Proofs.Jsx.Islands
import ComponentMigration.Proofs.Markup.Readable

/-!
Static markup and its output.

* **Static nodes.** A node `IsStatic` if at every depth it has only plain attributes and only
  elements and texts, without the characters that output text cannot hold. `Node.bare` is the
  node without its locations and sources.
* **Reading back.** `ReadsBack out n`: the printed node `out` reads as the node `n`, whatever is
  in front of it and behind it. An attribute, a start tag and siblings go the same way.
* **Main statement.** `parse_markup_root`: a static element of a template lowers to a node that
  is printed as the element again.
-/

namespace ComponentMigration

open Markup (AreApart ReadsOptional ReadsProperties ReadsProperty ReadsToken ReadsValue Scans Nests
  Piece)

/-! ### Static nodes -/

namespace Markup

/-- The value of the attribute can stand between quotes. -/
def Attribute.IsStatic (a : Attribute) : Prop := ∀ v ∈ a.value, '"' ∉ v ∨ '\'' ∉ v

/-- A plain attribute whose value can stand between quotes. -/
def Property.IsStatic : Property → Prop
  | .plain a => a.IsStatic
  | .directive _ => False

/-- The text has none of the characters that are printed as expressions. -/
def Leaf.IsStatic (l : Leaf) : Prop := ∀ x ∈ l.content, ¬ (x = '{' ∨ x = '}' ∨ x = '<' ∨ x = '>')

/-- A static node: at every depth only plain attributes, and only elements and static texts. -/
inductive Node.IsStatic : Node → Prop
  | element {e : Element} {cs : List Node} (hp : ∀ p ∈ e.properties, p.IsStatic)
      (hcs : ∀ c ∈ cs, c.IsStatic) : IsStatic (.element e cs)
  | text {l : Leaf} (hl : l.IsStatic) : IsStatic (.text l)

/-- The property without its location and source. -/
def Property.bare (p : Property) : Property := p.mapOrigin (fun _ => .unknown) (fun _ => [])

/-- The node without its locations and sources. -/
def Node.bare (n : Node) : Node := n.mapOrigin (fun _ => .unknown) (fun _ => [])

/-- A bare element has bare properties, and its children as they are. -/
lemma Node.bare_element (e : Element) (cs : List Node) :
    (Node.element e cs).bare = .element
      { e with properties := e.properties.map Property.bare, location := .unknown, source := [] }
      (cs.map Node.bare) :=
  Node.mapOrigin_element e cs

/-- Which children are kept does not depend on places. -/
lemma childrenOf_map_bare (tag : Text) (ns : List Node) :
    childrenOf tag (ns.map Node.bare) = (childrenOf tag ns).map Node.bare :=
  childrenOf_map_mapOrigin (f := fun _ => .unknown) (g := fun _ => []) tag ns

/-- Properties that differ in their origin give an element the same kind. -/
lemma kindOf_eq_of_bare {ps qs : List Property} (tag : Text)
    (h : ps.map Property.bare = qs.map Property.bare) : kindOf tag ps = kindOf tag qs := by
  have hbare (ps : List Property) : kindOf tag (ps.map Property.bare) = kindOf tag ps :=
    kindOf_map_mapOrigin (f := fun _ => .unknown) (g := fun _ => []) tag ps
  rw [← hbare ps, h, hbare qs]

/-- Static properties are plain attributes. -/
lemma exists_attributes {ps : List Property} (h : ∀ p ∈ ps, p.IsStatic) :
    ∃ as : List Attribute, ps = as.map .plain ∧ ∀ a ∈ as, a.IsStatic := by
  induction ps with
  | nil => exact ⟨[], rfl, by simp⟩
  | cons p ps ih =>
      obtain ⟨hp, hps⟩ := List.forall_mem_cons.mp h
      obtain ⟨as, rfl, has⟩ := ih hps
      cases p with
      | plain a => exact ⟨a :: as, rfl, List.forall_mem_cons.mpr ⟨hp, has⟩⟩
      | directive d => exact hp.elim

end Markup

namespace Lowering

variable {s t r : Text} {l : Location}

/-! ### Attributes -/

/-- The output of a plain attribute. -/
def ofAttribute (a : Markup.Attribute) : Jsx.Property :=
  match a.value with
  | none => .flag a.name
  | some v => .literal a.name v

/-- In front of this text an attribute ends with its name or its value. -/
structure EndsAttribute (r : Text) : Prop where
  name : ∀ x ∈ r.head?, Markup.isAttributeChar x = false
  equals : ¬ ∃ b t, (∀ x ∈ b, Text.isBlank x = true) ∧ r = b ++ '=' :: t

/-- Blanks end an attribute, if no equals sign follows. -/
lemma endsAttribute_of_eq {b u : Text} {x : Char} (hb : ∀ y ∈ b, Text.isBlank y = true)
    (hx : Text.isBlank x = false) (hequals : x ≠ '=')
    (hname : ∀ y ∈ (b ++ x :: u).head?, Markup.isAttributeChar y = false) :
    EndsAttribute (b ++ x :: u) := by
  refine ⟨hname, ?_⟩
  rintro ⟨b', t, hb', h⟩
  have hdrop (b : Text) (hb : ∀ y ∈ b, Text.isBlank y = true) (x : Char)
      (hx : Text.isBlank x = false) (u : Text) : (b ++ x :: u).dropWhile Text.isBlank = x :: u := by
    rw [List.dropWhile_append_of_pos hb, List.dropWhile_cons_of_neg (by simp [hx])]
  have heq := hdrop b hb x hx u
  rw [h, hdrop b' hb' '=' (by decide) t] at heq
  exact hequals (List.cons.inj heq).1.symm

/-- A printed attribute reads as itself. -/
lemma readsProperty_ofAttribute {a : Markup.Attribute}
    (hreadable : (Markup.Property.plain a).IsReadable) (hstatic : a.IsStatic)
    (hr : EndsAttribute r) (l : Location) :
    ReadsProperty (ofAttribute a).markup l (.plain { a with location := l }) r := by
  obtain ⟨name, value, location⟩ := a
  obtain ⟨hne, hname, hplain⟩ := hreadable
  have hp (value : Option Text) (source : Text) : Markup.Property.ofRaw name value l source
      = .ok (.plain ⟨name, value, l⟩) := by
    rw [Markup.Property.ofRaw, if_neg (by simpa using hplain)]
  cases value with
  -- Without a value only the name is printed.
  | none =>
      have hread := ReadsProperty.intro (s := []) hne ⟨hname, hr.name⟩ (.none hr.equals) (hp none _)
      rwa [List.append_nil] at hread
  | some v =>
      -- The value stands in the quotes that it does not contain itself.
      obtain ⟨quote, hquote, hv, hmarkup⟩ := Jsx.exists_literalMarkup_eq (hstatic v rfl)
      have hblank : Text.isBlank quote = false := by
        rcases hquote with rfl | rfl <;> decide
      have hvalue : ReadsOptional ([] ++ '=' :: ([] ++ quote :: (v ++ [quote]))) (some v) r :=
        .some (by simp) (Text.runs_cons (by simp) hblank) (.quoted hquote hv)
      have hread := ReadsProperty.intro hne (Text.runs_cons hname (by decide)) hvalue
        (hp (some v) _)
      have hprinted : (ofAttribute ⟨name, some v, location⟩).markup
          = name ++ '=' :: quote :: (v ++ [quote]) := by
        simp [ofAttribute, Jsx.Property.markup, hmarkup]
      rwa [hprinted]

/-! ### Start tags -/

/-- The end of a printed start tag. -/
def tagEnd : Bool → Text
  | true => [' ', '/', '>']
  | false => ['>']

/-- A printed attribute begins with its name. -/
lemma exists_ofAttribute_eq_cons {a : Markup.Attribute}
    (h : (Markup.Property.plain a).IsReadable) :
    ∃ x u, (ofAttribute a).markup = x :: u ∧ Markup.isAttributeChar x = true := by
  obtain ⟨name, value, location⟩ := a
  obtain ⟨hne, hname, -⟩ := h
  obtain ⟨x, name, rfl⟩ := List.exists_cons_of_ne_nil hne
  have hx := hname x List.mem_cons_self
  cases value with
  | none => exact ⟨x, name, rfl, hx⟩
  | some v => exact ⟨x, _, rfl, hx⟩

lemma isBlank_space : ∀ x ∈ [' '], Text.isBlank x = true :=
  List.forall_mem_singleton.mpr rfl

/-- In front of more attributes or the end of the tag an attribute ends. -/
lemma endsAttribute_markupAll {as : List Markup.Attribute}
    (h : ∀ a ∈ as, (Markup.Property.plain a).IsReadable) (isClosed : Bool) (r : Text) :
    EndsAttribute (Jsx.Property.markupAll (as.map ofAttribute) ++ tagEnd isClosed ++ r) := by
  have hhead (u : Text) : ∀ x ∈ ([' '] ++ u).head?, Markup.isAttributeChar x = false := by
    rintro x ⟨⟩
    decide
  -- Behind the last attribute the tag ends, and behind any other one the next begins, in both
  -- cases with no sign of equality.
  cases as with
  | nil =>
      cases isClosed with
      | true =>
          exact endsAttribute_of_eq (u := '>' :: r) isBlank_space (by decide) (by decide)
            (hhead _)
      | false =>
          refine endsAttribute_of_eq (b := []) (u := r) (by simp) (by decide) (by decide) ?_
          rintro x ⟨⟩
          decide
  | cons a as =>
      obtain ⟨x, u, hmarkup, hx⟩ := exists_ofAttribute_eq_cons (h a List.mem_cons_self)
      obtain ⟨hblank, hequals, -, -⟩ := Markup.isAttributeChar_iff.mp hx
      have hprinted : Jsx.Property.markupAll ((a :: as).map ofAttribute) ++ tagEnd isClosed ++ r
          = [' '] ++ x ::
            (u ++ Jsx.Property.markupAll (as.map ofAttribute) ++ tagEnd isClosed ++ r) := by
        simp [Jsx.Property.markupAll, hmarkup]
      rw [hprinted]
      exact endsAttribute_of_eq isBlank_space hblank hequals (hhead _)

/-- Printed attributes read as themselves. -/
lemma exists_readsProperties {as : List Markup.Attribute}
    (hreadable : ∀ a ∈ as, (Markup.Property.plain a).IsReadable)
    (hstatic : ∀ a ∈ as, a.IsStatic) (isClosed : Bool) (l : Location) (r : Text) :
    ∃ ps, ReadsProperties (Jsx.Property.markupAll (as.map ofAttribute) ++ tagEnd isClosed) l ps
        isClosed r ∧
      ps.map Markup.Property.bare = (as.map Markup.Property.plain).map Markup.Property.bare := by
  induction as generalizing l with
  | nil =>
      cases isClosed with
      | true => exact ⟨[], .closed isBlank_space, rfl⟩
      | false => exact ⟨[], .opened (b := []) (by simp), rfl⟩
  | cons a as ih =>
      obtain ⟨ha, has⟩ := List.forall_mem_cons.mp hreadable
      obtain ⟨hastatic, hasstatic⟩ := List.forall_mem_cons.mp hstatic
      have hfirst := readsProperty_ofAttribute ha hastatic (endsAttribute_markupAll has isClosed r)
        (l.after [' '])
      obtain ⟨ps, hps, hbare⟩ := ih has hasstatic (l.after ([' '] ++ (ofAttribute a).markup))
      -- A space, the attribute, and the others by induction.
      have hread := ReadsProperties.property isBlank_space hfirst hps
      have hprinted : Jsx.Property.markupAll ((a :: as).map ofAttribute) ++ tagEnd isClosed
          = [' '] ++ ((ofAttribute a).markup ++
            (Jsx.Property.markupAll (as.map ofAttribute) ++ tagEnd isClosed)) := by
        simp [Jsx.Property.markupAll]
      rw [hprinted]
      refine ⟨_, hread, ?_⟩
      rw [List.map_cons, hbare]
      rfl

/-- A printed start tag reads as itself. -/
lemma exists_readsToken_startTag {e : Markup.Element} (he : e.IsReadable)
    {as : List Markup.Attribute} (has : e.properties = as.map .plain)
    (hstatic : ∀ a ∈ as, a.IsStatic) (isClosed : Bool) (l : Location) (r : Text) :
    ∃ ps, ReadsToken ('<' :: (e.tag ++
        (Jsx.Property.markupAll (as.map ofAttribute) ++ tagEnd isClosed))) l
        (.startTag e.tag ps isClosed) r ∧
      ps.map Markup.Property.bare = e.properties.map Markup.Property.bare := by
  have hreadable : ∀ a ∈ as, (Markup.Property.plain a).IsReadable := fun a ha =>
    he.properties _ (has ▸ List.mem_map_of_mem ha)
  obtain ⟨ps, hps, hbare⟩ :=
    exists_readsProperties hreadable hstatic isClosed (l.after ('<' :: e.tag)) r
  refine ⟨ps, .startTag he.letter ⟨he.tag, fun x hx => ?_⟩ hps, has ▸ hbare⟩
  cases as <;> cases isClosed <;> cases hx <;> decide

/-- A printed end tag reads as itself. -/
lemma readsToken_endTag {e : Markup.Element} (he : e.IsReadable) (l : Location) (r : Text) :
    ReadsToken (['<', '/'] ++ (e.tag ++ ([] ++ ['>']))) l (.endTag e.tag) r := by
  refine .endTag ⟨fun x hx => ?_, ?_⟩ (Text.runs_cons (by simp) (by decide)) (.inl rfl)
  · have htag := he.tag x hx
    simp only [Markup.isTagChar, Bool.and_eq_true] at htag
    simp [Markup.isUnquotedChar, htag.1.1, htag.2]
  · rintro x ⟨⟩
    decide

/-- A start tag that can be read begins markup. -/
lemma startsMarkup_startTag {e : Markup.Element} (he : e.IsReadable) (u : Text) :
    Markup.startsMarkup ('<' :: (e.tag ++ u)) = true := by
  have htag : Markup.startsMarkup ('<' :: e.tag) = true := by simp [Markup.startsMarkup, he.letter]
  exact Markup.startsMarkup_mono htag (List.prefix_append ('<' :: e.tag) u)

/-! ### Reading back -/

/-- The printed node `out` reads as the node `n`, whatever is in front of it. What is behind it
must not go on with a text. -/
structure ReadsBack (out : Jsx.Node) (n : Markup.Node) : Prop where
  scans : ∀ l t, (n.IsText → t = [] ∨ Markup.startsMarkup t = true) → ∃ own m,
    (∀ qs, Scans t (l.after out.markup) qs → Scans (out.markup ++ t) l (own ++ qs)) ∧
      Nests own [m] ∧ m.bare = n.bare
  startsMarkup : ¬ n.IsText → Markup.startsMarkup out.markup = true

/-- Printed siblings read as the siblings, if no two texts are next to each other. -/
lemma exists_scans_markupAll {outs : List Jsx.Node} {ns : List Markup.Node}
    (h : List.Forall₂ ReadsBack outs ns) (hapart : AreApart ns) (l : Location) (t : Text)
    (ht : Markup.startsMarkup t = true) :
    ∃ own ms, (∀ qs, Scans t (l.after (Jsx.Node.markupAll outs)) qs →
        Scans (Jsx.Node.markupAll outs ++ t) l (own ++ qs)) ∧
      Nests own ms ∧ ms.map Markup.Node.bare = ns.map Markup.Node.bare := by
  induction h generalizing l with
  | nil => exact ⟨[], [], fun _ h => h, .nil, rfl⟩
  | @cons out n outs ns hn hns ih =>
      obtain ⟨hnext, hapart⟩ := Markup.areApart_cons_iff.mp hapart
      obtain ⟨own', ms, hscans', hnests', hbare'⟩ := ih hapart (l.after out.markup)
      -- A text goes on to the next markup. So behind it must stand markup, which is why two
      -- texts in a row would not be read back.
      have hend : n.IsText → Jsx.Node.markupAll outs ++ t = [] ∨
          Markup.startsMarkup (Jsx.Node.markupAll outs ++ t) = true := by
        intro htext
        refine .inr ?_
        cases hns with
        | nil => exact ht
        | @cons out' n' outs' ns' hn' _ =>
            have hstart := hn'.startsMarkup fun htext' => hnext n' rfl ⟨htext, htext'⟩
            refine Markup.startsMarkup_mono hstart ?_
            rw [Jsx.Node.markupAll, List.append_assoc]
            exact List.prefix_append _ _
      obtain ⟨own, m, hscans, hnests, hbare⟩ := hn.scans l _ hend
      refine ⟨own ++ own', m :: ms, fun qs hqs => ?_, hnests.append hnests', ?_⟩
      · rw [Jsx.Node.markupAll, Location.after_append] at hqs
        rw [Jsx.Node.markupAll, List.append_assoc, List.append_assoc]
        exact hscans _ (hscans' qs hqs)
      · rw [List.map_cons, List.map_cons, hbare, hbare']

/-- No markup begins inside of a text without its first characters. -/
lemma isPlain_of_forall (h : ∀ x ∈ s, x ≠ '<' ∧ x ≠ '{') : Markup.IsPlain s r := by
  intro v hv hne
  obtain ⟨x, v, rfl⟩ := List.exists_cons_of_ne_nil hne
  obtain ⟨hangle, hbrace⟩ := h x (hv.subset List.mem_cons_self)
  rw [Bool.eq_false_iff, ne_eq, Markup.startsMarkup_iff]
  simp [List.cons_prefix_cons, Ne.symm hangle, Ne.symm hbrace]

/-- A static text is printed as it is. -/
lemma textMarkup_eq_self {leaf : Markup.Leaf} (h : leaf.IsStatic) :
    Jsx.textMarkup leaf.content = leaf.content := by
  have hchars : ∀ x ∈ leaf.content, Jsx.charMarkup x = [x] := fun x hx => if_neg (h x hx)
  rw [Jsx.textMarkup, List.flatMap_congr hchars, List.flatMap_singleton']

/-- A text without the marks of markup is read as itself. -/
lemma readsBack_text {leaf : Markup.Leaf} (hstatic : leaf.IsStatic) (hne : leaf.content ≠ []) :
    ReadsBack (.text leaf.content) (.text leaf) := by
  have hprinted : (Jsx.Node.text leaf.content).markup = leaf.content := by
    rw [Jsx.Node.markup, textMarkup_eq_self hstatic]
  refine ⟨fun l t ht => ?_, fun hn => absurd trivial hn⟩
  have hplain : Markup.IsPlain leaf.content t := isPlain_of_forall fun x hx =>
    ⟨fun hangle => hstatic x hx (by simp [hangle]), fun hbrace => hstatic x hx (by simp [hbrace])⟩
  have htoken : ReadsToken leaf.content l (.text leaf.content) t := .text hne hplain (ht trivial)
  rw [hprinted]
  exact ⟨[⟨.text leaf.content, l, leaf.content, t⟩], .text ⟨leaf.content, l, leaf.content⟩,
    fun qs hqs => .cons htoken hqs, .leaf (.text rfl) .nil, rfl⟩

/-- Elements that agree but for their origin. -/
lemma bare_element_eq {e : Markup.Element} (he : e.IsReadable) {ps : List Markup.Property}
    (hps : ps.map Markup.Property.bare = e.properties.map Markup.Property.bare)
    {ms cs : List Markup.Node} (hms : ms.map Markup.Node.bare = cs.map Markup.Node.bare)
    (location : Location) (source : Text) :
    (Markup.Node.element ⟨e.tag, Markup.kindOf e.tag ps, ps, location, source⟩ ms).bare
      = (Markup.Node.element e cs).bare := by
  have hkind : Markup.kindOf e.tag ps = e.kind := by
    rw [Markup.kindOf_eq_of_bare e.tag hps, he.kind]
  rw [Markup.Node.bare_element, Markup.Node.bare_element, hms, hkind, hps]

section Element

variable {e : Markup.Element} (he : e.IsReadable) {as : List Markup.Attribute}
  (has : e.properties = as.map .plain) (hstatic : ∀ a ∈ as, a.IsStatic)
include he has hstatic

/-- A printed element without children reads as itself. -/
lemma readsBack_childless :
    ReadsBack (.element e.tag (as.map ofAttribute) []) (.element e []) := by
  have hprinted : (Jsx.Node.element e.tag (as.map ofAttribute) []).markup
      = '<' :: (e.tag ++ (Jsx.Property.markupAll (as.map ofAttribute) ++ tagEnd true)) := by
    simp [Jsx.Node.markup, tagEnd]
  refine ⟨fun l t _ => ?_, fun _ => ?_⟩
  · obtain ⟨ps, htoken, hps⟩ := exists_readsToken_startTag he has hstatic true l t
    rw [hprinted]
    exact ⟨_, _, fun qs hqs => .cons htoken hqs, .leaf (.element rfl rfl) .nil,
      bare_element_eq he hps rfl _ _⟩
  · rw [hprinted]
    exact startsMarkup_startTag he _

/-- A printed element with children reads as itself. -/
lemma readsBack_parent {cs : List Markup.Node} {outs : List Jsx.Node} (hne : outs ≠ [])
    (hvoid : Markup.isVoidTag e.tag = false) (hapart : AreApart cs)
    (hcondensed : Markup.childrenOf e.tag cs = cs) (houts : List.Forall₂ ReadsBack outs cs) :
    ReadsBack (.element e.tag (as.map ofAttribute) outs) (.element e cs) := by
  have hempty : outs.isEmpty = false := by simpa using hne
  have hprinted : (Jsx.Node.element e.tag (as.map ofAttribute) outs).markup
      = '<' :: (e.tag ++ (Jsx.Property.markupAll (as.map ofAttribute) ++ tagEnd false)) ++
        (Jsx.Node.markupAll outs ++ (['<', '/'] ++ (e.tag ++ ([] ++ ['>'])))) := by
    simp [Jsx.Node.markup, tagEnd, hempty]
  have hstart := exists_readsToken_startTag he has hstatic false
  have hend := readsToken_endTag he
  have hstarts :=
    startsMarkup_startTag he (Jsx.Property.markupAll (as.map ofAttribute) ++ tagEnd false)
  have hends : Markup.startsMarkup (['<', '/'] ++ (e.tag ++ ([] ++ ['>']))) = true :=
    Markup.startsMarkup_iff.mpr (.inl (List.prefix_append _ _))
  generalize '<' :: (e.tag ++ _) = startTag at hprinted hstart hstarts
  generalize ['<', '/'] ++ _ = endTag at hprinted hend hends
  refine ⟨fun l t _ => ?_, fun _ => ?_⟩
  · obtain ⟨inner, ms, hscans, hnests, hbare⟩ := exists_scans_markupAll houts hapart
      (l.after startTag) (endTag ++ t)
      (Markup.startsMarkup_mono hends (List.prefix_append _ _))
    obtain ⟨ps, htoken, hps⟩ := hstart l (Jsx.Node.markupAll outs ++ (endTag ++ t))
    have hchildren : (Markup.childrenOf e.tag ms).map Markup.Node.bare
        = cs.map Markup.Node.bare := by
      rw [← Markup.childrenOf_map_bare, hbare, Markup.childrenOf_map_bare, hcondensed]
    -- The element is nested between the pieces of its tags.
    let p : Piece :=
      ⟨.startTag e.tag ps false, l, startTag, Jsx.Node.markupAll outs ++ (endTag ++ t)⟩
    let q : Piece := ⟨.endTag e.tag, (l.after startTag).after (Jsx.Node.markupAll outs), endTag, t⟩
    refine ⟨p :: inner ++ [q], Markup.elementOf p e.tag ps inner q ms, fun qs hqs => ?_,
      .element rfl hvoid rfl hnests .nil, bare_element_eq he hps hchildren _ _⟩
    rw [hprinted] at hqs ⊢
    rw [Location.after_append, Location.after_append] at hqs
    simpa using Scans.cons htoken (hscans _ (.cons (hend _ t) hqs))
  · rw [hprinted]
    exact Markup.startsMarkup_mono hstarts (List.prefix_append _ _)

end Element

/-! ### Lowering -/

section Plain

variable {e : Markup.Element} {as : List Markup.Attribute} (has : e.properties = as.map .plain)
include has

/-- An element with plain attributes has no directive. -/
lemma findDirective_eq_none (names : List Text) : e.findDirective names = none := by
  rw [Markup.Element.findDirective, has, List.findSome?_eq_none_iff]
  intro p hp
  obtain ⟨a, -, rfl⟩ := List.mem_map.mp hp
  rfl

/-- An element with plain attributes is no container. -/
lemma kindOf_eq_ordinary : Markup.kindOf e.tag e.properties = .ordinary := by
  have hany : e.properties.any
      (fun p => p.directive?.any (Markup.structuralNames.contains ·.name)) = false := by
    rw [has, List.any_map, List.any_eq_false]
    exact fun a _ => by simp [Markup.Property.directive?]
  rw [Markup.kindOf, hany]
  simp

/-- Plain attributes lower one by one. -/
lemma properties_eq_ok : properties e = .ok (as.map ofAttribute) := by
  have hofProperty : e.properties.mapM Markup.Role.ofProperty = .ok (as.map .plain) := by
    rw [has, mapM_eq_ok, List.forall₂_map_left_iff, List.forall₂_map_right_iff]
    exact List.forall₂_same.mpr fun a _ => rfl
  -- With no directives there are no branches that could rule each other out.
  have hrivals : (as.map Markup.Role.plain).filterMap Markup.Role.conditional? = [] := by
    rw [List.filterMap_map, List.filterMap_eq_nil_iff]
    exact fun a _ => rfl
  have hroles : Markup.Role.ofProperties e.properties = .ok (as.map .plain) := by
    rw [Markup.Role.ofProperties, bind_eq_ok]
    refine ⟨_, hofProperty, ?_⟩
    rw [hrivals]
  have hproperties : (as.map Markup.Role.plain).mapM propertiesOf
      = .ok (as.map fun a => [ofAttribute a]) := by
    rw [mapM_eq_ok, List.forall₂_map_left_iff, List.forall₂_map_right_iff]
    exact List.forall₂_same.mpr fun a _ => rfl
  have hflatten : (as.map fun a => [ofAttribute a]).flatten = as.map ofAttribute := by
    rw [← List.flatMap_def, List.map_eq_flatMap]
  rw [properties, bind_eq_ok]
  refine ⟨_, hroles, ?_⟩
  rw [bind_eq_ok]
  exact ⟨_, hproperties, congrArg Except.ok hflatten⟩

end Plain

/-- A static node takes part in no chain. -/
lemma conditional?_eq_none {n : Markup.Node} (h : n.IsStatic) : conditional? n = none := by
  cases h with
  | element hp _ =>
      obtain ⟨as, has, -⟩ := Markup.exists_attributes hp
      rw [conditional?, Markup.Element.conditional?, findDirective_eq_none has, Option.bind_none]
  | text _ => rfl

/-- Static siblings lower one by one. -/
lemma exists_assemble_eq_ok {ns : List Markup.Node}
    (h : ∀ n ∈ ns, n.IsStatic ∧ ∃ out, node n = .ok out ∧ ReadsBack out n) :
    ∃ outs, assemble (siblings ns) = .ok outs ∧ List.Forall₂ ReadsBack outs ns := by
  induction ns with
  | nil => exact ⟨[], by rw [siblings, assemble], .nil⟩
  | cons n ns ih =>
      obtain ⟨⟨hstatic, out, hout, hback⟩, hns⟩ := List.forall_mem_cons.mp h
      obtain ⟨outs, houts, hbacks⟩ := ih hns
      refine ⟨out :: outs, ?_, .cons hback hbacks⟩
      rw [siblings, assemble, conditional?_eq_none hstatic, hout, houts]
      rfl

/-- A static node lowers to a node that reads back. -/
lemma exists_node_eq_ok {n : Markup.Node} (hstatic : n.IsStatic) (hreadable : n.IsReadable) :
    ∃ out, node n = .ok out ∧ ReadsBack out n := by
  induction n using Markup.Node.ind with
  | element e cs ih =>
      obtain ⟨hp, hcs⟩ | _ := hstatic
      obtain @⟨_, _, he, hvoid, hreadables, hapart, hcondensed⟩ := hreadable
      -- The element has attributes only, and its children are lowered and read back by
      -- induction.
      obtain ⟨as, has, hstatics⟩ := Markup.exists_attributes hp
      obtain ⟨outs, houts, hbacks⟩ := exists_assemble_eq_ok fun c hc =>
        ⟨hcs c hc, ih c hc (hcs c hc) (hreadables c hc)⟩
      have hkind : e.kind = .ordinary := by rw [he.kind, kindOf_eq_ordinary has]
      refine ⟨.element e.tag (as.map ofAttribute) outs, ?_, ?_⟩
      · rw [node, element, Markup.Element.loop?, findDirective_eq_none has]
        dsimp only
        rw [body, bind_eq_ok]
        refine ⟨_, properties_eq_ok has, ?_⟩
        rw [bind_eq_ok]
        refine ⟨_, houts, ?_⟩
        rw [hkind]
        rfl
      -- Without children the tag is closed at once.
      · cases hbacks with
        | nil => exact readsBack_childless he has hstatics
        | @cons out c outs cs hback hbacks =>
            have hvoid : Markup.isVoidTag e.tag = false := by
              cases htag : Markup.isVoidTag e.tag with
              | true => cases hvoid htag
              | false => rfl
            exact readsBack_parent he has hstatics (List.cons_ne_nil _ _) hvoid hapart hcondensed
              (.cons hback hbacks)
  | text leaf =>
      obtain _ | hstatic := hstatic
      obtain _ | hne := hreadable
      exact ⟨_, by rw [node], readsBack_text hstatic hne⟩
  | comment leaf => cases hstatic
  | interpolation leaf => cases hstatic

/-- **Static markup survives**: a static element that occurs in what a template is parsed to
lowers to a node whose printed form is parsed to one node, which is the element but for its
locations and sources. -/
theorem parse_markup_root {text : Text} {nodes : List Markup.Node} {e : Markup.Element}
    {cs : List Markup.Node} (h : Markup.parse text = .ok nodes)
    (hoccurs : Markup.Occurs (.element e cs) nodes)
    (hstatic : (Markup.Node.element e cs).IsStatic) :
    ∃ out n, root [.element e cs] = .ok out ∧ Markup.parse out.markup = .ok [n] ∧
      n.bare = (Markup.Node.element e cs).bare := by
  have hreadable := Markup.isReadable_of_parse h hoccurs
  have hnode := exists_node_eq_ok hstatic hreadable
  obtain ⟨outs, houts, hbacks⟩ := exists_assemble_eq_ok (List.forall_mem_singleton.mpr
    ⟨hstatic, hnode⟩)
  obtain ⟨out, rest, hback, hrest, rfl⟩ := List.forall₂_cons_right_iff.mp hbacks
  obtain rfl := List.forall₂_nil_right_iff.mp hrest
  obtain ⟨own, n, hscans, hnests, hbare⟩ := hback.scans .first [] (fun _ => .inl rfl)
  have hroot : root [.element e cs] = .ok out := by
    rw [root, houts]
    rfl
  have hscan := hscans [] .nil
  rw [List.append_nil, List.append_nil] at hscan
  -- Reading drops white space between nodes, but this node is an element.
  have hn : ¬ n.IsText := by
    have hbaretext : ¬ n.bare.IsText := by
      rw [hbare, Markup.Node.bare_element]
      exact id
    rwa [Markup.Node.bare, Markup.isText_mapOrigin] at hbaretext
  exact ⟨out, n, hroot, (Markup.parse_eq_ok_iff _ _).mpr
    ⟨own, [n], Markup.pieces_eq_iff.mpr hscan, hnests, (Markup.condense_singleton hn).symm⟩, hbare⟩

/-- A paragraph with a quoted quote, a name without a value, blanks to condense, and a void
element among the blanks that `pre` keeps. -/
def quotedText : Text := "é<p a='\"' b> x\n <pre> <br></pre></p>"

/-- The paragraph without its children. -/
def quotedElement : Markup.Element where
  tag := "p"
  kind := .ordinary
  properties := [.plain ⟨"a", some "\"", ⟨1, 5⟩⟩, .plain ⟨"b", none, ⟨1, 11⟩⟩]
  location := ⟨1, 2⟩
  source := "<p a='\"' b> x\n <pre> <br></pre></p>"

/-- The children of the paragraph. -/
def quotedChildren : List Markup.Node := [
  .text ⟨" x ", ⟨1, 13⟩, " x\n "⟩,
  .element ⟨"pre", .ordinary, [], ⟨2, 2⟩, "<pre> <br></pre>"⟩ [
    .text ⟨" ", ⟨2, 7⟩, " "⟩,
    .element ⟨"br", .ordinary, [], ⟨2, 8⟩, "<br>"⟩ []]]

/-- The element of the example is static. -/
lemma isStatic_quotedElement : (Markup.Node.element quotedElement quotedChildren).IsStatic := by
  have hbreak : (Markup.Node.element ⟨"br", .ordinary, [], ⟨2, 8⟩, "<br>"⟩ []).IsStatic :=
    .element (by simp) (by simp)
  have hpre : (Markup.Node.element ⟨"pre", .ordinary, [], ⟨2, 2⟩, "<pre> <br></pre>"⟩ [
      .text ⟨" ", ⟨2, 7⟩, " "⟩,
      .element ⟨"br", .ordinary, [], ⟨2, 8⟩, "<br>"⟩ []]).IsStatic :=
    .element (by simp) (by simpa using ⟨.text (by simp [Markup.Leaf.IsStatic]), hbreak⟩)
  have hproperties : ∀ p ∈ quotedElement.properties, p.IsStatic := by
    simp [quotedElement, Markup.Property.IsStatic, Markup.Attribute.IsStatic]
  exact .element hproperties (by
    simpa [quotedChildren] using ⟨.text (by simp [Markup.Leaf.IsStatic]), hpre⟩)

theorem parse_markup_root_quoted :
    Markup.parse quotedText
        = .ok [.text ⟨"é", ⟨1, 1⟩, "é"⟩, .element quotedElement quotedChildren] ∧
      (Markup.Node.element quotedElement quotedChildren).IsStatic ∧
      ∃ out n, root [.element quotedElement quotedChildren] = .ok out ∧
        Markup.parse out.markup = .ok [n] ∧
        n.bare = (Markup.Node.element quotedElement quotedChildren).bare := by
  have hparse : Markup.parse quotedText
      = .ok [.text ⟨"é", ⟨1, 1⟩, "é"⟩, .element quotedElement quotedChildren] := by
    with_unfolding_all rfl
  exact ⟨hparse, isStatic_quotedElement,
    parse_markup_root hparse (.member (.tail _ (.head _))) isStatic_quotedElement⟩

end Lowering

end ComponentMigration
