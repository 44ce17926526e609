import ComponentMigration.Proofs.Markup.Condensed
import ComponentMigration.Proofs.Markup.Nesting

/-!
Where markup comes from.

* **Changing it.** `mapOrigin f g` changes the locations by `f` and the sources by `g`, of a
  property, an element or a node with everything in it. Condensing does not see the change
  (`condense_map_mapOrigin`), and an attribute reads as the same directive anywhere
  (`Property.ofRaw_eq_ok`).
* **Occurring.** `Occurs n ns`: the node `n` is among the nodes `ns` or, at any depth, among
  their children.
-/

namespace ComponentMigration.Markup

variable {f : Location → Location} {g : Text → Text}

/-! ### Changing the origin -/

/-- The property with its location changed by `f` and its source by `g`. -/
def Property.mapOrigin (f : Location → Location) (g : Text → Text) : Property → Property
  | .plain a => .plain { a with location := f a.location }
  | .directive d => .directive { d with location := f d.location, source := g d.source }

/-- The element with its locations changed by `f` and its sources by `g`. -/
def Element.mapOrigin (f : Location → Location) (g : Text → Text) (e : Element) : Element :=
  { e with
    properties := e.properties.map (Property.mapOrigin f g)
    location := f e.location
    source := g e.source }

/-- The leaf with its location changed by `f` and its source by `g`. -/
def Leaf.mapOrigin (f : Location → Location) (g : Text → Text) (l : Leaf) : Leaf :=
  { l with location := f l.location, source := g l.source }

mutual

/-- The node with its locations changed by `f` and its sources by `g`. -/
def Node.mapOrigin (f : Location → Location) (g : Text → Text) : Node → Node
  | .element e cs => .element (e.mapOrigin f g) (Node.mapOriginAll f g cs)
  | .text l => .text (l.mapOrigin f g)
  | .comment l => .comment (l.mapOrigin f g)
  | .interpolation l => .interpolation (l.mapOrigin f g)

/-- The nodes with their locations changed by `f` and their sources by `g`. -/
def Node.mapOriginAll (f : Location → Location) (g : Text → Text) : List Node → List Node
  | [] => []
  | n :: ns => n.mapOrigin f g :: Node.mapOriginAll f g ns

end

lemma Node.mapOriginAll_eq_map (ns : List Node) :
    Node.mapOriginAll f g ns = ns.map (Node.mapOrigin f g) := by
  induction ns with
  | nil => rfl
  | cons n ns ih => rw [Node.mapOriginAll, ih, List.map_cons]

@[simp] lemma Node.mapOrigin_element (e : Element) (cs : List Node) :
    (Node.element e cs).mapOrigin f g
      = .element (e.mapOrigin f g) (cs.map (Node.mapOrigin f g)) := by
  rw [Node.mapOrigin, Node.mapOriginAll_eq_map]

/-- Nothing is changed by functions that change nothing. -/
lemma Node.mapOrigin_id (n : Node) : n.mapOrigin id id = n := by
  have hproperty : ∀ p : Property, p.mapOrigin id id = p := by rintro (a | d) <;> rfl
  induction n using Node.ind with
  | element e cs ih =>
      rw [mapOrigin_element, Element.mapOrigin, List.map_congr_left ih, List.map_id',
        List.map_congr_left fun p _ => hproperty p, List.map_id']
      rfl
  | text l => rfl
  | comment l => rfl
  | interpolation l => rfl

lemma isText_mapOrigin {n : Node} : (n.mapOrigin f g).IsText ↔ n.IsText := by
  cases n <;> rfl

/-- The kind of an element is that of its tag and its directives' names. -/
lemma kindOf_map_mapOrigin (tag : Text) (ps : List Property) :
    kindOf tag (ps.map (Property.mapOrigin f g)) = kindOf tag ps := by
  have hnames : ∀ p : Property,
      (p.mapOrigin f g).directive?.any (structuralNames.contains ·.name)
        = p.directive?.any (structuralNames.contains ·.name) := by
    rintro (a | d) <;> rfl
  simp only [kindOf, List.any_map, Function.comp_def, hnames]

/-! ### Condensing -/

lemma condenseNode_mapOrigin (before : Option Node) (n : Node) (after : Option Node) :
    condenseNode (before.map (Node.mapOrigin f g)) (n.mapOrigin f g)
        (after.map (Node.mapOrigin f g))
      = (condenseNode before n after).map (Node.mapOrigin f g) := by
  have hdropped (content : Text) : isDroppedBetween content (before.map (Node.mapOrigin f g))
      (after.map (Node.mapOrigin f g)) = isDroppedBetween content before after := by
    rcases before with _ | (_ | _ | _ | _) <;> rcases after with _ | (_ | _ | _ | _) <;> rfl
  cases n with
  | text l =>
      cases hblank : Text.isBlankText l.content with
      | false => simp [Node.mapOrigin, Leaf.mapOrigin, condenseNode, hblank]
      | true =>
          cases hdrop : isDroppedBetween l.content before after <;>
            simp [Node.mapOrigin, Leaf.mapOrigin, condenseNode, hblank, hdropped, hdrop]
  | element e cs => simp [condenseNode]
  | comment l => rfl
  | interpolation l => rfl

lemma condenseAfter_map_mapOrigin (before : Option Node) (ns : List Node) :
    condenseAfter (before.map (Node.mapOrigin f g)) (ns.map (Node.mapOrigin f g))
      = (condenseAfter before ns).map (Node.mapOrigin f g) := by
  induction ns generalizing before with
  | nil => rfl
  | cons n ns ih =>
      have ih := ih (some n)
      rw [Option.map_some] at ih
      rw [List.map_cons, condenseAfter, condenseAfter, List.head?_map, condenseNode_mapOrigin, ih]
      cases condenseNode before n ns.head? <;> rfl

/-- Condensing does not see where the nodes come from. -/
lemma condense_map_mapOrigin (ns : List Node) :
    condense (ns.map (Node.mapOrigin f g)) = (condense ns).map (Node.mapOrigin f g) :=
  condenseAfter_map_mapOrigin none ns

lemma childrenOf_map_mapOrigin (tag : Text) (ns : List Node) :
    childrenOf tag (ns.map (Node.mapOrigin f g))
      = (childrenOf tag ns).map (Node.mapOrigin f g) := by
  rw [childrenOf, childrenOf]
  split_ifs
  · rfl
  · exact condense_map_mapOrigin ns

/-! ### Raw attributes -/

/-- A directive has the location and the source that it is read with, whatever they are. -/
lemma Directive.ofRaw_eq_ok {name source : Text} {value : Option Text} {l : Location}
    {d : Directive} (h : Directive.ofRaw name value l source = .ok d) :
    d.location = l ∧ d.source = source ∧ ∀ l' source',
      Directive.ofRaw name value l' source' = .ok { d with location := l', source := source' } := by
  simp only [Directive.ofRaw] at h ⊢
  by_cases hfor : (NameParts.ofText name).explicit.getD (shorthandName name) = "for".toList
  · rw [if_pos hfor] at h
    simp only [if_pos hfor]
    cases hbinding : ForBinding.read? (value.getD []) with
    | none =>
        rw [hbinding] at h
        cases h
    | some binding =>
        rw [hbinding] at h
        cases h
        exact ⟨rfl, rfl, fun _ _ => rfl⟩
  · rw [if_neg hfor] at h
    simp only [if_neg hfor]
    cases h
    exact ⟨rfl, rfl, fun _ _ => rfl⟩

/-- A raw attribute is a plain one or a directive. -/
lemma Property.ofRaw_eq_ok {name source : Text} {value : Option Text} {l : Location}
    {p : Property} (h : Property.ofRaw name value l source = .ok p) :
    (isDirectiveName name = false ∧ p = .plain ⟨name, value, l⟩) ∨
      ∃ d, Directive.ofRaw name value l source = .ok d ∧ p = .directive d := by
  rw [Property.ofRaw] at h
  split_ifs at h with hname
  · cases hd : Directive.ofRaw name value l source with
    | error d =>
        rw [hd] at h
        cases h
    | ok d =>
        rw [hd] at h
        cases h
        exact .inr ⟨d, rfl, rfl⟩
  · cases h
    exact .inl ⟨eq_false_of_ne_true hname, rfl⟩

/-- The property of a raw attribute that comes from elsewhere. -/
lemma Property.ofRaw_mapOrigin {name source : Text} {value : Option Text} {l : Location}
    {p : Property} (h : Property.ofRaw name value l source = .ok p) :
    Property.ofRaw name value (f l) (g source) = .ok (p.mapOrigin f g) := by
  obtain ⟨hname, rfl⟩ | ⟨d, hd, rfl⟩ := Property.ofRaw_eq_ok h
  · rw [Property.ofRaw, hname]
    rfl
  · obtain ⟨rfl, rfl, hany⟩ := Directive.ofRaw_eq_ok hd
    rw [Property.ofRaw] at h ⊢
    split_ifs at h ⊢
    · rw [hany]
      rfl
    · cases h

/-! ### Occurring -/

/-- The node `n` is among the nodes or, at any depth, among their children. -/
inductive Occurs (n : Node) : List Node → Prop
  | member {ns : List Node} (h : n ∈ ns) : Occurs n ns
  | child {e : Element} {cs ns : List Node} (h : .element e cs ∈ ns) (hn : Occurs n cs) :
      Occurs n ns

lemma not_occurs_nil (n : Node) : ¬ Occurs n [] := by
  rintro (h | ⟨h, -⟩) <;> cases h

/-- What occurs among nodes occurs among more of them. -/
lemma Occurs.mono {n : Node} {ns ms : List Node} (h : Occurs n ns) (hsub : ns ⊆ ms) :
    Occurs n ms := by
  cases h with
  | member h => exact .member (hsub h)
  | child h hn => exact .child (hsub h) hn

lemma occurs_cons_iff {n m : Node} {ns : List Node} :
    Occurs n (m :: ns) ↔ n = m ∨ (∃ e cs, m = .element e cs ∧ Occurs n cs) ∨ Occurs n ns := by
  constructor
  · rintro (h | ⟨h, hn⟩)
    · exact (List.mem_cons.mp h).imp_right fun h => .inr (.member h)
    · rcases List.mem_cons.mp h with rfl | h
      · exact .inr (.inl ⟨_, _, rfl, hn⟩)
      · exact .inr (.inr (.child h hn))
  · rintro (rfl | ⟨e, cs, rfl, hn⟩ | hn)
    · exact .member List.mem_cons_self
    · exact .child List.mem_cons_self hn
    · cases hn with
      | member h => exact .member (List.mem_cons_of_mem m h)
      | child h hn => exact .child (List.mem_cons_of_mem m h) hn

end ComponentMigration.Markup
