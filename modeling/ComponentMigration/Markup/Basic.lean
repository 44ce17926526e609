import ComponentMigration.Location

/-!
The markup tree of a template.

* **Nodes.** A `Markup.Node` is an element with its children, a text, a comment
  or an interpolation. An `Element` is an element without its children, a `Leaf`
  all there is to the other three.
* **Properties.** An element's `Property` is a plain attribute or a directive. A
  directive's name goes without its `v-`, and a `ForBinding` holds the parts of
  `(value, key, index) in source`.
* **Walks.** `Node.ind` is the induction principle: what an element inherits from its
  children holds of every node.
* **Provenance.** Everything records its location and the text it was read from.
-/

namespace ComponentMigration.Markup

/-- The parts of `(value, key, index) in source`. -/
structure ForBinding where
  source : Text
  value : Option Text
  key : Option Text
  /-- Present only in the form with three aliases, which iterates an object. -/
  index : Option Text
  deriving DecidableEq, Repr, Inhabited

/-- A plain attribute. -/
structure Attribute where
  name : Text
  value : Option Text
  location : Location
  deriving DecidableEq, Repr, Inhabited

/-- A directive: `v-name:argument.modifier="expression"` or a shorthand of it. -/
structure Directive where
  /-- The name without its `v-`. -/
  name : Text
  argument : Option Text
  /-- Whether the argument was written in square brackets. -/
  isDynamic : Bool
  expression : Option Text
  modifiers : List Text
  binding : Option ForBinding
  location : Location
  source : Text
  deriving DecidableEq, Repr, Inhabited

/-- A property of an element. -/
inductive Property where
  | plain (a : Attribute)
  | directive (d : Directive)
  deriving DecidableEq, Repr, Inhabited

/-- The directive among the properties. -/
def Property.directive? : Property → Option Directive
  | plain _ => none
  | directive d => some d

/-- Whether an element stands for itself or only for its children. -/
inductive ElementKind where
  | ordinary
  /-- A `<template>` with a structural directive; it has no tag in the output. -/
  | container
  deriving DecidableEq, Repr, Inhabited

/-- An element without its children. -/
structure Element where
  tag : Text
  kind : ElementKind
  properties : List Property
  location : Location
  source : Text
  deriving DecidableEq, Repr, Inhabited

/-- A node without children. -/
structure Leaf where
  content : Text
  location : Location
  source : Text
  deriving DecidableEq, Repr, Inhabited

/-- A node of a template. -/
inductive Node where
  | element (head : Element) (children : List Node)
  | text (leaf : Leaf)
  | comment (leaf : Leaf)
  | interpolation (leaf : Leaf)
  deriving Repr, Inhabited

namespace Node

/-- The induction principle of nodes: a property holds of every node once it holds of the
nodes without children and an element inherits it from its children. -/
@[elab_as_elim]
theorem ind {P : Node → Prop} (element : ∀ e cs, (∀ c ∈ cs, P c) → P (.element e cs))
    (text : ∀ l, P (.text l)) (comment : ∀ l, P (.comment l))
    (interpolation : ∀ l, P (.interpolation l)) (n : Node) : P n :=
  Node.rec (motive_1 := P) (motive_2 := fun cs => ∀ c ∈ cs, P c)
    (fun e cs ih => element e cs ih) text comment interpolation
    (fun _ hc => absurd hc (by simp))
    (fun _ _ ihc ihcs d hd => by
      rcases List.mem_cons.mp hd with rfl | hd'
      · exact ihc
      · exact ihcs d hd')
    n

/-- The word for the kind of a node. -/
def kindName : Node → Text
  | element _ _ => "element"
  | text _ => "text"
  | comment _ => "comment"
  | interpolation _ => "interpolation"

/-- Where the node begins. -/
def location : Node → Location
  | element head _ => head.location
  | text leaf | comment leaf | interpolation leaf => leaf.location

/-- The text the node was read from. -/
def source : Node → Text
  | element head _ => head.source
  | text leaf | comment leaf | interpolation leaf => leaf.source

end Node

/-- The first directive with one of the names. -/
def Element.findDirective (e : Element) (names : List Text) : Option Directive :=
  e.properties.findSome? fun p => p.directive?.filter (·.name ∈ names)

end ComponentMigration.Markup
