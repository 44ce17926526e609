import ComponentMigration.Markup.Piece
import ComponentMigration.Markup.Whitespace

/-!
The tree of a template.

* **Open elements.** While the pieces are taken in order, a stack holds the
  elements that are open, the innermost first. `Forest` is that stack together
  with the finished root nodes.
* **Steps.** `Forest.step` takes one piece: a leaf goes to the innermost open
  element, a start tag opens an element, an end tag has to name the innermost
  open one and closes it. A void element and a closed tag have no children.
* **Result.** `parse` takes all pieces of a text. The first fault in the order of
  the text is the one reported.
-/

namespace ComponentMigration.Markup

/-- The tags of elements that never have children. -/
def voidTags : List Text := [
  "area", "base", "br", "col", "embed", "hr", "img", "input", "link", "meta", "source",
  "track", "wbr"]

/-- Whether the tag is that of a void element, in whatever case. -/
def isVoidTag (tag : Text) : Bool := voidTags.contains (tag.map Text.lowerLetter)

/-- The directives that make a `<template>` a container. -/
def structuralNames : List Text := ["if", "else-if", "else", "for", "slot"]

/-- The kind of an element. -/
def kindOf (tag : Text) (properties : List Property) : ElementKind :=
  if tag = "template".toList ∧
      properties.any (fun p => p.directive?.any (structuralNames.contains ·.name)) then .container
  else .ordinary

/-- An element whose end tag has not been read. The nodes and the texts read so
far stand in reverse order. -/
structure OpenElement where
  tag : Text
  properties : List Property
  location : Location
  sources : List Text
  nodes : List Node
  deriving Repr

namespace OpenElement

/-- The text read since the start of the element. -/
def source (e : OpenElement) : Text := e.sources.reverse.flatten

/-- The element with one more child. -/
def add (e : OpenElement) (source : Text) (node : Node) : OpenElement :=
  { e with sources := source :: e.sources, nodes := node :: e.nodes }

/-- The finished element. The whitespace of a `pre` stays as it is. -/
def close (e : OpenElement) : Node :=
  let children := e.nodes.reverse
  .element ⟨e.tag, kindOf e.tag e.properties, e.properties, e.location, e.source⟩
    (if e.tag = "pre".toList then children else condense children)

/-- What is wrong with an element that is still open at the end of the text. -/
def unclosed (e : OpenElement) : Diagnostic :=
  ⟨.missingEndTag e.tag, [], e.location, some (e.source.take Cursor.contextLength), []⟩

end OpenElement

/-- The finished root nodes in reverse order, and the open elements, the innermost
first. -/
structure Forest where
  roots : List Node
  stack : List OpenElement
  deriving Repr

namespace Forest

/-- Nothing read. -/
def empty : Forest := ⟨[], []⟩

/-- The forest with one more finished node. -/
def add (f : Forest) (source : Text) (node : Node) : Forest :=
  match f.stack with
  | [] => { f with roots := node :: f.roots }
  | e :: es => { f with stack := e.add source node :: es }

/-- A diagnostic at the start of a piece. -/
def diagnose (p : Piece) (cause : Cause) : Diagnostic :=
  ⟨cause, [], p.location, some ((p.source ++ p.rest).take Cursor.contextLength), []⟩

/-- The forest after one more piece. -/
def step (f : Forest) (p : Piece) : Except Diagnostic Forest :=
  match p.token with
  | .text content => .ok (f.add p.source (.text ⟨content, p.location, p.source⟩))
  | .comment content => .ok (f.add p.source (.comment ⟨content, p.location, p.source⟩))
  | .interpolation expression =>
      .ok (f.add p.source (.interpolation ⟨expression, p.location, p.source⟩))
  | .startTag tag properties isClosed =>
      let e : OpenElement := ⟨tag, properties, p.location, [p.source], []⟩
      if isClosed || isVoidTag tag then .ok (f.add p.source (.element
        ⟨tag, kindOf tag properties, properties, p.location, p.source⟩ []))
      else .ok { f with stack := e :: f.stack }
  | .endTag tag =>
      match f.stack with
      | [] => .error (diagnose p (.unexpectedEndTag tag))
      | e :: es =>
          if e.tag = tag then
            let e := { e with sources := p.source :: e.sources }
            .ok (Forest.add ⟨f.roots, es⟩ e.source e.close)
          else .error (diagnose p (.mismatchedEndTag tag e.tag))

/-- The root nodes once every piece has been taken. -/
def finish (f : Forest) : Except Diagnostic (List Node) :=
  match f.stack with
  | [] => .ok (condense f.roots.reverse)
  | e :: _ => .error e.unclosed

end Forest

/-- The root nodes of a template. -/
def parse (text : Text) : Except Diagnostic (List Node) := do
  let (ps, fault) := pieces (.ofText text)
  let forest ← ps.foldlM Forest.step .empty
  match fault with
  | some d => .error d
  | none => forest.finish

/-- The root nodes of the template of a file. -/
def parseFile (text file : Text) : Except Diagnostic (List Node) :=
  (parse text).mapError (·.inFile file)

end ComponentMigration.Markup
