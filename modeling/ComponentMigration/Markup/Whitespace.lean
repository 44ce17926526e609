import ComponentMigration.Markup.Basic
import ComponentMigration.Text.Blank

/-!
Condensing the whitespace of a sibling list.

* **Blank texts.** A blank text goes at either end of the list, between two
  comments, between a comment and an element, and between two elements if it
  holds a line break; elsewhere it becomes one space.
* **Other texts.** Every run of spaces, tabs, line breaks and form feeds becomes
  one space.
* **Neighbours.** What counts is the neighbour in the list as it was read, not
  the one that is left.
-/

namespace ComponentMigration.Markup

/-- A character of a run that is condensed. -/
def isSpacing (c : Char) : Bool :=
  c == '\t' || c == '\r' || c == '\n' || c == '\x0c' || c == ' '

/-- The text with every run of spacing replaced by one space. -/
def condenseSpacing : Text → Text
  | [] => []
  | [c] => if isSpacing c then [' '] else [c]
  | c :: d :: t =>
      if isSpacing c then
        if isSpacing d then condenseSpacing (d :: t) else ' ' :: condenseSpacing (d :: t)
      else c :: condenseSpacing (d :: t)

/-- Whether a blank text goes between these neighbours. -/
def isDroppedBetween (content : Text) : Option Node → Option Node → Bool
  | none, _ | _, none => true
  | some (.comment _), some (.comment _) => true
  | some (.comment _), some (.element _ _) => true
  | some (.element _ _), some (.comment _) => true
  | some (.element _ _), some (.element _ _) => content.any fun c => c == '\n' || c == '\r'
  | _, _ => false

/-- What is left of a node between its neighbours. -/
def condenseNode (before : Option Node) (node : Node) (after : Option Node) : Option Node :=
  match node with
  | .text leaf =>
      if Text.isBlankText leaf.content then
        if isDroppedBetween leaf.content before after then none
        else some (.text { leaf with content := [' '] })
      else some (.text { leaf with content := condenseSpacing leaf.content })
  | _ => some node

/-- The nodes that follow `before`, condensed. -/
def condenseAfter (before : Option Node) : List Node → List Node
  | [] => []
  | node :: nodes =>
      match condenseNode before node nodes.head? with
      | some kept => kept :: condenseAfter (some node) nodes
      | none => condenseAfter (some node) nodes

/-- A sibling list with its whitespace condensed. -/
def condense (nodes : List Node) : List Node := condenseAfter none nodes

end ComponentMigration.Markup
