import ComponentMigration.Script.Grammar.Markup
import ComponentMigration.Script.Grammar.Statement

/-!
Reading scripts and expressions.

* **The grammar.** `rule` joins the parts of the grammar; `grammar` ties them together.
  Between two tokens the grammar nests at most `depthPerToken` deep, so a depth in
  proportion to the length of the text suffices.
* **Scripts.** `Program.parse?` reads a whole script, statement by statement. What a statement
  is depends on the text from its first token on only: `Program.statement?` counts offsets from
  there, and `Tree.shift` moves them to their place. A text that was only read past a fault is
  refused.
* **Expressions.** `parseExpression?` reads the longest expression at the head of a
  text, and one token more.
-/

namespace ComponentMigration.Script

open Script.Parser

/-! ### The grammar -/

/-- What is nested, read by the part of the grammar for it. -/
def rule (self : Grammar) : Goal → Parser Tree
  | .expression => Grammar.expression self
  | .assignment allowsReturnType => Grammar.assignment self allowsReturnType
  | .operand least => Grammar.operand self least
  | .unary => Grammar.unary self
  | .updated => Grammar.chain self
  | .constructed => Grammar.accesses self
  | .type => Grammar.type self
  | .operatorType => Grammar.operatorType self
  | .pattern binder => Grammar.pattern self binder
  | .statement => Grammar.statement self
  | .element inMarkup => Grammar.element self inMarkup

/-- The grammar up to a depth of nesting. -/
def grammar : Nat → Grammar
  | 0, _ => failure
  | n + 1, goal => rule (grammar n) goal

/-- How deep the grammar nests between two tokens at most. -/
def depthPerToken : Nat := 16

/-- The depth of nesting that suffices for a text. -/
def depthFor (text : Text) : Nat := depthPerToken * (text.length + 1)

mutual

/-- Whether an object has a shorthand property with a default, which only a pattern
may have. -/
def hasDefault : Tree → Bool
  | .node .initialized _ _ => true
  | .node _ _ ps => anyHasDefault ps

/-- Whether a tree of the list has such a property. -/
def anyHasDefault : List Tree → Bool
  | [] => false
  | t :: ts => hasDefault t || anyHasDefault ts

end

/-- The tree, unless the text was read past a fault. -/
def accept? (t : Tree) (s : State) : Option Tree :=
  if s.isFlawed || hasDefault t then none else some t

/-! ### Scripts and expressions -/

mutual

/-- The tree behind some bytes more. -/
def Tree.shift (offset : Nat) : Tree → Tree
  | .node f s ps => .node f ⟨offset + s.start, offset + s.stop⟩ (shiftAll offset ps)

/-- The trees behind some bytes more. -/
def shiftAll (offset : Nat) : List Tree → List Tree
  | [] => []
  | t :: ts => t.shift offset :: shiftAll offset ts

end

/-- A script: its statements. -/
structure Program where
  body : List Tree
  deriving Repr

namespace Program

/-- The script as one region of names. -/
def tree (p : Program) : Tree := .node (.scope true) ⟨0, 0⟩ p.body

/-- The statement at the head of a text, with offsets counted from there, and the text from the
token behind it on. -/
def statement? (text : Text) : Option (Tree × Text) :=
  let s := State.first [] text true
  if s.isFlawed then none
  else match grammar (depthFor text) .statement s with
    | some (t, s') => (accept? t s').map fun t => (t, s'.here)
    | none => none

/-- The statements of a text at the end of a script of `size` bytes; at most `n` of them. -/
def statements? (size : Nat) : Nat → Text → Option (List Tree)
  | _, [] => some []
  | 0, _ :: _ => none
  | n + 1, text => do
      let (t, rest) ← statement? text
      let ts ← statements? size n rest
      return t.shift (size - Text.byteLength text) :: ts

/-- The script that a text is. -/
def parse? (text : Text) : Option Program :=
  let s := State.ofText text true
  if s.isFlawed then none
  else (statements? (Text.byteLength text) text.length s.here).map (⟨·⟩)

end Program

/-- The longest expression at the head of a text. -/
def parseExpression? (text : Text) (hasMarkup : Bool) : Option Tree :=
  match grammar (depthFor text) .expression (State.ofText text hasMarkup) with
  | some (t, s) => accept? t s
  | none => none

end ComponentMigration.Script
