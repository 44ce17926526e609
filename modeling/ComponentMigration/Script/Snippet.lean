import ComponentMigration.Diagnostic
import ComponentMigration.Script.Program
import ComponentMigration.Text.Blank

/-!
Expressions kept as text.

* **Reading.** `Snippet.read` checks that a text begins with an expression and keeps
  the whole text with the class of that expression.
* **Numbers.** `isNumber` tells a bare number, in parentheses or not.
-/

namespace ComponentMigration

/-- The text without white space around it, with the class of the expression that it
begins with. -/
def Snippet.read (text : Text) : Except ExpressionFault Snippet :=
  let code := Text.trim text
  if code = [] then .error .nothing
  else match Script.parseExpression? code true with
    | some t => .ok ⟨code, t.precedence⟩
    | none => .error (.unreadable code)

/-- Whether a text begins with a number, in parentheses or not, and with no larger
expression. -/
def isNumber (text : Text) : Bool :=
  match Script.parseExpression? (Text.trim text) false with
  | some t => t.withoutParentheses.form == .number
  | none => false

end ComponentMigration
