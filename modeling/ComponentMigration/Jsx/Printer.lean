import ComponentMigration.Jsx.Basic
import ComponentMigration.Text.Quoted

/-!
The printer of the output tree. Everything is printed on one line.

* **Text and literals.** `textMarkup` puts the four characters that JSX text
  cannot hold into string containers, `literalMarkup` chooses the quotes of a
  literal property, and `commentBody` breaks up every end of comment.
* **Operands.** `Expr.codeAt` puts parentheses around an operand that binds
  weaker than its place demands.
* **Positions.** `Node.markup` prints a node among markup, `Node.code` prints it
  among expressions.
-/

namespace ComponentMigration.Jsx

/-! ### Text, literals and comments -/

/-- One character of JSX text. -/
def charMarkup (c : Char) : Text :=
  if c = '{' ∨ c = '}' ∨ c = '<' ∨ c = '>' then ['{', '"', c, '"', '}'] else [c]

/-- A text among markup. -/
def textMarkup (t : Text) : Text := t.flatMap charMarkup

/-- The value of a literal property: between the quotes that do not occur in it,
or as a quoted text in braces when both do. -/
def literalMarkup (value : Text) : Text :=
  if '"' ∉ value then ['"'] ++ value ++ ['"']
  else if '\'' ∉ value then ['\''] ++ value ++ ['\'']
  else ['{'] ++ value.quoted ++ ['}']

/-- The content of a comment without any end of comment. -/
def commentBody : Text → Text
  | [] => []
  | [c] => [c]
  | c :: d :: t =>
      if c = '*' ∧ d = '/' then '*' :: ' ' :: '/' :: commentBody t
      else c :: commentBody (d :: t)

/-- The code in parentheses if they are needed. -/
def parenthesized (needed : Bool) (code : Text) : Text :=
  if needed then ['('] ++ code ++ [')'] else code

/-! ### Nodes and expressions -/

mutual

/-- A node among markup. -/
def Node.markup : Node → Text
  | .element tag properties children =>
      ['<'] ++ tag ++ Property.markupAll properties ++
        (if children.isEmpty then [' ', '/', '>']
        else ['>'] ++ Node.markupAll children ++ ['<', '/'] ++ tag ++ ['>'])
  | .fragment children => ['<', '>'] ++ Node.markupAll children ++ ['<', '/', '>']
  | .text content => textMarkup content
  | .expression (.comment content) => ['{', '/', '*'] ++ commentBody content ++ ['*', '/', '}']
  | .expression e => ['{'] ++ parenthesized (e.precedence < .assignment) e.code ++ ['}']

/-- Nodes among markup, in order. -/
def Node.markupAll : List Node → Text
  | [] => []
  | n :: ns => n.markup ++ Node.markupAll ns

/-- A property in a start tag. -/
def Property.markup : Property → Text
  | .flag name => name
  | .literal name value => name ++ ['='] ++ literalMarkup value
  | .dynamic name e =>
      name ++ ['=', '{'] ++ parenthesized (e.precedence < .assignment) e.code ++ ['}']

/-- The properties of a start tag, a space before each. -/
def Property.markupAll : List Property → Text
  | [] => []
  | p :: ps => [' '] ++ p.markup ++ Property.markupAll ps

/-- A node among expressions. -/
def Node.code : Node → Text
  | .element tag properties children =>
      ['<'] ++ tag ++ Property.markupAll properties ++
        (if children.isEmpty then [' ', '/', '>']
        else ['>'] ++ Node.markupAll children ++ ['<', '/'] ++ tag ++ ['>'])
  | .fragment children => ['<', '>'] ++ Node.markupAll children ++ ['<', '/', '>']
  | .text content => content.quoted
  | .expression e => parenthesized (e.precedence < .assignment) e.code

/-- An expression, without parentheses of its own. -/
def Expr.code : Expr → Text
  | .snippet s => s.code
  | .identifier name => name
  | .member object property =>
      parenthesized (object.precedence < .member) object.code ++ ['.'] ++ property
  | .call callee arguments =>
      parenthesized (callee.precedence < .member) callee.code ++
        ['('] ++ Text.join [',', ' '] (Expr.argumentCodes arguments) ++ [')']
  | .arrow params body =>
      ['('] ++ Text.join [',', ' '] params ++ [')', ' ', '=', '>', ' '] ++
        parenthesized (body.precedence < .assignment) body.code
  | .procedure params statements =>
      ['('] ++ Text.join [',', ' '] params ++ [')', ' ', '=', '>', ' ', '{', ' '] ++
        Text.join [' '] (Expr.statementCodes statements) ++ [' ', '}']
  | .conditional test consequent alternate =>
      parenthesized (test.precedence < .coalesce) test.code ++ [' ', '?', ' '] ++
        parenthesized (consequent.precedence < .assignment) consequent.code ++ [' ', ':', ' '] ++
        parenthesized (alternate.precedence < .assignment) alternate.code
  | .logicalAnd left right =>
      parenthesized (left.precedence < .logicalAnd) left.code ++ [' ', '&', '&', ' '] ++
        parenthesized (right.precedence < .binary) right.code
  | .assign target value =>
      target.code ++ [' ', '=', ' '] ++ parenthesized (value.precedence < .assignment) value.code
  | .jsx node => node.code
  | .comment content =>
      ['n', 'u', 'l', 'l', ' ', '/', '*'] ++ commentBody content ++ ['*', '/']

/-- The arguments of a call. -/
def Expr.argumentCodes : List Expr → List Text
  | [] => []
  | e :: es => parenthesized (e.precedence < .assignment) e.code :: Expr.argumentCodes es

/-- The statements of a function body, each with its semicolon. -/
def Expr.statementCodes : List Expr → List Text
  | [] => []
  | e :: es => (parenthesized (e.precedence < .sequence) e.code ++ [';']) :: Expr.statementCodes es

end

/-- An expression in a place that demands at least the class `least`. -/
def Expr.codeAt (e : Expr) (least : Precedence) : Text :=
  parenthesized (e.precedence < least) e.code

end ComponentMigration.Jsx
