import ComponentMigration.Precedence

/-!
The output tree: JSX markup and the expressions around it.

* **Nodes.** A `Jsx.Node` is an element, a fragment, a text or an expression in
  markup position. A `Jsx.Property` is a bare name, a name with a literal value
  or a name with an expression.
* **Expressions.** `Jsx.Expr` has the forms that a template is lowered to. Text
  taken over from the template is a `Snippet`.
* **Views.** `toExpr` reads a node as an expression, and `Expr.precedence` is the
  class of an expression's own form.
-/

namespace ComponentMigration.Jsx

mutual

/-- A node of the output. -/
inductive Node where
  | element (tag : Text) (properties : List Property) (children : List Node)
  | fragment (children : List Node)
  | text (content : Text)
  | expression (expr : Expr)

/-- A property of an element. -/
inductive Property where
  | flag (name : Text)
  | literal (name value : Text)
  | dynamic (name : Text) (value : Expr)

/-- An expression of the output. -/
inductive Expr where
  /-- Text taken over as it is. -/
  | snippet (s : Snippet)
  | identifier (name : Text)
  | member (object : Expr) (property : Text)
  | call (callee : Expr) (arguments : List Expr)
  /-- An arrow function whose body is an expression. -/
  | arrow (params : List Text) (body : Expr)
  /-- An arrow function whose body is a list of statements. -/
  | procedure (params : List Text) (statements : List Expr)
  | conditional (test consequent alternate : Expr)
  | logicalAnd (left right : Expr)
  | assign (target : Snippet) (value : Expr)
  /-- Markup in expression position. -/
  | jsx (node : Node)
  /-- A comment, which has no value. -/
  | comment (content : Text)

end

/-- The node read as an expression: an expression in markup position is itself. -/
def Node.toExpr : Node → Expr
  | .expression e => e
  | n => .jsx n

/-- The class of an expression. -/
def Expr.precedence : Expr → Precedence
  | .snippet s => s.precedence
  | .arrow _ _ | .procedure _ _ | .assign _ _ => .assignment
  | .conditional _ _ _ => .conditional
  | .logicalAnd _ _ => .logicalAnd
  | .identifier _ | .member _ _ | .call _ _ | .jsx _ | .comment _ => .member

/-- The name of a property. -/
def Property.name : Property → Text
  | .flag name | .literal name _ | .dynamic name _ => name

end ComponentMigration.Jsx
