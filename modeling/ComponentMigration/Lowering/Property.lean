import ComponentMigration.Jsx.Basic
import ComponentMigration.Markup.Role
import ComponentMigration.Naming
import ComponentMigration.Script.Snippet
import ComponentMigration.Text.Alphanumeric

/-!
Lowering properties.

* **Expressions.** The value of a directive has to be an expression;
  `Directive.snippet` reads it and reports it where the directive stands.
* **Properties.** A plain property keeps its name and its value, a binding its name,
  a listener gets the name of its event prop. `v-show` and the controlling directives
  have no property.
* **Models.** A model is a property with the bound value and a callback that assigns
  to it. The parameter of the callback is no word of the bound expression.
-/

namespace ComponentMigration

/-! ### Expressions of directives -/

/-- A text of a directive as an expression. -/
def Markup.Directive.snippetOf (d : Markup.Directive) (text : Text) :
    Except Diagnostic Snippet :=
  (Snippet.read text).mapError fun fault => d.diagnose (.invalidExpression fault)

/-- The value of a directive as an expression; a missing value counts as empty. -/
def Markup.Directive.snippet (d : Markup.Directive) : Except Diagnostic Snippet :=
  d.snippetOf (d.expression.getD [])

namespace Lowering

/-! ### Models -/

/-- A character of a word in an expression. -/
def isPartOfWord (c : Char) : Bool := Text.isAlphanumeric c || c == '_' || c == '$'

/-- The words of an expression, with empty ones between other characters. -/
def words : Text → List Text
  | [] => [[]]
  | c :: t =>
      if isPartOfWord c then
        match words t with
        | w :: ws => (c :: w) :: ws
        | [] => [[c]]
      else [] :: words t

/-- The property that a model without an argument binds. -/
def defaultModel : Text := "modelValue"

/-- The name of the property that a model binds. -/
def modelName (d : Markup.Directive) : Text := d.argument.getD defaultModel

/-- The parameter of the callback of a model: the name of its property if that is an
identifier, with an underscore in front if the bound expression has that word. -/
def modelParameter (name code : Text) : Text :=
  let camel := Naming.camelize name
  let param := if Naming.isIdentifier camel then camel else "value"
  if (words code).contains param then '_' :: param else param

/-- The name of the property that takes the callback of a model. -/
def modelCallbackName (name : Text) : Text := Naming.camelize ("onUpdate:" ++ name)

/-- The properties of a model. The bound expression has to be one that a value can be
assigned to. -/
def modelProperties (d : Markup.Directive) : Except Diagnostic (List Jsx.Property) := do
  let name := modelName d
  let value ← d.snippet
  let param := modelParameter name value.code
  let _ ← d.snippetOf (value.code ++ " = " ++ param)
  let callback : Jsx.Expr := .procedure [param] [.assign value (.identifier param)]
  return [.dynamic name (.snippet value), .dynamic (modelCallbackName name) callback]

/-! ### Properties -/

/-- The properties that a role becomes. A binding without a value is bound to the name
that its argument stands for. -/
def propertiesOf : Markup.Role → Except Diagnostic (List Jsx.Property)
  | .plain a => .ok [match a.value with
      | none => .flag a.name
      | some v => .literal a.name v]
  | .bind argument d => do
      let value ← d.snippetOf (d.expression.getD (Naming.camelize argument))
      return [.dynamic argument (.snippet value)]
  | .listen event d => do
      let handler ← d.snippet
      return [.dynamic (Naming.eventPropName event) (.snippet handler)]
  | .model d => modelProperties d
  | .show _ | .control _ _ => .ok []

/-- The properties of an element. -/
def properties (e : Markup.Element) : Except Diagnostic (List Jsx.Property) := do
  let roles ← Markup.Role.ofProperties e.properties
  return (← roles.mapM propertiesOf).flatten

end Lowering

end ComponentMigration
