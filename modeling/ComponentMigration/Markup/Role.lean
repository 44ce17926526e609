import ComponentMigration.Diagnostic
import ComponentMigration.Markup.Basic

/-!
The role of each property of an element.

* **Roles.** A property is plain, binds an attribute, listens to an event, binds a
  model, shows the element, or controls whether and how often it stands.
* **Refusals.** `Role.ofProperty` refuses a directive that it does not know, and a
  modifier or a dynamic argument on any directive but the controlling ones.
* **Rivals.** `Role.ofProperties` keeps the order of the properties and allows one
  conditional directive on an element.
-/

namespace ComponentMigration.Markup

/-- How a directive controls its element. -/
inductive Control where
  /-- `v-if`. -/
  | when
  /-- `v-else-if`. -/
  | elseWhen
  /-- `v-else`. -/
  | otherwise
  /-- `v-for`. -/
  | each
  deriving DecidableEq, Repr

namespace Control

/-- The controlling directive of a name. -/
def ofName? (name : Text) : Option Control :=
  if name = "if".toList then some when
  else if name = "else-if".toList then some elseWhen
  else if name = "else".toList then some otherwise
  else if name = "for".toList then some each
  else none

/-- Whether the control is a branch of a chain. -/
def isConditional : Control → Bool
  | when | elseWhen | otherwise => true
  | each => false

end Control

/-- What a property is for. -/
inductive Role where
  | plain (a : Attribute)
  | bind (argument : Text) (d : Directive)
  | listen (event : Text) (d : Directive)
  | model (d : Directive)
  | show (d : Directive)
  | control (c : Control) (d : Directive)
  deriving DecidableEq, Repr

/-- A diagnostic about a directive. -/
def Directive.diagnose (d : Directive) (cause : Cause) : Diagnostic :=
  .atSource cause d.location d.source

namespace Role

/-- The hint that goes with an unknown directive. -/
def supportedHint : Text :=
  "Supported directives: v-bind, v-on, v-model, v-show, v-if, v-else-if, v-else, v-for."

/-- The role of a directive that does not control its element. -/
def ofBinding (d : Directive) : Except Diagnostic Role :=
  if d.modifiers ≠ [] then .error (d.diagnose (.modifiers d.modifiers))
  else if d.isDynamic then .error (d.diagnose .dynamicArgument)
  else if d.name = "bind".toList then
    match d.argument with
    | none => .error (d.diagnose .bindWithoutArgument)
    | some argument =>
        if argument = "is".toList then .error (d.diagnose .dynamicComponent)
        else .ok (.bind argument d)
  else if d.name = "on".toList then
    match d.argument with
    | none => .error (d.diagnose .onWithoutArgument)
    | some event => .ok (.listen event d)
  else if d.name = "model".toList then .ok (.model d)
  else if d.name = "show".toList then .ok (.show d)
  else .error ((d.diagnose (.unknownDirective d.name)).withHint supportedHint)

/-- The role of a property. -/
def ofProperty : Property → Except Diagnostic Role
  | .plain a => .ok (.plain a)
  | .directive d =>
      match Control.ofName? d.name with
      | some c => .ok (.control c d)
      | none => ofBinding d

/-- The directive of a role that is a branch of a chain. -/
def conditional? : Role → Option Directive
  | control c d => if c.isConditional then some d else none
  | _ => none

/-- The roles of all properties, in order. -/
def ofProperties (properties : List Property) : Except Diagnostic (List Role) := do
  let roles ← properties.mapM ofProperty
  match roles.filterMap conditional? with
  | first :: second :: _ =>
      .error (second.diagnose (.rivalBranches first.name second.name))
  | _ => .ok roles

end Role

/-! ### Controlling directives of an element -/

/-- The first conditional directive of an element. -/
def Element.conditional? (e : Element) : Option (Control × Directive) :=
  (e.findDirective ["if", "else-if", "else"]).bind fun d =>
    (Control.ofName? d.name).map fun c => (c, d)

/-- The first directive of an element that continues a chain. -/
def Element.continuation? (e : Element) : Option (Control × Directive) :=
  (e.findDirective ["else-if", "else"]).bind fun d =>
    (Control.ofName? d.name).map fun c => (c, d)

/-- The first loop directive of an element. -/
def Element.loop? (e : Element) : Option Directive := e.findDirective ["for"]

end ComponentMigration.Markup
