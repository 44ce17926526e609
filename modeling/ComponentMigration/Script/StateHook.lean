import ComponentMigration.Options
import ComponentMigration.Script.Import

/-!
State variables and state hooks.

* **Variables.** A state variable is declared by a call of the imported function, as
  `x = ref(v)`. The declaration becomes `[x, setX] = useState(v)`.
* **Uses.** A read of `x.value` becomes `x`, and an assignment to it a call of the
  setter; what a compound assignment computes is written out.
* **Chains.** A setter has no value, so an assignment to a state variable whose value
  is such an assignment is refused.
-/

namespace ComponentMigration.Script

/-! ### Declarations -/

/-- A declaration of a state variable. -/
structure StateVariable where
  symbol : Symbol
  name : Text
  /-- The name where it is declared. -/
  nameSpan : Span
  /-- The function that is called. -/
  calleeSpan : Span
  deriving DecidableEq, Repr

/-- The name of the setter. -/
def StateVariable.setter (v : StateVariable) : Text := Naming.setterName v.name

/-- The state variable that a declarator declares, if the symbol is the function that
makes one. -/
def StateVariable.ofDeclarator? (primitive : Symbol) : Tree → Option StateVariable
  | .node .declarator _
      [.node .target _ (.node (.binding name _ (some symbol)) nameSpan [] :: _),
       .node .call _ (.node (.reference _ _ (some callee)) calleeSpan [] :: _)] =>
      if callee = primitive then some ⟨symbol, name, nameSpan, calleeSpan⟩ else none
  | _ => none

mutual

/-- The state variables that a tree declares. -/
def Tree.stateVariables (primitive : Symbol) : Tree → List StateVariable
  | .node f s ps =>
      (StateVariable.ofDeclarator? primitive (.node f s ps)).toList ++ stateVariablesOf primitive ps

/-- The state variables that several trees declare. -/
def stateVariablesOf (primitive : Symbol) : List Tree → List StateVariable
  | [] => []
  | t :: ts => t.stateVariables primitive ++ stateVariablesOf primitive ts

end

/-- The edits of a declaration. -/
def StateVariable.edits (v : StateVariable) (hook : Text) : List Edit := [
  ⟨v.nameSpan.start, v.nameSpan.stop, '[' :: v.name ++ ", " ++ v.setter ++ [']']⟩,
  ⟨v.calleeSpan.start, v.calleeSpan.stop, hook⟩]

/-! ### Uses -/

/-- The property of a state variable that holds its state. -/
def stateProperty : Text := "value"

/-- The state variable whose state an expression is. -/
def stateOf? (states : List StateVariable) : Tree → Option StateVariable
  | .node (.member property) _ [.node (.reference _ _ (some symbol)) _ []] =>
      if property = stateProperty then states.find? (·.symbol == symbol) else none
  | _ => none

/-- The binary operator of a compound assignment: the operator without the equals sign
at its end. -/
def computedOperator (operator : Text) : Text :=
  (operator.reverse.dropWhile (· == '=')).reverse

/-- What a call of a setter begins with in place of an assignment. -/
def setterStart (v : StateVariable) (operator : Text) : Text :=
  if operator = ['='] then v.setter ++ ['(']
  else v.setter ++ '(' :: v.name ++ ' ' :: computedOperator operator ++ " ("

/-- What a call of a setter ends with. -/
def setterEnd (operator : Text) : Text := if operator = ['='] then ")" else "))"

/-- The edits of an assignment to a state variable. -/
def assignmentEdits (v : StateVariable) (operator : Text) (span valueSpan : Span) : List Edit := [
  ⟨span.start, valueSpan.start, setterStart v operator⟩,
  ⟨valueSpan.stop, valueSpan.stop, setterEnd operator⟩]

mutual

/-- The edits of all uses of state variables in a tree. -/
def Tree.useEdits (states : List StateVariable) : Tree → List Edit
  | .node (.assignment operator) s [target, value] =>
      match stateOf? states target with
      | some v => assignmentEdits v operator s value.span ++ value.useEdits states
      | none => target.useEdits states ++ value.useEdits states
  | .node f s ps =>
      match stateOf? states (.node f s ps), ps with
      | some _, object :: _ => [⟨object.span.stop, s.stop, []⟩]
      | _, ps => useEditsOf states ps

/-- The edits of all uses of state variables in several trees. -/
def useEditsOf (states : List StateVariable) : List Tree → List Edit
  | [] => []
  | t :: ts => t.useEdits states ++ useEditsOf states ts

end

/-! ### Chained assignments -/

/-- Whether an expression, without its parentheses, is an assignment to a state
variable. -/
def isStateAssignment (states : List StateVariable) (t : Tree) : Bool :=
  match t.withoutParentheses with
  | .node (.assignment _) _ [target, _] => (stateOf? states target).isSome
  | _ => false

mutual

/-- The first assignment to a state variable whose value is such an assignment. -/
def Tree.chained? (states : List StateVariable) : Tree → Option Span
  | .node (.assignment _) s [target, value] =>
      match stateOf? states target with
      | some _ =>
          if isStateAssignment states value then some s else value.chained? states
      | none => (target.chained? states).or (value.chained? states)
  | .node f s ps =>
      if (stateOf? states (.node f s ps)).isSome then none else chainedIn? states ps

/-- The first such assignment in several trees. -/
def chainedIn? (states : List StateVariable) : List Tree → Option Span
  | [] => none
  | t :: ts => (t.chained? states).or (chainedIn? states ts)

end

/-! ### The pass -/

/-- A declaration that became a call of the hook. -/
structure HookedState where
  name : Text
  setter : Text
  line : UInt32
  deriving DecidableEq, Repr

/-- Edits and imports that have been asked for. -/
structure Progress where
  patch : Patch := {}
  requests : Requests := {}
  deriving DecidableEq, Repr

/-- The hint that goes with a chained assignment. -/
def chainHint : Text := "Split the chained assignment into separate statements."

/-- The diagnostic of a chained assignment. -/
def chainFailure (source : Text) (o : Options) (s : Span) : Failure :=
  match Location.ofOffset? source s.start, source.slice? s.start s.stop with
  | some location, some context =>
      .diagnosed ⟨.chainedAssignment, o.filePath, location, some context, [chainHint]⟩
  | _, _ => .insideCharacter

/-- The report of a state variable. -/
def StateVariable.report (source : Text) (v : StateVariable) : Except Failure HookedState :=
  match Location.ofOffset? source v.nameSpan.start with
  | some location => .ok ⟨v.name, v.setter, location.line⟩
  | none => .error .insideCharacter

/-- The state variables of a script. -/
def Program.stateVariables (p : Program) (o : Options) :
    Except Diagnostic (List StateVariable) := do
  match ← p.findImported o.sourceModule o.primitive with
  | none => return []
  | some primitive => return stateVariablesOf primitive.symbol p.body

/-- The edits of state variables and of all their uses in a script. -/
def Program.stateEdits (p : Program) (states : List StateVariable) (hook : Text) : List Edit :=
  states.flatMap (·.edits hook) ++ useEditsOf states p.body

/-- Moves the state variables of a script to hooks. The edits stay recorded when a
chained assignment is refused; the hook is then not asked for. -/
def Program.hookStates (p : Program) (source : Text) (o : Options) (progress : Progress) :
    Progress × Except Failure (List HookedState) :=
  match p.stateVariables o with
  | .error d => (progress, .error (.diagnosed d))
  | .ok [] => (progress, .ok [])
  | .ok states =>
      let edited := { progress with
        patch := ⟨progress.patch.edits ++ p.stateEdits states o.hook⟩ }
      match chainedIn? states p.body, states.mapM (·.report source) with
      | some s, .ok _ => (edited, .error (chainFailure source o s))
      | none, .ok hooked =>
          ({ edited with requests := edited.requests.require o.targetModule o.hook }, .ok hooked)
      | _, .error f => (edited, .error f)

end ComponentMigration.Script
