import ComponentMigration.Script.Parser

/-!
Patterns, parameters and assignment targets.

* **Patterns.** A pattern is a name, or an array or object of patterns with
  defaults. `pattern` reads one, `parameters` a parameter list.
* **Property names.** `propertyName` reads the name of a property; only a computed
  name has a part of its own.
* **Targets.** An array or an object on the left of `=` was read as an expression.
  `toTarget?` reads its tree as a pattern, in which an inner assignment is a
  default and no assignment.
-/

namespace ComponentMigration.Script.Grammar

open Script.Parser

variable (self : Grammar)

/-- The type behind a colon, if one stands here. -/
def statedType? : Parser (List Tree) := do
  if ← eat ":" then return [← self .type] else return []

/-- The value behind an equals sign, if one stands here. -/
def initializer? : Parser (List Tree) := do
  if ← eat "=" then
    return [← within (fun c => { c with allowsIn := true }) (self (.assignment true))]
  else return []

/-- The parts of a property's name, and whether the name is an identifier or another
word. -/
def propertyName : Parser (List Tree × Bool) := do
  match ← token with
  | .word _ _ => advance; return ([], true)
  | .string _ | .number _ | .privateWord _ => advance; return ([], false)
  | _ =>
      expect "["
      let key ← within (fun c => { c with allowsIn := true }) (self (.assignment true))
      expect "]"
      return ([key], false)

/-- Whether a word here modifies the member that follows; it may end a line only
if `acrossLines`. -/
def isModifier (w : Text) (acrossLines : Bool) : Parser Bool := do
  if ← isAtWord w then ahead do
    advance
    let isMember ← match ← token with
      | .word _ _ | .string _ | .number _ | .privateWord _ => pure true
      | _ => isAtAny ["[", "*"]
    return isMember && (acrossLines || !(← isFresh))
  else return false

/-! ### Patterns -/

/-- A pattern with a default if one stands here. -/
def patternWithDefault (binder : Binder) : Parser Tree := do
  let start ← place
  let p ← self (.pattern binder)
  match ← initializer? self with
  | [] => return p
  | value => node .other start (p :: value)

/-- The last element of a pattern, behind three dots. -/
def restPattern (binder : Binder) : Parser Tree := do
  let start ← place
  expect "..."
  let p ← self (.pattern binder)
  node .other start [p]

/-- A property of an object pattern. -/
def propertyPattern (binder : Binder) : Parser Tree := do
  let start ← place
  let s ← get
  let isShorthand ← ahead do
    let _ ← identifier
    return !(← isAt ":")
  if isShorthand then
    set s
    let p ← bindingName binder
    let value ← initializer? self
    node .other start (p :: value)
  else
    let (key, _) ← propertyName self
    expect ":"
    let value ← patternWithDefault self binder
    node .other start (key ++ [value])

/-- A pattern. -/
def pattern (binder : Binder) : Parser Tree := do
  let start ← place
  if ← eat "[" then
    let elements ← repeatWhile (fun (elements : List Tree) => do
      if ← isAt "]" then return none
      if ← eat "," then return some elements
      let element ← if ← isAt "..." then do
          let r ← restPattern self binder
          require (← isAt "]")
          pure r
        else patternWithDefault self binder
      unless ← isAt "]" do expect ","
      return some (element :: elements)) []
    expect "]"
    node .other start elements.reverse
  else if ← eat "\x7b" then
    let (properties, _) ← separated "\x7d" "," do
      if ← isAt "..." then
        let r ← restPattern self binder
        require (← isAt "\x7d")
        return r
      else propertyPattern self binder
    expect "\x7d"
    node .other start properties
  else bindingName binder

/-! ### Parameters -/

/-- The words that may stand in front of a parameter. -/
def parameterModifiers : List Text := ["public", "private", "protected", "readonly", "override"]

/-- The decorators that stand here. -/
def decorators : Parser (List Tree) := do
  let found ← repeatWhile (fun (found : List Tree) => do
    if ← eat "@" then
      let e ← within (fun c => { c with isDecorator := true }) (self .updated)
      return some (e :: found)
    else return none) []
  return found.reverse

/-- Passes the modifiers in front of a parameter. -/
def passParameterModifiers : Parser Unit := do
  let _ ← repeatWhile (fun () => do
    let isModifier ← if ← isAtAnyWord parameterModifiers then ahead do
        advance
        return (← isAtName) || (← isAtAny ["\x7b", "["])
      else pure false
    if isModifier then advance; return some () else return none) ()

/-- A parameter. -/
def parameter : Parser Tree := do
  let start ← place
  let marks ← decorators self
  passParameterModifiers
  let parts ← if ← eatWord "this" then statedType? self
    else do
      let isRest ← eat "..."
      let p ← self (.pattern .value)
      let isOptional ← eat "?"
      flawIf (isRest && isOptional)
      let stated ← statedType? self
      let value ← initializer? self
      flawIf (isRest && !value.isEmpty)
      if isRest then require (← isAt ")")
      pure (p :: (stated ++ value))
  node .other start (marks ++ parts)

/-- A parameter list with its parentheses. -/
def parameters : Parser (List Tree) := do
  expect "("
  let (ps, _) ← within (fun c => { c with allowsIn := true, isDecorator := false })
    (separated ")" "," (parameter self))
  expect ")"
  return ps

/-! ### Targets of assignments -/

/-- The expression inside all parentheses, assertions and type arguments around it. -/
def innermost : Tree → Tree
  | .node .parentheses _ (e :: _) => innermost e
  | .node .cast _ (e :: _) => innermost e
  | .node .nonNull _ (e :: _) => innermost e
  | .node .instantiated _ (e :: _) => innermost e
  | t => t

/-- Whether the expression is a name or an access to a property. -/
def isPlace (t : Tree) : Bool :=
  match t.form with
  | .reference _ _ _ | .member _ | .access => true
  | _ => false

/-- The expression as the target of an assignment with any operator. The parentheses
around a target are not part of it. -/
def toPlace? : Tree → Option Tree
  | .node .parentheses _ (e :: _) => toPlace? e
  | t =>
      match t.form with
      | .reference _ _ _ | .member _ | .access => some t
      | .cast | .nonNull => if isPlace (innermost t) then some t else none
      | _ => none

mutual

/-- The expression as the target of an assignment. -/
def toTarget? : Tree → Option Tree
  | .node .array s ps => (elementTargets? ps).map (.node .other s ·)
  | .node .object s ps => (propertyTargets? ps).map (.node .other s ·)
  | .node f s ps => toPlace? (.node f s ps)

/-- The expression as an element of a pattern: a target, or one with a default. -/
def toElementTarget? : Tree → Option Tree
  | .node (.assignment ['=']) s ps => some (.node .other s ps)
  | .node (.assignment _) _ _ => none
  | .node .array s ps => (elementTargets? ps).map (.node .other s ·)
  | .node .object s ps => (propertyTargets? ps).map (.node .other s ·)
  | .node f s ps => toPlace? (.node f s ps)

/-- The elements of an array as elements of a pattern. -/
def elementTargets? : List Tree → Option (List Tree)
  | [] => some []
  | .node .spread s [e] :: rest =>
      match rest with
      | [] => (toTarget? e).map fun e => [.node .other s [e]]
      | _ => none
  | e :: rest =>
      if e.form = .hole then (elementTargets? rest).map (e :: ·)
      else match toElementTarget? e, elementTargets? rest with
        | some e, some rest => some (e :: rest)
        | _, _ => none

/-- The properties of an object as properties of a pattern. -/
def propertyTargets? : List Tree → Option (List Tree)
  | [] => some []
  | .node .spread s [e] :: rest =>
      match rest with
      | [] => (toTarget? e).map fun e => [.node .other s [e]]
      | _ => none
  | .node .property s [value] :: rest =>
      match toElementTarget? value, propertyTargets? rest with
      | some value, some rest => some (.node .other s [value] :: rest)
      | _, _ => none
  | .node .property s [key, value] :: rest =>
      match toElementTarget? value, propertyTargets? rest with
      | some value, some rest => some (.node .other s [key, value] :: rest)
      | _, _ => none
  | .node .shorthand s ps :: rest => (propertyTargets? rest).map (.node .other s ps :: ·)
  | .node .initialized s ps :: rest => (propertyTargets? rest).map (.node .other s ps :: ·)
  | _ :: _ => none

end

end ComponentMigration.Script.Grammar
