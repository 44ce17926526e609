import ComponentMigration.Script.Grammar.Operator

/-!
Arrow functions, assignments and sequences.

* **Arrow functions.** A parenthesis may open parameters or a group.
  `arrowLikelihood` tells from the first tokens where that is possible; what is only
  possible is tried.
* **Return types.** Between `?` and `:` an arrow function has a return type only if a
  colon follows its body as well.
* **Assignments.** The left of an assignment is read as an expression and then as a
  target.
-/

namespace ComponentMigration.Script.Grammar

open Script.Parser

variable (self : Grammar)

/-! ### Arrow functions -/

/-- How likely an arrow function is. -/
inductive Likelihood where
  | excluded
  | possible
  | certain
  deriving DecidableEq

/-- The words that, in front of a name, only occur among parameters. -/
def parameterWords : List Text := List.map String.toList [
  "abstract", "accessor", "const", "declare", "export", "in", "out", "override", "private",
  "protected", "public", "readonly", "static"]

/-- How likely the parenthesis here opens parameters. -/
def parameterLikelihood : Parser Likelihood := do
  advance
  if ← eat ")" then
    return if ← isAtAny ["=>", ":", "\x7b"] then .certain else .excluded
  if ← isAtAny ["[", "\x7b"] then return .possible
  if ← isAt "..." then return .certain
  let isModifier ← isAtAnyWord parameterWords
  let isParameter := (← isAtIdentifier) || (← isAtWord "this")
  advance
  if isModifier && (← isAtIdentifier) then
    return if ← isAtWord "as" then .excluded else .certain
  if !isParameter then return .excluded
  if ← isAt ":" then return .certain
  if ← eat "?" then
    return if ← isAtAny [":", ",", "=", ")"] then .certain else .excluded
  return if ← isAtAny [",", "=", ")"] then .possible else .excluded

/-- How likely the angle bracket here opens type parameters. -/
def typeParameterLikelihood : Parser Likelihood := do
  advance
  if !((← isAtIdentifier) || (← isAtWord "const")) then return .excluded
  if !(← get).hasMarkup then return .possible
  let _ ← eatWord "const"
  advance
  if ← eatWord "extends" then
    return if ← isAtAny ["=", ">", "/"] then .excluded else .certain
  return if ← isAtAny [",", "="] then .certain else .excluded

/-- How likely an arrow function with parentheses begins here. -/
def arrowLikelihood : Parser Likelihood := do
  let s ← get
  let hasWord ← eatWord "async"
  let found ← if hasWord && (← isFresh) then pure .excluded
    else if ← isAt "(" then parameterLikelihood
    else if ← isAt "<" then typeParameterLikelihood
    else pure .excluded
  set s
  return found

/-- What an arrow function has in front of its body: its parts, whether it is
asynchronous, and whether it has a return type. -/
structure ArrowHead where
  parts : List Tree
  isAsync : Bool
  hasReturnType : Bool

/-- The arrow, on the line of what is in front of it. -/
def arrow : Parser Unit := do
  flawIf (← isFresh)
  expect "=>"

/-- What an arrow function with parentheses has in front of its body. -/
def arrowHead : Parser ArrowHead := do
  let isAsync ← eatWord "async"
  let (parts, result) ← within (fun c => { c with allowsAwait := c.allowsAwait || isAsync }) do
    let types ← typeParameters? self
    let ps ← parameters self
    let result ← returnType? self
    return (types ++ ps, result)
  arrow
  return ⟨parts ++ result, isAsync, !result.isEmpty⟩

/-- The body of an arrow function: a block or an expression. -/
def arrowBody (isAsync allowsReturnType : Bool) : Parser (List Tree) := do
  if ← isAt "\x7b" then within (Context.inFunction isAsync false) (block self)
  else
    let e ← within (fun c => { c with allowsAwait := isAsync, allowsYield := false })
      (self (.assignment allowsReturnType))
    return [e]

/-- The node of an arrow function. -/
def arrowNode (start : Nat) (parts body : List Tree) : Parser Tree := do
  let inner ← node (.scope true) start (parts ++ body)
  node (.expression .assignment) start [inner]

/-- An arrow function with parentheses. -/
def arrowFunction (allowsReturnType : Bool) : Parser (Tree × Bool) := do
  let start ← place
  let head ← arrowHead self
  let body ← arrowBody self head.isAsync allowsReturnType
  return (← arrowNode start head.parts body, head.hasReturnType)

/-- An arrow function with parentheses, if one begins here. -/
def arrowFunction? (allowsReturnType : Bool) : Parser (Option Tree) := do
  match ← arrowLikelihood with
  | .excluded => return none
  | .certain => return some (← arrowFunction self true).1
  | .possible => attempt do
      let (t, hasReturnType) ← arrowFunction self allowsReturnType
      require (allowsReturnType || !hasReturnType || (← isAt ":"))
      return t

/-- Whether an asynchronous arrow function without parentheses begins here. -/
def startsAsyncArrow : Parser Bool := do
  if ← isAtWord "async" then ahead do
    advance
    require ((← isAtIdentifier) && !(← isFresh))
    advance
    return (← isAt "=>") && !(← isFresh)
  else return false

/-- An arrow function behind its only parameter, which has no parentheses. -/
def simpleArrow (start : Nat) (parameter : Tree) (isAsync allowsReturnType : Bool) :
    Parser Tree := do
  arrow
  let body ← arrowBody self isAsync allowsReturnType
  arrowNode start [parameter] body

/-! ### Assignments and sequences -/

/-- Whether the word `yield` stands here as an operator. -/
def startsYield : Parser Bool := do
  if ← isAtWord "yield" then
    if (← get).context.allowsYield then return true else isFollowedByOperand
  else return false

/-- A value that a generator hands out. -/
def yieldExpression : Parser Tree := do
  let start ← place
  flawIf (!(← get).context.allowsYield)
  advance
  let parts ← if ← isFresh then pure [] else do
    let isDelegate ← eat "*"
    let isAlone := (← isAtAny [";", "\x7d", ")", "]", ":", ","]) || (← isAtEnd) ||
      (← isAtWord "in")
    if isAlone && !isDelegate then pure []
    else pure [← within (fun c => { c with allowsYield := true }) (self (.assignment true))]
  node (.expression .assignment) start parts

/-- The operators of assignments. -/
def assignmentOperators : List Text := List.map String.toList [
  "=", "+=", "-=", "*=", "/=", "%=", "**=", "<<=", ">>=", ">>>=", "&=", "|=", "^=", "&&=",
  "||=", "??="]

/-- What follows the left of an assignment at its operator. -/
def assignTo (start : Nat) (left : Tree) (operator : Text) (allowsReturnType : Bool) :
    Parser Tree := do
  match if operator == "=".toList then toTarget? left else toPlace? left with
  | none => failure
  | some target =>
      advance
      let value ← self (.assignment allowsReturnType)
      node (.assignment operator) start [target, value]

/-- An assignment, or a choice, that begins with this operand. -/
def assignmentFrom (start : Nat) (left : Tree) (allowsReturnType : Bool) : Parser Tree := do
  match left, ← token with
  | .node (.reference w _ _) s _, .punctuator ['=', '>'] =>
      simpleArrow self start (.node (.binding w .value none) s []) false allowsReturnType
  | left, .punctuator p =>
      if assignmentOperators.contains p then assignTo self start left p allowsReturnType
      else conditional self start left allowsReturnType
  | left, _ => conditional self start left allowsReturnType

/-- An expression without a comma. -/
def assignment (allowsReturnType : Bool) : Parser Tree := do
  let start ← place
  if ← startsYield then yieldExpression self
  else match ← arrowFunction? self allowsReturnType with
    | some t => return t
    | none =>
        if ← startsAsyncArrow then
          advance
          let parameter ← bindingName .value
          simpleArrow self start parameter true allowsReturnType
        else
          let left ← operand self 0
          assignmentFrom self start left allowsReturnType

/-- An expression. -/
def expression : Parser Tree := do
  let start ← place
  within (fun c => { c with isDecorator := false }) do
    let first ← assignment self true
    let found ← repeatWhile (fun (found : List Tree) => do
      if ← eat "," then return some ((← self (.assignment true)) :: found) else return none)
      [first]
    match found with
    | [e] => return e
    | found => node (.expression .sequence) start found.reverse

end ComponentMigration.Script.Grammar
