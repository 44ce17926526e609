import ComponentMigration.Script.Grammar.Type

/-!
Functions and classes.

* **Functions.** The parameters and the body of a function share one scope. The
  name of a declaration belongs to the scope around it, the name of an expression
  to its own.
* **Classes.** The members of a class share a scope, and each method has its own.
-/

namespace ComponentMigration.Script.Grammar

open Script.Parser

variable (self : Grammar)

/-! ### Functions -/

/-- The context inside a function. -/
def Context.inFunction (isAsync isGenerator : Bool) (c : Context) : Context :=
  { c with
    allowsIn := true, allowsAwait := isAsync, allowsYield := isGenerator, allowsReturn := true,
    isDecorator := false, allowsConditional := true }

/-- Statements between braces. -/
def block : Parser (List Tree) := do
  expect "\x7b"
  let statements ← sequenceUntil "\x7d" (return [← self .statement])
  expect "\x7d"
  return statements

/-- The parameters, the return type and the body of a function. A function without a
body ends like a statement. -/
def functionParts (isAsync isGenerator : Bool) : Parser (List Tree) :=
  within (Context.inFunction isAsync isGenerator) do
    let types ← typeParameters? self
    let ps ← parameters self
    let result ← returnType? self
    let body ← if ← isAt "\x7b" then block self else do
        endStatement
        pure []
    return types ++ ps ++ result ++ body

/-- A function declaration at its keyword; it may lack a name only if `isNameless`. -/
def functionDeclaration (start : Nat) (isAsync isNameless : Bool) : Parser Tree := do
  expectWord "function"
  let isGenerator ← eat "*"
  let declared ← if isNameless && (← isAt "(") then pure [] else do pure [← bindingName .value]
  let inner ← place
  let parts ← functionParts self isAsync isGenerator
  let body ← node (.scope true) inner parts
  node .other start (declared ++ [body])

/-- A function expression at its keyword. -/
def functionExpression (start : Nat) (isAsync : Bool) : Parser Tree := do
  expectWord "function"
  let isGenerator ← eat "*"
  let named ← within (Context.inFunction isAsync isGenerator) do
    if ← isAtIdentifier then return [← bindingName .value] else return []
  let parts ← functionParts self isAsync isGenerator
  node (.scope true) start (named ++ parts)

/-- A method behind its name. -/
def method (isAsync isGenerator : Bool) : Parser Tree := do
  let start ← place
  let parts ← functionParts self isAsync isGenerator
  node (.scope true) start parts

/-- Whether an asynchronous function begins here. -/
def startsAsyncFunction : Parser Bool := do
  if ← isAtWord "async" then ahead do
    advance
    return (← isAtWord "function") && !(← isFresh)
  else return false

/-! ### Classes -/

/-- The words that may stand in front of a member of a class, and whether the member
may stand on the next line. -/
def memberModifiers : List (Text × Bool) := [
  ("public", false), ("private", false), ("protected", false), ("static", true),
  ("abstract", false), ("override", false), ("readonly", false), ("declare", false),
  ("accessor", false)]

/-- Passes the modifiers in front of a member. -/
def passMemberModifiers : Parser Unit := do
  let _ ← repeatWhile (fun () => do
    match ← token with
    | .word w _ =>
        match memberModifiers.find? (·.1 == w) with
        | some (_, acrossLines) =>
            if ← isModifier w acrossLines then
              advance
              return some ()
            else return none
        | none => return none
    | _ => return none) ()

/-- Whether a static block begins here. -/
def startsStaticBlock : Parser Bool := do
  if ← isAtWord "static" then ahead do
    advance
    isAt "\x7b"
  else return false

/-- A member of a class. -/
def classMember : Parser (List Tree) := do
  if ← eat ";" then return []
  let start ← place
  if ← startsStaticBlock then
    advance
    let inner ← place
    let statements ← within
      (fun c => { Context.inFunction true false c with allowsReturn := false }) (block self)
    return [← node (.scope true) inner statements]
  let marks ← decorators self
  passMemberModifiers
  if ← isIndexSignature then
    let parts ← indexSignature self
    endMember
    return [← node .other start (marks ++ parts)]
  let isAccessor := (← isModifier "get" true) || (← isModifier "set" true)
  if isAccessor then advance
  let isAsync ← isModifier "async" false
  if isAsync then advance
  let isGenerator ← eat "*"
  let (key, _) ← propertyName self
  if ← isAtAny ["?", "!"] then advance
  if isAccessor || isAsync || isGenerator || (← isAtAny ["(", "<"]) then
    let body ← method self isAsync isGenerator
    return [← node .other start (marks ++ key ++ [body])]
  else
    let stated ← statedType? self
    let value ← within (Context.inFunction false false) (initializer? self)
    endStatement
    return [← node .other start (marks ++ key ++ stated ++ value)]

/-- A base class or an implemented type. -/
def heritage (element : Parser Tree) : Parser Tree := do
  let start ← place
  let base ← element
  let arguments ← typeArguments? self
  node .other start (base :: arguments)

/-- The type parameters, the bases and the members of a class. -/
def classParts : Parser (List Tree) := do
  let types ← typeParameters? self
  let base ← if ← eatWord "extends" then do pure [← heritage self (self .updated)] else pure []
  let implemented ← if ← eatWord "implements" then do
      pure (← separated "\x7b" "," (heritage self (entityName .type))).1
    else pure []
  expect "\x7b"
  let members ← within (fun c => { c with allowsIn := true, isDecorator := false })
    (sequenceUntil "\x7d" (classMember self))
  expect "\x7d"
  return types ++ base ++ implemented ++ members

/-- The name of a class, if it has one. -/
def className? : Parser (List Tree) := do
  if ← isAtIdentifier then
    let isClause ← if ← isAtWord "implements" then ahead do
        advance
        isAtName
      else pure false
    if isClause then return [] else return [← bindingName .both]
  else return []

/-- A class declaration at its keyword. -/
def classDeclaration (start : Nat) (marks : List Tree) : Parser Tree := do
  expectWord "class"
  let declared ← className?
  let inner ← place
  let parts ← classParts self
  let body ← node (.scope false) inner parts
  node .other start (marks ++ declared ++ [body])

/-- A class expression at its keyword. -/
def classExpression (start : Nat) (marks : List Tree) : Parser Tree := do
  expectWord "class"
  let named ← className?
  let parts ← classParts self
  node (.scope false) start (marks ++ named ++ parts)

end ComponentMigration.Script.Grammar
