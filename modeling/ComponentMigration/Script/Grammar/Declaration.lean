import ComponentMigration.Script.Grammar.Arrow

/-!
Declarations.

* **Variables.** A variable has a value unless it may go without: constants and
  patterns may not, except in the head of a loop and in ambient declarations.
* **Types.** Interfaces and aliases declare types; enumerations and namespaces declare
  types and values. The members of an enumeration are names in its body.
* **Ambient declarations.** What stands behind `declare` needs no implementation.
-/

namespace ComponentMigration.Script.Grammar

open Script.Parser

variable (self : Grammar)

/-! ### Variables -/

/-- A variable with its value, and whether it lacks one that it needs. -/
def variableDeclarator (binder : Binder) (isConstant : Bool) : Parser (Tree × Bool) := do
  let start ← place
  let p ← self (.pattern binder)
  let isName := match p.form with
    | .binding _ _ _ => true
    | _ => false
  if isName && (← isAt "!") && !(← isFresh) then advance
  let stated ← statedType? self
  let target ← node .target start (p :: stated)
  if ← eat "=" then
    let value ← self (.assignment true)
    return (← node .declarator start [target, value], false)
  else return (← node .other start [target], isConstant || !isName)

/-- How the word here declares variables, and whether they are constants. -/
def variableKind? : Parser (Option (Binder × Bool)) := do
  if ← isAtWord "var" then return some (.hoisted, false)
  if ← isAtWord "let" then return some (.value, false)
  if ← isAtAnyWord ["const", "using"] then return some (.value, true)
  return none

/-- Variables between commas behind the word that declares them, and whether one of
them lacks a value that it needs. -/
def variableList : Parser (List Tree × Bool) := do
  match ← variableKind? with
  | none => failure
  | some (binder, isConstant) =>
      advance
      let first ← variableDeclarator self binder isConstant
      let found ← repeatWhile (fun (found : List (Tree × Bool)) => do
        if ← eat "," then return some ((← variableDeclarator self binder isConstant) :: found)
        else return none) [first]
      return (found.reverse.map (·.1), found.any (·.2))

/-- A declaration of variables. -/
def variableStatement (start : Nat) : Parser Tree := do
  let (found, lacksValue) ← variableList self
  flawIf (lacksValue && !(← get).context.isAmbient)
  endStatement
  node .other start found

/-- Whether the word `let` declares variables here. -/
def startsLet : Parser Bool := do
  if ← isAtWord "let" then ahead do
    advance
    if ← isAtAny [".", "(", ";"] then return false
    if ← isAtIdentifier then return true
    let isOperator := (← operatorRank?).isSome || (← isAtAny assignmentOperators)
    return !isOperator
  else return false

/-- Whether the word `using` declares variables here. -/
def startsUsing : Parser Bool := do
  if ← isAtWord "using" then ahead do
    advance
    return (← isAtIdentifier) && !(← isAtWord "of") && !(← isFresh)
  else return false

/-- Whether the words `await using` declare variables here. -/
def startsAwaitUsing : Parser Bool := do
  if ← isAtWord "await" then ahead do
    advance
    return !(← isFresh) && (← startsUsing)
  else return false

/-! ### Types -/

/-- An interface. -/
def interfaceDeclaration (start : Nat) : Parser Tree := do
  expectWord "interface"
  let declared ← bindingName .type
  let inner ← place
  let types ← typeParameters? self
  let bases ← if ← eatWord "extends" then do
      pure (← separated "\x7b" "," (heritage self (entityName .type))).1
    else pure []
  let members ← typeMembers self
  let body ← node (.scope false) inner (types ++ bases ++ members)
  node .other start [declared, body]

/-- An alias of a type. -/
def aliasDeclaration (start : Nat) : Parser Tree := do
  expectWord "type"
  let declared ← bindingName .type
  let inner ← place
  let types ← typeParameters? self
  expect "="
  let t ← self .type
  endStatement
  let body ← node (.scope false) inner (types ++ [t])
  node .other start [declared, body]

/-- A member of an enumeration. -/
def enumMember : Parser Tree := do
  let start ← place
  let declared ← match ← token with
    | .word w _ =>
        advance
        pure [← node (.binding w .value none) start []]
    | .string w =>
        advance
        pure [← node (.binding w .value none) start []]
    | _ => do pure (← propertyName self).1
  let value ← initializer? self
  node .other start (declared ++ value)

/-- An enumeration. -/
def enumDeclaration (start : Nat) : Parser Tree := do
  let _ ← eatWord "const"
  expectWord "enum"
  let declared ← bindingName .both
  let inner ← place
  expect "\x7b"
  let (members, _) ← separated "\x7d" "," (enumMember self)
  expect "\x7d"
  let body ← node (.scope false) inner members
  node .other start [declared, body]

/-! ### Namespaces -/

/-- Names between dots, each declared inside the one before. -/
def namespaceNames : Parser (List Tree) := do
  let first ← bindingName .both
  let found ← repeatWhile (fun (found : List Tree) => do
    if ← eat "." then return some ((← bindingName .both) :: found) else return none) [first]
  return found.reverse

/-- A namespace whose names are declared inside each other. -/
def nestedNamespace (names : List Tree) (body : List Tree) (stop : Nat) : List Tree :=
  match names with
  | [] => body
  | declared :: rest =>
      [declared, .node (.scope true) ⟨declared.span.stop, stop⟩ (nestedNamespace rest body stop)]

/-- A namespace. -/
def namespaceDeclaration (start : Nat) : Parser Tree := do
  advance
  let declared ← namespaceNames
  let body ← within (fun c => { c with allowsAwait := true }) (block self)
  node .other start (nestedNamespace declared body (← get).lastStop)

/-- A module named by a string, or the global scope. -/
def ambientModule (start : Nat) : Parser Tree := do
  advance
  match ← token with
  | .string _ => advance
  | _ => pure ()
  let inner ← place
  if ← isAt "\x7b" then
    let statements ← block self
    let body ← node (.scope true) inner statements
    node .other start [body]
  else
    endStatement
    node .other start []

/-- An import of something with a name of its own. -/
def importAlias (start : Nat) (declared : Tree) : Parser Tree := do
  expect "="
  let isModule ← if ← isAtWord "require" then ahead do
      advance
      isAt "("
    else pure false
  if isModule then
    advance
    expect "("
    match ← token with
    | .string _ => advance
    | _ => failure
    expect ")"
    endStatement
    node .other start [declared]
  else
    let source ← entityName .any
    endStatement
    node .other start [declared, source]

/-! ### Declarations -/

/-- The words in front of a declaration. -/
def declarationModifiers : List Text := List.map String.toList [
  "abstract", "accessor", "async", "declare", "private", "protected", "public", "readonly"]

/-- Whether a declaration begins at the last of some modifiers. -/
def startsTypedDeclaration : Parser Bool := ahead do
  let isOpen ← repeatWhile (fun isOpen => do
    if isOpen && (← isAtAnyWord declarationModifiers) then
      advance
      return some (!(← isFresh))
    else if ← isAtWord "static" then
      advance
      return some isOpen
    else return none) true
  require isOpen
  if ← isAtAnyWord ["var", "let", "const", "function", "class", "enum"] then return true
  if ← isAtAnyWord ["interface", "type"] then
    advance
    return (← isAtIdentifier) && !(← isFresh)
  if ← isAtAnyWord ["module", "namespace"] then
    advance
    let isNamed ← match ← token with
      | .string _ => pure true
      | _ => isAtIdentifier
    return isNamed && !(← isFresh)
  if ← eatWord "global" then return (← isAt "\x7b") || (← isAtIdentifier) || (← isAtWord "export")
  return false

/-- A declaration at its own word. -/
def declarationHere (start : Nat) (marks : List Tree) : Parser Tree := do
  let isEnum ← if ← isAtWord "const" then ahead do
      advance
      isAtWord "enum"
    else pure false
  if isEnum || (← isAtWord "enum") then enumDeclaration self start
  else if (← variableKind?).isSome then variableStatement self start
  else if ← startsAwaitUsing then
    advance
    variableStatement self start
  else if ← isAtWord "class" then classDeclaration self start marks
  else if ← isAtWord "function" then functionDeclaration self start false false
  else if ← startsAsyncFunction then
    advance
    functionDeclaration self start true false
  else if ← isAtWord "interface" then interfaceDeclaration self start
  else if ← isAtWord "type" then aliasDeclaration self start
  else if ← isAtWord "global" then ambientModule self start
  else
    require (← isAtAnyWord ["module", "namespace"])
    let isNamed ← ahead do
      advance
      isAtIdentifier
    if isNamed then namespaceDeclaration self start else ambientModule self start

/-- A declaration with the modifiers in front of it. -/
def declaration (start : Nat) (marks : List Tree) : Parser Tree := do
  let isAmbient ← repeatWhile (fun isAmbient => do
    if (← isAtAnyWord declarationModifiers) && !(← startsAsyncFunction) then
      let isDeclare ← isAtWord "declare"
      advance
      return some (isAmbient || isDeclare)
    else return none) false
  within (fun c => { c with isAmbient := c.isAmbient || isAmbient })
    (declarationHere self start marks)

end ComponentMigration.Script.Grammar
