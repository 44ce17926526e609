import ComponentMigration.Script.Grammar.Declaration

/-!
Imports and exports.

* **Imports.** An import declaration keeps its module, its specifiers with what each
  imports, and whether it imports types only.
* **The word `type`.** In front of a specifier it may be a modifier or the name that
  is meant; `isTypeSpecifier` tells from what follows.
* **Exports.** A name that is exported without a module behind it is used.
-/

namespace ComponentMigration.Script.Grammar

open Script.Parser

variable (self : Grammar)

/-! ### Names of what is imported and exported -/

/-- A name or a string, as the name of an export. -/
def exportName : Parser Text := do
  match ← token with
  | .string w =>
      advance
      return w
  | _ => name

/-- Whether the name of an export stands here. -/
def isAtExportName : Parser Bool := do
  match ← token with
  | .string _ | .word _ _ => return true
  | _ => return false

/-- Whether the word `type` here makes a specifier one of a type. -/
def isTypeSpecifier : Parser Bool := do
  if ← isAtWord "type" then ahead do
    advance
    if ← eatWord "as" then
      if ← eatWord "as" then isAtExportName
      else return !(← isAtExportName)
    else isAtExportName
  else return false

/-- The module behind `from`. -/
def moduleName : Parser Text := do
  match ← token with
  | .string w =>
      advance
      return w
  | _ => failure

/-- Passes the attributes of an import, if it has any. -/
def passImportAttributes : Parser Unit := do
  if (← isAtWord "with") || ((← isAtWord "assert") && !(← isFresh)) then
    advance
    expect "\x7b"
    let _ ← separated "\x7d" "," do
      let start ← place
      let _ ← exportName
      expect ":"
      let _ ← moduleName
      node .other start []
    expect "\x7d"

/-! ### Imports -/

/-- A specifier of an import. -/
def importSpecifier (binder : Binder) : Parser Tree := do
  let start ← place
  let isType ← isTypeSpecifier
  if isType then advance
  let binder := if isType then .type else binder
  let nameStart ← place
  let isText ← match ← token with
    | .string _ => pure true
    | _ => pure false
  let imported ← exportName
  if ← eatWord "as" then
    let declared ← bindingName binder
    node (.namedImport imported isType) start [declared]
  else
    require (!isText && isIdentifierWord imported)
    let declared ← node (.binding imported binder none) nameStart []
    node (.namedImport imported isType) start [declared]

/-- An import of everything under one name. -/
def namespaceSpecifier (binder : Binder) : Parser Tree := do
  let start ← place
  expect "*"
  expectWord "as"
  let declared ← bindingName binder
  node .namespaceImport start [declared]

/-- What is imported in braces or with a star. -/
def importSpecifiers (binder : Binder) : Parser (List Tree) := do
  if ← isAt "*" then return [← namespaceSpecifier binder]
  else
    expect "\x7b"
    let (found, _) ← separated "\x7d" "," (importSpecifier binder)
    expect "\x7d"
    return found

/-- Whether the word `type` here makes an import one of types. -/
def startsTypeImport : Parser Bool := do
  if ← isAtWord "type" then ahead do
    advance
    if ← eatWord "from" then return (← isAtWord "from") || (← isAt "=")
    else return (← isAtIdentifier) || (← isAtAny ["*", "\x7b"])
  else return false

/-- The end of an import declaration behind its specifiers. -/
def importSource (start : Nat) (isType : Bool) (specifiers : List Tree) : Parser Tree := do
  let module ← moduleName
  passImportAttributes
  endStatement
  node (.importDeclaration module isType) start specifiers

/-- An import declaration behind its word. -/
def importDeclaration (start : Nat) : Parser Tree := do
  match ← token with
  | .string _ => importSource start false []
  | _ =>
      let isType ← startsTypeImport
      if isType then advance
      let binder : Binder := if isType then .type else .both
      if ← isAtIdentifier then
        let declared ← bindingName binder
        if ← isAt "=" then importAlias start declared
        else
          let default := Tree.node .defaultImport declared.span [declared]
          let others ← if ← eat "," then importSpecifiers binder else pure []
          expectWord "from"
          importSource start isType (default :: others)
      else
        let specifiers ← importSpecifiers binder
        expectWord "from"
        importSource start isType specifiers

/-- Whether an import of a module by an expression begins here. -/
def startsImportExpression : Parser Bool := ahead do
  expectWord "import"
  isAtAny ["(", "."]

/-! ### Exports -/

/-- The words that only strict code reserves. -/
def strictWords : List Text := List.map String.toList [
  "implements", "interface", "let", "package", "private", "protected", "public", "static",
  "yield"]

/-- A specifier of an export: the use of its name, and whether it may not be one. -/
def exportSpecifier : Parser (Tree × Bool) := do
  if ← isTypeSpecifier then advance
  let start ← place
  let isText ← match ← token with
    | .string _ => pure true
    | _ => pure false
  let w ← exportName
  let reference ← node (.reference w .any none) start []
  if ← eatWord "as" then
    let _ ← exportName
  return (reference, isText || isReserved w || strictWords.contains w)

/-- The specifiers of an export in braces. -/
def exportSpecifiers : Parser (List (Tree × Bool)) := do
  expect "\x7b"
  let found ← repeatWhile (fun (found : List (Tree × Bool)) => do
    if ← isAt "\x7d" then return none
    let specifier ← exportSpecifier
    unless ← isAt "\x7d" do expect ","
    return some (specifier :: found)) []
  expect "\x7d"
  return found.reverse

/-- The end of an export that takes from another module. -/
def exportSource (start : Nat) : Parser Tree := do
  let _ ← moduleName
  passImportAttributes
  endStatement
  node .other start []

/-- An export of names in braces. -/
def exportNames (start : Nat) : Parser Tree := do
  let found ← exportSpecifiers
  if ← eatWord "from" then exportSource start
  else
    flawIf (found.any (·.2))
    endStatement
    node .other start (found.map (·.1))

/-- An export of everything another module exports. -/
def exportAll (start : Nat) : Parser Tree := do
  expect "*"
  if ← eatWord "as" then
    let _ ← exportName
  expectWord "from"
  exportSource start

/-- The default export behind its word. -/
def exportDefault (start : Nat) (marks : List Tree) : Parser Tree := do
  let marks := marks ++ (← decorators self)
  let isAbstract ← if ← isAtWord "abstract" then ahead do
      advance
      return (← isAtWord "class") && !(← isFresh)
    else pure false
  if isAbstract then advance
  if ← isAtWord "class" then classDeclaration self start marks
  else if ← isAtWord "function" then functionDeclaration self start false true
  else if ← startsAsyncFunction then
    advance
    functionDeclaration self start true true
  else if (← isAtWord "interface") && (← startsTypedDeclaration) then
    interfaceDeclaration self start
  else
    require marks.isEmpty
    let e ← self (.assignment true)
    endStatement
    node .other start [e]

/-- An export. -/
def exportDeclaration (start : Nat) (marks : List Tree) : Parser Tree := do
  expectWord "export"
  let isTypeExport ← if ← isAtWord "type" then ahead do
      advance
      isAtAny ["\x7b", "*"]
    else pure false
  if isTypeExport then advance
  if ← isAt "\x7b" then exportNames start
  else if ← isAt "*" then exportAll start
  else if ← eatWord "default" then exportDefault self start marks
  else if ← eatWord "import" then
    if ← startsTypeImport then advance
    let declared ← bindingName .both
    importAlias start declared
  else if ← eat "=" then
    let e ← self .expression
    endStatement
    node .other start [e]
  else if ← eatWord "as" then
    expectWord "namespace"
    let _ ← name
    endStatement
    node .other start []
  else
    let marks := marks ++ (← decorators self)
    within (fun c => { c with allowsAwait := true }) (declaration self start marks)

end ComponentMigration.Script.Grammar
