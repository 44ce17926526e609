import ComponentMigration.Script.Grammar.Pattern

/-!
The grammar of types.

* **Types.** `type` reads a type with its unions, intersections and conditions,
  `operatorType` a type that binds stronger. Names in a type ask for the type of
  that name; behind `typeof` for its value.
* **Lists.** `typeArguments` reads the types between angle brackets,
  `typeParameters?` the parameters a declaration has.
* **Members.** `typeMembers` reads the body of an interface.
-/

namespace ComponentMigration.Script.Grammar

open Script.Parser

variable (self : Grammar)

/-! ### Names, arguments and parameters -/

/-- The types between angle brackets. -/
def typeArguments : Parser (List Tree) := do
  splitAngle
  expect "<"
  let (types, _) ← within (fun c => { c with allowsConditional := true })
    (separated ">" "," (self .type))
  expect ">"
  flawIf types.isEmpty
  return types

/-- The types between angle brackets, if any stand here on the same line. -/
def typeArguments? : Parser (List Tree) := do
  if (← isAtAny ["<", "<<"]) && !(← isFresh) then typeArguments self else return []

/-- A name with dots in it: one node for each dot. -/
def entityName (space : Space) : Parser Tree := do
  let start ← place
  let first ← if ← eatWord "this" then node .other start [] else do
      let w ← name
      node (.reference w space none) start []
  repeatWhile (fun (left : Tree) => do
    if ← eat "." then
      match ← token with
      | .privateWord _ => advance
      | _ => let _ ← name
      return some (← node .other start [left])
    else return none) first

/-- A parameter of a declaration. -/
def typeParameter : Parser Tree := do
  let start ← place
  let _ ← repeatWhile (fun () => do
    let isModifier ← if ← isAtAnyWord ["const", "in", "out"] then ahead do
        advance
        return ← isAtName
      else pure false
    if isModifier then advance; return some () else return none) ()
  let parameterName ← bindingName .type
  let bound ← if ← eatWord "extends" then do pure [← self .type] else pure []
  let default ← if ← eat "=" then do pure [← self .type] else pure []
  node .other start (parameterName :: (bound ++ default))

/-- The parameters of a declaration, if it has any. -/
def typeParameters? : Parser (List Tree) := do
  if ← eat "<" then
    let (ps, _) ← within (fun c => { c with allowsConditional := true })
      (separated ">" "," (typeParameter self))
    expect ">"
    flawIf ps.isEmpty
    return ps
  else return []

/-! ### Function types -/

/-- What a function returns: a type, or a predicate on a parameter. -/
def returnType : Parser Tree := do
  let start ← place
  let isPredicate ← ahead do
    let _ ← identifier
    return (← isAtWord "is") && !(← isFresh)
  if isPredicate then
    advance
    advance
    let t ← self .type
    node .other start [t]
  else self .type

/-- The return type behind a colon, if one stands here. -/
def returnType? : Parser (List Tree) := do
  if ← eat ":" then
    return [← within (fun c => { c with allowsConditional := true }) (returnType self)]
  else return []

/-- The parameters and the return type of a signature. -/
def signature : Parser (List Tree) := do
  let start ← place
  let types ← typeParameters? self
  let ps ← parameters self
  let result ← returnType? self
  return [← node (.scope true) start (types ++ ps ++ result)]

/-- A function type, or the type of a constructor. -/
def functionType : Parser Tree := do
  let start ← place
  let _ ← eatWord "abstract"
  let _ ← eatWord "new"
  let types ← typeParameters? self
  let ps ← parameters self
  expect "=>"
  let result ← returnType self
  node (.scope true) start (types ++ ps ++ [result])

/-- Passes the start of a parameter, if one stands here. -/
def passParameterStart : Parser Bool := do
  passParameterModifiers
  if (← isAtIdentifier) || (← isAtWord "this") then
    advance
    return true
  if ← isAtAny ["[", "\x7b"] then
    let wasFlawed := (← get).isFlawed
    let _ ← self (.pattern .value)
    return wasFlawed || !(← get).isFlawed
  return false

/-- Whether a parenthesis opens the parameters of a function type. -/
def isFunctionType : Parser Bool := do
  if ← isAt "<" then return true
  if ← isAtWord "new" then return true
  if ← isAtWord "abstract" then return ← ahead do
    advance
    isAtWord "new"
  if ← isAt "(" then ahead do
    advance
    if ← isAtAny [")", "..."] then return true
    if ← passParameterStart self then
      if ← isAtAny [":", ",", "?", "="] then return true
      if ← eat ")" then return ← isAt "=>"
      return false
    return false
  else return false

/-! ### Members of types -/

/-- Whether an index signature begins here. -/
def isIndexSignature : Parser Bool := ahead do
  expect "["
  let _ ← identifier
  isAt ":"

/-- An index signature. -/
def indexSignature : Parser (List Tree) := do
  let start ← place
  expect "["
  let key ← bindingName .value
  expect ":"
  let keyType ← self .type
  expect "]"
  let value ← statedType? self
  return [← node (.scope true) start (key :: keyType :: value)]

/-- Passes the end of a member of a type. -/
def endMember : Parser Unit := do
  if ← isAtAny [",", ";"] then advance
  else require ((← isAt "\x7d") || (← isFresh))

/-- A property or a method of a type. -/
def namedMember : Parser (List Tree) := do
  if (← isModifier "get" true) || (← isModifier "set" true) then advance
  let (key, _) ← propertyName self
  let _ ← eat "?"
  let rest ← if ← isAtAny ["(", "<"] then signature self else statedType? self
  return key ++ rest

/-- A member of a type. -/
def typeMember : Parser (List Tree) := do
  let isConstructor ← if ← isAtWord "new" then ahead do
      advance
      isAtAny ["(", "<"]
    else pure false
  if isConstructor then advance
  else if ← isModifier "readonly" false then advance
  let parts ← if ← isAtAny ["(", "<"] then signature self
    else if ← isIndexSignature then indexSignature self
    else namedMember self
  endMember
  return parts

/-- The members of a type with their braces. -/
def typeMembers : Parser (List Tree) := do
  expect "\x7b"
  let members ← sequenceUntil "\x7d" (typeMember self)
  expect "\x7d"
  return members

/-- Whether a mapped type begins here. -/
def isMappedType : Parser Bool := ahead do
  advance
  if ← isAtAny ["+", "-"] then
    advance
    return ← isAtWord "readonly"
  let _ ← eatWord "readonly"
  expect "["
  let _ ← identifier
  isAtWord "in"

/-- A mapped type. -/
def mappedType : Parser Tree := do
  let start ← place
  expect "\x7b"
  if ← isAtAny ["+", "-"] then advance
  let _ ← eatWord "readonly"
  expect "["
  let key ← bindingName .type
  expectWord "in"
  let keys ← self .type
  let renamed ← if ← eatWord "as" then do pure [← self .type] else pure []
  expect "]"
  if ← isAtAny ["+", "-"] then
    advance
    expect "?"
  else
    let _ ← eat "?"
  let value ← statedType? self
  endMember
  expect "\x7d"
  node (.scope false) start (key :: keys :: (renamed ++ value))

/-! ### Types that bind strongest -/

/-- An element of a tuple. -/
def tupleElement : Parser Tree := do
  let start ← place
  let _ ← eat "..."
  let isNamed ← ahead do
    let _ ← name
    let _ ← eat "?"
    return ← isAt ":"
  if isNamed then
    let _ ← name
    let _ ← eat "?"
    expect ":"
  let t ← self .type
  let _ ← eat "?"
  node .other start [t]

/-- A template whose substitutions are read by `inside`. -/
def templateOf (inside : Parser Tree) : Parser (List Tree × Bool) := do
  let (parts, isBad, _) ← repeatWhile
    (fun ((parts, isBad, isDone) : List Tree × Bool × Bool) => do
      if isDone then return none
      match ← token with
      | .template true bad =>
          advance
          return some (parts, isBad || bad, true)
      | .template false bad =>
          advance
          let part ← inside
          require (← isAt "\x7d")
          asTemplateRest
          return some (part :: parts, isBad || bad, false)
      | _ => failure) ([], false, false)
  return (parts.reverse, isBad)

/-- The words for types that have no name in the script. -/
def keywordTypes : List Text := [
  "any", "unknown", "string", "number", "bigint", "symbol", "boolean", "undefined", "never",
  "object", "intrinsic"]

/-- The type that a name with its arguments stands for. -/
def typeReference : Parser Tree := do
  let start ← place
  let typeName ← entityName .type
  let arguments ← typeArguments? self
  node .other start (typeName :: arguments)

/-- The type of an imported module. -/
def importType : Parser Tree := do
  let start ← place
  expectWord "import"
  expect "("
  let module ← self .type
  let options ← if ← eat "," then
      if ← isAt ")" then pure [] else do
        let o ← self (.assignment true)
        let _ ← eat ","
        pure [o]
    else pure []
  expect ")"
  let _ ← repeatWhile (fun () => do
    if ← eat "." then
      let _ ← name
      return some ()
    else return none) ()
  let arguments ← typeArguments? self
  node .other start (module :: (options ++ arguments))

/-- A type without anything around it. -/
def primaryType : Parser Tree := do
  let start ← place
  match ← token with
  | .word w isEscaped =>
      let isDotted ← ahead do
        advance
        isAt "."
      if !isEscaped && keywordTypes.contains w && !isDotted then
        advance
        node .other start []
      else if !isEscaped && List.contains ["void", "null", "true", "false"] (String.ofList w) then
        advance
        node .other start []
      else if ← isAtWord "this" then
        advance
        if (← isAtWord "is") && !(← isFresh) then
          advance
          let t ← self .type
          node .other start [t]
        else node .other start []
      else if ← isAtWord "typeof" then
        advance
        if ← isAtWord "import" then importType self
        else
          let queried ← entityName .value
          let arguments ← typeArguments? self
          node .other start (queried :: arguments)
      else if ← isAtWord "import" then importType self
      else if (← isAtWord "asserts") && (← ahead do
          advance
          return ((← isAtIdentifier) || (← isAtWord "this")) && !(← isFresh)) then
        advance
        advance
        let condition ← if ← eatWord "is" then do pure [← self .type] else pure []
        node .other start condition
      else typeReference self
  | .string _ | .number _ =>
      advance
      node .other start []
  | .template _ _ =>
      let (parts, isBad) ← templateOf (self .type)
      flawIf isBad
      node .other start parts
  | .punctuator _ =>
      if ← eat "-" then
        match ← token with
        | .number _ =>
            advance
            node .other start []
        | _ => failure
      else if ← isAt "\x7b" then
        if ← isMappedType then mappedType self
        else
          let members ← typeMembers self
          node .other start members
      else if ← eat "[" then
        let (elements, _) ← within (fun c => { c with allowsConditional := true })
          (separated "]" "," (tupleElement self))
        expect "]"
        node .other start elements
      else
        expect "("
        let t ← within (fun c => { c with allowsConditional := true }) (self .type)
        expect ")"
        node .other start [t]
  | _ => failure

/-- Whether a type can begin here. -/
def startsType : Parser Bool := do
  match ← token with
  | .word w isEscaped =>
      return isIdentifierWord w || (!isEscaped && List.contains
        ["void", "null", "true", "false", "this", "typeof", "import", "new", "function"]
        (String.ofList w))
  | .string _ | .number _ | .template _ _ => return true
  | _ => isAtAny ["\x7b", "[", "<", "|", "&", "(", "-", "*", "?", "!", "..."]

/-- A type with its array brackets and indices. -/
def postfixType : Parser Tree := do
  let start ← place
  let inner ← primaryType self
  repeatWhile (fun (t : Tree) => do
    if ← isFresh then return none
    if ← isAt "[" then
      advance
      if ← eat "]" then return some (← node .other start [t])
      let index ← self .type
      expect "]"
      return some (← node .other start [t, index])
    else if ← eat "!" then
      flaw
      return some (← node .other start [t])
    else return none) inner

/-- The bound of an inferred type. It belongs to it unless a condition goes on there. -/
def inferredBound? : Parser (List Tree) := do
  if ← isAtWord "extends" then
    let bound ← attempt do
      advance
      let t ← within (fun c => { c with allowsConditional := false }) (self .type)
      require (!(← get).context.allowsConditional || !(← isAt "?"))
      return t
    return bound.toList
  else return []

/-- A type with the operators in front of it. -/
def operatorType : Parser Tree := do
  let start ← place
  if (← isAtAnyWord ["keyof", "unique", "readonly"]) && (← ahead do
      advance
      startsType) then
    advance
    let t ← self .operatorType
    node .other start [t]
  else if (← isAtWord "infer") && (← ahead do
      advance
      isAtIdentifier) then
    advance
    let inferred ← bindingName .type
    let bound ← inferredBound? self
    node .other start (inferred :: bound)
  else within (fun c => { c with allowsConditional := true }) (postfixType self)

/-- Types between operators, the first of which may be preceded by one too. A function
type among them has to stand in parentheses. -/
def joinedTypes (operator : Text) (element : Parser Tree) : Parser Tree := do
  let start ← place
  let isLed ← eat operator
  let member : Parser Tree := do
    if ← isFunctionType self then
      flaw
      functionType self
    else element
  let first ← if isLed then member else element
  let types ← repeatWhile (fun (types : List Tree) => do
    if ← eat operator then return some ((← member) :: types) else return none) [first]
  match types with
  | [t] => if isLed then node .other start [t] else return t
  | types => node .other start types.reverse

/-- A type. -/
def type : Parser Tree := do
  if ← isFunctionType self then functionType self
  else
    let start ← place
    let t ← joinedTypes self "|" (joinedTypes self "&" (self .operatorType))
    if (← get).context.allowsConditional && !(← isFresh) && (← isAtWord "extends") then
      advance
      let bound ← within (fun c => { c with allowsConditional := false }) (self .type)
      expect "?"
      let yes ← within (fun c => { c with allowsConditional := true }) (self .type)
      let branch ← node (.scope false) bound.span.start [bound, yes]
      expect ":"
      let no ← within (fun c => { c with allowsConditional := true }) (self .type)
      node .other start [t, branch, no]
    else return t

end ComponentMigration.Script.Grammar
