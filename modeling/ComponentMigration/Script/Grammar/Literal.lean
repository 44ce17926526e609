import ComponentMigration.Script.Grammar.Function

/-!
Expressions that stand on their own.

* **Literals.** `array` and `object` keep what can be read as a pattern later: holes,
  spreads, shorthand properties and their defaults. A comma behind a last spread
  leaves a hole, for no pattern has one there.
* **Groups.** `group` reads an expression in parentheses.
* **Primary expressions.** `primary` reads what begins with a token of its own.
-/

namespace ComponentMigration.Script.Grammar

open Script.Parser

variable (self : Grammar)

/-- The context inside brackets of any kind. -/
def Context.inBrackets (c : Context) : Context :=
  { c with allowsIn := true, isDecorator := false }

/-! ### Arrays and objects -/

/-- Three dots and an expression. -/
def spread : Parser Tree := do
  let start ← place
  expect "..."
  let e ← self (.assignment true)
  node .spread start [e]

/-- The elements of a literal with a hole behind a last spread that a comma
follows. -/
def withLastHole (elements : List Tree) (isTrailing : Bool) : List Tree :=
  match elements.getLast? with
  | some (.node .spread s _) =>
      if isTrailing then elements ++ [.node .hole ⟨s.stop, s.stop⟩ []] else elements
  | _ => elements

/-- An element of an array. -/
def arrayElement : Parser Tree := do
  let start ← place
  if ← isAt "," then return .node .hole ⟨start, start⟩ []
  else if ← isAt "..." then spread self
  else self (.assignment true)

/-- An array. -/
def array : Parser Tree := do
  let start ← place
  expect "["
  let (elements, isTrailing) ← within Context.inBrackets (separated "]" "," (arrayElement self))
  expect "]"
  node .array start (withLastHole elements isTrailing)

/-- The name of a property as a reference, if it can be one. -/
def shorthand? : Parser (Option Text) := do
  let s ← get
  match s.token with
  | .word w _ =>
      let isOperator := (w == "await".toList && s.context.allowsAwait) ||
        (w == "yield".toList && s.context.allowsYield)
      return if isIdentifierWord w && !isOperator then some w else none
  | _ => return none

/-- A property of an object. -/
def objectMember : Parser Tree := do
  let start ← place
  if ← isAt "..." then return ← spread self
  let isAccessor := (← isModifier "get" true) || (← isModifier "set" true)
  if isAccessor then advance
  let isAsync ← isModifier "async" false
  if isAsync then advance
  let isGenerator ← eat "*"
  let short ← shorthand?
  let (key, _) ← propertyName self
  if isAccessor || isAsync || isGenerator || (← isAtAny ["(", "<"]) then
    let body ← method self isAsync isGenerator
    node .other start (key ++ [body])
  else match short, ← isAt ":" with
    | some w, false =>
        let reference := Tree.node (.reference w .value none) ⟨start, (← get).lastStop⟩ []
        if ← eat "=" then
          let default ← self (.assignment true)
          node .initialized start [reference, default]
        else node .shorthand start [reference]
    | _, _ =>
        expect ":"
        let value ← self (.assignment true)
        node .property start (key ++ [value])

/-- An object. -/
def object : Parser Tree := do
  let start ← place
  expect "\x7b"
  let (members, isTrailing) ← within Context.inBrackets
    (separated "\x7d" "," (objectMember self))
  expect "\x7d"
  node .object start (withLastHole members isTrailing)

/-! ### Groups and templates -/

/-- An expression in parentheses. -/
def group : Parser Tree := do
  let start ← place
  expect "("
  let e ← within Context.inBrackets (self .expression)
  expect ")"
  node .parentheses start [e]

/-- The substitutions of a template, and whether it has a malformed escape. -/
def template : Parser (List Tree × Bool) :=
  templateOf (within Context.inBrackets (self .expression))

/-! ### Primary expressions -/

/-- A token that is an expression by itself. -/
def literal (form : Form) : Parser Tree := do
  let start ← place
  advance
  node form start []

/-- The words that are values. -/
def valueWords : List Text := List.map String.toList ["this", "null", "true", "false"]

/-- An expression that begins with a word. -/
def wordExpression : Parser Tree := do
  let start ← place
  if ← isAtAnyWord valueWords then literal (.expression .member)
  else if ← isAtWord "function" then functionExpression self start false
  else if ← isAtWord "class" then classExpression self start []
  else if ← startsAsyncFunction then
    advance
    functionExpression self start true
  else referenceName .value

/-- An expression that no operator and no access is part of. -/
def primary : Parser Tree := do
  let start ← place
  match ← token with
  | .word _ _ => wordExpression self
  | .string _ => literal (.expression .member)
  | .number isBig => literal (if isBig then .expression .member else .number)
  | .template _ _ =>
      let (parts, isBad) ← template self
      flawIf isBad
      node (.expression .member) start parts
  | .punctuator _ =>
      if ← isAt "[" then array self
      else if ← isAt "\x7b" then object self
      else if ← isAt "(" then group self
      else if ← isAtAny ["/", "/="] then
        asRegex
        require ((← token) == .regex)
        literal (.expression .member)
      else
        let marks ← decorators self
        require (!marks.isEmpty)
        classExpression self start marks
  | _ => failure

end ComponentMigration.Script.Grammar
