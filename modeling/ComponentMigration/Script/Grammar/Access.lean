import ComponentMigration.Script.Grammar.Literal

/-!
Accesses and calls.

* **Chains.** An expression is followed by accesses, calls, templates and type
  arguments. A chain with an optional link is a node of its own.
* **Type arguments.** Whether an angle bracket opens type arguments shows behind the
  closing one: `canFollowTypeArguments`.
* **Construction.** `new` takes the accesses behind it, but no call.
-/

namespace ComponentMigration.Script.Grammar

open Script.Parser

variable (self : Grammar)

/-! ### Operators -/

/-- The places of the operators with two operands, weakest first. -/
def Rank.coalesce : Nat := 1
def Rank.logicalOr : Nat := 2
def Rank.logicalAnd : Nat := 3
def Rank.comparison : Nat := 8
def Rank.power : Nat := 12

/-- The operators with two operands that are punctuators, with their places. -/
def operatorRanks : List (Text × Nat) := List.map (fun (p, rank) => (String.toList p, rank)) [
  ("??", Rank.coalesce), ("||", Rank.logicalOr), ("&&", Rank.logicalAnd), ("|", 4), ("^", 5),
  ("&", 6), ("==", 7), ("!=", 7), ("===", 7), ("!==", 7), ("<", Rank.comparison),
  (">", Rank.comparison), ("<=", Rank.comparison), (">=", Rank.comparison), ("<<", 9), (">>", 9),
  (">>>", 9), ("+", 10), ("-", 10), ("*", 11), ("/", 11), ("%", 11), ("**", Rank.power)]

/-- The operators with two operands that are words. All compare. -/
def operatorWords : List Text := List.map String.toList ["in", "instanceof", "as", "satisfies"]

/-- The place of the operator that stands here. -/
def operatorRank? : Parser (Option Nat) := do
  let s ← get
  match s.token with
  | .punctuator p => return List.lookup p operatorRanks
  | .word w false =>
      if w == "in".toList && !s.context.allowsIn then return none
      else return if operatorWords.contains w then some Rank.comparison else none
  | _ => return none

/-- The operators in front of an operand. -/
def unaryOperators : List Text := List.map String.toList ["!", "~", "+", "-"]

/-- The words in front of an operand. -/
def unaryWords : List Text := List.map String.toList ["typeof", "void", "delete"]

/-! ### Type arguments -/

/-- Whether an expression can begin here. -/
def startsExpression : Parser Bool := do
  match ← token with
  | .word w isEscaped =>
      return isIdentifierWord w || (!isEscaped && (valueWords.contains w || unaryWords.contains w ||
        List.contains ["super", "function", "class", "new", "import", "in", "instanceof"]
          (String.ofList w)))
  | .string _ | .number _ | .template _ _ | .privateWord _ => return true
  | .punctuator p =>
      return unaryOperators.contains p || (List.lookup p operatorRanks).isSome ||
        List.contains ["(", "[", "\x7b", "/=", "++", "--", "@"] (String.ofList p)
  | _ => return false

/-- Whether what stands here can follow the type arguments of an expression. -/
def canFollowTypeArguments : Parser Bool := do
  match ← token with
  | .template _ _ => return true
  | _ =>
      if ← isAt "(" then return true
      if ← isAtAny ["<", ">", "+", "-"] then return false
      return (← isFresh) || (← operatorRank?).isSome || !(← startsExpression)

/-- Type arguments, if an angle bracket opens them. -/
def callTypeArguments? : Parser (Option (List Tree)) := do
  if ← isAtAny ["<", "<<"] then attempt do
    splitAngle
    expect "<"
    let (types, _) ← within (fun c => { c with allowsConditional := true })
      (separated ">" "," (self .type))
    let s ← get
    require (!Text.startsWith s.here ">=")
    expect ">"
    require (← canFollowTypeArguments)
    flawIf types.isEmpty
    return types
  else return none

/-! ### Links of a chain -/

/-- The expression that is called, and the type arguments it is called with. -/
def instantiation : Tree → List Tree
  | .node .instantiated _ ps => ps
  | t => [t]

/-- The arguments of a call, with their parentheses. -/
def callArguments : Parser (List Tree) := do
  expect "("
  let (found, _) ← within Context.inBrackets (separated ")" "," do
    if ← isAt "..." then spread self else self (.assignment true))
  expect ")"
  return found

/-- The access to a property by its name. -/
def memberName (start : Nat) (object : Tree) : Parser Tree := do
  match ← token with
  | .privateWord _ =>
      advance
      node .access start [object]
  | _ =>
      let w ← name
      node (.member w) start [object]

/-- The access to a property in brackets. -/
def memberIndex (start : Nat) (object : Tree) : Parser Tree := do
  expect "["
  let index ← within Context.inBrackets (self .expression)
  expect "]"
  node .access start [object, index]

/-- A template with an expression in front of it. -/
def taggedTemplate (start : Nat) (tag : Tree) : Parser Tree := do
  let (parts, _) ← template self
  node (.expression .member) start (instantiation tag ++ parts)

/-- Whether an optional access to a property begins here. -/
def startsOptionalAccess : Parser Bool := ahead do
  expect "?."
  match ← token with
  | .privateWord _ | .word _ _ => return true
  | _ => return (← isAt "[") && !(← get).context.isDecorator

/-- A chain with whether a link of it is optional. -/
abbrev Chain := Tree × Bool

/-- A chain with the access that follows it. -/
def nextAccess? (start : Nat) : Chain → Parser (Option Chain) := fun (t, isOptional) => do
  match ← token with
  | .template _ _ =>
      flawIf isOptional
      return some (← taggedTemplate self start t, isOptional)
  | .punctuator _ =>
      if ← eat "." then return some (← memberName start t, isOptional)
      else if ← startsOptionalAccess then
        advance
        if ← isAt "[" then return some (← memberIndex self start t, true)
        else return some (← memberName start t, true)
      else if (← isAt "[") && !(← get).context.isDecorator then
        return some (← memberIndex self start t, isOptional)
      else if (← isAt "!") && !(← isFresh) then
        advance
        return some (← node .nonNull start [t], isOptional)
      else match ← callTypeArguments? self with
        | some types => return some (← node .instantiated start (t :: types), isOptional)
        | none => return none
  | _ => return none

/-- A chain with the access or the call that follows it. -/
def nextLink? (start : Nat) : Chain → Parser (Option Chain) := fun (t, isOptional) => do
  match ← nextAccess? self start (t, isOptional) with
  | some chain => return some chain
  | none =>
      if ← isAt "(" then
        let found ← callArguments self
        return some (← node .call start (instantiation t ++ found), isOptional)
      else if ← eat "?." then
        match ← token with
        | .template _ _ =>
            flaw
            return some (← taggedTemplate self start t, true)
        | _ =>
            let types := (← callTypeArguments? self).getD []
            let found ← callArguments self
            return some (← node .call start (t :: (types ++ found)), true)
      else return none

/-- The expression that a chain is. -/
def Chain.close : Chain → Tree
  | (t, isOptional) => if isOptional then .node .chain t.span [t] else t

/-! ### Heads of a chain -/

/-- `new` with what it constructs. -/
def construction : Parser Tree := do
  let start ← place
  expectWord "new"
  if ← eat "." then
    expectWord "target"
    node (.expression .member) start []
  else
    let callee ← self .constructed
    flawIf (callee.form == .chain)
    let found ← if ← isAt "(" then callArguments self else pure []
    node (.expression .unary) start (instantiation callee ++ found)

/-- An import of a module by an expression, or the properties of this module. -/
def importExpression : Parser Tree := do
  let start ← place
  expectWord "import"
  if ← eat "." then
    expectWord "meta"
    node (.expression .member) start []
  else
    expect "("
    let parts ← within Context.inBrackets do
      let module ← self (.assignment true)
      if (← eat ",") && !(← isAt ")") then
        let options ← self (.assignment true)
        let _ ← eat ","
        return [module, options]
      else return [module]
    expect ")"
    node (.expression .member) start parts

/-- The first expression of a chain. -/
def chainHead : Parser Tree := do
  let start ← place
  if ← eatWord "super" then
    flawIf (!(← isAtAny [".", "[", "("]))
    node (.expression .member) start []
  else if ← isAtWord "import" then importExpression self
  else if ← isAtWord "new" then construction self
  else primary self

/-- A chain of accesses. -/
def accesses : Parser Tree := do
  let start ← place
  let first ← chainHead self
  return (← repeatWhile (nextAccess? self start) (first, false)).close

/-- A chain of accesses and calls. -/
def chain : Parser Tree := do
  let start ← place
  let first ← chainHead self
  return (← repeatWhile (nextLink? self start) (first, false)).close

end ComponentMigration.Script.Grammar
