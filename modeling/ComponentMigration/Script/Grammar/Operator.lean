import ComponentMigration.Script.Grammar.Access

/-!
Operators.

* **One operand.** `unary` reads an operand with what stands in front of it and the
  update operators on both sides.
* **Two operands.** `operand least` reads operands between operators that bind
  stronger than `least`. Operators of one strength group to the left, powers to the
  right.
* **Refused mixtures.** `??` is not mixed with `||` and `&&`, and a power has no base
  with an operator in front, unless parentheses tell them apart.
-/

namespace ComponentMigration.Script.Grammar

open Script.Parser

variable (self : Grammar)

/-! ### One operand -/

/-- Whether a name, a word or a literal follows the word here on its line. -/
def isFollowedByOperand : Parser Bool := ahead do
  advance
  let isOperand ← match ← token with
    | .word _ _ | .number _ | .string _ => pure true
    | _ => pure false
  return isOperand && !(← isFresh)

/-- Whether the word `await` stands here as an operator. -/
def startsAwait : Parser Bool := do
  if ← isAtWord "await" then
    if (← get).context.allowsAwait then return true else isFollowedByOperand
  else return false

/-- The expression as the target of an update. -/
def updateTarget (start : Nat) (e : Tree) : Parser Tree := do
  match toPlace? e with
  | some target => node (.expression .unary) start [target]
  | none => failure

/-- An operand with its update operator, if it has one. -/
def update : Parser Tree := do
  let start ← place
  if ← isAtAny ["++", "--"] then
    advance
    let e ← self .unary
    updateTarget start e
  else
    let e ← chain self
    if (← isAtAny ["++", "--"]) && !(← isFresh) then
      advance
      updateTarget start e
    else return e

/-- Whether an operator stands in front of an operand here. -/
def startsUnary : Parser Bool := do
  return (← isAtAny unaryOperators) || (← isAtAnyWord unaryWords) || (← startsAwait)

/-- An operand with the operators in front of it. -/
def unary : Parser Tree := do
  let start ← place
  if (← isAtAny unaryOperators) || (← isAtAnyWord unaryWords) then
    advance
    let e ← self .unary
    node (.expression .unary) start [e]
  else if ← startsAwait then
    flawIf (!(← get).context.allowsAwait)
    advance
    let e ← within (fun c => { c with allowsAwait := true }) (self .unary)
    node (.expression .unary) start [e]
  else if ← isAt "<" then
    if (← get).hasMarkup then self (.element false)
    else
      advance
      let t ← self .type
      expect ">"
      let e ← self .unary
      node (.expression .unary) start [t, e]
  else update self

/-! ### Two operands -/

/-- The class of an expression whose operator has this place. -/
def classOfRank (rank : Nat) : Precedence :=
  if rank = Rank.coalesce then .coalesce
  else if rank = Rank.logicalOr then .logicalOr
  else if rank = Rank.logicalAnd then .logicalAnd
  else .binary

/-- Whether an operator of this place goes on behind an operand that binds stronger
than `least`. -/
def goesOn (rank least : Nat) : Bool :=
  if rank = Rank.power then least ≤ rank else least < rank

/-- Whether an expression may not be an operand of `??`. -/
def isLogical (t : Tree) : Bool :=
  t.form == .expression .logicalOr || t.form == .expression .logicalAnd

/-- What is left of an operator, with whether an operator stands in front of it. -/
abbrev LeftOperand := Tree × Bool

/-- An operand with the operation that follows it. -/
def nextOperation? (start least : Nat) : LeftOperand → Parser (Option LeftOperand) :=
  fun (left, hasOperator) => do
    joinAngle
    match ← operatorRank? with
    | none => return none
    | some rank =>
        if !goesOn rank least then return none
        else if ← isAtAnyWord ["as", "satisfies"] then
          if ← isFresh then return none
          advance
          let t ← self .type
          return some (← node .cast start [left, t], false)
        else
          advance
          let right ← self (.operand rank)
          flawIf (rank == Rank.coalesce && (isLogical left || isLogical right))
          flawIf (rank == Rank.power && hasOperator)
          return some (← node (.expression (classOfRank rank)) start [left, right], false)

/-- A private name that is looked for in an object. -/
def privateTest : Parser Tree := do
  let start ← place
  advance
  expectWord "in"
  let object ← self (.operand Rank.comparison)
  node (.expression .binary) start [object]

/-- Operands between operators that bind stronger than `least`. -/
def operand (least : Nat) : Parser Tree := do
  let start ← place
  let hasOperator ← startsUnary
  let first ← match ← token with
    | .privateWord _ =>
        require (← get).context.allowsIn
        privateTest self
    | _ => unary self
  return (← repeatWhile (nextOperation? self start least) (first, hasOperator)).1

/-- A choice between two expressions, or the test alone. -/
def conditional (start : Nat) (test : Tree) (allowsReturnType : Bool) : Parser Tree := do
  if ← eat "?" then
    let yes ← within (fun c => { c with allowsIn := true }) (self (.assignment false))
    expect ":"
    let no ← self (.assignment allowsReturnType)
    node (.expression .conditional) start [test, yes, no]
  else return test

end ComponentMigration.Script.Grammar
