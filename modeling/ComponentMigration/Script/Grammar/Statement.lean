import ComponentMigration.Script.Grammar.Import

/-!
Statements.

* **Regions.** Blocks, loops, the body of a `switch` and `catch` clauses are scopes of
  their own.
* **Loops.** The head of a loop is read without `in` as an operator; what it begins
  with becomes a target when `in` or `of` follows.
* **Bodies.** `body` reads a statement that may not declare names of the block.
-/

namespace ComponentMigration.Script.Grammar

open Script.Parser

variable (self : Grammar)

/-! ### Parts of statements -/

/-- A block with its scope. -/
def blockStatement : Parser Tree := do
  let start ← place
  let statements ← block self
  node (.scope false) start statements

/-- An expression in parentheses that belong to the statement. -/
def parenthesized : Parser Tree := do
  expect "("
  let e ← within Context.inBrackets (self .expression)
  expect ")"
  return e

/-- Whether a declaration begins here that belongs to a block. -/
def startsBlockDeclaration : Parser Bool := do
  if ← isAtWord "const" then
    return !(← ahead do
      advance
      isAtWord "enum")
  if (← isAtWord "class") || (← isAt "@") then return true
  if (← startsLet) || (← startsUsing) || (← startsAwaitUsing) then return true
  if ← startsAsyncFunction then return true
  ahead do
    expectWord "function"
    isAt "*"

/-- A statement as the body of another one. -/
def body : Parser Tree := do
  flawIf (← startsBlockDeclaration)
  self .statement

/-! ### Branches -/

/-- A statement with a condition. -/
def ifStatement (start : Nat) : Parser Tree := do
  advance
  let test ← parenthesized self
  let yes ← body self
  let no ← if ← eatWord "else" then do pure [← body self] else pure []
  node .other start (test :: yes :: no)

/-- A case of a `switch`. -/
def switchCase : Parser (List Tree) := do
  let test ← if ← eatWord "default" then pure [] else do
      expectWord "case"
      pure [← self .expression]
  expect ":"
  let statements ← repeatWhile (fun (found : List Tree) => do
    if (← isAtAnyWord ["case", "default"]) || (← isAt "\x7d") then return none
    return some ((← self .statement) :: found)) []
  return test ++ statements.reverse

/-- A `switch`. -/
def switchStatement (start : Nat) : Parser Tree := do
  advance
  let subject ← parenthesized self
  let inner ← place
  expect "\x7b"
  let cases ← sequenceUntil "\x7d" (switchCase self)
  expect "\x7d"
  let region ← node (.scope false) inner cases
  node .other start [subject, region]

/-- The clause that handles an exception. -/
def catchClause : Parser (List Tree) := do
  let start ← place
  if ← eatWord "catch" then
    let parameter ← if ← eat "(" then do
        let p ← self (.pattern .value)
        let stated ← statedType? self
        expect ")"
        pure (p :: stated)
      else pure []
    let handler ← blockStatement self
    return [← node (.scope false) start (parameter ++ [handler])]
  else return []

/-- A `try` with its handlers. -/
def tryStatement (start : Nat) : Parser Tree := do
  advance
  let guarded ← blockStatement self
  let handler ← catchClause self
  let hasLast ← eatWord "finally"
  let last ← if hasLast then do pure [← blockStatement self] else pure []
  flawIf (handler.isEmpty && !hasLast)
  node .other start (guarded :: (handler ++ last))

/-! ### Loops -/

/-- A loop that tests before its body. -/
def whileStatement (start : Nat) : Parser Tree := do
  advance
  let test ← parenthesized self
  let repeated ← body self
  node .other start [test, repeated]

/-- A loop that tests behind its body. -/
def doStatement (start : Nat) : Parser Tree := do
  advance
  let repeated ← body self
  expectWord "while"
  let test ← parenthesized self
  let _ ← eat ";"
  node .other start [repeated, test]

/-- How the head of a loop begins. -/
inductive LoopHead where
  | nothing
  | declared (found : List Tree) (lacksValue : Bool)
  | expression (e : Tree)

/-- The parts of what a loop's head begins with. -/
def LoopHead.parts : LoopHead → List Tree
  | nothing => []
  | declared found _ => found
  | expression e => [e]

/-- The beginning of a loop's head. -/
def loopHead : Parser LoopHead :=
  within (fun c => { c with allowsIn := false }) do
    if ← isAt ";" then return .nothing
    if ← startsAwaitUsing then advance
    let isVariable ← if ← isAtWord "let" then ahead do
        advance
        return (← isAtIdentifier) || (← isAtAny ["[", "\x7b"])
      else if ← isAtWord "using" then startsUsing
      else isAtAnyWord ["var", "const"]
    if isVariable then
      let (found, lacksValue) ← variableList self
      return .declared found lacksValue
    else return .expression (← self .expression)

/-- The loop over a condition, behind the beginning of its head. -/
def countedLoop (head : LoopHead) : Parser (List Tree) := do
  match head with
  | .declared _ lacksValue => flawIf (lacksValue && !(← get).context.isAmbient)
  | _ => pure ()
  expect ";"
  let test ← if ← isAt ";" then pure [] else do
      pure [← within Context.inBrackets (self .expression)]
  expect ";"
  let step ← if ← isAt ")" then pure [] else do
      pure [← within Context.inBrackets (self .expression)]
  expect ")"
  let repeated ← body self
  return head.parts ++ test ++ step ++ [repeated]

/-- The beginning of a head as what the loop assigns to. -/
def LoopHead.target : LoopHead → Parser (List Tree)
  | .nothing => failure
  | .declared found _ => return found
  | .expression e => match toTarget? e with
    | some target => return [target]
    | none => failure

/-- A `for` loop. -/
def forStatement (start : Nat) : Parser Tree := do
  advance
  let isAwaited ← isAtWord "await"
  if isAwaited then
    flawIf (!(← get).context.allowsAwait)
    advance
  let inner ← place
  expect "("
  let isAsync ← isAtWord "async"
  let head ← loopHead self
  let parts ← if ← isAtWord "in" then
      flawIf isAwaited
      let target ← head.target
      advance
      let source ← within Context.inBrackets (self .expression)
      expect ")"
      let repeated ← body self
      pure (target ++ [source, repeated])
    else if ← isAtWord "of" then
      let target ← head.target
      flawIf (isAsync && !isAwaited && target.length == 1 &&
        target.all (·.form == .reference "async" .value none))
      advance
      let source ← within Context.inBrackets (self (.assignment true))
      expect ")"
      let repeated ← body self
      pure (target ++ [source, repeated])
    else
      flawIf isAwaited
      countedLoop self head
  let region ← node (.scope false) inner parts
  node .other start [region]

/-! ### Jumps -/

/-- Whether a statement ends here. -/
def isAtStatementEnd : Parser Bool := do
  return (← isAtAny [";", "\x7d"]) || (← isAtEnd) || (← isFresh)

/-- A statement that leaves a function. -/
def returnStatement (start : Nat) : Parser Tree := do
  flawIf (!(← get).context.allowsReturn)
  advance
  let value ← if ← isAtStatementEnd then pure [] else do
      pure [← within Context.inBrackets (self .expression)]
  endStatement
  node .other start value

/-- A statement that raises an exception. -/
def throwStatement (start : Nat) : Parser Tree := do
  advance
  flawIf (← isFresh)
  let e ← self .expression
  endStatement
  node .other start [e]

/-- A statement that leaves or repeats a loop. -/
def jumpStatement (start : Nat) : Parser Tree := do
  advance
  unless ← isAtStatementEnd do
    let _ ← identifier
  endStatement
  node .other start []

/-! ### Statements -/

/-- An expression as a statement, or a statement behind a label. -/
def expressionStatement : Parser Tree := do
  let start ← place
  let e ← self .expression
  let isName := match e.form with
    | .reference _ _ _ => true
    | _ => false
  if isName && (← isAt ":") then
    advance
    let labelled ← body self
    node .other start [labelled]
  else
    endStatement
    node .other start [e]

/-- A declaration behind decorators. -/
def decoratedStatement : Parser Tree := do
  let start ← place
  let marks ← decorators self
  if ← isAtWord "export" then exportDeclaration self start marks
  else
    require ((← isAtWord "class") || (← startsTypedDeclaration))
    declaration self start marks

/-- A statement that begins with a word of its own. -/
def keywordStatement? (start : Nat) (word : String) : Option (Parser Tree) :=
  match word with
  | "if" => some (ifStatement self start)
  | "switch" => some (switchStatement self start)
  | "try" => some (tryStatement self start)
  | "while" | "with" => some (whileStatement self start)
  | "do" => some (doStatement self start)
  | "for" => some (forStatement self start)
  | "return" => some (returnStatement self start)
  | "throw" => some (throwStatement self start)
  | "break" | "continue" => some (jumpStatement start)
  | "debugger" => some do
      advance
      endStatement
      node .other start []
  | "var" | "const" | "class" | "function" | "enum" => some (declaration self start [])
  | "export" => some (exportDeclaration self start [])
  | _ => none

/-- A statement that begins with a word. -/
def wordStatement (word : String) : Parser Tree := do
  let start ← place
  match keywordStatement? self start word with
  | some p => p
  | none =>
      if word == "import" && !(← startsImportExpression) then
        advance
        importDeclaration start
      else if (← startsLet) || (← startsUsing) || (← startsAwaitUsing) then
        declarationHere self start []
      else if (← startsAsyncFunction) || (← startsTypedDeclaration) then
        declaration self start []
      else expressionStatement self

/-- A statement. -/
def statement : Parser Tree := do
  let start ← place
  match ← token with
  | .word w false => wordStatement self (String.ofList w)
  | .punctuator _ =>
      if ← isAt "\x7b" then blockStatement self
      else if ← eat ";" then node .other start []
      else if ← isAt "@" then decoratedStatement self
      else expressionStatement self
  | _ => expressionStatement self

end ComponentMigration.Script.Grammar
