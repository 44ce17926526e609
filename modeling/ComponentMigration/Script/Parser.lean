import ComponentMigration.Script.Lexeme
import ComponentMigration.Script.Tree

/-!
Parsers of scripts.

* **State.** A parser sees one token. `State` holds that token with its offsets,
  the text from the token on, and the text behind it. A parser fails where it
  cannot go on; where it can, it marks the text as flawed and does.
* **Choice.** `attempt` and `ahead` leave the state as it was, the mark included,
  when what they try does not hold.
* **Nesting.** The grammar is written against a `Grammar`, which parses what is
  nested inside: a `Goal` says what. `Goal` lists exactly the constructs through
  which the grammar recurs.
* **Repetition.** `repeatWhile` repeats a step as often as the text is long at
  most, which is enough for steps that take a token each.
-/

namespace ComponentMigration.Script

/-- What the surrounding construct allows. -/
structure Context where
  /-- Whether `in` is an operator. -/
  allowsIn : Bool := true
  /-- Whether `yield` is an operator. -/
  allowsYield : Bool := false
  /-- Whether `await` is an operator. -/
  allowsAwait : Bool := true
  /-- Whether a function may return here. -/
  allowsReturn : Bool := true
  /-- Whether a type may be conditional. -/
  allowsConditional : Bool := true
  /-- Whether the expression is a decorator. -/
  isDecorator : Bool := false
  /-- Whether declarations have no implementation. -/
  isAmbient : Bool := false
  deriving Repr, Inhabited

/-- How far a script has been read. -/
structure State where
  token : Token
  /-- The offset of the token. -/
  start : Nat
  /-- The offset behind the token. -/
  stop : Nat
  /-- Whether a line ended in front of the token. -/
  isFresh : Bool
  /-- The text from the token on. -/
  here : Text
  /-- The text behind the token. -/
  rest : Text
  /-- The offset behind the token before. -/
  lastStop : Nat
  /-- Whether a fault was passed over. -/
  isFlawed : Bool
  /-- Whether markup counts as an expression. -/
  hasMarkup : Bool
  context : Context
  /-- How often a step may be repeated. -/
  bound : Nat
  deriving Repr

/-- A parser. -/
abbrev Parser := StateT State Option

/-- What can be nested inside a construct. -/
inductive Goal where
  | expression
  /-- An expression without a comma; `allowsReturnType` when an arrow function in it
  may state its return type. -/
  | assignment (allowsReturnType : Bool)
  /-- An operand of operators that bind stronger than `least`. -/
  | operand (least : Nat)
  /-- An operand of a unary operator. -/
  | unary
  /-- An operand of an update operator. -/
  | updated
  /-- What `new` calls. -/
  | constructed
  | type
  /-- A type without a union, an intersection or a condition around it. -/
  | operatorType
  /-- A pattern whose names are declared like this. -/
  | pattern (binder : Binder)
  | statement
  /-- An element of markup; `inMarkup` when markup follows it. -/
  | element (inMarkup : Bool)
  deriving Repr

/-- A parser for everything that can be nested. -/
abbrev Grammar := Goal → Parser Tree

namespace State

/-- The state in front of the token at the head of a text. -/
def load (s : State) (text : Text) (offset : Nat) (lexeme : Lexeme) (isFresh : Bool) : State :=
  { s with
    token := lexeme.token
    start := offset
    stop := offset + lexeme.size
    isFresh := isFresh
    here := text
    rest := lexeme.rest
    isFlawed := s.isFlawed || lexeme.token == .invalid }

/-- The state in front of the next token. -/
def next (s : State) : State :=
  let (text, offset, isFresh, isClosed) := skipTrivia .space false s.stop s.rest
  let s' := { s with lastStop := s.stop, isFlawed := s.isFlawed || !isClosed }
  s'.load text offset (Lexeme.read text) isFresh

/-- The state with its token read again, as another token at the same place. -/
def reload (s : State) (lexeme : Lexeme) : State := s.load s.here s.start lexeme s.isFresh

/-- The length of an interpreter line at the head of a text. -/
def interpreterLine (text : Text) : Text :=
  if Text.startsWith text ['#', '!'] then text.takeWhile (!isLineEnd ·) else []

/-- The state in front of the first token behind some text. -/
def first (before text : Text) (hasMarkup : Bool) : State :=
  next {
    token := .endOfText, start := 0, stop := Text.byteLength before, isFresh := false,
    here := text, rest := text, lastStop := 0, isFlawed := false, hasMarkup := hasMarkup,
    context := {}, bound := (before ++ text).length + 1 }

/-- The state in front of the first token of a text. -/
def ofText (text : Text) (hasMarkup : Bool) : State :=
  let line := interpreterLine text
  first line (text.drop line.length) hasMarkup

end State

namespace Parser

/-! ### Choice and repetition -/

/-- The result, or nothing and the state as it was. -/
def attempt {α : Type} (p : Parser α) : Parser (Option α) := fun s =>
  match p s with
  | some (a, s') => some (some a, s')
  | none => some (none, s)

/-- Whether the test succeeds from here; the state stays as it was. -/
def ahead (p : Parser Bool) : Parser Bool := fun s =>
  match p s with
  | some (b, _) => some (b, s)
  | none => some (false, s)

/-- The test as a condition for going on. -/
def require (b : Bool) : Parser Unit := if b then pure () else failure

/-- Marks the text as flawed. -/
def flaw : Parser Unit := modify fun s => { s with isFlawed := true }

/-- Marks the text as flawed if the condition holds. -/
def flawIf (b : Bool) : Parser Unit := if b then flaw else pure ()

/-- The step repeated at most `n` times, as long as it answers `some`. -/
def repeatUpTo {α : Type} (step : α → Parser (Option α)) : Nat → α → Parser α
  | 0, _ => failure
  | n + 1, a => do
      match ← step a with
      | some a' => repeatUpTo step n a'
      | none => pure a

/-- The step repeated as long as it answers `some`. -/
def repeatWhile {α : Type} (step : α → Parser (Option α)) (a : α) : Parser α := do
  repeatUpTo step (← get).bound a

/-- The parser with the context changed for it alone. -/
def within {α : Type} (change : Context → Context) (p : Parser α) : Parser α := do
  let outer := (← get).context
  modify fun s => { s with context := change s.context }
  let a ← p
  modify fun s => { s with context := outer }
  return a

/-! ### Tokens -/

def token : Parser Token := return (← get).token

/-- The offset of the token. -/
def place : Parser Nat := return (← get).start

/-- Whether a line ended in front of the token. -/
def isFresh : Parser Bool := return (← get).isFresh

/-- Goes on to the next token. -/
def advance : Parser Unit := modify State.next

/-- Whether the token is this punctuator. -/
def isAt (p : Text) : Parser Bool := return (← get).token == .punctuator p

/-- Whether the token is one of these punctuators. -/
def isAtAny (ps : List Text) : Parser Bool := do
  match (← get).token with
  | .punctuator p => return ps.contains p
  | _ => return false

/-- Whether the token is this word. -/
def isAtWord (w : Text) : Parser Bool := return (← get).token == .word w false

/-- Whether the token is one of these words. -/
def isAtAnyWord (ws : List Text) : Parser Bool := do
  match (← get).token with
  | .word w false => return ws.contains w
  | _ => return false

/-- Whether the text is at its end. -/
def isAtEnd : Parser Bool := return (← get).token == .endOfText

/-- Passes this punctuator if it is here. -/
def eat (p : Text) : Parser Bool := do
  if ← isAt p then advance; return true else return false

/-- Passes this word if it is here. -/
def eatWord (w : Text) : Parser Bool := do
  if ← isAtWord w then advance; return true else return false

/-- Passes this punctuator, which has to be here. -/
def expect (p : Text) : Parser Unit := do require (← eat p)

/-- Passes this word, which has to be here. -/
def expectWord (w : Text) : Parser Unit := do require (← eatWord w)

/-- Ends a statement: at a semicolon, or where one can be left out. -/
def endStatement : Parser Unit := do
  unless ← eat ";" do
    require ((← isAt "\x7d") || (← isAtEnd) || (← isFresh))

/-! ### Tokens that depend on their place -/

/-- Reads a slash as the start of a regular expression. -/
def asRegex : Parser Unit := modify fun s => s.reload (Lexeme.regex s.here)

/-- Reads a closing brace as the end of a substitution in a template. -/
def asTemplateRest : Parser Unit := modify fun s => s.reload (Lexeme.templateRest (s.here.drop 1))

/-- The operators that begin with a closing angle bracket. -/
def angleOperators : List Text := [">>>=", ">>>", ">>=", ">>", ">="]

/-- Reads a closing angle bracket as the longest operator it begins. -/
def joinAngle : Parser Unit := modify fun s =>
  if s.token == .punctuator [ '>' ] then
    match angleOperators.find? (Text.startsWith s.here ·) with
    | some p => s.reload ⟨.punctuator p, p.length, s.here.drop p.length⟩
    | none => s
  else s

/-- Reads a left shift as an opening angle bracket. -/
def splitAngle : Parser Unit := modify fun s =>
  if s.token == .punctuator [ '<', '<' ] then
    s.reload ⟨.punctuator [ '<' ], 1, s.here.drop 1⟩
  else s

/-- Goes on to what follows among the children of markup. -/
def advanceInMarkup : Parser Unit := modify fun s =>
  ({ s with lastStop := s.stop }).load s.rest s.stop (Lexeme.markupChild s.rest) false

/-- Reads a word as a name in a tag. -/
def asMarkupName : Parser Unit := modify fun s => s.reload (Lexeme.markupName s.here)

/-- Goes on to the value of an attribute. -/
def advanceToAttributeValue : Parser Unit := modify fun s =>
  match Lexeme.markupString? s.rest with
  | some lexeme => ({ s with lastStop := s.stop }).load s.rest s.stop lexeme false
  | none => s.next

/-- Passes this punctuator in front of the children of markup. -/
def expectInMarkup (p : Text) : Parser Unit := do
  require (← isAt p)
  advanceInMarkup

/-! ### Names -/

/-- Whether the word can be an identifier here. -/
def isIdentifierWord (w : Text) : Bool := !isReserved w

/-- Whether the token is an identifier. -/
def isAtIdentifier : Parser Bool := do
  match (← get).token with
  | .word w _ => return isIdentifierWord w
  | _ => return false

/-- Whether the token is a word of any kind. -/
def isAtName : Parser Bool := do
  match (← get).token with
  | .word _ _ => return true
  | _ => return false

/-- Passes an identifier. `await` and `yield` are none where they are operators. -/
def identifier : Parser Text := do
  match (← get).token with
  | .word w _ =>
      require (isIdentifierWord w)
      flawIf (w == "await".toList && (← get).context.allowsAwait)
      flawIf (w == "yield".toList && (← get).context.allowsYield)
      advance
      return w
  | _ => failure

/-- Passes a word of any kind. -/
def name : Parser Text := do
  match (← get).token with
  | .word w _ =>
      advance
      return w
  | _ => failure

/-! ### Nodes -/

/-- A node from `start` to the end of the last token. -/
def node (form : Form) (start : Nat) (parts : List Tree) : Parser Tree :=
  return .node form ⟨start, (← get).lastStop⟩ parts

/-- A name that is declared. -/
def bindingName (binder : Binder) : Parser Tree := do
  let start ← place
  let w ← identifier
  node (.binding w binder none) start []

/-- A name that is used. -/
def referenceName (space : Space) : Parser Tree := do
  let start ← place
  let w ← identifier
  node (.reference w space none) start []

/-- Elements between separators up to a closing punctuator, which is not passed; and
whether a separator stands before it. -/
def separated (close separator : Text) (element : Parser Tree) : Parser (List Tree × Bool) := do
  if ← isAt close then return ([], false)
  let first ← element
  let (elements, isTrailing) ← repeatWhile (fun (elements, isTrailing) => do
    if isTrailing then return none
    if ← isAt close then return none
    expect separator
    if ← isAt close then return some (elements, true)
    return some ((← element) :: elements, false)) ([first], false)
  return (elements.reverse, isTrailing)

/-- Elements up to a closing punctuator, which is not passed. -/
def sequenceUntil (close : Text) (element : Parser (List Tree)) : Parser (List Tree) := do
  let elements ← repeatWhile (fun elements => do
    if (← isAt close) || (← isAtEnd) then return none
    return some ((← element) :: elements)) []
  return elements.reverse.flatten

end Parser

end ComponentMigration.Script
