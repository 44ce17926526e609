import ComponentMigration.Script.Grammar.Type

/-!
Markup in expressions.

* **Elements.** `element` reads an element or a fragment with its children. The end
  tag has to repeat the name.
* **Names.** A tag is a reference if it does not begin with a lower-case ASCII
  letter and has no hyphen; of a tag with dots the first name is one.
* **Children.** Between tags the text is read as text, in braces as expressions.
-/

namespace ComponentMigration.Script.Grammar

open Script.Parser

variable (self : Grammar)

/-- A name in a tag. -/
def markupName : Parser Text := do
  require (← isAtName)
  asMarkupName
  name

/-- Whether a tag of this name refers to a value. -/
def isReferenceTag (w : Text) : Bool :=
  w.head?.any (fun c => !('a' ≤ c && c ≤ 'z')) && !w.contains '-'

/-- The name of an element: its text, and its parts. -/
def elementName : Parser (Text × List Tree) := do
  let start ← place
  let isThis ← isAtWord "this"
  let first ← markupName
  let head := Tree.node (.reference first .value none) ⟨start, (← get).lastStop⟩ []
  if ← eat ":" then
    let second ← markupName
    return (first ++ [':'] ++ second, [])
  if ← isAt "." then
    let path ← repeatWhile (fun (path : Text) => do
      if ← eat "." then
        let part ← name
        return some (path ++ ['.'] ++ part)
      else return none) first
    if isThis then return (path, []) else
      let tag ← node .other start [head]
      return (path, [tag])
  return (first, if isReferenceTag first then [head] else [])

/-- An expression in braces, up to the closing brace. -/
def embedded : Parser Tree := do
  let e ← within (fun c => { c with allowsIn := true }) (self .expression)
  flawIf (e.form == .expression .sequence)
  return e

/-- An attribute. -/
def tagAttribute : Parser (List Tree) := do
  if ← eat "\x7b" then
    expect "..."
    let e ← within (fun c => { c with allowsIn := true }) (self (.assignment true))
    expect "\x7d"
    return [e]
  let _ ← markupName
  if ← eat ":" then
    let _ ← markupName
  if ← isAt "=" then
    advanceToAttributeValue
    match ← token with
    | .string _ =>
        advance
        return []
    | _ =>
        if ← eat "\x7b" then
          if ← eat "\x7d" then
            flaw
            return []
          let e ← embedded self
          expect "\x7d"
          return [e]
        else
          require (← isAt "<")
          return [← self (.element false)]
  return []

/-- A child of an element. -/
def child : Parser (List Tree) := do
  match ← token with
  | .markupText =>
      advanceInMarkup
      return []
  | _ =>
      if ← eat "\x7b" then
        if ← isAt "\x7d" then
          advanceInMarkup
          return []
        let e ← if ← eat "..." then self (.assignment true) else embedded self
        expectInMarkup "\x7d"
        return [e]
      else
        require (← isAt "<")
        return [← self (.element true)]

/-- Whether an end tag stands here. -/
def isAtEndTag : Parser Bool := ahead do
  expect "<"
  isAt "/"

/-- The children up to the end tag. -/
def children : Parser (List Tree) := do
  let found ← repeatWhile (fun (found : List (List Tree)) => do
    if ← isAtEndTag then return none
    return some ((← child self) :: found)) []
  return found.reverse.flatten

/-- Passes the end of a tag. -/
def endTagMark (inMarkup : Bool) : Parser Unit :=
  if inMarkup then expectInMarkup ">" else expect ">"

/-- An element or a fragment. -/
def element (inMarkup : Bool) : Parser Tree := do
  let start ← place
  expect "<"
  if ← isAt ">" then
    advanceInMarkup
    let inner ← children self
    expect "<"
    expect "/"
    endTagMark inMarkup
    node (.expression .member) start inner
  else
    let (tag, head) ← elementName
    let types ← typeArguments? self
    let attributes ← repeatWhile (fun (found : List (List Tree)) => do
      if (← isAtAny [">", "/"]) || (← isAtEnd) then return none
      return some ((← tagAttribute self) :: found)) []
    let opening := head ++ types ++ attributes.reverse.flatten
    if ← eat "/" then
      endTagMark inMarkup
      node (.expression .member) start opening
    else
      expectInMarkup ">"
      let inner ← children self
      expect "<"
      expect "/"
      let (closingTag, tail) ← elementName
      flawIf (closingTag != tag)
      endTagMark inMarkup
      node (.expression .member) start (opening ++ inner ++ tail)

end ComponentMigration.Script.Grammar
