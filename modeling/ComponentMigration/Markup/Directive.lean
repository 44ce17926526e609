import ComponentMigration.Diagnostic
import ComponentMigration.Markup.ForBinding
import ComponentMigration.Text.CaseFold

/-!
Reading the name of an attribute as a directive.

* **Which names.** `isDirectiveName` tells directives from plain attributes:
  `v-` with a letter, a digit or a hyphen, or one of the shorthand marks `:`,
  `.`, `@` and `#`.
* **Parts.** `NameParts.ofText` cuts a name into the explicit directive name, the
  argument and the tail that holds the modifiers. An argument in square brackets
  may contain dots; any other argument ends at a dot.
* **Properties.** `Property.ofRaw` makes the property of a raw attribute.
-/

namespace ComponentMigration.Markup

/-! ### Names -/

/-- Whether an attribute of this name is a directive. -/
def isDirectiveName : Text → Bool
  | 'v' :: '-' :: c :: _ => Text.isLetter c || Text.isDigit c || c == '-'
  | c :: _ => c == ':' || c == '.' || c == '@' || c == '#'
  | [] => false

/-- A name cut into its parts. -/
structure NameParts where
  explicit : Option Text
  argument : Option Text
  tail : Text
  deriving DecidableEq, Repr

/-- The argument in square brackets at the head of a text, and what follows. -/
def bracketed? : Text → Option (Text × Text)
  | '[' :: t =>
      let inner := t.takeWhile (· != ']')
      match t.dropWhile (· != ']') with
      | ']' :: rest => if inner = [] then none else some ('[' :: (inner ++ [']']), rest)
      | _ => none
  | _ => none

/-- The argument at the head of a text, and what follows. -/
def argument? (t : Text) : Option (Text × Text) :=
  match bracketed? t with
  | some r => some r
  | none =>
      if t.takeWhile (· != '.') = [] then none
      else some (t.takeWhile (· != '.'), t.dropWhile (· != '.'))

/-- The argument and the tail of what follows the explicit name. A colon opens an
argument anywhere, the other marks only at the head of the whole name. -/
def NameParts.ofRest (explicit : Option Text) (rest : Text) : NameParts :=
  match rest with
  | mark :: t =>
      if mark = ':' ∨ (explicit = none ∧ (mark = '.' ∨ mark = '@' ∨ mark = '#')) then
        match argument? t with
        | some (argument, tail) => ⟨explicit, some argument, tail⟩
        | none => ⟨explicit, none, rest⟩
      else ⟨explicit, none, rest⟩
  | [] => ⟨explicit, none, []⟩

/-- The parts of a name. -/
def NameParts.ofText (name : Text) : NameParts :=
  match name with
  | 'v' :: '-' :: t =>
      if t.takeWhile Text.isHyphenWordChar = [] then NameParts.ofRest none name
      else NameParts.ofRest (some (t.takeWhile Text.isHyphenWordChar))
        (t.dropWhile Text.isHyphenWordChar)
  | _ => NameParts.ofRest none name

/-- The directive a shorthand mark stands for. -/
def shorthandName : Text → Text
  | ':' :: _ | '.' :: _ => "bind"
  | '@' :: _ => "on"
  | _ => "slot"

/-! ### Properties -/

/-- The argument without its square brackets, and whether it had them. -/
def unbracketed (argument : Text) : Text × Bool :=
  if argument.head? = some '[' ∧ argument.getLast? = some ']' ∧ 2 ≤ argument.length then
    (argument.tail.dropLast, true)
  else (argument, false)

/-- The directive of a raw attribute. -/
def Directive.ofRaw (name : Text) (expression : Option Text) (location : Location)
    (source : Text) : Except Diagnostic Directive :=
  let parts := NameParts.ofText name
  let directive := parts.explicit.getD (shorthandName name)
  let argument := parts.argument.map unbracketed
  let written := (Text.splitOn '.' parts.tail).filter (· ≠ [])
  let modifiers := if name.head? = some '.' then ("prop" : Text) :: written else written
  let read (binding : Option ForBinding) : Directive :=
    ⟨directive, argument.map (·.1), (argument.map (·.2)).getD false, expression, modifiers,
      binding, location, source⟩
  if directive = "for".toList then
    match ForBinding.read? (expression.getD []) with
    | some binding => .ok (read (some binding))
    | none => .error
        ⟨.malformedFor (expression.getD []), [], location, some source,
          ["Use `item in items` or `(item, index) in items`."]⟩
  else .ok (read none)

/-- The property of a raw attribute. -/
def Property.ofRaw (name : Text) (value : Option Text) (location : Location) (source : Text) :
    Except Diagnostic Property :=
  if isDirectiveName name then (Directive.ofRaw name value location source).map .directive
  else .ok (.plain ⟨name, value, location⟩)

end ComponentMigration.Markup
