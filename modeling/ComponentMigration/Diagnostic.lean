import ComponentMigration.Location

/-!
Diagnostics: why a migration stops, and where.

* **Causes.** `Cause` has one constructor for each reason. `Cause.code` is its
  stable code, `Cause.message` its wording, and `guaranteeOf` the law that a
  code says was broken.
* **Diagnostics.** A `Diagnostic` adds the file, the location, the source text
  concerned and the hints. `display` is its one-line form.
* **Failures.** `Failure` adds the one way to stop that is no diagnostic: an
  offset inside a character.
-/

namespace ComponentMigration

/-! ### Codes and guarantees -/

namespace Code

def unsupportedNode : Text := "MIG-ERR-NODE-001"
def orphanBranch : Text := "MIG-ERR-CHAIN-001"
def bindWithoutArgument : Text := "MIG-ERR-BIND-001"
def onWithoutArgument : Text := "MIG-ERR-ON-001"
def objectIteration : Text := "MIG-ERR-FOR-001"
def malformedFor : Text := "MIG-ERR-FOR-002"
def rangeIteration : Text := "MIG-ERR-FOR-003"
def unknownDirective : Text := "MIG-ERR-DIR-001"
def modifiers : Text := "MIG-ERR-DIR-002"
def dynamicBinding : Text := "MIG-ERR-DIR-003"
def invalidExpression : Text := "MIG-ERR-EXPR-001"
def templateSyntax : Text := "MIG-ERR-PARSE-001"
def scriptSyntax : Text := "MIG-ERR-SCRIPT-001"
def chainedAssignment : Text := "MIG-ERR-SCRIPT-002"
def defaultImport : Text := "MIG-ERR-IMPORT-001"
def overlappingEdits : Text := "MIG-ERR-PATCH-001"
def readFailed : Text := "MIG-ERR-IO-001"

end Code

/-- The laws, each with the code that reports its breach. -/
def guarantees : List (Text × Text) := [
  (Code.unsupportedNode, "Only elements, text and comments are translated."),
  (Code.orphanBranch, "v-else-if and v-else directly follow a v-if sibling."),
  (Code.bindWithoutArgument, "Every v-bind names the attribute it binds."),
  (Code.onWithoutArgument, "Every v-on names the event it listens to."),
  (Code.objectIteration, "v-for iterates arrays with at most (value, key) aliases."),
  (Code.malformedFor, "v-for reads `alias in source`."),
  (Code.rangeIteration, "v-for sources are arrays, never numeric ranges."),
  (Code.unknownDirective, "Unknown directives abort the translation instead of being dropped."),
  (Code.modifiers, "Directive modifiers abort the translation instead of being dropped."),
  (Code.dynamicBinding, "Bound attribute names are static."),
  (Code.invalidExpression, "Directive values are valid expressions."),
  (Code.templateSyntax, "Templates are well-formed markup."),
  (Code.scriptSyntax, "Scripts are valid TypeScript/JSX."),
  (Code.chainedAssignment, "A state write is a statement; its value is never read."),
  (Code.defaultImport, "Only named imports are tracked."),
  (Code.overlappingEdits, "Source edits never overlap."),
  (Code.readFailed, "Component files are readable UTF-8 text.")]

/-- The law whose breach a code reports. -/
def guaranteeOf (code : Text) : Text := (guarantees.lookup code).getD "Unknown invariant."

/-! ### Causes -/

/-- Why a text is no expression. -/
inductive ExpressionFault where
  | nothing
  | unreadable (code : Text)
  deriving DecidableEq, Repr

/-- The wording of an expression fault. -/
def ExpressionFault.message : ExpressionFault → Text
  | .nothing => "expected an expression, found nothing"
  | .unreadable code => "Failed to parse source text \"" ++ code ++ "\""

/-- Why a migration stops. -/
inductive Cause where
  /-- A markup node of a kind that has no counterpart in the output. -/
  | unsupportedNode (kind source : Text)
  /-- A continuing branch without a `v-if` sibling before it. -/
  | orphanBranch (directive : Text)
  /-- Two conditional directives on one element. -/
  | rivalBranches (first second : Text)
  | bindWithoutArgument
  | onWithoutArgument
  | objectIteration
  | malformedFor (expression : Text)
  | missingForBinding
  | rangeIteration
  | unknownDirective (name : Text)
  | modifiers (names : List Text)
  | dynamicArgument
  | dynamicComponent
  | invalidExpression (fault : ExpressionFault)
  | unclosedComment
  | unclosedInterpolation
  | unclosedStartTag (tag : Text)
  | missingEndTag (tag : Text)
  | unexpectedEndTag (tag : Text)
  | mismatchedEndTag (tag openTag : Text)
  | missingAttributeName
  | unclosedAttributeValue
  | scriptSyntax
  | chainedAssignment
  | defaultImport
  | overlappingEdit (start stop : Nat)
  | unreadableFile
  /-- A cause that the caller states in words of its own. -/
  | stated (code message : Text)
  deriving DecidableEq, Repr

namespace Cause

/-- The stable code of a cause. -/
def code : Cause → Text
  | unsupportedNode _ _ => Code.unsupportedNode
  | orphanBranch _ | rivalBranches _ _ => Code.orphanBranch
  | bindWithoutArgument => Code.bindWithoutArgument
  | onWithoutArgument => Code.onWithoutArgument
  | objectIteration => Code.objectIteration
  | malformedFor _ | missingForBinding => Code.malformedFor
  | rangeIteration => Code.rangeIteration
  | unknownDirective _ => Code.unknownDirective
  | modifiers _ => Code.modifiers
  | dynamicArgument | dynamicComponent => Code.dynamicBinding
  | invalidExpression _ => Code.invalidExpression
  | unclosedComment | unclosedInterpolation | unclosedStartTag _ | missingEndTag _
  | unexpectedEndTag _ | mismatchedEndTag _ _ | missingAttributeName
  | unclosedAttributeValue => Code.templateSyntax
  | scriptSyntax => Code.scriptSyntax
  | chainedAssignment => Code.chainedAssignment
  | defaultImport => Code.defaultImport
  | overlappingEdit _ _ => Code.overlappingEdits
  | unreadableFile => Code.readFailed
  | stated code _ => code

/-- The wording of a cause. -/
def message : Cause → Text
  | unsupportedNode kind source => "Unsupported node kind " ++ kind ++ " (" ++ source ++ ")"
  | orphanBranch directive => "v-" ++ directive ++ " should be a sibling of v-if"
  | rivalBranches first second =>
      "v-" ++ first ++ " and v-" ++ second ++ " cannot be used on the same element"
  | bindWithoutArgument => "v-bind=\"...\" syntax is not implemented"
  | onWithoutArgument => "v-on=\"...\" syntax is not supported"
  | objectIteration => "object iteration is not supported"
  | malformedFor expression => "v-for has invalid expression \"" ++ expression ++ "\""
  | missingForBinding => "v-for has no parsed binding"
  | rangeIteration => "range iteration is not supported"
  | unknownDirective name => "Unsupported directive " ++ name
  | modifiers names =>
      "Directive modifiers are not supported (." ++ Text.join "." names ++ ")"
  | dynamicArgument => "Dynamic directive arguments are not supported"
  | dynamicComponent => "Dynamic components (:is) are not supported"
  | invalidExpression fault => fault.message
  | unclosedComment => "Comment is not closed"
  | unclosedInterpolation => "Interpolation is not closed"
  | unclosedStartTag tag => "Start tag <" ++ tag ++ "> is not closed"
  | missingEndTag tag => "Element <" ++ tag ++ "> is missing its end tag"
  | unexpectedEndTag tag => "Unexpected end tag </" ++ tag ++ ">"
  | mismatchedEndTag tag openTag =>
      "Unexpected end tag </" ++ tag ++ "> while <" ++ openTag ++ "> is open"
  | missingAttributeName => "Expected an attribute name"
  | unclosedAttributeValue => "Attribute value is not closed"
  | scriptSyntax => "Failed to parse script"
  | chainedAssignment => "the value of a state assignment cannot be reused"
  | defaultImport => "tracking a default import is not implemented"
  | overlappingEdit start stop =>
      "Edit " ++ Text.ofNat start ++ ".." ++ Text.ofNat stop ++ " overlaps a previous edit"
  | unreadableFile => "Failed to read file: stream did not contain valid UTF-8"
  | stated _ message => message

end Cause

/-! ### Diagnostics -/

/-- Why a migration stops, and where. -/
structure Diagnostic where
  cause : Cause
  /-- The file concerned; empty until it is known. -/
  file : Text
  location : Location
  /-- The source text concerned. -/
  context : Option Text
  hints : List Text
  deriving DecidableEq, Repr

namespace Diagnostic

/-- A diagnostic about no particular place. -/
def bare (cause : Cause) (file : Text) : Diagnostic := ⟨cause, file, .unknown, none, []⟩

/-- A diagnostic about a piece of markup, whose file is not yet known. -/
def atSource (cause : Cause) (location : Location) (source : Text) : Diagnostic :=
  ⟨cause, [], location, some source, []⟩

/-- The diagnostic with one more hint. -/
def withHint (d : Diagnostic) (hint : Text) : Diagnostic :=
  { d with hints := d.hints ++ [hint] }

/-- The diagnostic with its file filled in; a file already known stays. -/
def inFile (d : Diagnostic) (file : Text) : Diagnostic :=
  if d.file = [] then { d with file := file } else d

/-- The law that was broken. -/
def guarantee (d : Diagnostic) : Text := guaranteeOf d.cause.code

/-- The one-line form. -/
def display (d : Diagnostic) : Text :=
  "[" ++ d.cause.code ++ "] " ++ d.cause.message ++ " (" ++ d.file ++ ":" ++
    Text.ofNat d.location.line.toNat ++ ":" ++ Text.ofNat d.location.column.toNat ++ ")"

end Diagnostic

/-- The ways in which a migration stops early. -/
inductive Failure where
  | diagnosed (diagnostic : Diagnostic)
  /-- A text was to be cut inside a character. -/
  | insideCharacter
  deriving DecidableEq, Repr

/-- The failure with the file of its diagnostic filled in. -/
def Failure.inFile (f : Failure) (file : Text) : Failure :=
  match f with
  | .diagnosed d => .diagnosed (d.inFile file)
  | .insideCharacter => .insideCharacter

end ComponentMigration
