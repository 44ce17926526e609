import ComponentMigration.Jsx.Printer
import ComponentMigration.Lowering.Tree
import ComponentMigration.Migration
import ComponentMigration.SingleFile

/-!
Migrating components.

* **Templates.** `migrateTemplate` lowers a template and prints it as an expression.
* **Imports.** `hoistImports` cuts the imports out of a script; all else stays in
  order.
* **Components.** `migrateComponent` makes a function of a single-file component. Its
  body is the script, its result the template; its imports stand in front of it. The
  state variables of the function are then moved to hooks.
-/

namespace ComponentMigration

/-- The expression that a template is lowered to. -/
def migrateTemplate (template : Text) (o : Options) : Except Diagnostic Text := do
  let nodes ← Markup.parseFile template o.filePath
  let output ← (Lowering.root nodes).mapError (·.inFile o.filePath)
  return output.code

/-! ### Imports -/

/-- The spans of a text from `cursor` on, and the gaps between them: one gap in front of
each span and one behind the last. -/
def cutSpans? (text : Text) (cursor : Nat) : List Script.Span → Option (List Text × List Text)
  | [] => (text.dropBytes? cursor).map fun rest => ([], [rest])
  | s :: ss => do
      let gap ← text.slice? cursor s.start
      let found ← text.slice? s.start s.stop
      let (others, gaps) ← cutSpans? text s.stop ss
      return (found :: others, gap :: gaps)

/-- The imports of a script on lines of their own, and the rest of the script. -/
def Script.Program.hoistImports (p : Script.Program) (source : Text) :
    Except Failure (Text × Text) :=
  match cutSpans? source 0 (p.imports.map (·.span)) with
  | some (found, gaps) => .ok (Text.join ['\n'] found, gaps.flatten)
  | none => .error .insideCharacter

/-- The imports and the rest of the script of a file; a blank script has neither. -/
def hoistImports (source file : Text) : Except Failure (Text × Text) :=
  if Text.isBlankText source then .ok ([], [])
  else do
    let p ← Script.Program.ofFile source file
    p.hoistImports source

/-! ### Components -/

/-- A part of a component with a blank line behind it; an empty part is left out. -/
def paragraph (part : Text) : Text := if part = [] then [] else part ++ "\n\n"

/-- The function component of a name, with its imports, its body and its result. -/
def composeComponent (imports name body result : Text) : Text :=
  paragraph imports ++ "export default function " ++ name ++ "() \x7b\n" ++
    paragraph (Text.trim body) ++ "return (" ++ result ++ ");\n\x7d\n"

/-- The result of a component without markup. -/
def emptyResult : Text := "null"

/-- The migration of a single-file component. -/
def migrateComponent (source : Text) (o : Options) : Except Failure Migration := do
  let blocks := SingleFile.Blocks.ofText source
  let result ← match blocks.template with
    | some template =>
        if Text.isBlankText template then pure emptyResult
        else (migrateTemplate template o).mapError Failure.diagnosed
    | none => pure emptyResult
  let script := (blocks.script.map (·.content)).getD []
  let (imports, body) ← hoistImports script o.filePath
  migrateScript (composeComponent imports o.componentIdentifier body result) o

end ComponentMigration
