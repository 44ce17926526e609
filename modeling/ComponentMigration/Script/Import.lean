import ComponentMigration.Diagnostic
import ComponentMigration.Patch
import ComponentMigration.Script.Scope

/-!
The imports of a script.

* **Looking up.** `findImported` is what a name of a module is imported as. Of several
  imports the last counts; those of types do not, and a default import is refused.
* **Adding.** `addImports` records an edit that makes names importable. It extends a
  declaration that takes names from the module, or a lone default import, and else
  writes a declaration of its own behind the last one.
* **Requests.** `Requests` is a set of names to import, kept in order of module and
  name.
-/

namespace ComponentMigration.Script

/-! ### Import declarations -/

/-- What a specifier takes from a module. -/
inductive Taken where
  /-- An export by its name; `isType` when only its type is meant. -/
  | named (name : Text) (isType : Bool)
  | defaultExport
  | everything
  deriving DecidableEq, Repr

/-- A specifier of an import declaration. -/
structure Specifier where
  taken : Taken
  /-- The name in the script. -/
  localName : Text
  symbol : Option Symbol
  span : Span
  deriving DecidableEq, Repr

/-- A top-level import declaration. -/
structure ImportDeclaration where
  module : Text
  /-- Whether it imports types only. -/
  isType : Bool
  specifiers : List Specifier
  span : Span
  deriving DecidableEq, Repr

namespace Specifier

/-- The specifier that a node is. -/
def ofTree? : Tree → Option Specifier
  | .node (.namedImport name isType) s [.node (.binding w _ symbol) _ _] =>
      some ⟨.named name isType, w, symbol, s⟩
  | .node .defaultImport s [.node (.binding w _ symbol) _ _] =>
      some ⟨.defaultExport, w, symbol, s⟩
  | .node .namespaceImport s [.node (.binding w _ symbol) _ _] =>
      some ⟨.everything, w, symbol, s⟩
  | _ => none

/-- Whether the specifier takes an export by its name. -/
def isNamed (s : Specifier) : Bool :=
  match s.taken with
  | .named _ _ => true
  | _ => false

/-- Whether the specifier takes the value of an export. -/
def takesValue (s : Specifier) (name : Text) : Bool := s.taken == .named name false

end Specifier

/-- The import declaration that a statement is. -/
def ImportDeclaration.ofTree? : Tree → Option ImportDeclaration
  | .node (.importDeclaration module isType) s ps =>
      some ⟨module, isType, ps.filterMap Specifier.ofTree?, s⟩
  | _ => none

/-- The import declarations of a script, in order. -/
def Program.imports (p : Program) : List ImportDeclaration :=
  p.body.filterMap ImportDeclaration.ofTree?

/-! ### Looking up -/

/-- What a name of a module is imported as. -/
structure ImportedName where
  symbol : Symbol
  localName : Text
  deriving DecidableEq, Repr

/-- The declarations of a script that import values from a module, in order. -/
def Program.valueImports (p : Program) (module : Text) : List ImportDeclaration :=
  p.imports.filter fun d => d.module == module && !d.isType

/-- The specifiers of a script that import values from a module, in order. -/
def Program.valueSpecifiers (p : Program) (module : Text) : List Specifier :=
  (p.valueImports module).flatMap (·.specifiers)

/-- What a name of a module is imported as, if it is. -/
def Program.findImported (p : Program) (module name : Text) :
    Except Diagnostic (Option ImportedName) :=
  if name = "default".toList then .error (.bare .defaultImport [])
  else .ok (((p.valueSpecifiers module).reverse.filter (·.takesValue name)).findSome? fun s =>
    s.symbol.map fun symbol => ⟨symbol, s.localName⟩)

/-! ### Adding -/

/-- The names that a module's values are imported under unchanged. -/
def Program.boundNames (p : Program) (module : Text) : List Text :=
  ((p.valueSpecifiers module).filter fun s => s.takesValue s.localName).map (·.localName)

/-- The names without those that are bound and without repetitions, in order. -/
def missingNames (bound : List Text) : List Text → List Text
  | [] => []
  | n :: ns => if bound.contains n then missingNames bound ns else n :: missingNames (n :: bound) ns

/-- How an import declaration takes more names: behind its last named specifier, or
behind its default specifier if that is the only one. -/
def ImportDeclaration.extension? (d : ImportDeclaration) (list : Text) : Option (Nat × Text) :=
  match (d.specifiers.filter (·.isNamed)).getLast?, d.specifiers with
  | some s, _ => some (s.span.stop, ", " ++ list)
  | none, [⟨.defaultExport, _, _, span⟩] => some (span.stop, ", \x7b " ++ list ++ " \x7d")
  | none, _ => none

/-- A declaration that imports some names. -/
def importText (module list : Text) : Text :=
  "import \x7b " ++ list ++ " \x7d from \"" ++ module ++ "\";"

/-- Where names are added to the imports of a script, and the text that adds them. -/
def Program.importEdit (p : Program) (module : Text) (names : List Text) : Nat × Text :=
  let list := Text.join ", " names
  match (p.valueImports module).findSome? (·.extension? list), p.imports.getLast? with
  | some edit, _ => edit
  | none, some last => (last.span.stop, '\n' :: importText module list)
  | none, none => (0, importText module list ++ ['\n'])

/-- The patch with an edit that makes names of a module importable, and the names that
were missing. -/
def Program.addImports (p : Program) (patch : Patch) (module : Text) (names : List Text) :
    Patch × List Text :=
  match missingNames (p.boundNames module) names with
  | [] => (patch, [])
  | missing =>
      let (position, text) := p.importEdit module missing
      (patch.insert position text, missing)

/-! ### Requests -/

/-- A set of names of modules, in order of module and name. -/
structure Requests where
  pairs : List (Text × Text) := []
  deriving DecidableEq, Repr

namespace Requests

/-- The empty set. -/
def empty : Requests := ⟨[]⟩

/-- Whether one name of a module comes before another. -/
def before (a b : Text × Text) : Bool := a.1 < b.1 || (a.1 == b.1 && a.2 < b.2)

/-- A list in order with one more pair. -/
def insertPair (a : Text × Text) : List (Text × Text) → List (Text × Text)
  | [] => [a]
  | b :: bs =>
      if before a b then a :: b :: bs
      else if a == b then b :: bs
      else b :: insertPair a bs

/-- The set with one more name of a module. -/
def require (r : Requests) (module name : Text) : Requests :=
  ⟨insertPair (module, name) r.pairs⟩

/-- The modules of the set, in order. -/
def modules (r : Requests) : List Text := (r.pairs.map (·.1)).eraseDups

/-- The names of a module, in order. -/
def namesOf (r : Requests) (module : Text) : List Text :=
  (r.pairs.filter (·.1 == module)).map (·.2)

/-- The patch with the edits that make everything importable, and the names that were
missing, each behind its module and a colon. -/
def apply (r : Requests) (p : Program) (patch : Patch) : Patch × List Text :=
  r.modules.foldl (fun (patch, added) module =>
    let (patch', missing) := p.addImports patch module (r.namesOf module)
    (patch', added ++ missing.map fun n => module ++ ':' :: n)) (patch, [])

end Requests

end ComponentMigration.Script
