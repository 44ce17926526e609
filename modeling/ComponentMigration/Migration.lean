import ComponentMigration.Script.StateHook

/-!
Migrating scripts.

* **Results.** A `Migration` is the new code, the state variables that became hooks and
  the imports that were added.
* **Scripts.** `migrateScript` moves the state variables of a script to hooks and
  imports the hook. Nothing but what the edits replace changes.
-/

namespace ComponentMigration

/-- The result of a migration. -/
structure Migration where
  code : Text
  states : List Script.HookedState
  /-- The names that were added to the imports, each behind its module and a colon. -/
  imports : List Text
  deriving DecidableEq, Repr

/-- The script that a text of a file is. -/
def Script.Program.ofFile (source file : Text) : Except Failure Script.Program :=
  match Script.Program.parse? source with
  | some p => .ok p
  | none => .error (.diagnosed (.bare .scriptSyntax file))

/-- The migration of a script whose names are resolved. -/
def Script.Program.migrate (p : Script.Program) (source : Text) (o : Options) :
    Except Failure Migration := do
  let (progress, hooked) := p.hookStates source o {}
  let states ← hooked
  let (patch, added) := progress.requests.apply p progress.patch
  let code ← patch.apply source
  return ⟨code, states, added⟩

/-- The migration of a script. -/
def migrateScript (source : Text) (o : Options) : Except Failure Migration := do
  let p ← Script.Program.ofFile source o.filePath
  (p.resolve.migrate source o).mapError (·.inFile o.filePath)

end ComponentMigration
