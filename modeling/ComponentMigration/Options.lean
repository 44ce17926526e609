import ComponentMigration.Naming
import ComponentMigration.Path

/-!
The options of a migration.

* **Names.** A state variable is made by `primitive`, imported from `sourceModule`;
  it becomes a call of `hook`, imported from `targetModule`.
* **Files.** `Options.forFile` names the component after its file.
  `componentIdentifier` is the name of the component that is written out.
-/

namespace ComponentMigration

/-- What a migration depends on besides the source. -/
structure Options where
  /-- The module that state variables come from. -/
  sourceModule : Text := "vue"
  /-- The function that makes a state variable. -/
  primitive : Text := "ref"
  /-- The module that the hook comes from. -/
  targetModule : Text := "react"
  /-- The hook that takes the place of the function. -/
  hook : Text := "useState"
  componentName : Option Text := none
  /-- The file that diagnostics name. -/
  filePath : Text := []
  deriving DecidableEq, Repr

namespace Options

/-- The options with the component and the path of a file. -/
def withFile (o : Options) (path : Text) : Options :=
  { o with componentName := Path.stem? path, filePath := path }

/-- The options for a file. -/
def forFile (path : Text) : Options := withFile {} path

/-- The name of a component that has none of its own. -/
def unnamedComponent : Text := "Component"

/-- The name of the component: the given one, camel-cased and capitalised, if that is
an identifier. -/
def componentIdentifier (o : Options) : Text :=
  let name := (o.componentName.map fun n => Naming.capitalize (Naming.camelize n)).getD []
  if Naming.isIdentifier name then name else unnamedComponent

end Options

end ComponentMigration
