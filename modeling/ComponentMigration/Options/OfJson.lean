import ComponentMigration.Json
import ComponentMigration.Options

/-!
Options written as JSON.

* **Objects.** Every member sets the option of its key; unknown keys are passed over
  and missing ones leave the default. An option that is set twice is refused.
* **Arrays.** The items set the options in the order of their declaration.
* **Values.** An option is a string; the component's name may also be null.
-/

namespace ComponentMigration.Options

/-- The options that a member can set, in the order of their declaration. -/
inductive Key where
  | sourceModule
  | primitive
  | targetModule
  | hook
  | componentName
  | filePath
  deriving DecidableEq, Repr

namespace Key

/-- The keys in order. -/
def all : List Key := [sourceModule, primitive, targetModule, hook, componentName, filePath]

/-- The key as it is written. -/
def name : Key → Text
  | sourceModule => "sourceModule"
  | primitive => "primitive"
  | targetModule => "targetModule"
  | hook => "hook"
  | componentName => "componentName"
  | filePath => "filePath"

/-- The key that is written like this. -/
def ofName? (name : Text) : Option Key := all.find? (·.name == name)

end Key

/-- The options with one of them set. -/
def set? (o : Options) (key : Key) (value : Json) : Option Options :=
  match key, value with
  | .componentName, .null => some { o with componentName := none }
  | key, value => value.text?.map fun t => match key with
    | .sourceModule => { o with sourceModule := t }
    | .primitive => { o with primitive := t }
    | .targetModule => { o with targetModule := t }
    | .hook => { o with hook := t }
    | .componentName => { o with componentName := some t }
    | .filePath => { o with filePath := t }

/-- The members of an object whose keys are known; `none` if a key is no text. -/
def knownMembers? : List (Option Text × Json) → Option (List (Key × Json))
  | [] => some []
  | (none, _) :: _ => none
  | (some name, value) :: rest =>
      (knownMembers? rest).map fun known => match Key.ofName? name with
        | some key => (key, value) :: known
        | none => known

/-- The options that a value stands for. -/
def ofJson? : Json → Option Options
  | .object members => do
      let known ← knownMembers? members
      if (known.map (·.1)).Nodup then known.foldlM (fun o (key, value) => o.set? key value) {}
      else none
  | .array items =>
      if items.length ≤ Key.all.length then
        (Key.all.zip items).foldlM (fun o (key, value) => o.set? key value) {}
      else none
  | _ => none

/-- The options that a text stands for. -/
def ofText? (t : Text) : Option Options := (Json.read? t).bind ofJson?

end ComponentMigration.Options
