import ComponentMigration.Script.Program

/-!
What the names of a script stand for.

* **Declarations.** A region declares the names that are bound in it and in no region
  inside it. A hoisted name belongs to the function around it; a block between the two
  does not declare that name.
* **Symbols.** All declarations of a name in one region share a symbol, the offset of
  the first of them.
* **Resolution.** `Tree.resolve` gives every use of a name the symbol of the innermost
  region that declares the name with the meaning that is asked for.
-/

namespace ComponentMigration.Script

/-! ### Declarations -/

/-- Whether a name that is declared like this means a value. -/
def Binder.isValue : Binder → Bool
  | hoisted | value | both => true
  | type => false

/-- Whether a name that is declared like this means a type. -/
def Binder.isType : Binder → Bool
  | type | both => true
  | hoisted | value => false

/-- A name that is declared, where, and how. -/
structure Declaration where
  name : Text
  binder : Binder
  offset : Nat
  deriving DecidableEq, Repr

mutual

/-- The declarations of a tree that reach the region around it: all that stand in no
region inside it, and the hoisted ones up to a function. -/
def Tree.declarations (onlyHoisted : Bool) : Tree → List Declaration
  | .node (.binding name binder _) s _ =>
      if onlyHoisted && binder != .hoisted then [] else [⟨name, binder, s.start⟩]
  | .node (.scope isFunction) _ ps => if isFunction then [] else declarationsOf true ps
  | .node _ _ ps => declarationsOf onlyHoisted ps

/-- The declarations of several trees that reach the region around them. -/
def declarationsOf (onlyHoisted : Bool) : List Tree → List Declaration
  | [] => []
  | t :: ts => t.declarations onlyHoisted ++ declarationsOf onlyHoisted ts

end

/-- The declarations of a region. Those of a block go without the names that pass
through it to the function. -/
def regionDeclarations (isFunction : Bool) (parts : List Tree) : List Declaration :=
  let found := declarationsOf false parts
  if isFunction then found
  else
    let passing := (found.filter (·.binder == .hoisted)).map (·.name)
    found.filter fun d => !passing.contains d.name

/-! ### Environments -/

/-- A name with its meanings and its symbol. -/
structure Meaning where
  name : Text
  isValue : Bool
  isType : Bool
  symbol : Symbol
  deriving DecidableEq, Repr

/-- The names that can be used, the innermost first. -/
abbrev Environment := List Meaning

/-- The meanings of some declarations; the same name has the same symbol. -/
def meanings (ds : List Declaration) : Environment :=
  ds.map fun d => {
    name := d.name
    isValue := d.binder.isValue
    isType := d.binder.isType
    symbol := ((ds.find? (·.name == d.name)).map (·.offset)).getD d.offset }

/-- Whether a meaning is one that is asked for. -/
def Meaning.answers (m : Meaning) : Space → Bool
  | .value => m.isValue
  | .type => m.isType
  | .any => true

/-- The symbol of a name with a meaning that is asked for. -/
def Environment.lookup (env : Environment) (name : Text) (space : Space) : Option Symbol :=
  (env.find? fun m => m.name == name && m.answers space).map (·.symbol)

/-! ### Resolution -/

mutual

/-- The tree with the symbol of every name. -/
def Tree.resolve (env : Environment) : Tree → Tree
  | .node (.reference name space _) s ps =>
      .node (.reference name space (env.lookup name space)) s ps
  | .node (.binding name binder _) s ps =>
      .node (.binding name binder (env.lookup name .any)) s ps
  | .node (.scope isFunction) s ps =>
      .node (.scope isFunction) s
        (resolveAll (meanings (regionDeclarations isFunction ps) ++ env) ps)
  | .node f s ps => .node f s (resolveAll env ps)

/-- The trees with the symbol of every name. -/
def resolveAll (env : Environment) : List Tree → List Tree
  | [] => []
  | t :: ts => t.resolve env :: resolveAll env ts

end

/-- The script with the symbol of every name. -/
def Program.resolve (p : Program) : Program :=
  ⟨resolveAll (meanings (regionDeclarations true p.body)) p.body⟩

mutual

/-- The places where a symbol is used. -/
def Tree.uses (symbol : Symbol) : Tree → List Span
  | .node (.reference _ _ found) s _ => if found = some symbol then [s] else []
  | .node _ _ ps => usesOf symbol ps

/-- The places where a symbol is used in several trees. -/
def usesOf (symbol : Symbol) : List Tree → List Span
  | [] => []
  | t :: ts => t.uses symbol ++ usesOf symbol ts

end

/-- The places where a symbol is used in a script. -/
def Program.uses (p : Program) (symbol : Symbol) : List Span := usesOf symbol p.body

end ComponentMigration.Script
