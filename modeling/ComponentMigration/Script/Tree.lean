import ComponentMigration.Precedence

/-!
The syntax tree of a script.

* **Nodes.** A `Tree` is a node with a form, the span of bytes it was read from,
  and its parts in the order of the text. Only the forms that something else
  looks at are told apart; all others are `other`, or `expression` with their
  class.
* **Names.** A `reference` uses a name and a `binding` declares one. Both carry
  the symbol that the name stands for, once it is known; a `Symbol` is the offset
  where the name is first declared in its scope.
* **Walks.** `Tree.ind` is the induction principle: what is inherited from the
  parts holds of every tree.
-/

namespace ComponentMigration.Script

/-- The bytes from `start` up to `stop`. -/
structure Span where
  start : Nat
  stop : Nat
  deriving DecidableEq, Repr, Inhabited

/-- What a name stands for: the offset of its first declaration in its scope. -/
abbrev Symbol := Nat

/-- Which meaning of a name a reference asks for. -/
inductive Space where
  | value
  | type
  | any
  deriving DecidableEq, Repr

/-- How a binding declares its name. -/
inductive Binder where
  /-- A value that belongs to the enclosing function. -/
  | hoisted
  /-- A value that belongs to the enclosing block. -/
  | value
  /-- A type. -/
  | type
  /-- A value and a type. -/
  | both
  deriving DecidableEq, Repr

/-- The form of a node. -/
inductive Form where
  /-- A name that is used. No parts. -/
  | reference (name : Text) (space : Space) (symbol : Option Symbol)
  /-- A name that is declared. No parts. -/
  | binding (name : Text) (binder : Binder) (symbol : Option Symbol)
  /-- What a declarator declares: a pattern, then its type if there is one. -/
  | target
  /-- A declarator with a value: the target, then the value. -/
  | declarator
  /-- A call: the callee first. -/
  | call
  /-- An access to a property by its name: the object. -/
  | member (property : Text)
  /-- Any other access to a property. -/
  | access
  /-- An assignment: the target, then the value. -/
  | assignment (operator : Text)
  /-- An expression in parentheses. -/
  | parentheses
  /-- An expression with an optional access in it. -/
  | chain
  /-- A number, not a big integer. -/
  | number
  | array
  | object
  /-- A property of an object: its value comes last. -/
  | property
  /-- A property whose value is the name itself. -/
  | shorthand
  /-- A shorthand property with a default: the name, then the default. -/
  | initialized
  | spread
  /-- A missing element of an array. -/
  | hole
  /-- An expression with a type asserted of it: the expression first. -/
  | cast
  /-- An expression asserted not to be null. -/
  | nonNull
  /-- An expression with type arguments: the expression first. -/
  | instantiated
  /-- Any other expression, with its class. -/
  | expression (precedence : Precedence)
  /-- A region in which names are declared; `isFunction` when hoisted names stop
  here. -/
  | scope (isFunction : Bool)
  /-- An import declaration: its specifiers. -/
  | importDeclaration (module : Text) (isType : Bool)
  /-- An import of one name: the binding. -/
  | namedImport (imported : Text) (isType : Bool)
  | defaultImport
  | namespaceImport
  | other
  deriving DecidableEq, Repr, Inhabited

/-- A node of the syntax tree. -/
inductive Tree where
  | node (form : Form) (span : Span) (parts : List Tree)
  deriving Repr, Inhabited

namespace Tree

/-- The form of a node. -/
def form : Tree → Form
  | node f _ _ => f

/-- The bytes a node was read from. -/
def span : Tree → Span
  | node _ s _ => s

/-- The parts of a node. -/
def parts : Tree → List Tree
  | node _ _ ps => ps

/-- The induction principle of trees: a property holds of every tree once it is
inherited from the parts. -/
@[elab_as_elim]
theorem ind {P : Tree → Prop} (h : ∀ f s ps, (∀ p ∈ ps, P p) → P (.node f s ps)) (t : Tree) :
    P t :=
  Tree.rec (motive_1 := P) (motive_2 := fun ps => ∀ p ∈ ps, P p)
    (fun f s ps ih => h f s ps ih)
    (fun _ hp => absurd hp (by simp))
    (fun _ _ ihp ihps q hq => by
      rcases List.mem_cons.mp hq with rfl | hq'
      · exact ihp
      · exact ihps q hq')
    t

mutual

/-- Trees are compared part by part. -/
def decEq : (t u : Tree) → Decidable (t = u)
  | .node f s ps, .node g r qs =>
      if h : f = g ∧ s = r then
        match decEqAll ps qs with
        | .isTrue hps => .isTrue (by rw [h.1, h.2, hps])
        | .isFalse hps => .isFalse fun heq => hps (node.inj heq).2.2
      else .isFalse fun heq => h ⟨(node.inj heq).1, (node.inj heq).2.1⟩

/-- Lists of trees are compared tree by tree. -/
def decEqAll : (ts us : List Tree) → Decidable (ts = us)
  | [], [] => .isTrue rfl
  | [], _ :: _ => .isFalse nofun
  | _ :: _, [] => .isFalse nofun
  | t :: ts, u :: us =>
      match decEq t u, decEqAll ts us with
      | .isTrue ht, .isTrue hts => .isTrue (by rw [ht, hts])
      | .isFalse ht, _ => .isFalse fun heq => ht (List.cons.inj heq).1
      | _, .isFalse hts => .isFalse fun heq => hts (List.cons.inj heq).2

end

instance : DecidableEq Tree := decEq

/-- The expression inside all parentheses around it. -/
def withoutParentheses : Tree → Tree
  | node .parentheses _ (inner :: _) => inner.withoutParentheses
  | t => t

/-- The class of an expression. -/
def precedence (t : Tree) : Precedence :=
  match t.form with
  | .expression p => p
  | .assignment _ => .assignment
  | .cast => .binary
  | _ => .member

end Tree

end ComponentMigration.Script
