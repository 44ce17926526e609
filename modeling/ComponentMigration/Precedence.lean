import ComponentMigration.Text.Basic

/-!
Binding strength of expressions, and expressions kept as text.

* **Classes.** `Precedence` lists the nine classes from the weakest to the
  strongest; `rank` numbers them in that order, which is the order of `<`.
* **Snippets.** A `Snippet` is the text of an expression with its class.
-/

namespace ComponentMigration

/-- How strongly an expression binds, weakest first. -/
inductive Precedence where
  | sequence
  | assignment
  | conditional
  | coalesce
  | logicalOr
  | logicalAnd
  | binary
  | unary
  /-- Names, literals, member accesses and calls. -/
  | member
  deriving DecidableEq, Repr, Inhabited

namespace Precedence

/-- The place of a class in the order of strength. -/
def rank : Precedence → Nat
  | sequence => 0
  | assignment => 1
  | conditional => 2
  | coalesce => 3
  | logicalOr => 4
  | logicalAnd => 5
  | binary => 6
  | unary => 7
  | member => 8

instance : LT Precedence := ⟨fun p q => p.rank < q.rank⟩
instance : LE Precedence := ⟨fun p q => p.rank ≤ q.rank⟩
instance (p q : Precedence) : Decidable (p < q) := inferInstanceAs (Decidable (p.rank < q.rank))
instance (p q : Precedence) : Decidable (p ≤ q) := inferInstanceAs (Decidable (p.rank ≤ q.rank))

end Precedence

/-- The text of an expression with its class. -/
structure Snippet where
  code : Text
  precedence : Precedence
  deriving DecidableEq, Repr, Inhabited

end ComponentMigration
