import ComponentMigration.Lowering.Property
import ComponentMigration.Markup.Tree

/-!
Lowering markup.

* **Elements.** Every element is lowered by itself, from its properties and its
  lowered children; a container becomes a fragment. `v-for` wraps the element in a
  call of `map`.
* **Chains.** `assemble` joins siblings: an element with `v-if` and those that
  continue it become one expression. Comments and blank texts between the branches of
  a chain are dropped.
* **Defaults.** The last branch of a chain with more than one is taken whenever no
  other is, so its own condition is not read.
-/

namespace ComponentMigration.Lowering

open Markup (Control Directive Element)

/-! ### Loops -/

/-- The parameter of a loop that binds a key but no value. -/
def unnamedValue : Text := "_value"

/-- The parameters of a loop: the value, then the key. -/
def loopParameters (b : Markup.ForBinding) : List Text :=
  match b.value, b.key with
  | none, none => []
  | value, key => value.getD unnamedValue :: key.toList

/-- The hint that goes with the iteration of an object. -/
def objectHint : Text :=
  "Iterate `Object.entries(source)` with `([key, value], index) in ...` instead."

/-- The hint that goes with the iteration of a range. -/
def rangeHint : Text :=
  "Iterate an array such as `Array.from(\x7b length: n \x7d, (_, i) => i + 1)` instead."

/-- What a loop iterates: an expression that is no number. -/
def loopSource (d : Directive) (b : Markup.ForBinding) : Except Diagnostic Snippet := do
  let source ← d.snippetOf b.source
  if isNumber source.code then .error ((d.diagnose .rangeIteration).withHint rangeHint)
  else return source

/-- An element repeated by its `v-for`. -/
def loop (d : Directive) (body : Except Diagnostic Jsx.Node) : Except Diagnostic Jsx.Node :=
  match d.binding with
  | none => .error (d.diagnose .missingForBinding)
  | some b =>
      if b.index.isSome then .error ((d.diagnose .objectIteration).withHint objectHint)
      else do
        let source ← loopSource d b
        let node ← body
        return .expression (.call (.member (.snippet source) "map")
          [.arrow (loopParameters b) node.toExpr])

/-! ### Chains -/

/-- A node with what it is lowered to by itself. -/
abbrev Sibling := Markup.Node × Except Diagnostic Jsx.Node

/-- A branch of a chain: its directive, and what its element is lowered to. -/
structure Branch where
  directive : Directive
  node : Except Diagnostic Jsx.Node

/-- The next branch of a chain and the siblings behind it; comments and blank texts in
front of it are skipped. -/
def nextBranch? : List Sibling → Option (Branch × List Sibling)
  | [] => none
  | (.comment _, _) :: rest => nextBranch? rest
  | (.text l, _) :: rest => if Text.isBlankText l.content then nextBranch? rest else none
  | (.element e _, node) :: rest => e.continuation?.map fun (_, d) => (⟨d, node⟩, rest)
  | (.interpolation _, _) :: _ => none

/-- The siblings behind the next branch are fewer. -/
theorem nextBranch?_length {siblings rest : List Sibling} {b : Branch}
    (h : nextBranch? siblings = some (b, rest)) : rest.length < siblings.length := by
  induction siblings with
  | nil => simp [nextBranch?] at h
  | cons s ss ih =>
      obtain ⟨n, r⟩ := s
      cases n with
      | comment l =>
          have := ih (by simpa [nextBranch?] using h)
          simp only [List.length_cons]
          omega
      | text l =>
          rw [nextBranch?] at h
          split at h
          · have := ih h
            simp only [List.length_cons]
            omega
          · simp at h
      | element e children =>
          rw [nextBranch?, Option.map_eq_some_iff] at h
          obtain ⟨_, _, hb⟩ := h
          simp only [Prod.mk.injEq] at hb
          simp [hb.2]
      | interpolation l => simp [nextBranch?] at h

/-- The branches that continue a chain, and the siblings behind the last of them. -/
def branches (siblings : List Sibling) : List Branch × List Sibling :=
  match h : nextBranch? siblings with
  | none => ([], siblings)
  | some (b, rest) =>
      have := nextBranch?_length h
      let (bs, behind) := branches rest
      (b :: bs, behind)
termination_by siblings.length

/-- The siblings behind a chain are not more. -/
theorem branches_length (siblings : List Sibling) :
    (branches siblings).2.length ≤ siblings.length := by
  induction h : siblings.length using Nat.strongRecOn generalizing siblings with
  | _ n ih =>
      rw [branches]
      split
      · simp [h]
      · next b rest hb =>
          have hlt := nextBranch?_length hb
          have := ih rest.length (by omega) rest rfl
          simp only
          omega

/-- A chain of more than one branch: the last is the default. What is read last is
reported first. -/
def choice (first : Branch) : List Branch → Except Diagnostic Jsx.Expr
  | [] => return (← first.node).toExpr
  | next :: others => do
      let otherwise ← choice next others
      let test ← first.directive.snippet
      let node ← first.node
      return .conditional (.snippet test) node.toExpr otherwise

/-- A chain. -/
def chain (first : Branch) : List Branch → Except Diagnostic Jsx.Node
  | [] => do
      let test ← first.directive.snippet
      let node ← first.node
      return .expression (.logicalAnd (.snippet test) node.toExpr)
  | next :: others => return .expression (← choice first (next :: others))

/-- The conditional directive of a node. -/
def conditional? : Markup.Node → Option (Control × Directive)
  | .element e _ => e.conditional?
  | _ => none

/-- The siblings with their chains joined. -/
def assemble : List Sibling → Except Diagnostic (List Jsx.Node)
  | [] => .ok []
  | (n, node) :: rest =>
      match conditional? n with
      | none => do
          let first ← node
          let others ← assemble rest
          return first :: others
      | some (.when, d) => do
          let first ← chain ⟨d, node⟩ (branches rest).1
          let others ← assemble (branches rest).2
          return first :: others
      | some (_, d) =>
          .error (.atSource (.orphanBranch d.name) n.location n.source)
termination_by siblings => siblings.length
decreasing_by
  · simp
  · have := branches_length rest
    simp only [List.length_cons]
    omega

/-! ### Nodes -/

/-- An element without its loop. -/
def body (e : Element) (children : List Sibling) : Except Diagnostic Jsx.Node := do
  let props ← properties e
  let inner ← assemble children
  return match e.kind with
    | .container => .fragment inner
    | .ordinary => .element e.tag props inner

/-- An element. -/
def element (e : Element) (children : List Sibling) : Except Diagnostic Jsx.Node :=
  match e.loop? with
  | some d => loop d (body e children)
  | none => body e children

mutual

/-- A node by itself. -/
def node : Markup.Node → Except Diagnostic Jsx.Node
  | .element e children => element e (siblings children)
  | .text l => .ok (.text l.content)
  | .comment l => .ok (.expression (.comment l.content))
  | .interpolation l =>
      .error (.atSource (.unsupportedNode (Markup.Node.interpolation l).kindName l.source)
        l.location l.source)

/-- Siblings, each with what it is lowered to by itself. -/
def siblings : List Markup.Node → List Sibling
  | [] => []
  | n :: ns => (n, node n) :: siblings ns

end

/-- The output of root nodes: one node, or a fragment. -/
def root (nodes : List Markup.Node) : Except Diagnostic Jsx.Node := do
  match ← assemble (siblings nodes) with
  | [only] => return only
  | nodes => return .fragment nodes

end ComponentMigration.Lowering
