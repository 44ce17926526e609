import ComponentMigration.Proofs.Text.Bytes
import ComponentMigration.Script.Scope

/-!
How a syntax tree lies on its source.

* **Spans.** A `Span` is `Inside` another, or `IsApart` from it. A span that `Fits` the
  source begins and ends at boundaries, and one that `IsFilled` is not empty.
* **Layout.** In a tree that `IsLaidOut` the span of every node is as it should be, its
  parts are inside of it, and no two of them overlap. `Tree.isLaidOut_node_iff` takes a
  layout apart, node by node.
* **Order.** In a tree that `IsOrderly` targets of assignments lie to their values as they
  should, and so do the spans of names.
* **Names.** Giving the names their symbols moves nothing (`Program.isLaidOut_resolve`,
  `Tree.isOrderly_resolve`).
-/

namespace ComponentMigration.Script

/-! ### Spans -/

namespace Span

/-- A span of the source, between two characters. -/
structure Fits (source : Text) (s : Span) : Prop where
  le : s.start ≤ s.stop
  start : source.IsBoundary s.start
  stop : source.IsBoundary s.stop

/-- A span that is not empty. -/
def IsFilled (s : Span) : Prop := s.start < s.stop

/-- A span does not reach out of another. -/
structure Inside (s t : Span) : Prop where
  start : t.start ≤ s.start
  stop : s.stop ≤ t.stop

/-- A span ends before another begins. -/
def Precedes (s t : Span) : Prop := s.stop ≤ t.start

/-- One of two spans ends before the other begins. -/
def IsApart (s t : Span) : Prop := s.stop ≤ t.start ∨ t.stop ≤ s.start

lemma IsApart.symm {s t : Span} (h : s.IsApart t) : t.IsApart s := h.elim .inr .inl

/-- What is inside of spans that are apart is apart. -/
lemma IsApart.of_inside {s s' t t' : Span} (h : s.IsApart t) (hs : s'.Inside s)
    (ht : t'.Inside t) : s'.IsApart t' :=
  h.imp (fun h => Nat.le_trans (Nat.le_trans hs.stop h) ht.start) fun h =>
    Nat.le_trans (Nat.le_trans ht.stop h) hs.start

lemma Inside.refl (s : Span) : s.Inside s := ⟨Nat.le_refl _, Nat.le_refl _⟩

lemma Inside.trans {s t u : Span} (h : s.Inside t) (h' : t.Inside u) : s.Inside u :=
  ⟨Nat.le_trans h'.start h.start, Nat.le_trans h.stop h'.stop⟩

instance (source : Text) (s : Span) : Decidable (s.Fits source) :=
  decidable_of_iff (s.start ≤ s.stop ∧ source.IsBoundary s.start ∧ source.IsBoundary s.stop)
    ⟨fun h => ⟨h.1, h.2.1, h.2.2⟩, fun h => ⟨h.le, h.start, h.stop⟩⟩

instance (s t : Span) : Decidable (s.Inside t) :=
  decidable_of_iff (t.start ≤ s.start ∧ s.stop ≤ t.stop)
    ⟨fun h => ⟨h.1, h.2⟩, fun h => ⟨h.start, h.stop⟩⟩

instance : DecidableRel Precedes := fun s t => Nat.decLe s.stop t.start

instance (s t : Span) : Decidable (s.IsApart t) :=
  inferInstanceAs (Decidable (s.stop ≤ t.start ∨ t.stop ≤ s.start))

end Span

/-! ### Trees -/

mutual

/-- The nodes of a tree, from the root on and in order. -/
def Tree.nodes : Tree → List Tree
  | .node f s ps => .node f s ps :: nodesOf ps

/-- The nodes of several trees. -/
def nodesOf : List Tree → List Tree
  | [] => []
  | t :: ts => t.nodes ++ nodesOf ts

end

lemma nodesOf_eq_flatMap (ts : List Tree) : nodesOf ts = ts.flatMap Tree.nodes := by
  induction ts with
  | nil => rfl
  | cons t ts ih => rw [nodesOf, ih, List.flatMap_cons]

lemma Tree.mem_nodes_self (t : Tree) : t ∈ t.nodes := by
  cases t
  exact List.mem_cons_self

/-- The parts of a node are among its nodes. -/
lemma Tree.mem_nodes_of_mem_parts {t p : Tree} (h : p ∈ t.parts) : p ∈ t.nodes := by
  obtain ⟨f, s, ps⟩ := t
  rw [nodes, nodesOf_eq_flatMap]
  exact List.mem_cons_of_mem _ (List.mem_flatMap.mpr ⟨p, h, p.mem_nodes_self⟩)

/-- Spans inside of one, and no two of them overlapping. -/
structure Span.Holds (s : Span) (parts : List Tree) : Prop where
  inside : ∀ p ∈ parts, p.span.Inside s
  apart : parts.Pairwise fun p q => p.span.IsApart q.span

instance (s : Span) (parts : List Tree) : Decidable (s.Holds parts) :=
  decidable_of_iff
    ((∀ p ∈ parts, p.span.Inside s) ∧ parts.Pairwise fun p q => p.span.IsApart q.span)
    ⟨fun h => ⟨h.1, h.2⟩, fun h => ⟨h.inside, h.apart⟩⟩

variable {Q N : Span → Prop} {F : Span → Span → Prop}

/-- How the target of an assignment lies to its value; other nodes do not matter. -/
def Tree.Assigns (F : Span → Span → Prop) : Tree → Prop
  | .node (.assignment _) _ [target, value] => F target.span value.span
  | _ => True

instance [DecidableRel F] : DecidablePred (Tree.Assigns F) := fun t => by
  unfold Tree.Assigns
  split <;> infer_instance

lemma Tree.assigns_true (t : Tree) : t.Assigns fun _ _ => True := by
  unfold Assigns
  split <;> trivial

/-- The form of a name that is used or declared. -/
def Form.IsName : Form → Prop
  | .reference _ _ _ | .binding _ _ _ => True
  | _ => False

instance : DecidablePred Form.IsName := fun f => by
  unfold Form.IsName
  split <;> infer_instance

/-- How the target of an assignment lies to its value, and what the span of a name is like; other
nodes do not matter. -/
structure Tree.IsOrderly (F : Span → Span → Prop) (N : Span → Prop) (t : Tree) : Prop where
  assigns : t.Assigns F
  name : t.form.IsName → N t.span

lemma Tree.isOrderly_true (t : Tree) : t.IsOrderly (fun _ _ => True) fun _ => True :=
  ⟨t.assigns_true, fun _ => trivial⟩

/-- Every node of a tree has a span as it should be, and holds its parts. -/
def Tree.IsLaidOut (Q : Span → Prop) (t : Tree) : Prop :=
  ∀ n ∈ t.nodes, Q n.span ∧ n.span.Holds n.parts

instance [DecidablePred Q] (t : Tree) : Decidable (t.IsLaidOut Q) :=
  inferInstanceAs (Decidable (∀ n ∈ t.nodes, _))

/-- The statements of a script are laid out, and no two of them overlap. -/
structure Program.IsLaidOut (Q : Span → Prop) (p : Program) : Prop where
  statements : ∀ t ∈ p.body, t.IsLaidOut Q
  apart : p.body.Pairwise fun t u => t.span.IsApart u.span

instance [DecidablePred Q] (p : Program) : Decidable (p.IsLaidOut Q) :=
  decidable_of_iff ((∀ t ∈ p.body, t.IsLaidOut Q) ∧
      p.body.Pairwise fun t u => t.span.IsApart u.span)
    ⟨fun h => ⟨h.1, h.2⟩, fun h => ⟨h.statements, h.apart⟩⟩

/-- A tree is laid out if its root is and its parts are. -/
lemma Tree.isLaidOut_node_iff (f : Form) (s : Span) (ps : List Tree) :
    (Tree.node f s ps).IsLaidOut Q ↔ (Q s ∧ s.Holds ps) ∧ ∀ p ∈ ps, p.IsLaidOut Q := by
  simp only [IsLaidOut, nodes, nodesOf_eq_flatMap, List.forall_mem_cons, List.mem_flatMap,
    forall_exists_index, and_imp, span, parts]
  constructor
  · rintro ⟨hroot, h⟩
    exact ⟨hroot, fun p hp n hn => h n p hp hn⟩
  · rintro ⟨hroot, h⟩
    exact ⟨hroot, fun n p hp hn => h p hp n hn⟩

lemma Tree.IsLaidOut.span {t : Tree} (h : t.IsLaidOut Q) : Q t.span := by
  obtain ⟨f, s, ps⟩ := t
  exact ((isLaidOut_node_iff f s ps).mp h).1.1

/-- A tree inside of a laid out tree is laid out. -/
lemma Tree.IsLaidOut.of_mem_nodes {t n : Tree} (h : t.IsLaidOut Q) (hn : n ∈ t.nodes) :
    n.IsLaidOut Q := by
  induction t using Tree.ind with
  | h f s ps ih =>
      rw [nodes, nodesOf_eq_flatMap, List.mem_cons, List.mem_flatMap] at hn
      rcases hn with rfl | ⟨p, hp, hn⟩
      · exact h
      · exact ih p hp (((isLaidOut_node_iff f s ps).mp h).2 p hp) hn

/-- A tree inside of a laid out script is laid out. -/
lemma Program.IsLaidOut.of_mem_nodes {p : Program} {n : Tree} (h : p.IsLaidOut Q)
    (hn : n ∈ nodesOf p.body) : n.IsLaidOut Q := by
  rw [nodesOf_eq_flatMap, List.mem_flatMap] at hn
  obtain ⟨t, ht, hn⟩ := hn
  exact (h.statements t ht).of_mem_nodes hn

/-! ### Names -/

lemma resolveAll_eq_map (env : Environment) (ts : List Tree) :
    resolveAll env ts = ts.map (Tree.resolve env) := by
  induction ts with
  | nil => rfl
  | cons t ts ih => rw [resolveAll, ih, List.map_cons]

/-- Giving names their symbols keeps the span of a node, and its parts stay or are given
theirs. -/
lemma Tree.resolve_node (env : Environment) (f : Form) (s : Span) (ps : List Tree) :
    ∃ f' ps', (Tree.node f s ps).resolve env = .node f' s ps' ∧
      (ps' = ps ∨ ∃ env', ps' = ps.map (Tree.resolve env')) := by
  cases f
  case reference name space symbol => exact ⟨_, ps, rfl, .inl rfl⟩
  case binding name binder symbol => exact ⟨_, ps, rfl, .inl rfl⟩
  all_goals exact ⟨_, _, rfl, .inr ⟨_, resolveAll_eq_map _ ps⟩⟩

@[simp] lemma Tree.resolve_span (env : Environment) (t : Tree) :
    (t.resolve env).span = t.span := by
  obtain ⟨f, s, ps⟩ := t
  obtain ⟨f', ps', h, -⟩ := resolve_node env f s ps
  rw [h]
  rfl

/-- Parts stay where they are when their names are given symbols. -/
lemma Span.Holds.resolve {s : Span} {ps : List Tree} (h : s.Holds ps) (env : Environment) :
    s.Holds (ps.map (Tree.resolve env)) := by
  refine ⟨?_, ?_⟩
  · rw [List.forall_mem_map]
    simpa using h.inside
  · rw [List.pairwise_map]
    simpa using h.apart

/-- What every node keeps when names are given symbols, all nodes of a tree keep. -/
lemma Tree.forall_nodes_resolve {R : Tree → Prop} (hR : ∀ t env, R t → R (t.resolve env))
    {t : Tree} (h : ∀ n ∈ t.nodes, R n) (env : Environment) :
    ∀ n ∈ (t.resolve env).nodes, R n := by
  induction t using Tree.ind generalizing env with
  | h f s ps ih =>
      have hroot := hR _ env (h _ (mem_nodes_self _))
      rw [nodes, List.forall_mem_cons, nodesOf_eq_flatMap, List.forall_mem_flatMap] at h
      obtain ⟨f', ps', heq, hps⟩ := resolve_node env f s ps
      rw [heq] at hroot
      rw [heq, nodes, List.forall_mem_cons, nodesOf_eq_flatMap, List.forall_mem_flatMap]
      refine ⟨hroot, ?_⟩
      rcases hps with rfl | ⟨env', rfl⟩
      · exact h.2
      · rw [List.forall_mem_map]
        exact fun p hp => ih p hp (h.2 p hp) env'

/-- A node holds its parts when names are given symbols. -/
lemma Tree.holds_resolve {t : Tree} (h : Q t.span ∧ t.span.Holds t.parts) (env : Environment) :
    Q (t.resolve env).span ∧ (t.resolve env).span.Holds (t.resolve env).parts := by
  obtain ⟨f, s, ps⟩ := t
  obtain ⟨f', ps', heq, rfl | ⟨env', rfl⟩⟩ := resolve_node env f s ps
  · rw [heq]
    exact h
  · rw [heq]
    exact ⟨h.1, h.2.resolve env'⟩

/-- An assignment lies as it did when names are given symbols. -/
lemma Tree.assigns_resolve {t : Tree} (h : t.Assigns F) (env : Environment) :
    (t.resolve env).Assigns F := by
  obtain ⟨f, s, ps⟩ := t
  cases f
  case assignment operator =>
    rw [resolve, resolveAll_eq_map]
    · match ps with
      | [] | [_] | _ :: _ :: _ :: _ => trivial
      | [target, value] => simpa [Assigns] using h
    all_goals simp
  all_goals trivial

/-- Giving names their symbols makes no other names. -/
lemma Tree.isOrderly_resolve {t : Tree} (h : t.IsOrderly F N) (env : Environment) :
    (t.resolve env).IsOrderly F N := by
  refine ⟨assigns_resolve h.assigns env, fun hname => ?_⟩
  rw [resolve_span]
  refine h.name ?_
  obtain ⟨f, s, ps⟩ := t
  cases f <;> exact hname

/-- What every node of a script keeps when names are given symbols, the script keeps. -/
lemma Program.forall_nodes_resolve {R : Tree → Prop} (hR : ∀ t env, R t → R (t.resolve env))
    {p : Program} (h : ∀ n ∈ nodesOf p.body, R n) : ∀ n ∈ nodesOf p.resolve.body, R n := by
  rw [nodesOf_eq_flatMap, List.forall_mem_flatMap] at h
  rw [Program.resolve, nodesOf_eq_flatMap, resolveAll_eq_map, List.forall_mem_flatMap,
    List.forall_mem_map]
  exact fun t ht => Tree.forall_nodes_resolve hR (h t ht) _

/-- A script stays laid out when its names are given symbols. -/
lemma Program.isLaidOut_resolve {p : Program} (h : p.IsLaidOut Q) : p.resolve.IsLaidOut Q := by
  refine ⟨?_, ?_⟩
  · rw [Program.resolve, resolveAll_eq_map, List.forall_mem_map]
    exact fun t ht => Tree.forall_nodes_resolve (R := fun n => Q n.span ∧ n.span.Holds n.parts)
      (fun _ env h => Tree.holds_resolve h env) (h.statements t ht) _
  · rw [Program.resolve, resolveAll_eq_map, List.pairwise_map]
    simpa using h.apart

end ComponentMigration.Script
