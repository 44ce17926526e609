import ComponentMigration.Proofs.Script.Rewriting
import Mathlib.Data.List.Pairwise

/-!
Where imports are added.

* **Pieces.** The `pieces` of a script are its statements, with the parts of an import
  declaration in its place. In a laid out script no two of them overlap, and they have all
  the edits of the script.
* **Places.** `TakesImports` places are the start of the script and the ends of its import
  declarations and of their specifiers. `importEdit_takesImports`: names are added only
  there, and such a place is inside of no piece (`TakesImports.apart`).
* **Requests.** `Requests.apply_require`: a lone request is one insertion at most, the
  `importInsertion`.
-/

namespace ComponentMigration.Script

/-! ### Pieces -/

/-- The parts of an import declaration; any other statement is one piece. -/
def Tree.pieces : Tree → List Tree
  | .node (.importDeclaration _ _) _ ps => ps
  | t => [t]

/-- The pieces of a script, in order. -/
def Program.pieces (p : Program) : List Tree := p.body.flatMap Tree.pieces

variable {Q : Span → Prop} {p : Program} {t q : Tree} {r : Pass}

/-- A statement is its own piece, or an import declaration. -/
lemma Tree.pieces_cases (t : Tree) :
    t.pieces = [t] ∨
      ∃ module isType s ps, t = .node (.importDeclaration module isType) s ps ∧ t.pieces = ps := by
  unfold pieces
  split
  · exact .inr ⟨_, _, _, _, rfl, rfl⟩
  · exact .inl rfl

/-- Two of a list of trees, no two of which overlap, are one or do not overlap. -/
lemma eq_or_isApart {ts : List Tree} {u : Tree}
    (h : ts.Pairwise fun t u => t.span.IsApart u.span) (ht : t ∈ ts) (hu : u ∈ ts) :
    t = u ∨ t.span.IsApart u.span := by
  have hsymm : Std.Symm fun t u : Tree => t.span.IsApart u.span := ⟨fun _ _ h => h.symm⟩
  by_cases heq : t = u
  · exact .inl heq
  · exact .inr (h.forall ht hu heq)

lemma Tree.inside_of_mem_pieces (ht : t.IsLaidOut Q) (hq : q ∈ t.pieces) :
    q.span.Inside t.span := by
  rcases t.pieces_cases with h | ⟨module, isType, s, ps, rfl, h⟩
  · rw [h, List.mem_singleton] at hq
    rw [hq]
    exact Span.Inside.refl _
  · rw [h] at hq
    exact ((isLaidOut_node_iff _ s ps).mp ht).1.2.inside q hq

lemma Tree.isLaidOut_of_mem_pieces (ht : t.IsLaidOut Q) (hq : q ∈ t.pieces) :
    q.IsLaidOut Q := by
  rcases t.pieces_cases with h | ⟨module, isType, s, ps, rfl, h⟩
  · rw [h, List.mem_singleton] at hq
    rwa [hq]
  · rw [h] at hq
    exact ((isLaidOut_node_iff _ s ps).mp ht).2 q hq

/-- The pieces of a statement do not overlap. -/
lemma Tree.pieces_apart (ht : t.IsLaidOut Q) :
    t.pieces.Pairwise fun q u => q.span.IsApart u.span := by
  rcases t.pieces_cases with h | ⟨module, isType, s, ps, rfl, h⟩
  · rw [h]
    exact List.pairwise_singleton _ _
  · rw [h]
    exact ((isLaidOut_node_iff _ s ps).mp ht).1.2.apart

/-- The pieces of a statement have its edits. -/
lemma Tree.recorded_pieces (t : Tree) :
    (t.recorded r).Perm (t.pieces.flatMap (Tree.recorded r)) := by
  rcases t.pieces_cases with h | ⟨module, isType, s, ps, rfl, h⟩
  · rw [h, List.flatMap_singleton]
  · rw [h]
    exact recorded_other (fun _ _ _ hf => by cases hf) rfl rfl

lemma Program.isLaidOut_of_mem_pieces (hp : p.IsLaidOut Q) (hq : q ∈ p.pieces) :
    q.IsLaidOut Q := by
  obtain ⟨t, ht, hq⟩ := List.mem_flatMap.mp hq
  exact Tree.isLaidOut_of_mem_pieces (hp.statements t ht) hq

/-- The nodes of a piece of a script are nodes of the script. -/
lemma Program.mem_nodesOf_of_mem_pieces {n : Tree} (hq : q ∈ p.pieces) (hn : n ∈ q.nodes) :
    n ∈ nodesOf p.body := by
  obtain ⟨t, ht, hq⟩ := List.mem_flatMap.mp hq
  rw [nodesOf_eq_flatMap, List.mem_flatMap]
  refine ⟨t, ht, ?_⟩
  rcases t.pieces_cases with h | ⟨module, isType, s, ps, rfl, h⟩
  · rw [h, List.mem_singleton] at hq
    rwa [← hq]
  · rw [h] at hq
    rw [Tree.nodes, nodesOf_eq_flatMap]
    exact List.mem_cons_of_mem _ (List.mem_flatMap.mpr ⟨q, hq, hn⟩)

/-- The pieces of a script do not overlap. -/
lemma Program.pieces_apart (hp : p.IsLaidOut Q) :
    p.pieces.Pairwise fun q u => q.span.IsApart u.span := by
  rw [pieces, List.pairwise_flatMap]
  refine ⟨fun t ht => Tree.pieces_apart (hp.statements t ht), hp.apart.imp_of_mem ?_⟩
  intro t u ht hu h q hq q' hq'
  exact h.of_inside (Tree.inside_of_mem_pieces (hp.statements t ht) hq)
    (Tree.inside_of_mem_pieces (hp.statements u hu) hq')

/-- The pieces of a script have its edits. -/
lemma Program.stateEdits_perm (hstates : stateVariablesOf r.primitive p.body = r.states) :
    (p.stateEdits r.states r.hook).Perm (p.pieces.flatMap (Tree.recorded r)) := by
  have hbody := recorded_perm_flatMap (r := r) p.body
  rw [hstates] at hbody
  rw [stateEdits, pieces, List.flatMap_assoc]
  exact hbody.trans (List.Perm.flatMap_left _ fun t _ => t.recorded_pieces)

/-! ### Places -/

/-- The start of a script, or the end of an import declaration or of a part of one. -/
def Program.TakesImports (p : Program) (position : Nat) : Prop :=
  position = 0 ∨ ∃ module isType s ps,
    Tree.node (.importDeclaration module isType) s ps ∈ p.body ∧
      (position = s.stop ∨ ∃ q ∈ ps, position = q.span.stop)

/-- A specifier has the span of its node. -/
lemma Specifier.span_of_ofTree? {s : Specifier} (h : Specifier.ofTree? t = some s) :
    s.span = t.span := by
  unfold Specifier.ofTree? at h
  split at h <;> cases h <;> rfl

/-- An import declaration is a statement, and its specifiers are parts of it. -/
lemma Program.mem_imports {d : ImportDeclaration} (h : d ∈ p.imports) :
    ∃ module isType ps, Tree.node (.importDeclaration module isType) d.span ps ∈ p.body ∧
      ∀ s ∈ d.specifiers, ∃ q ∈ ps, s.span = q.span := by
  obtain ⟨t, ht, hd⟩ := List.mem_filterMap.mp h
  unfold ImportDeclaration.ofTree? at hd
  split at hd
  · cases hd
    refine ⟨_, _, _, ht, fun s hs => ?_⟩
    obtain ⟨q, hq, hs⟩ := List.mem_filterMap.mp hs
    exact ⟨q, hq, Specifier.span_of_ofTree? hs⟩
  · cases hd

/-- An import declaration is extended behind one of its specifiers. -/
lemma ImportDeclaration.extension?_position {d : ImportDeclaration} {list text : Text}
    {position : Nat} (h : d.extension? list = some (position, text)) :
    ∃ s ∈ d.specifiers, position = s.span.stop := by
  unfold extension? at h
  split at h
  · next _ s hlast =>
      cases h
      exact ⟨s, (List.mem_filter.mp (List.mem_of_getLast? hlast)).1, rfl⟩
  · next hspecifiers =>
      cases h
      rw [hspecifiers]
      exact ⟨_, List.mem_singleton_self _, rfl⟩
  · cases h

/-- Names are added at the start or behind an import. -/
lemma Program.importEdit_takesImports (p : Program) (module : Text) (names : List Text) :
    p.TakesImports (p.importEdit module names).1 := by
  rw [importEdit]
  split
  · next edit _ hedit =>
      obtain ⟨d, hd, hedit⟩ := List.exists_of_findSome?_eq_some hedit
      obtain ⟨s, hs, hposition⟩ := ImportDeclaration.extension?_position hedit
      obtain ⟨module, isType, ps, hmem, hspecifiers⟩ :=
        mem_imports (List.mem_of_mem_filter hd)
      obtain ⟨q, hq, hspan⟩ := hspecifiers s hs
      exact .inr ⟨module, isType, d.span, ps, hmem, .inr ⟨q, hq, by rw [hposition, hspan]⟩⟩
  · next last _ hlast =>
      obtain ⟨module, isType, ps, hmem, -⟩ := mem_imports (List.mem_of_getLast? hlast)
      exact .inr ⟨module, isType, last.span, ps, hmem, .inl rfl⟩
  · exact .inl rfl

variable {position : Nat}

/-- A place that takes imports is at a boundary. -/
lemma Program.TakesImports.isBoundary {source : Text} (h : p.TakesImports position)
    (hp : p.IsLaidOut Q) (hQ : ∀ s, Q s → s.Fits source) : source.IsBoundary position := by
  rcases h with rfl | ⟨module, isType, s, ps, hmem, rfl | ⟨q, hq, rfl⟩⟩
  · exact Text.isBoundary_zero source
  · exact (hQ _ (hp.statements _ hmem).span).stop
  · have hq' := ((Tree.isLaidOut_node_iff _ s ps).mp (hp.statements _ hmem)).2 q hq
    exact (hQ _ hq'.span).stop

/-- A place that takes imports is inside of no piece. -/
lemma Program.TakesImports.apart {source : Text} (h : p.TakesImports position)
    (hp : p.IsLaidOut Q) (hQ : ∀ s, Q s → s.Fits source) (hq : q ∈ p.pieces) :
    q.span.stop ≤ position ∨ position ≤ q.span.start := by
  rcases h with rfl | ⟨module, isType, s, ps, hmem, hposition⟩
  · exact .inr (Nat.zero_le _)
  · obtain ⟨t, ht, hq⟩ := List.mem_flatMap.mp hq
    have hinside := Tree.inside_of_mem_pieces (hp.statements t ht) hq
    have hs := (Tree.isLaidOut_node_iff _ s ps).mp (hp.statements _ hmem)
    have hpos : s.start ≤ position ∧ position ≤ s.stop := by
      rcases hposition with rfl | ⟨q', hq', rfl⟩
      · exact ⟨(hQ s hs.1.1).le, Nat.le_refl _⟩
      · have hin := hs.1.2.inside q' hq'
        exact ⟨Nat.le_trans hin.start (hQ _ (hs.2 q' hq').span).le, hin.stop⟩
    rcases eq_or_isApart hp.apart ht hmem with rfl | hapart
    · rcases hposition with rfl | ⟨q', hq', rfl⟩
      · exact .inl hinside.stop
      · rcases eq_or_isApart hs.1.2.apart hq hq' with rfl | h | h
        · exact .inl (Nat.le_refl _)
        · exact .inl (Nat.le_trans h (hQ _ (hs.2 q' hq').span).le)
        · exact .inr h
    · exact hapart.imp (fun h => Nat.le_trans (Nat.le_trans hinside.stop h) hpos.1)
        fun h => Nat.le_trans (Nat.le_trans hpos.2 h) hinside.start

/-! ### Requests -/

/-- The insertion that makes a name of a module importable, if it is missing. -/
def Program.importInsertion (p : Program) (module name : Text) : List Edit :=
  if (p.boundNames module).contains name then []
  else [⟨(p.importEdit module [name]).1, (p.importEdit module [name]).1,
    (p.importEdit module [name]).2⟩]

/-- The name of a module that is missing, behind its module and a colon. -/
def Program.missingImport (p : Program) (module name : Text) : List Text :=
  if (p.boundNames module).contains name then [] else [module ++ ':' :: name]

/-- A lone request is one insertion at most. -/
lemma Requests.apply_require (p : Program) (patch : Patch) (module name : Text) :
    (({} : Requests).require module name).apply p patch
      = (⟨patch.edits ++ p.importInsertion module name⟩, p.missingImport module name) := by
  have hmodules : (({} : Requests).require module name).modules = [module] := rfl
  have hnames : (({} : Requests).require module name).namesOf module = [name] := by
    simp [Requests.namesOf, Requests.require, Requests.insertPair]
  have hadd : p.addImports patch module [name] =
      (⟨patch.edits ++ p.importInsertion module name⟩,
        missingNames (p.boundNames module) [name]) := by
    rw [Program.addImports, Program.importInsertion]
    by_cases h : (p.boundNames module).contains name = true
    · rw [if_pos h, List.append_nil, missingNames, if_pos h]
      rfl
    · rw [if_neg h, missingNames, if_neg h]
      rfl
  have hmissing : (missingNames (p.boundNames module) [name]).map (module ++ ':' :: ·)
      = p.missingImport module name := by
    rw [missingNames, missingNames, Program.missingImport]
    split_ifs <;> rfl
  rw [apply, hmodules, List.foldl_cons, List.foldl_nil, hnames]
  dsimp only
  rw [hadd, ← hmissing]
  rfl

end ComponentMigration.Script
