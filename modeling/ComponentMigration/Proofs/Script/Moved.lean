import ComponentMigration.Proofs.Script.Edits
import ComponentMigration.Proofs.Script.Symbols

/-!
The syntax tree of a migrated script.

* **The tree.** `Tree.moved` is the tree that a migrated tree is meant to be read as: what
  `Tree.hooked` is for texts. `Tree.isMoved` lists what becomes of a node.
* **Reading.** A tree is `Alike` another if it differs in spans and symbols only, which a
  migration changes, and in that a chain may have lost its last optional link.
* **What stays.** A tree and what it becomes declare the same names, setters apart:
  `Tree.binders_moved`, `Tree.binders_of_alike`.
-/

namespace ComponentMigration.Script

/-! ### The tree -/

/-- A use of a name, as it is read. -/
def Tree.use (name : Text) : Tree := .node (.reference name .value none) ⟨0, 0⟩ []

/-- The class of what a compound assignment computes. -/
def computedClass (operator : Text) : Precedence :=
  if computedOperator operator = "??".toList then .coalesce
  else if computedOperator operator = "||".toList then .logicalOr
  else if computedOperator operator = "&&".toList then .logicalAnd
  else .binary

/-- What a setter is called with in place of an assignment. -/
def StateVariable.argument (v : StateVariable) (operator : Text) (value : Tree) : Tree :=
  if operator = ['='] then value
  else .node (.expression (computedClass operator)) ⟨0, 0⟩
    [.use v.name, .node .parentheses ⟨0, 0⟩ [value]]

/-- The pattern that takes the place of the name of a state variable. -/
def StateVariable.pattern (v : StateVariable) : Tree → Tree
  | .node (.binding name binder symbol) s ps => .node .other s [
      .node (.binding name binder symbol) s ps, .node (.binding v.setter binder none) s []]
  | t => t

variable (r : Pass)

mutual

/-- What a node becomes. An assignment to a state is a call of the setter, and a read of a
state its object, also where the read was all of an optional chain. A declarator of a state
variable has a pattern and calls the hook. Any other node has its parts moved. -/
def Tree.moved : Tree → Tree
  | .node (.assignment operator) s [target, value] =>
      match stateOf? r.states target with
      | some v => .node .call s [.use v.setter, v.argument operator value.moved]
      | none => .node (.assignment operator) s [target.moved, value.moved]
  | .node .chain s [e] =>
      if (stateOf? r.states e).isSome then e.moved else .node .chain s [e.moved]
  | .node f s ps =>
      match stateOf? r.states (.node f s ps),
        StateVariable.ofDeclarator? r.primitive (.node f s ps), ps with
      | some _, _, object :: _ => object
      | _, some v, [.node _ s₁ (name :: others), .node _ s₂ (_ :: operands)] =>
          .node .declarator s [
            .node .target s₁ (v.pattern name :: movedAll others),
            .node .call s₂ (.use r.hook :: movedAll operands)]
      | _, _, ps => .node f s (movedAll ps)

/-- What several nodes become. -/
def movedAll : List Tree → List Tree
  | [] => []
  | t :: ts => t.moved :: movedAll ts

end

/-- The trees of a list are moved one by one. -/
lemma movedAll_eq_map (ts : List Tree) : movedAll r ts = ts.map (Tree.moved r) := by
  induction ts with
  | nil => rfl
  | cons t ts ih => rw [movedAll, ih, List.map_cons]

/-- What can become of a node. -/
inductive Tree.IsMoved : Tree → Tree → Prop
  /-- An assignment to a state. -/
  | assigned {v : StateVariable} {operator : Text} {s : Span} {target value : Tree}
      (h : stateOf? r.states target = some v) :
      IsMoved (.node (.assignment operator) s [target, value])
        (.node .call s [.use v.setter, v.argument operator (value.moved r)])
  /-- A read of a state. -/
  | read {v : StateVariable} {s s' : Span} {name : Text} {space : Space} {symbol : Symbol}
      (hv : v ∈ r.states) (hsymbol : v.symbol = symbol) :
      IsMoved (.node (.member stateProperty) s
          [.node (.reference name space (some symbol)) s' []])
        (.node (.reference name space (some symbol)) s' [])
  /-- A chain that is a read of a state. -/
  | chained {v : StateVariable} {s s' s'' : Span} {name : Text} {space : Space} {symbol : Symbol}
      (hv : v ∈ r.states) (hsymbol : v.symbol = symbol) :
      IsMoved (.node .chain s [.node (.member stateProperty) s'
          [.node (.reference name space (some symbol)) s'' []]])
        (.node (.reference name space (some symbol)) s'' [])
  /-- A declaration of a state variable. -/
  | declared {name word : Text} {binder : Binder} {space : Space} {symbol : Symbol}
      {s s₁ s₂ nameSpan calleeSpan : Span} {others operands : List Tree} :
      IsMoved (.node .declarator s [
          .node .target s₁ (.node (.binding name binder (some symbol)) nameSpan [] :: others),
          .node .call s₂
            (.node (.reference word space (some r.primitive)) calleeSpan [] :: operands)])
        (.node .declarator s [
          .node .target s₁ (StateVariable.pattern ⟨symbol, name, nameSpan, calleeSpan⟩
            (.node (.binding name binder (some symbol)) nameSpan []) :: others.map (Tree.moved r)),
          .node .call s₂ (.use r.hook :: operands.map (Tree.moved r))])
  /-- Anything else. -/
  | other {f : Form} {s : Span} {ps : List Tree}
      (hdeclared : StateVariable.ofDeclarator? r.primitive (.node f s ps) = none) :
      IsMoved (.node f s ps) (.node f s (ps.map (Tree.moved r)))

variable {r}

/-- What is read is the state of a variable of the pass. -/
lemma mem_of_stateOf? {states : List StateVariable} {s s' : Span} {name : Text} {space : Space}
    {symbol : Symbol} {v : StateVariable}
    (h : stateOf? states (.node (.member stateProperty) s
      [.node (.reference name space (some symbol)) s' []]) = some v) :
    v ∈ states ∧ v.symbol = symbol := by
  have hfind : states.find? (·.symbol == symbol) = some v := by
    rw [← h, stateOf?, if_pos rfl]
  exact ⟨List.mem_of_find?_eq_some hfind,
    eq_of_beq (List.find?_some (p := fun v : StateVariable => v.symbol == symbol) hfind)⟩

/-- A read of a state becomes its object. -/
lemma Tree.moved_read {f : Form} {s : Span} {object : Tree} {v : StateVariable}
    (h : stateOf? r.states (.node f s [object]) = some v) :
    (Tree.node f s [object]).moved r = object := by
  obtain ⟨s', name, space, symbol, nameSpan, heq⟩ := stateOf?_eq_some h
  cases heq
  rw [moved.eq_def]
  dsimp only
  rw [h]

/-- Each node becomes one of these. -/
lemma Tree.isMoved (t : Tree) : t.IsMoved r (t.moved r) := by
  by_cases hread : ∃ v, stateOf? r.states t = some v
  · obtain ⟨v, hv⟩ := hread
    obtain ⟨s, name, space, symbol, s', rfl⟩ := stateOf?_eq_some hv
    obtain ⟨hmem, hsymbol⟩ := mem_of_stateOf? hv
    rw [moved_read hv]
    exact .read hmem hsymbol
  · have hnone : stateOf? r.states t = none := by
      cases h : stateOf? r.states t with
      | none => rfl
      | some v => exact absurd ⟨v, h⟩ hread
    -- The node itself is no read, so the cases of the definition are left.
    rw [moved.eq_def]
    split
    · next operator s target value =>
        split
        · next h => exact .assigned h
        · exact .other rfl
    · next s e =>
        split_ifs with h
        · obtain ⟨v, hv⟩ := Option.isSome_iff_exists.mp h
          obtain ⟨s', name, space, symbol, s'', rfl⟩ := stateOf?_eq_some hv
          obtain ⟨hmem, hsymbol⟩ := mem_of_stateOf? hv
          rw [moved_read hv]
          exact .chained hmem hsymbol
        · exact .other rfl
    · next f s ps _ _ =>
        rw [hnone]
        cases hdeclared : StateVariable.ofDeclarator? r.primitive (.node f s ps) with
        | some v =>
            obtain ⟨_, _, _, _, _, _, _, _, _, _, _, _, h, rfl⟩ := ofDeclarator?_eq_some hdeclared
            cases h
            dsimp only
            rw [movedAll_eq_map, movedAll_eq_map]
            exact .declared
        | none =>
            dsimp only
            rw [movedAll_eq_map]
            exact .other hdeclared

/-! ### Reading -/

/-- The form without its symbol. -/
def Form.bare : Form → Form
  | .reference name space _ => .reference name space none
  | .binding name binder _ => .binding name binder none
  | f => f

/-- A link of a chain, other than a call of a name. -/
def Tree.IsLink : Tree → Prop
  | .node (.member _) _ _ | .node .access _ _ | .node .nonNull _ _ => True
  | .node .call _ (callee :: _) => ¬ callee.form.IsName
  | _ => False

instance : DecidablePred Tree.IsLink := fun t => by
  unfold Tree.IsLink
  split <;> infer_instance

mutual

/-- A tree that has the forms of another, names without parts, whatever its spans and
symbols. A chain may have become what was in it. -/
def Tree.Alike : Tree → Tree → Prop
  | .node f _ ts, .node f' s us =>
      (f.bare = f'.bare ∧ (f.IsName → us = []) ∧ AlikeAll ts us) ∨
        (f = .chain ∧ (Tree.node f' s us).IsLink ∧ LostChain ts (.node f' s us))

/-- Trees that have the forms of others. -/
def AlikeAll : List Tree → List Tree → Prop
  | [], [] => True
  | t :: ts, u :: us => t.Alike u ∧ AlikeAll ts us
  | _, _ => False

/-- A single tree that has the form of another. -/
def LostChain : List Tree → Tree → Prop
  | [t], u => t.Alike u
  | _, _ => False

end

mutual

/-- Whether a tree has the forms of another can be decided. -/
def Tree.decideAlike : (t u : Tree) → Decidable (t.Alike u)
  | .node f _ ts, .node f' s us => by
      have := decideAlikeAll ts us
      have := decideLostChain ts (.node f' s us)
      unfold Tree.Alike
      infer_instance

/-- Whether trees have the forms of others can be decided. -/
def decideAlikeAll : (ts us : List Tree) → Decidable (AlikeAll ts us)
  | [], [] => isTrue trivial
  | t :: ts, u :: us => by
      have := t.decideAlike u
      have := decideAlikeAll ts us
      unfold AlikeAll
      infer_instance
  | [], _ :: _ => isFalse id
  | _ :: _, [] => isFalse id

/-- Whether a single tree has the form of another can be decided. -/
def decideLostChain : (ts : List Tree) → (u : Tree) → Decidable (LostChain ts u)
  | [], _ => isFalse id
  | [t], u => t.decideAlike u
  | _ :: _ :: _, _ => isFalse id

end

instance (ts us : List Tree) : Decidable (AlikeAll ts us) := decideAlikeAll ts us

/-- Lists are alike tree by tree. -/
lemma alikeAll_iff {ts us : List Tree} : AlikeAll ts us ↔ List.Forall₂ Tree.Alike ts us := by
  induction ts generalizing us with
  | nil => cases us <;> simp [AlikeAll]
  | cons t ts ih => cases us <;> simp [AlikeAll, ih]

/-- A tree has the form of another node by node, or is what was in its chain. -/
lemma Tree.alike_node_iff {f f' : Form} {s s' : Span} {ts us : List Tree} :
    (Tree.node f s ts).Alike (.node f' s' us) ↔
      (f.bare = f'.bare ∧ (f.IsName → us = []) ∧ List.Forall₂ Tree.Alike ts us) ∨
        ∃ e, f = .chain ∧ ts = [e] ∧ (Tree.node f' s' us).IsLink ∧ e.Alike (.node f' s' us) := by
  rw [Alike, alikeAll_iff]
  refine or_congr_right ⟨?_, ?_⟩
  · rintro ⟨hf, hlink, hlost⟩
    match ts with
    | [e] => exact ⟨e, hf, rfl, hlink, hlost⟩
    | [] | _ :: _ :: _ => exact hlost.elim
  · rintro ⟨e, hf, rfl, hlink, hlost⟩
    exact ⟨hf, hlink, hlost⟩

/-- What is no link of a chain has a form of its own. -/
lemma Tree.Alike.of_not_isLink {t : Tree} {f : Form} {s : Span} {us : List Tree}
    (h : t.Alike (.node f s us)) (hlink : ¬ (Tree.node f s us).IsLink) :
    ∃ f' s' ts, t = .node f' s' ts ∧ f'.bare = f.bare ∧ (f'.IsName → us = []) ∧
      List.Forall₂ Tree.Alike ts us := by
  obtain ⟨f', s', ts⟩ := t
  rcases alike_node_iff.mp h with ⟨hf, hname, hparts⟩ | ⟨_, _, _, h, _⟩
  · exact ⟨f', s', ts, rfl, hf, hname, hparts⟩
  · exact absurd h hlink

/-- What has the form of a node that is no chain has its parts. -/
lemma Tree.Alike.of_ne_chain {u : Tree} {f : Form} {s : Span} {ts : List Tree}
    (h : (Tree.node f s ts).Alike u) (hf : f ≠ .chain) :
    ∃ f' s' us, u = .node f' s' us ∧ f.bare = f'.bare ∧ (f.IsName → us = []) ∧
      List.Forall₂ Tree.Alike ts us := by
  obtain ⟨f', s', us⟩ := u
  rcases alike_node_iff.mp h with ⟨hbare, hname, hparts⟩ | ⟨_, h, _⟩
  · exact ⟨f', s', us, rfl, hbare, hname, hparts⟩
  · exact absurd h hf

/-- A form that is no name is told by its bare form. -/
lemma Form.eq_of_bare_eq {f f' : Form} (h : f.bare = f'.bare) (hf : ¬ f.IsName) : f = f' := by
  cases f <;> first | exact absurd trivial hf | (cases f' <;> first | exact h | cases h)

/-- Names have bare forms of names. -/
lemma Form.isName_iff_of_bare_eq {f f' : Form} (h : f.bare = f'.bare) :
    f.IsName ↔ f'.IsName := by
  refine ⟨fun hf => ?_, fun hf' => ?_⟩
  · by_contra hf'
    exact hf' (eq_of_bare_eq h.symm hf' ▸ hf)
  · by_contra hf
    exact hf (eq_of_bare_eq h hf ▸ hf')

/-- Each of several trees has the form of one of the others. -/
lemma exists_alike_of_mem {ts us : List Tree} (h : List.Forall₂ Tree.Alike ts us) {u : Tree}
    (hu : u ∈ us) : ∃ t ∈ ts, t.Alike u := by
  induction h with
  | nil => cases hu
  | cons htu _ ih =>
      rcases List.mem_cons.mp hu with rfl | hu
      · exact ⟨_, List.mem_cons_self, htu⟩
      · obtain ⟨t, ht, htu⟩ := ih hu
        exact ⟨t, List.mem_cons_of_mem _ ht, htu⟩

/-- In a tree that was compared names have no parts. -/
lemma Tree.Alike.hasPlainNames {t u : Tree} (h : t.Alike u) : u.HasPlainNames := by
  induction t using Tree.ind generalizing u with
  | h f s ts ih =>
      obtain ⟨f', s', us⟩ := u
      rcases alike_node_iff.mp h with ⟨hbare, hname, hparts⟩ | ⟨e, -, rfl, -, he⟩
      · rw [HasPlainNames, nodes, List.forall_mem_cons, nodesOf_eq_flatMap, List.forall_mem_flatMap]
        refine ⟨fun hf' => hname ((Form.isName_iff_of_bare_eq hbare).mpr hf'), fun u hu => ?_⟩
        obtain ⟨t, ht, hu⟩ := exists_alike_of_mem hparts hu
        exact ih t ht hu
      · exact ih e (by simp) he

/-! ### Declarations -/

/-- How the declarations of a name declare it. -/
def binders (name : Text) (ds : List Declaration) : List Binder :=
  (ds.filter (·.name == name)).map (·.binder)

/-- A name has a binder if a declaration of the name has it. -/
lemma mem_binders {name : Text} {ds : List Declaration} {b : Binder} :
    b ∈ binders name ds ↔ ∃ d ∈ ds, d.name = name ∧ d.binder = b := by
  simp [binders, and_assoc]

/-- The binders of a name are those among the one declarations, and among the others. -/
lemma binders_append (name : Text) (ds es : List Declaration) :
    binders name (ds ++ es) = binders name ds ++ binders name es := by
  rw [binders, List.filter_append, List.map_append]
  rfl

/-- The binders of several trees are those of each of them. -/
lemma binders_declarationsOf (name : Text) (onlyHoisted : Bool) (ts : List Tree) :
    binders name (declarationsOf onlyHoisted ts)
      = ts.flatMap fun t => binders name (t.declarations onlyHoisted) := by
  induction ts with
  | nil => rfl
  | cons t ts ih => rw [declarationsOf, binders_append, ih, List.flatMap_cons]

/-- Whether a region answers for a name depends on the binders of the name in it. -/
lemma exists_answers_iff {name : Text} {space : Space} {isFunction : Bool} {ps : List Tree} :
    (∃ d ∈ regionDeclarations isFunction ps, d.name = name ∧ d.binder.answers space = true) ↔
      (isFunction = false → .hoisted ∉ binders name (declarationsOf false ps)) ∧
        ∃ b ∈ binders name (declarationsOf false ps), b.answers space = true := by
  simp only [mem_regionDeclarations, mem_binders, declarationsOf_true, List.mem_filter,
    beq_iff_eq]
  -- Only in blocks can a hoisted declaration of the name stand in the way, and it is there or
  -- not whichever declaration answers.
  constructor
  · rintro ⟨d, ⟨hd, hpasses⟩, rfl, hanswers⟩
    refine ⟨?_, d.binder, ⟨d, hd, rfl, rfl⟩, hanswers⟩
    rintro hfunction ⟨d', hd', hname, hbinder⟩
    exact hpasses hfunction d' ⟨hd', hbinder⟩ hname
  · rintro ⟨hpasses, b, ⟨d, hd, rfl, rfl⟩, hanswers⟩
    refine ⟨d, ⟨hd, ?_⟩, rfl, hanswers⟩
    rintro hfunction d' ⟨hd', hbinder⟩ hname
    exact hpasses hfunction ⟨d', hd', hname, hbinder⟩

/-- Nodes of one bare form declare a name alike if their parts do. -/
lemma Tree.binders_node {name : Text} {f f' : Form} (hf : f.bare = f'.bare) {s s' : Span}
    {ps ps' : List Tree}
    (h : ∀ b, binders name (declarationsOf b ps) = binders name (declarationsOf b ps'))
    (onlyHoisted : Bool) :
    binders name ((Tree.node f s ps).declarations onlyHoisted)
      = binders name ((Tree.node f' s' ps').declarations onlyHoisted) := by
  -- A binding declares its own name, a region what reaches out of it, and any other node what
  -- its parts declare. The bare form tells the three apart.
  by_cases hbinding : ∃ word binder symbol, f = .binding word binder symbol
  · obtain ⟨word, binder, symbol, rfl⟩ := hbinding
    have hf' : ∃ symbol', f' = .binding word binder symbol' := by
      cases f' <;> cases hf
      exact ⟨_, rfl⟩
    obtain ⟨symbol', rfl⟩ := hf'
    rw [declarations, declarations]
    split_ifs
    · rfl
    · by_cases hword : word = name <;> simp [binders, hword]
  · by_cases hscope : ∃ isFunction, f = .scope isFunction
    · obtain ⟨isFunction, rfl⟩ := hscope
      cases Form.eq_of_bare_eq hf id
      rw [declarations, declarations]
      split_ifs
      · rfl
      · exact h true
    · have hbinding' : ∀ w b x, f' ≠ .binding w b x := by
        intro w b x heq
        subst heq
        cases f <;> cases hf
        exact hbinding ⟨_, _, _, rfl⟩
      have hscope' : ∀ b, f' ≠ .scope b := by
        intro b heq
        subst heq
        exact hscope ⟨b, Form.eq_of_bare_eq hf.symm id ▸ rfl⟩
      rw [declarations_node (fun w b x heq => hbinding ⟨w, b, x, heq⟩)
        (fun b heq => hscope ⟨b, heq⟩), declarations_node hbinding' hscope', h]

/-- Trees of one form declare a name alike. -/
lemma Tree.binders_of_alike {name : Text} {t u : Tree} (h : t.Alike u) (onlyHoisted : Bool) :
    binders name (t.declarations onlyHoisted) = binders name (u.declarations onlyHoisted) := by
  induction t using Tree.ind generalizing u onlyHoisted with
  | h f s ts ih =>
      obtain ⟨f', s', us⟩ := u
      rcases alike_node_iff.mp h with ⟨hbare, -, hparts⟩ | ⟨e, rfl, rfl, -, he⟩
      · refine binders_node hbare (fun b => ?_) onlyHoisted
        rw [binders_declarationsOf, binders_declarationsOf]
        clear h
        induction hparts with
        | nil => rfl
        | cons htu _ ihs =>
            rw [List.flatMap_cons, List.flatMap_cons, ih _ (by simp) htu b,
              ihs fun t ht => ih t (by simp [ht])]
      -- A chain that lost its last optional link declares what its only part does.
      · rw [declarations_node (by simp) (by simp), declarationsOf, declarationsOf, List.append_nil]
        exact ih e (by simp) he onlyHoisted

/-- The state variables of a node are state variables of the tree. -/
lemma Tree.stateVariables_subset {t n : Tree} {primitive : Symbol} (hn : n ∈ t.nodes) :
    n.stateVariables primitive ⊆ t.stateVariables primitive := by
  rw [stateVariables_eq_filterMap, stateVariables_eq_filterMap]
  intro v hv
  obtain ⟨m, hm, hv⟩ := List.mem_filterMap.mp hv
  exact List.mem_filterMap.mpr ⟨m, mem_nodes_trans hm hn, hv⟩

/-- Moving a tree declares setters, and nothing else changes for any other name. -/
lemma Tree.binders_moved {name : Text} {t : Tree}
    (h : ∀ v ∈ t.stateVariables r.primitive, v.setter ≠ name) (onlyHoisted : Bool) :
    binders name ((t.moved r).declarations onlyHoisted)
      = binders name (t.declarations onlyHoisted) := by
  induction t using Tree.nodes_ind generalizing onlyHoisted with
  | h f s ps ih =>
      -- The parts of any node below keep their binders by induction.
      have hall : ∀ qs : List Tree, (∀ q ∈ qs, q ∈ nodesOf ps) → ∀ b,
          binders name (declarationsOf b (qs.map (Tree.moved r)))
            = binders name (declarationsOf b qs) := by
        intro qs hqs b
        rw [binders_declarationsOf, binders_declarationsOf, List.flatMap_map]
        refine List.flatMap_congr fun q hq => ih q (hqs q hq) (fun v hv => h v ?_) b
        exact stateVariables_subset (List.mem_cons_of_mem _ (hqs q hq)) hv
      have hmoved := (Tree.node f s ps).isMoved (r := r)
      generalize (Tree.node f s ps).moved r = u at hmoved
      cases hmoved with
      | other _ =>
          exact binders_node rfl
            (fun b => hall ps (fun _ hq => mem_nodesOf_of_mem hq) b) onlyHoisted
      -- A read was a use, and stays one: neither declares anything.
      | read _ _ => rfl
      | chained _ _ => rfl
      | @assigned v operator _ target value hstate =>
          have hvalue := hall [value] (by simp [mem_nodesOf_of_mem]) onlyHoisted
          obtain ⟨s', word, space, symbol, s'', rfl⟩ := stateOf?_eq_some hstate
          rw [StateVariable.argument]
          split_ifs <;>
            simpa [declarations_node, declarationsOf, use, binders_append] using hvalue
      | @declared word callee binder space symbol _ s₁ s₂ nameSpan calleeSpan others operands =>
          set v : StateVariable := ⟨symbol, word, nameSpan, calleeSpan⟩
          -- The setter is a new name, but not the one in question.
          have hsetter : v.setter ≠ name :=
            h v (by simp [v, stateVariables, StateVariable.ofDeclarator?])
          have hown : binders name
              ((Tree.node (.binding v.setter binder none) nameSpan []).declarations onlyHoisted)
                = [] := by
            rw [declarations]
            split_ifs
            · rfl
            · simp [binders, hsetter]
          have hothers := hall others
            (fun q hq => by simp [nodesOf, nodes, mem_nodesOf_of_mem hq]) onlyHoisted
          have hoperands := hall operands
            (fun q hq => by simp [nodesOf, nodes, mem_nodesOf_of_mem hq]) onlyHoisted
          simpa [declarations_node, declarationsOf, use, binders_append, StateVariable.pattern,
            hothers, hoperands] using hown

/-- What becomes of the parts of a region, and is read again, declares a name alike. -/
lemma binders_of_moved_alike {name : Text} {ts us : List Tree}
    (h : List.Forall₂ Tree.Alike (ts.map (Tree.moved r)) us)
    (hsetters : ∀ t ∈ ts, ∀ v ∈ t.stateVariables r.primitive, v.setter ≠ name)
    (onlyHoisted : Bool) :
    binders name (declarationsOf onlyHoisted ts) =
      binders name (declarationsOf onlyHoisted us) := by
  rw [binders_declarationsOf, binders_declarationsOf]
  induction ts generalizing us with
  | nil => cases h with | nil => rfl
  | cons t ts ih =>
      cases h with
      | cons htu h =>
          rw [List.flatMap_cons, List.flatMap_cons, ← Tree.binders_of_alike htu,
            Tree.binders_moved (hsetters t List.mem_cons_self),
            ih h fun t ht => hsetters t (List.mem_cons_of_mem _ ht)]

end ComponentMigration.Script
