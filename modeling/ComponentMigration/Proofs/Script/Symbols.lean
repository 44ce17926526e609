import ComponentMigration.Proofs.Script.Imports

/-!
Which names of a script share a symbol.

* **Looking up.** A region that declares a name with the meaning that is asked for answers
  with its first declaration of the name (`lookup_of_declared`); otherwise the regions around
  it do (`lookup_of_not_declared`). So all uses of a name that a region answers have one symbol.
* **Offsets.** In a laid out script whose names are not empty and have no parts, two declarations
  at one offset are one (`declarationsOf_inj`).
* **Main statement.** `offset_ne_of_mem_region`: what a region declares is at another offset
  than what reaches out of it, so no two regions share a symbol.
-/

namespace ComponentMigration.Script

/-! ### Looking up -/

/-- Whether a name that is declared like this has a meaning that is asked for. -/
def Binder.answers (b : Binder) : Space → Bool
  | .value => b.isValue
  | .type => b.isType
  | .any => true

variable {ds : List Declaration} {env : Environment} {name : Text} {space : Space}

/-- A meaning is that of a declaration, and its symbol that of the first declaration of the
name. -/
lemma mem_meanings {m : Meaning} (h : m ∈ meanings ds) : ∃ d ∈ ds, m.name = d.name ∧
    (∀ space, m.answers space = d.binder.answers space) ∧
      (ds.find? (·.name == d.name)).map (·.offset) = some m.symbol := by
  obtain ⟨d, hd, rfl⟩ := List.mem_map.mp h
  refine ⟨d, hd, rfl, fun space => by cases space <;> rfl, ?_⟩
  obtain ⟨d', hd'⟩ := Option.isSome_iff_exists.mp
    (List.find?_isSome (p := fun e : Declaration => e.name == d.name) |>.mpr
      ⟨d, hd, beq_self_eq_true d.name⟩)
  simp only [hd', Option.map_some, Option.getD_some]

/-- A region answers with its first declaration of the name. -/
lemma lookup_of_declared {d : Declaration} (hd : d ∈ ds) (h : d.binder.answers space = true) :
    Environment.lookup (meanings ds ++ env) d.name space
      = (ds.find? (·.name == d.name)).map (·.offset) := by
  obtain ⟨m, hm⟩ : ∃ m, (meanings ds).find? (fun m => m.name == d.name && m.answers space)
      = some m := by
    rw [← Option.isSome_iff_exists, List.find?_isSome]
    refine ⟨_, List.mem_map_of_mem hd, ?_⟩
    rw [Bool.and_eq_true]
    exact ⟨beq_self_eq_true _, by cases space <;> exact h⟩
  obtain ⟨d', -, hname, -, hsymbol⟩ := mem_meanings (List.mem_of_find?_eq_some hm)
  have hfound : m.name = d.name :=
    eq_of_beq (Bool.and_eq_true _ _ ▸ List.find?_some hm).1
  rw [Environment.lookup, List.find?_append, hm, ← hfound, hname, hsymbol]
  rfl

/-- A region that does not answer leaves that to the regions around it. -/
lemma lookup_of_not_declared
    (h : ∀ d ∈ ds, d.name = name → d.binder.answers space = false) :
    Environment.lookup (meanings ds ++ env) name space = env.lookup name space := by
  have hnone : (meanings ds).find? (fun m => m.name == name && m.answers space) = none := by
    rw [List.find?_eq_none]
    intro m hm
    obtain ⟨d, hd, hname, hanswers, -⟩ := mem_meanings hm
    rw [Bool.and_eq_true, hanswers, beq_iff_eq, hname]
    rintro ⟨heq, h'⟩
    rw [h d hd heq] at h'
    cases h'
  rw [Environment.lookup, List.find?_append, hnone]
  rfl

/-- A symbol is that of a declaration of the region, or found in the regions around it where
the region does not answer. -/
lemma lookup_eq_some {x : Symbol}
    (h : Environment.lookup (meanings ds ++ env) name space = some x) :
    (∃ d ∈ ds, d.name = name ∧ d.offset = x) ∨
      (∀ d ∈ ds, d.name = name → d.binder.answers space = false) ∧
        env.lookup name space = some x := by
  -- The region answers if one of its declarations of the name can, and otherwise what is around
  -- it does.
  by_cases hdeclared : ∃ d ∈ ds, d.name = name ∧ d.binder.answers space = true
  · obtain ⟨d, hd, rfl, hanswers⟩ := hdeclared
    rw [lookup_of_declared hd hanswers, Option.map_eq_some_iff] at h
    obtain ⟨d', hd', hx⟩ := h
    have hname : d'.name = d.name :=
      eq_of_beq (List.find?_some (p := fun e : Declaration => e.name == d.name) hd')
    exact .inl ⟨d', List.mem_of_find?_eq_some hd', hname, hx⟩
  · have hnone : ∀ d ∈ ds, d.name = name → d.binder.answers space = false := by
      intro d hd hname
      by_contra hne
      exact hdeclared ⟨d, hd, hname, (Bool.not_eq_false _).mp hne⟩
    rw [lookup_of_not_declared hnone] at h
    exact .inr ⟨hnone, h⟩

/-- A name that is declared can be used. -/
lemma isSome_lookup {d : Declaration} (hd : d ∈ ds) (env : Environment) :
    (Environment.lookup (meanings ds ++ env) d.name .any).isSome = true := by
  rw [lookup_of_declared hd rfl, Option.isSome_map, List.find?_isSome]
  exact ⟨d, hd, beq_self_eq_true d.name⟩

/-! ### Declarations -/

/-- The declarations of a list are those of its trees. -/
lemma declarationsOf_eq_flatMap (onlyHoisted : Bool) (ts : List Tree) :
    declarationsOf onlyHoisted ts = ts.flatMap (Tree.declarations onlyHoisted) := by
  induction ts with
  | nil => rfl
  | cons t ts ih => rw [declarationsOf, ih, List.flatMap_cons]

/-- Names have no parts. -/
def Tree.HasPlainNames (t : Tree) : Prop := ∀ n ∈ t.nodes, n.form.IsName → n.parts = []

/-- Names are not empty. -/
def Tree.HasFilledNames (t : Tree) : Prop := ∀ n ∈ t.nodes, n.form.IsName → n.span.IsFilled

/-- The declarations of the region that a node is, if it is one. -/
def Tree.region : Tree → List Declaration
  | .node (.scope isFunction) _ ps => regionDeclarations isFunction ps
  | _ => []

variable {t n : Tree} {ts : List Tree} {d d' : Declaration} {onlyHoisted : Bool}

/-- The declarations of a node that is neither one nor a region are those of its parts. -/
lemma Tree.declarations_node {f : Form} (hbinding : ∀ w b x, f ≠ .binding w b x)
    (hscope : ∀ b, f ≠ .scope b) (s : Span) (ps : List Tree) :
    (Tree.node f s ps).declarations onlyHoisted = declarationsOf onlyHoisted ps := by
  cases f
  case binding w b x => exact absurd rfl (hbinding w b x)
  case scope b => exact absurd rfl (hscope b)
  all_goals rfl

/-- The hoisted declarations are those that are hoisted. -/
lemma Tree.declarations_true (t : Tree) :
    t.declarations true = (t.declarations false).filter (·.binder == .hoisted) := by
  induction t using Tree.ind with
  | h f s ps ih =>
      have hparts : declarationsOf true ps
          = (declarationsOf false ps).filter (·.binder == .hoisted) := by
        rw [declarationsOf_eq_flatMap, declarationsOf_eq_flatMap, List.filter_flatMap]
        exact List.flatMap_congr ih
      cases f
      case binding name binder symbol => cases binder <;> rfl
      case scope isFunction =>
        cases isFunction
        -- What reaches out of a block is hoisted already, so filtering it once more changes
        -- nothing.
        · have hfilter : (declarationsOf true ps).filter (·.binder == .hoisted)
              = declarationsOf true ps := by
            rw [hparts, List.filter_filter]
            simp only [Bool.and_self]
          exact hfilter.symm
        · rfl
      all_goals exact hparts

/-- What is hoisted is a part of what is declared. -/
lemma declarationsOf_true (ts : List Tree) :
    declarationsOf true ts = (declarationsOf false ts).filter (·.binder == .hoisted) := by
  rw [declarationsOf_eq_flatMap, declarationsOf_eq_flatMap, List.filter_flatMap]
  exact List.flatMap_congr fun t _ => t.declarations_true

/-- What a region declares stands in it, and does not pass through it. -/
lemma mem_regionDeclarations {isFunction : Bool} {ps : List Tree} :
    d ∈ regionDeclarations isFunction ps ↔ d ∈ declarationsOf false ps ∧
      (isFunction = false → ∀ d' ∈ declarationsOf true ps, d'.name ≠ d.name) := by
  rw [regionDeclarations, declarationsOf_true]
  cases isFunction
  · simp [List.mem_filter]
  · simp

/-- A declaration is made by a node. -/
lemma Tree.exists_node_of_mem_declarations (h : d ∈ t.declarations false) :
    ∃ x s ps, Tree.node (.binding d.name d.binder x) s ps ∈ t.nodes ∧ s.start = d.offset := by
  induction t using Tree.ind with
  | h f s ps ih =>
      have hparts : d ∈ declarationsOf false ps →
          ∃ x s' ps', Tree.node (.binding d.name d.binder x) s' ps' ∈ nodesOf ps ∧
            s'.start = d.offset := by
        rw [declarationsOf_eq_flatMap, List.mem_flatMap]
        rintro ⟨p, hp, hd⟩
        obtain ⟨x, s', ps', hn, hstart⟩ := ih p hp hd
        exact ⟨x, s', ps', nodesOf_eq_flatMap ps ▸ List.mem_flatMap.mpr ⟨p, hp, hn⟩, hstart⟩
      have hinside : d ∈ declarationsOf false ps →
          ∃ x s' ps', Tree.node (.binding d.name d.binder x) s' ps' ∈ (Tree.node f s ps).nodes ∧
            s'.start = d.offset := fun hd => by
        obtain ⟨x, s', ps', hn, hstart⟩ := hparts hd
        exact ⟨x, s', ps', List.mem_cons_of_mem _ hn, hstart⟩
      cases f
      case binding name binder symbol =>
        cases List.mem_singleton.mp h
        exact ⟨symbol, s, ps, List.mem_cons_self, rfl⟩
      -- Out of a block reaches only what is hoisted, which its parts declare; out of a function
      -- nothing does.
      case scope isFunction =>
        cases isFunction
        · rw [declarations, if_neg (by simp), declarationsOf_true] at h
          exact hinside (List.mem_of_mem_filter h)
        · cases h
      all_goals exact hinside h

/-! ### Resolved nodes -/

/-- A resolved node that is neither a name nor a region has the form it had, and its parts are
resolved. -/
lemma Tree.resolve_eq_node {f : Form} {s : Span} {ps : List Tree} (hname : ¬ f.IsName)
    (hscope : ∀ b, f ≠ .scope b) (h : t.resolve env = .node f s ps) :
    ∃ ps₀, t = .node f s ps₀ ∧ ps = ps₀.map (Tree.resolve env) := by
  obtain ⟨g, s', ps₀⟩ := t
  cases g
  case reference => cases h; exact absurd trivial hname
  case binding => cases h; exact absurd trivial hname
  case scope b => cases h; exact absurd rfl (hscope b)
  all_goals
    cases h
    exact ⟨ps₀, rfl, resolveAll_eq_map _ _⟩

/-- A resolved declaration of a name has the symbol that the name has there. -/
lemma Tree.resolve_eq_binding {w : Text} {binder : Binder} {x : Option Symbol} {s : Span}
    {ps : List Tree} (h : t.resolve env = .node (.binding w binder x) s ps) :
    (∃ y, t = .node (.binding w binder y) s ps) ∧ x = env.lookup w .any := by
  obtain ⟨g, s', ps₀⟩ := t
  cases g <;> cases h
  exact ⟨⟨_, rfl⟩, rfl⟩

/-- A resolved use of a name has the symbol that the name has there. -/
lemma Tree.resolve_eq_reference {w : Text} {x : Option Symbol} {s : Span} {ps : List Tree}
    (h : t.resolve env = .node (.reference w space x) s ps) :
    (∃ y, t = .node (.reference w space y) s ps) ∧ x = env.lookup w space := by
  obtain ⟨g, s', ps₀⟩ := t
  cases g <;> cases h
  exact ⟨⟨_, rfl⟩, rfl⟩

/-- Resolving changes no declarations. -/
lemma Tree.declarations_resolve (t : Tree) (env : Environment) (onlyHoisted : Bool) :
    (t.resolve env).declarations onlyHoisted = t.declarations onlyHoisted := by
  induction t using Tree.ind generalizing env onlyHoisted with
  | h f s ps ih =>
      have hparts : ∀ env b, declarationsOf b (resolveAll env ps) = declarationsOf b ps := by
        intro env b
        rw [declarationsOf_eq_flatMap, declarationsOf_eq_flatMap, resolveAll_eq_map,
          List.flatMap_map]
        exact List.flatMap_congr fun p hp => ih p hp env b
      cases f
      case reference => rfl
      case binding => rfl
      case scope isFunction =>
        rw [resolve, declarations, declarations, hparts]
      all_goals exact hparts env onlyHoisted

/-- Resolving the names of a list leaves its declarations. -/
lemma declarationsOf_resolveAll (ts : List Tree) (env : Environment) (onlyHoisted : Bool) :
    declarationsOf onlyHoisted (resolveAll env ts) = declarationsOf onlyHoisted ts := by
  rw [declarationsOf_eq_flatMap, declarationsOf_eq_flatMap, resolveAll_eq_map, List.flatMap_map]
  exact List.flatMap_congr fun t _ => t.declarations_resolve env onlyHoisted

/-- What is resolved stays as it is when it is resolved again. -/
lemma Tree.resolve_resolve (t : Tree) (env : Environment) :
    (t.resolve env).resolve env = t.resolve env := by
  induction t using Tree.ind generalizing env with
  | h f s ps ih =>
      have hparts : ∀ env, resolveAll env (resolveAll env ps) = resolveAll env ps := by
        intro env
        rw [resolveAll_eq_map, resolveAll_eq_map, List.map_map]
        exact List.map_congr_left fun p hp => ih p hp env
      cases f
      case reference => rfl
      case binding => rfl
      case scope isFunction =>
        rw [resolve, resolve, regionDeclarations, declarationsOf_resolveAll, ← regionDeclarations,
          hparts]
      -- In all other nodes the names around are the same for the parts.
      all_goals
        rw [resolve, resolve, hparts]
        all_goals simp

/-! ### Nodes -/

/-- The induction principle of nodes: a property holds of every tree once it is inherited from
all nodes inside of it. -/
@[elab_as_elim]
theorem Tree.nodes_ind {P : Tree → Prop}
    (h : ∀ f s ps, (∀ n ∈ nodesOf ps, P n) → P (.node f s ps)) (t : Tree) : P t := by
  suffices hall : ∀ n ∈ t.nodes, P n from hall t t.mem_nodes_self
  induction t using Tree.ind with
  | h f s ps ih =>
      have hparts : ∀ n ∈ nodesOf ps, P n := by
        rw [nodesOf_eq_flatMap, List.forall_mem_flatMap]
        exact ih
      rw [nodes, List.forall_mem_cons]
      exact ⟨h f s ps hparts, hparts⟩

/-- Trees are among their nodes. -/
lemma mem_nodesOf_of_mem (ht : t ∈ ts) : t ∈ nodesOf ts := by
  rw [nodesOf_eq_flatMap]
  exact List.mem_flatMap.mpr ⟨t, ht, t.mem_nodes_self⟩

/-- The nodes of a node are nodes of the tree. -/
lemma Tree.mem_nodes_trans {m : Tree} (hm : m ∈ n.nodes) (hn : n ∈ t.nodes) : m ∈ t.nodes := by
  induction t using Tree.ind with
  | h f s ps ih =>
      rw [nodes, nodesOf_eq_flatMap, List.mem_cons, List.mem_flatMap] at hn
      rcases hn with rfl | ⟨p, hp, hn⟩
      · exact hm
      · rw [nodes, nodesOf_eq_flatMap]
        exact List.mem_cons_of_mem _ (List.mem_flatMap.mpr ⟨p, hp, ih p hp hn⟩)

/-! ### Offsets -/

variable {Q : Span → Prop}

/-- The nodes of a laid out tree are inside of its span. -/
lemma Tree.IsLaidOut.inside (ht : t.IsLaidOut Q) (hn : n ∈ t.nodes) : n.span.Inside t.span := by
  induction t using Tree.ind with
  | h f s ps ih =>
      rw [isLaidOut_node_iff] at ht
      rw [nodes, nodesOf_eq_flatMap, List.mem_cons, List.mem_flatMap] at hn
      rcases hn with rfl | ⟨p, hp, hn⟩
      · exact Span.Inside.refl _
      · exact (ih p hp (ht.2 p hp) hn).trans (ht.1.2.inside p hp)

/-- The parts of a laid out node are laid out. -/
lemma Tree.IsLaidOut.parts {f : Form} {s : Span} {ps : List Tree}
    (ht : (Tree.node f s ps).IsLaidOut Q) : (⟨ps⟩ : Program).IsLaidOut Q :=
  ⟨((isLaidOut_node_iff f s ps).mp ht).2, ((isLaidOut_node_iff f s ps).mp ht).1.2.apart⟩

/-- The nodes of a part are nodes of the node. -/
lemma Tree.mem_nodes_of_part {f : Form} {s : Span} {ps : List Tree} {p : Tree} (hp : p ∈ ps)
    (hn : n ∈ p.nodes) : n ∈ (Tree.node f s ps).nodes :=
  mem_nodes_trans hn (mem_nodes_of_mem_parts (t := .node f s ps) hp)

/-- The parts of a tree have plain names with the tree. -/
lemma Tree.HasPlainNames.of_mem_parts {f : Form} {s : Span} {ps : List Tree} {p : Tree}
    (h : (Tree.node f s ps).HasPlainNames) (hp : p ∈ ps) : p.HasPlainNames := fun n hn =>
  h n (mem_nodes_of_part hp hn)

/-- The names in the parts of a tree are names of the tree. -/
lemma Tree.HasFilledNames.of_mem_parts {f : Form} {s : Span} {ps : List Tree} {p : Tree}
    (h : (Tree.node f s ps).HasFilledNames) (hp : p ∈ ps) : p.HasFilledNames := fun n hn =>
  h n (mem_nodes_of_part hp hn)

/-- Names in trees that do not overlap are at different offsets. -/
lemma start_ne_of_isApart {u m : Tree} (ht : t.IsLaidOut Q) (hu : u.IsLaidOut Q)
    (hfilled : t.HasFilledNames) (hfilled' : u.HasFilledNames) (hn : n ∈ t.nodes)
    (hm : m ∈ u.nodes) (hname : n.form.IsName) (hname' : m.form.IsName)
    (h : t.span.IsApart u.span) : n.span.start ≠ m.span.start := by
  have hn' : n.span.start < n.span.stop := hfilled n hn hname
  have hm' : m.span.start < m.span.stop := hfilled' m hm hname'
  intro heq
  rcases h.of_inside (ht.inside hn) (hu.inside hm) with h | h <;> omega

/-- Names of a laid out tree at one offset are one name. -/
lemma Tree.eq_of_start_eq {m : Tree} (ht : t.IsLaidOut Q) (hplain : t.HasPlainNames)
    (hfilled : t.HasFilledNames) (hn : n ∈ t.nodes) (hm : m ∈ t.nodes) (hname : n.form.IsName)
    (hname' : m.form.IsName) (h : n.span.start = m.span.start) : n = m := by
  induction t using Tree.ind with
  | h f s ps ih =>
      -- A name has no parts, so it is the only node of its tree. In any other tree both names
      -- stand in parts, in one and the same, for different parts do not touch.
      by_cases hf : f.IsName
      · have hnil : ps = [] := hplain _ (mem_nodes_self _) hf
        subst hnil
        rw [nodes, nodesOf, List.mem_singleton] at hn hm
        rw [hn, hm]
      · have hne : ∀ k ∈ (Tree.node f s ps).nodes, k.form.IsName → ∃ p ∈ ps, k ∈ p.nodes := by
          intro k hk hk'
          rw [nodes, List.mem_cons, nodesOf_eq_flatMap, List.mem_flatMap] at hk
          rcases hk with rfl | hk
          · exact absurd hk' hf
          · exact hk
        obtain ⟨p, hp, hn⟩ := hne n hn hname
        obtain ⟨q, hq, hm⟩ := hne m hm hname'
        have hlayout := ht.parts
        rcases eq_or_isApart hlayout.apart hp hq with rfl | hapart
        · exact ih p hp (hlayout.statements p hp) (hplain.of_mem_parts hp)
            (hfilled.of_mem_parts hp) hn hm
        · exact absurd h (start_ne_of_isApart (hlayout.statements p hp) (hlayout.statements q hq)
            (hfilled.of_mem_parts hp) (hfilled.of_mem_parts hq) hn hm hname hname' hapart)

/-- Declarations of a laid out tree at one offset are one declaration. -/
lemma Tree.declarations_inj (ht : t.IsLaidOut Q) (hplain : t.HasPlainNames)
    (hfilled : t.HasFilledNames) (hd : d ∈ t.declarations false)
    (hd' : d' ∈ t.declarations false) (h : d.offset = d'.offset) : d = d' := by
  obtain ⟨x, s, ps, hn, hs⟩ := exists_node_of_mem_declarations hd
  obtain ⟨x', s', ps', hn', hs'⟩ := exists_node_of_mem_declarations hd'
  have hnode := eq_of_start_eq ht hplain hfilled hn hn' trivial trivial
    (by rw [span, span, hs, hs', h])
  obtain ⟨name, binder, offset⟩ := d
  obtain ⟨name', binder', offset'⟩ := d'
  cases hnode
  cases h
  rfl

/-- Declarations of laid out trees at one offset are one declaration. -/
lemma declarationsOf_inj (hts : (⟨ts⟩ : Program).IsLaidOut Q)
    (hplain : ∀ t ∈ ts, t.HasPlainNames) (hfilled : ∀ t ∈ ts, t.HasFilledNames)
    (hd : d ∈ declarationsOf false ts) (hd' : d' ∈ declarationsOf false ts)
    (h : d.offset = d'.offset) : d = d' := by
  rw [declarationsOf_eq_flatMap, List.mem_flatMap] at hd hd'
  obtain ⟨t, ht, hd⟩ := hd
  obtain ⟨u, hu, hd'⟩ := hd'
  rcases eq_or_isApart hts.apart ht hu with rfl | hapart
  · exact Tree.declarations_inj (hts.statements t ht) (hplain t ht) (hfilled t ht) hd hd' h
  · obtain ⟨x, s, ps, hn, hs⟩ := Tree.exists_node_of_mem_declarations hd
    obtain ⟨x', s', ps', hn', hs'⟩ := Tree.exists_node_of_mem_declarations hd'
    refine absurd ?_ (start_ne_of_isApart (hts.statements t ht) (hts.statements u hu)
      (hfilled t ht) (hfilled u hu) hn hn' trivial trivial hapart)
    rw [Tree.span, Tree.span, hs, hs', h]

/-! ### Regions -/

/-- What a region declares stands in it. -/
lemma Tree.exists_node_of_mem_region (h : d ∈ n.region) :
    ∃ x s ps, Tree.node (.binding d.name d.binder x) s ps ∈ n.nodes ∧ s.start = d.offset := by
  unfold region at h
  split at h
  · next isFunction s ps =>
      have hd := (mem_regionDeclarations.mp h).1
      rw [declarationsOf_eq_flatMap, List.mem_flatMap] at hd
      obtain ⟨p, hp, hd⟩ := hd
      obtain ⟨x, s', ps', hn, hstart⟩ := exists_node_of_mem_declarations hd
      refine ⟨x, s', ps', List.mem_cons_of_mem _ ?_, hstart⟩
      rw [nodesOf_eq_flatMap]
      exact List.mem_flatMap.mpr ⟨p, hp, hn⟩
  · cases h

/-- If it holds of each of several trees that what its regions declare is at another offset
than what reaches out of it, then it holds of all of them. -/
lemma offset_ne_of_forall (hts : (⟨ts⟩ : Program).IsLaidOut Q)
    (hfilled : ∀ t ∈ ts, t.HasFilledNames)
    (h : ∀ t ∈ ts, ∀ n ∈ t.nodes, ∀ d ∈ n.region, ∀ d' ∈ t.declarations false,
      d.offset ≠ d'.offset) (hn : n ∈ nodesOf ts) (hd : d ∈ n.region)
    (hd' : d' ∈ declarationsOf false ts) : d.offset ≠ d'.offset := by
  rw [nodesOf_eq_flatMap, List.mem_flatMap] at hn
  rw [declarationsOf_eq_flatMap, List.mem_flatMap] at hd'
  obtain ⟨t, ht, hn⟩ := hn
  obtain ⟨u, hu, hd'⟩ := hd'
  -- Within one tree this is what is assumed; the declarations of different trees stand apart.
  rcases eq_or_isApart hts.apart ht hu with rfl | hapart
  · exact h t ht n hn d hd d' hd'
  · obtain ⟨x, s, ps, hm, hs⟩ := Tree.exists_node_of_mem_region hd
    obtain ⟨x', s', ps', hm', hs'⟩ := Tree.exists_node_of_mem_declarations hd'
    have hne := start_ne_of_isApart (hts.statements t ht) (hts.statements u hu) (hfilled t ht)
      (hfilled u hu) (Tree.mem_nodes_trans hm hn) hm' trivial trivial hapart
    rwa [Tree.span, Tree.span, hs, hs'] at hne

/-- What the regions of a laid out tree declare is at another offset than what reaches out of
the tree. -/
lemma Tree.offset_ne_of_mem_region (ht : t.IsLaidOut Q) (hplain : t.HasPlainNames)
    (hfilled : t.HasFilledNames) (hn : n ∈ t.nodes) (hd : d ∈ n.region)
    (hd' : d' ∈ t.declarations false) : d.offset ≠ d'.offset := by
  induction t using Tree.ind generalizing n d d' with
  | h f s ps ih =>
      have hlayout := ht.parts
      have hplains := fun p (hp : p ∈ ps) => hplain.of_mem_parts hp
      have hfilleds := fun p (hp : p ∈ ps) => hfilled.of_mem_parts hp
      -- Regions further in are apart from what the parts declare, by induction.
      have hparts : ∀ m ∈ nodesOf ps, ∀ e ∈ m.region, ∀ e' ∈ declarationsOf false ps,
          e.offset ≠ e'.offset := fun m hm e he e' he' =>
        offset_ne_of_forall hlayout hfilleds (fun p hp m hm e he e' he' =>
          ih p hp (hlayout.statements p hp) (hplains p hp) (hfilleds p hp) hm he he') hm he he'
      rw [nodes, List.mem_cons] at hn
      by_cases hname : f.IsName
      · have hnil : ps = [] := hplain _ (mem_nodes_self _) hname
        subst hnil
        rcases hn with rfl | hn
        · cases f <;> first | cases hd | cases hname
        · cases hn
      · by_cases hscope : ∃ isFunction, f = .scope isFunction
        · obtain ⟨isFunction, rfl⟩ := hscope
          cases isFunction
          · -- only what is hoisted reaches out of a block
            rw [declarations, if_neg (by simp)] at hd'
            have hmem : d' ∈ declarationsOf false ps := by
              rw [declarationsOf_true] at hd'
              exact List.mem_of_mem_filter hd'
            rcases hn with rfl | hn
            · have hregion : d ∈ regionDeclarations false ps := hd
              obtain ⟨hmem', hpasses⟩ := mem_regionDeclarations.mp hregion
              intro heq
              have hsame := declarationsOf_inj hlayout hplains hfilleds hmem' hmem heq
              exact hpasses rfl d' hd' (by rw [hsame])
            · exact hparts n hn d hd d' hmem
          · cases hd'
        · have hbinding : ∀ w b x, f ≠ .binding w b x := by
            rintro w b x rfl
            exact hname trivial
          rw [declarations_node hbinding fun b heq => hscope ⟨b, heq⟩] at hd'
          rcases hn with rfl | hn
          · cases f <;> first | cases hd | exact absurd ⟨_, rfl⟩ hscope
          · exact hparts n hn d hd d' hd'

/-- **No two regions share a symbol**: what the regions inside of a laid out script declare is
at another offset than what the script does. -/
theorem offset_ne_of_mem_region (hts : (⟨ts⟩ : Program).IsLaidOut Q)
    (hplain : ∀ t ∈ ts, t.HasPlainNames) (hfilled : ∀ t ∈ ts, t.HasFilledNames)
    (hn : n ∈ nodesOf ts) (hd : d ∈ n.region) (hd' : d' ∈ declarationsOf false ts) :
    d.offset ≠ d'.offset :=
  offset_ne_of_forall hts hfilled (fun t ht _ hn _ hd _ hd' => Tree.offset_ne_of_mem_region
    (hts.statements t ht) (hplain t ht) (hfilled t ht) hn hd hd') hn hd hd'

end ComponentMigration.Script
