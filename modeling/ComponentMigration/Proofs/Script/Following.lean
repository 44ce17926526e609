import ComponentMigration.Proofs.Script.Moved

/-!
A migrated tree declares no state variable.

* **Environments.** The names of a migrated script `Follows` those of the script if only the
  name `w` has the symbol `x` there, and only where it stood for the function that makes state
  variables. Regions keep that if they answer for `w` alike and declare nothing at `x`.
* **Declarators.** A declarator of the moved tree that calls the function comes from one that
  did (`Tree.target_of_moved_eq`, `Tree.call_of_moved_eq`), so it is a state variable, and then
  it was moved: `ofDeclarator?_resolve_eq_none`.
* **Main statement.** `Tree.declaresNone`, by induction on the tree that was moved; a tree that
  `IsPlaced` has what its parts need, and there is one lemma for each thing that becomes of a node.
-/

namespace ComponentMigration.Script

variable {r : Pass} {w : Text} {x : Symbol} {env env' : Environment}

/-! ### Environments -/

/-- How the names of a migrated script follow those of the script: only `w` has the symbol `x`
there, and where it has, it stands for the function that makes state variables. -/
structure Follows (r : Pass) (w : Text) (x : Symbol) (env env' : Environment) : Prop where
  only : ∀ name space, env'.lookup name space = some x → name = w
  back : ∀ space, env'.lookup w space = some x → env.lookup w space = some r.primitive

/-- Regions that answer for `w` alike, without a declaration at `x`, keep that. -/
lemma Follows.inside (h : Follows r w x env env') {ds ds' : List Declaration}
    (hanswers : ∀ space, (∃ d ∈ ds, d.name = w ∧ d.binder.answers space = true) →
      ∃ d ∈ ds', d.name = w ∧ d.binder.answers space = true)
    (havoid : ∀ d ∈ ds', d.offset ≠ x) :
    Follows r w x (meanings ds ++ env) (meanings ds' ++ env') := by
  refine ⟨fun name space hx => ?_, fun space hx => ?_⟩
  · rcases lookup_eq_some hx with ⟨d, hd, -, hoffset⟩ | ⟨-, hx⟩
    · exact absurd hoffset (havoid d hd)
    · exact h.only name space hx
  · rcases lookup_eq_some hx with ⟨d, hd, -, hoffset⟩ | ⟨hnone, hx⟩
    · exact absurd hoffset (havoid d hd)
    · rw [lookup_of_not_declared]
      · exact h.back space hx
      · intro d hd hname
        by_contra hne
        obtain ⟨d', hd', hname', hd'answers⟩ :=
          hanswers space ⟨d, hd, hname, (Bool.not_eq_false _).mp hne⟩
        rw [hnone d' hd' hname'] at hd'answers
        cases hd'answers

/-! ### Declarators -/

/-- Only a declarator declares a state variable. -/
lemma ofDeclarator?_of_ne {f : Form} (hf : f ≠ .declarator) (s : Span) (ps : List Tree) :
    StateVariable.ofDeclarator? x (.node f s ps) = none := by
  unfold StateVariable.ofDeclarator?
  split
  · next heq =>
      cases heq
      exact absurd rfl hf
  · rfl

/-- The form of a node that is moved by moving its parts. -/
lemma Tree.eq_of_moved_eq {t : Tree} {f : Form} {s : Span} {ts : List Tree}
    (h : t.moved r = .node f s ts) (hcall : f ≠ .call) (hdeclarator : f ≠ .declarator)
    (hreference : ∀ a b c, f ≠ .reference a b c) :
    ∃ ps, t = .node f s ps ∧ ts = ps.map (Tree.moved r) := by
  have hmoved := t.isMoved (r := r)
  rw [h] at hmoved
  cases hmoved with
  | assigned _ => exact absurd rfl hcall
  | read _ _ => exact absurd rfl (hreference _ _ _)
  | chained _ _ => exact absurd rfl (hreference _ _ _)
  | declared => exact absurd rfl hdeclarator
  | other _ => exact ⟨_, rfl, rfl⟩

/-- The parts of a resolved node are resolved. -/
lemma Tree.resolve_parts {f : Form} {s : Span} {ps : List Tree} (hname : ¬ f.IsName)
    (hscope : ∀ b, f ≠ .scope b) (h : (Tree.node f s ps).resolve env = .node f s ps) :
    ∀ p ∈ ps, p.resolve env = p := by
  obtain ⟨ps₀, heq, hps⟩ := resolve_eq_node hname hscope h
  cases heq
  refine List.map_inj_left.mp ?_
  rw [← hps, List.map_id']

/-- The states of a pass are kept apart from the function that makes them: none has its symbol,
and no setter has the name `w`. -/
def Pass.IsApart (r : Pass) (w : Text) : Prop :=
  ∀ v ∈ r.states, v.symbol ≠ r.primitive ∧ v.setter ≠ w

/-- A use of the function that makes state variables comes from a use of it. -/
lemma Tree.reference_of_moved_eq {t : Tree} {space : Space} {y : Option Symbol} {s : Span}
    (hapart : r.IsApart w) (hresolved : t.resolve env = t)
    (hprimitive : env.lookup w space = some r.primitive)
    (h : t.moved r = .node (.reference w space y) s []) :
    t = .node (.reference w space (some r.primitive)) s [] := by
  have hne : ∀ {v : StateVariable} {symbol : Symbol} {s' : Span}, v ∈ r.states →
      v.symbol = symbol → (Tree.node (.reference w space (some symbol)) s' []).resolve env
        ≠ .node (.reference w space (some symbol)) s' [] := by
    rintro v symbol s' hv rfl heq
    have hsymbol := (resolve_eq_reference heq).2
    rw [hprimitive] at hsymbol
    exact (hapart v hv).1 (Option.some.inj hsymbol)
  have hmoved := t.isMoved (r := r)
  rw [h] at hmoved
  generalize hts : ([] : List Tree) = ts at hmoved
  -- A use of the name could come from an access that was moved. Then a state variable would have
  -- the symbol of the function, which is ruled out.
  cases hmoved with
  | read hv hsymbol =>
      have hparts := resolve_parts id (by simp) hresolved
      exact absurd (hparts _ List.mem_cons_self) (hne hv hsymbol)
  | chained hv hsymbol =>
      have hparts := resolve_parts id (by simp) hresolved
      have hinner := resolve_parts id (by simp) (hparts _ List.mem_cons_self)
      exact absurd (hinner _ List.mem_cons_self) (hne hv hsymbol)
  | other _ =>
      cases List.map_eq_nil_iff.mp hts.symm
      rw [(resolve_eq_reference hresolved).2, hprimitive, List.map_nil]

/-- A call of the function that makes state variables comes from a call of it. -/
lemma Tree.call_of_moved_eq {t : Tree} {space : Space} {y : Option Symbol} {s s' : Span}
    {operands : List Tree} (hapart : r.IsApart w) (hresolved : t.resolve env = t)
    (hprimitive : env.lookup w space = some r.primitive)
    (h : t.moved r = .node .call s (.node (.reference w space y) s' [] :: operands)) :
    ∃ rest, t = .node .call s (.node (.reference w space (some r.primitive)) s' [] :: rest) := by
  have hmoved := t.isMoved (r := r)
  rw [h] at hmoved
  generalize hts : Tree.node (.reference w space y) s' [] :: operands = ts at hmoved
  cases hmoved with
  | @assigned v _ _ target _ hstate =>
      obtain ⟨_, _, _, _, _, rfl⟩ := stateOf?_eq_some hstate
      obtain ⟨hv, -⟩ := mem_of_stateOf? hstate
      -- A call that comes from an assignment calls a setter, which is not the function.
      have hname : w = v.setter := by
        rw [use] at hts
        injection hts with hhead _
        injection hhead with hform _ _
        injection hform
      exact absurd hname.symm (hapart v hv).2
  | @other _ _ ps _ =>
      obtain ⟨callee, rest, rfl, hcallee, -⟩ := List.map_eq_cons_iff.mp hts.symm
      have hparts := resolve_parts id (by simp) hresolved
      rw [reference_of_moved_eq hapart (hparts callee List.mem_cons_self) hprimitive hcallee]
      exact ⟨rest, rfl⟩

/-- What declares a name in front comes from what declares it. -/
lemma Tree.target_of_moved_eq {t : Tree} {name : Text} {binder : Binder} {y : Option Symbol}
    {s s' : Span} {others : List Tree} (hresolved : t.resolve env = t)
    (h : t.moved r = .node .target s (.node (.binding name binder y) s' [] :: others)) :
    y = env.lookup name .any ∧
      ∃ rest, t = .node .target s (.node (.binding name binder y) s' [] :: rest) := by
  obtain ⟨ps, rfl, hps⟩ := eq_of_moved_eq h (by simp) (by simp) (by simp)
  obtain ⟨b, rest, rfl, hb, -⟩ := List.map_eq_cons_iff.mp hps.symm
  obtain ⟨qs, rfl, hqs⟩ := eq_of_moved_eq hb (by simp) (by simp) (by simp)
  cases List.map_eq_nil_iff.mp hqs.symm
  have hparts := resolve_parts id (by simp) hresolved
  exact ⟨(resolve_eq_binding (hparts _ List.mem_cons_self)).2, rest, rfl⟩

/-- A target and a call that begin with a name have no other form. -/
lemma Tree.named_of_alike {t : Tree} {f g : Form} {s s' : Span} {us : List Tree}
    (h : t.Alike (.node f s (.node g s' [] :: us)))
    (hf : f = .target ∧ (∃ a b c, g = .binding a b c) ∨
      f = .call ∧ ∃ a b c, g = .reference a b c) :
    ∃ s₁ s₂ g' ts, t = .node f s₁ (.node g' s₂ [] :: ts) ∧ g'.bare = g.bare := by
  have hname : g.IsName := by
    rcases hf with ⟨-, _, _, _, rfl⟩ | ⟨-, _, _, _, rfl⟩ <;> trivial
  -- Neither the node nor its first part is a link of a chain, so both keep their forms.
  have hlink : ¬ (Tree.node f s (.node g s' [] :: us)).IsLink := by
    rcases hf with ⟨rfl, -⟩ | ⟨rfl, -⟩
    · exact id
    · exact fun hl => hl hname
  obtain ⟨f', s₁, ts, rfl, hbare, -, hparts⟩ := h.of_not_isLink hlink
  have hf' : f' = f := by
    rcases hf with ⟨rfl, -⟩ | ⟨rfl, -⟩ <;> exact (Form.eq_of_bare_eq hbare.symm id).symm
  subst hf'
  cases hparts with
  | @cons a _ as _ hhead _ =>
      have hleaf : ¬ (Tree.node g s' []).IsLink := by
        cases g <;> first | exact id | exact absurd hname id
      obtain ⟨g', s₂, qs, rfl, hg, -, hqs⟩ := hhead.of_not_isLink hleaf
      cases hqs
      exact ⟨s₁, s₂, g', as, rfl, hg⟩

/-- What becomes of a node that declares no state variable, declares none again. -/
lemma ofDeclarator?_resolve_eq_none {f : Form} {s : Span} {ps : List Tree} {u : Tree}
    (hapart : r.IsApart w) (hfollows : Follows r w x env env')
    (hresolved : (Tree.node f s ps).resolve env = .node f s ps)
    (hvisible : ∀ d ∈ (Tree.node f s ps).declarations false,
      (env.lookup d.name .any).isSome = true)
    (hdeclared : StateVariable.ofDeclarator? r.primitive (.node f s ps) = none)
    (halike : (Tree.node f s (ps.map (Tree.moved r))).Alike u) :
    StateVariable.ofDeclarator? x (u.resolve env') = none := by
  by_contra hne
  obtain ⟨v, hv⟩ := Option.ne_none_iff_exists'.mp hne
  -- what is read now is a declarator that calls `w`
  obtain ⟨name, word, binder, space, symbol, s₀, s₁, s₂, nameSpan, calleeSpan, others, operands,
    hu, -⟩ := ofDeclarator?_eq_some hv
  obtain ⟨us, rfl, hus⟩ := Tree.resolve_eq_node id (by simp) hu
  obtain ⟨u₁, us', rfl, hu₁, hus'⟩ := List.map_eq_cons_iff.mp hus.symm
  obtain ⟨u₂, us'', rfl, hu₂, hnil⟩ := List.map_eq_cons_iff.mp hus'
  cases List.map_eq_nil_iff.mp hnil
  obtain ⟨bs, rfl, hbs⟩ := Tree.resolve_eq_node id (by simp) hu₁
  obtain ⟨b, bs', rfl, hb, -⟩ := List.map_eq_cons_iff.mp hbs.symm
  obtain ⟨cs, rfl, hcs⟩ := Tree.resolve_eq_node id (by simp) hu₂
  obtain ⟨c, cs', rfl, hc, -⟩ := List.map_eq_cons_iff.mp hcs.symm
  obtain ⟨⟨_, rfl⟩, -⟩ := Tree.resolve_eq_binding hb
  obtain ⟨⟨_, rfl⟩, hlookup⟩ := Tree.resolve_eq_reference hc
  obtain rfl := hfollows.only word space hlookup.symm
  have hprimitive := hfollows.back space hlookup.symm
  -- so it was one before
  obtain ⟨f', _, ts, heq, hbare, -, hparts⟩ := halike.of_not_isLink id
  cases heq
  obtain rfl : f = .declarator := (Form.eq_of_bare_eq hbare.symm id).symm
  cases ps with
  | nil => cases hparts
  | cons t₁ ps =>
  cases ps with
  | nil => cases hparts with | cons _ h => cases h
  | cons t₂ ps =>
  obtain ⟨h₁, h₂, hrest⟩ : (t₁.moved r).Alike _ ∧ (t₂.moved r).Alike _ ∧ _ := by
    cases hparts with
    | cons h₁ h => cases h with | cons h₂ h => exact ⟨h₁, h₂, h⟩
  cases List.map_eq_nil_iff.mp (List.forall₂_nil_right_iff.mp hrest)
  have hparts' := Tree.resolve_parts id (by simp) hresolved
  obtain ⟨_, s', g₁, _, hm₁, hg₁⟩ := Tree.named_of_alike h₁ (.inl ⟨rfl, _, _, _, rfl⟩)
  obtain ⟨_, _, g₂, _, hm₂, hg₂⟩ := Tree.named_of_alike h₂ (.inr ⟨rfl, _, _, _, rfl⟩)
  obtain ⟨y₁, rfl⟩ : ∃ y, g₁ = .binding name binder y := by
    cases g₁ <;> cases hg₁
    exact ⟨_, rfl⟩
  obtain ⟨y₂, rfl⟩ : ∃ y, g₂ = .reference word space y := by
    cases g₂ <;> cases hg₂
    exact ⟨_, rfl⟩
  obtain ⟨hy, rest, rfl⟩ := Tree.target_of_moved_eq (hparts' t₁ (by simp)) hm₁
  obtain ⟨rest', rfl⟩ :=
    Tree.call_of_moved_eq hapart (hparts' t₂ (by simp)) hprimitive hm₂
  obtain ⟨y, hy'⟩ := Option.isSome_iff_exists.mp (hvisible ⟨name, binder, s'.start⟩
    (by simp [declarationsOf, Tree.declarations]))
  rw [hy, hy'] at hdeclared
  simp [StateVariable.ofDeclarator?] at hdeclared

/-- A tree with its names resolved where it stands, all of which can be used there, and no
setter of which has the name `w`. -/
structure Tree.IsPlaced (r : Pass) (w : Text) (env : Environment) (t : Tree) : Prop where
  resolved : t.resolve env = t
  visible : ∀ d ∈ t.declarations false, (env.lookup d.name .any).isSome = true
  setters : ∀ v ∈ t.stateVariables r.primitive, v.setter ≠ w

namespace Tree.IsPlaced

variable {f : Form} {s : Span} {ps : List Tree} {p : Tree}

/-- The setters of a part are setters of the whole. -/
lemma setters_of_mem_parts (h : (node f s ps).IsPlaced r w env) (hp : p ∈ ps) :
    ∀ v ∈ p.stateVariables r.primitive, v.setter ≠ w := fun v hv =>
  h.setters v (stateVariables_subset (mem_nodes_of_mem_parts (t := .node f s ps) hp) hv)

/-- The parts of a node that is neither a name nor a region stand where the node does. -/
lemma of_mem_parts (h : (node f s ps).IsPlaced r w env) (hname : ¬ f.IsName)
    (hscope : ∀ b, f ≠ .scope b) (hp : p ∈ ps) : p.IsPlaced r w env := by
  refine ⟨resolve_parts hname hscope h.resolved p hp, fun d hd => h.visible d ?_,
    h.setters_of_mem_parts hp⟩
  have hbinding : ∀ a b c, f ≠ .binding a b c := by
    rintro a b c rfl
    exact hname trivial
  rw [declarations_node hbinding hscope, declarationsOf_eq_flatMap]
  exact List.mem_flatMap.mpr ⟨p, hp, hd⟩

/-- The parts of a region stand in it. -/
lemma of_mem_scope {isFunction : Bool} (h : (node (.scope isFunction) s ps).IsPlaced r w env)
    (hp : p ∈ ps) : p.IsPlaced r w (meanings (regionDeclarations isFunction ps) ++ env) := by
  refine ⟨?_, fun d hd => ?_, h.setters_of_mem_parts hp⟩
  · have hall := h.resolved
    rw [resolve, resolveAll_eq_map] at hall
    injection hall with _ _ hall
    refine List.map_inj_left (g := id).mp ?_ p hp
    rw [hall, List.map_id]
  · have hmem : d ∈ declarationsOf false ps := by
      rw [declarationsOf_eq_flatMap]
      exact List.mem_flatMap.mpr ⟨p, hp, hd⟩
    -- The region declares the name itself, or it comes from the outside.
    by_cases hregion : ∃ d' ∈ regionDeclarations isFunction ps, d'.name = d.name
    · obtain ⟨d', hd', hname⟩ := hregion
      rw [← hname]
      exact isSome_lookup hd' env
    · -- the name passes through the block
      have hnone : ∀ d' ∈ regionDeclarations isFunction ps, d'.name = d.name →
          d'.binder.answers .any = false := fun d' hd' hname =>
        absurd ⟨d', hd', hname⟩ hregion
      rw [lookup_of_not_declared hnone]
      have hpasses : isFunction = false ∧ ∃ d' ∈ declarationsOf true ps, d'.name = d.name := by
        by_contra hne
        refine hregion ⟨d, mem_regionDeclarations.mpr ⟨hmem, fun hblock d' hd' hname => ?_⟩, rfl⟩
        exact hne ⟨hblock, d', hd', hname⟩
      obtain ⟨rfl, d', hd', hname⟩ := hpasses
      rw [← hname]
      exact h.visible d' hd'

end Tree.IsPlaced

/-- Resolved parts without state variables make a node without one, if it is none itself. -/
lemma Tree.stateVariables_resolve_node {f : Form} {s : Span} {us : List Tree}
    (hroot : StateVariable.ofDeclarator? x ((node f s us).resolve env') = none)
    (hname : f.IsName → us = []) (hscope : ∀ b, f ≠ .scope b)
    (h : ∀ u ∈ us, (u.resolve env').stateVariables x = []) :
    ((node f s us).resolve env').stateVariables x = [] := by
  by_cases hf : f.IsName
  · cases hname hf
    cases f <;> rfl
  · have hresolve : (node f s us).resolve env' = .node f s (us.map (resolve env')) := by
      cases f
      case scope b => exact absurd rfl (hscope b)
      case reference => exact absurd trivial hf
      case binding => exact absurd trivial hf
      all_goals
        rw [resolve, resolveAll_eq_map]
        all_goals simp
    rw [hresolve] at hroot ⊢
    rw [stateVariables, hroot, stateVariablesOf_eq_flatMap, List.flatMap_map,
      List.flatMap_eq_nil_iff.mpr h]
    rfl

/-- A region without a state variable in it is none. -/
lemma Tree.stateVariables_resolve_scope {isFunction : Bool} {s : Span} {us : List Tree}
    (h : ∀ u ∈ us, (u.resolve
      (meanings (regionDeclarations isFunction us) ++ env')).stateVariables x = []) :
    ((node (.scope isFunction) s us).resolve env').stateVariables x = [] := by
  rw [resolve, resolveAll_eq_map, stateVariables, ofDeclarator?_of_ne (by simp),
    stateVariablesOf_eq_flatMap, List.flatMap_map, List.flatMap_eq_nil_iff.mpr h]
  rfl

/-- The same for a node that is no declarator. -/
lemma Tree.stateVariables_resolve_of_ne {f : Form} {s : Span} {us : List Tree}
    (hf : f ≠ .declarator) (hname : f.IsName → us = []) (hscope : ∀ b, f ≠ .scope b)
    (h : ∀ u ∈ us, (u.resolve env').stateVariables x = []) :
    ((node f s us).resolve env').stateVariables x = [] := by
  refine stateVariables_resolve_node ?_ hname hscope h
  obtain ⟨f', us', heq, -⟩ := resolve_node env' f s us
  rw [heq]
  refine ofDeclarator?_of_ne ?_ s us'
  rintro rfl
  exact hf (by cases f <;> cases heq; rfl)

/-- What reads as a use of a name declares nothing. -/
lemma Tree.stateVariables_resolve_use {u : Tree} {name : Text} {space : Space}
    {y : Option Symbol} {s : Span} (h : (node (.reference name space y) s []).Alike u) :
    (u.resolve env').stateVariables x = [] := by
  obtain ⟨f', s', us, rfl, hbare, hname, -⟩ := h.of_ne_chain (by simp)
  cases hname trivial
  cases f' <;> cases hbare
  rfl

/-- No region of a tree declares a name at `x`. -/
def Tree.Avoids (x : Symbol) (t : Tree) : Prop := ∀ n ∈ t.nodes, ∀ d ∈ n.region, d.offset ≠ x

/-- What is inside of a node avoids what the node avoids. -/
lemma Tree.Avoids.of_mem_parts {f : Form} {s : Span} {us : List Tree} {u : Tree}
    (h : (node f s us).Avoids x) (hu : u ∈ us) : u.Avoids x := fun n hn =>
  h n (mem_nodes_trans hn (mem_nodes_of_mem_parts (t := .node f s us) hu))

/-- What reads as the argument of a setter declares what the value does. -/
lemma Tree.stateVariables_resolve_argument {v : StateVariable} {operator : Text} {m a : Tree}
    (hvalue : ∀ u : Tree, m.Alike u → u.Avoids x → (u.resolve env').stateVariables x = [])
    (h : (v.argument operator m).Alike a) (havoids : a.Avoids x) :
    (a.resolve env').stateVariables x = [] := by
  rw [StateVariable.argument] at h
  split_ifs at h
  · exact hvalue a h havoids
  · obtain ⟨f, s, us, rfl, hbare, -, hparts⟩ := h.of_ne_chain (by simp)
    cases Form.eq_of_bare_eq hbare id
    refine stateVariables_resolve_of_ne (by simp) (fun hf => hf.elim) (by simp) fun u hu => ?_
    have hin := havoids.of_mem_parts hu
    obtain ⟨t, ht, htu⟩ := exists_alike_of_mem hparts hu
    rcases List.mem_pair.mp ht with rfl | rfl
    · exact stateVariables_resolve_use htu
    · obtain ⟨g, s', qs, rfl, hbare', -, hparts'⟩ := htu.of_ne_chain (by simp)
      cases Form.eq_of_bare_eq hbare' id
      refine stateVariables_resolve_of_ne (by simp) (fun hf => hf.elim) (by simp) fun q hq => ?_
      obtain ⟨t', ht', htq⟩ := exists_alike_of_mem hparts' hq
      cases List.mem_singleton.mp ht'
      exact hvalue q htq (hin.of_mem_parts hq)

/-- What reads as the pattern of a state variable is a node of two names. -/
lemma StateVariable.pattern_alike {v : StateVariable} {name : Text} {binder : Binder}
    {y : Option Symbol} {s : Span} {u : Tree}
    (h : (v.pattern (.node (.binding name binder y) s [])).Alike u) :
    ∃ s' us, u = .node .other s' us ∧ (u.resolve env').stateVariables x = [] := by
  obtain ⟨f, s', us, rfl, hbare, -, hparts⟩ := h.of_ne_chain (by simp)
  cases Form.eq_of_bare_eq hbare id
  refine ⟨s', us, rfl, Tree.stateVariables_resolve_of_ne (by simp) (fun hf => hf.elim) (by simp)
    fun u hu => ?_⟩
  obtain ⟨t, ht, htu⟩ := exists_alike_of_mem hparts hu
  have hbinding : ∃ a b c s, t = .node (.binding a b c) s [] := by
    rcases List.mem_pair.mp ht with rfl | rfl <;> exact ⟨_, _, _, _, rfl⟩
  obtain ⟨a, b, c, s'', rfl⟩ := hbinding
  obtain ⟨g, _, qs, rfl, hg, hqs, -⟩ := htu.of_ne_chain (by simp)
  cases hqs trivial
  cases g <;> cases hg
  rfl

/-- What reads as the call of a setter declares what the value does. -/
lemma Tree.stateVariables_resolve_assigned {v : StateVariable} {operator : Text} {s : Span}
    {m u : Tree}
    (hvalue : ∀ a : Tree, m.Alike a → a.Avoids x → (a.resolve env').stateVariables x = [])
    (h : (node .call s [use v.setter, v.argument operator m]).Alike u) (havoids : u.Avoids x) :
    (u.resolve env').stateVariables x = [] := by
  obtain ⟨f, s', us, rfl, hbare, -, hparts⟩ := h.of_ne_chain (by simp)
  cases Form.eq_of_bare_eq hbare id
  refine stateVariables_resolve_of_ne (by simp) (fun hf => hf.elim) (by simp) fun u hu => ?_
  obtain ⟨m', hm, hmu⟩ := exists_alike_of_mem hparts hu
  rcases List.mem_pair.mp hm with rfl | rfl
  · exact stateVariables_resolve_use hmu
  · exact stateVariables_resolve_argument hvalue hmu (havoids.of_mem_parts hu)

/-- What reads as a node declares nothing, if what reads as its first part does not, and neither
does what reads as the others. -/
lemma Tree.stateVariables_resolve_cons {f : Form} {s : Span} {t u : Tree} {ts : List Tree}
    (hf : ¬ f.IsName) (hdeclarator : f ≠ .declarator) (hscope : ∀ b, f ≠ .scope b)
    (hchain : f ≠ .chain) (hfirst : ∀ u : Tree, t.Alike u → (u.resolve env').stateVariables x = [])
    (hothers : ∀ us : List Tree, List.Forall₂ Tree.Alike ts us → (∀ u ∈ us, u.Avoids x) →
      ∀ u ∈ us, (u.resolve env').stateVariables x = [])
    (h : (node f s (t :: ts)).Alike u) (havoids : u.Avoids x) :
    (∃ s' a as, u = node f s' (a :: as) ∧ t.Alike a) ∧ (u.resolve env').stateVariables x = [] := by
  obtain ⟨f', s', us, rfl, hbare, -, hparts⟩ := h.of_ne_chain hchain
  cases Form.eq_of_bare_eq hbare hf
  cases hparts with
  | @cons _ a _ as ha has =>
      have hrest := hothers as has fun u hu => havoids.of_mem_parts (List.mem_cons_of_mem _ hu)
      exact ⟨⟨s', a, as, rfl, ha⟩, stateVariables_resolve_of_ne hdeclarator
        (fun h => absurd h hf) hscope (List.forall_mem_cons.mpr ⟨hfirst a ha, hrest⟩)⟩

/-- What reads as a moved declaration of a state variable declares what stands behind its name
and what the hook is called with. -/
lemma Tree.stateVariables_resolve_declared {v : StateVariable} {hook name : Text}
    {binder : Binder} {y : Option Symbol} {s s₁ s₂ s₃ : Span} {others operands : List Tree}
    {u : Tree}
    (hothers : ∀ us : List Tree, List.Forall₂ Tree.Alike others us → (∀ u ∈ us, u.Avoids x) →
      ∀ u ∈ us, (u.resolve env').stateVariables x = [])
    (hoperands : ∀ us : List Tree, List.Forall₂ Tree.Alike operands us →
      (∀ u ∈ us, u.Avoids x) → ∀ u ∈ us, (u.resolve env').stateVariables x = [])
    (halike : (node .declarator s [
        .node .target s₁ (v.pattern (.node (.binding name binder y) s₃ []) :: others),
        .node .call s₂ (.use hook :: operands)]).Alike u) (havoids : u.Avoids x) :
    (u.resolve env').stateVariables x = [] := by
  obtain ⟨f, s', us, rfl, hbare, -, hparts⟩ := halike.of_ne_chain (by simp)
  cases Form.eq_of_bare_eq hbare id
  -- The declarator has two parts: its target and the call.
  cases hparts with | @cons _ u₁ _ us h₁ hrest =>
  cases hrest with | @cons _ u₂ _ us h₂ hrest =>
  cases hrest
  have hpattern : ∀ a : Tree, (v.pattern (.node (.binding name binder y) s₃ [])).Alike a →
      ∃ s' us, a = .node .other s' us ∧ (a.resolve env').stateVariables x = [] :=
    fun _ ha => StateVariable.pattern_alike ha
  obtain ⟨⟨s₄, a, as, rfl, ha⟩, htarget⟩ := stateVariables_resolve_cons id (by simp) (by simp)
    (by simp) (fun a ha => (hpattern a ha).choose_spec.choose_spec.2) hothers h₁
      (havoids.of_mem_parts List.mem_cons_self)
  obtain ⟨⟨s₅, b, bs, rfl, -⟩, hcall⟩ := stateVariables_resolve_cons id (by simp) (by simp)
    (by simp) (fun _ => stateVariables_resolve_use) hoperands h₂
      (havoids.of_mem_parts (List.mem_cons_of_mem _ List.mem_cons_self))
  obtain ⟨s₆, qs, rfl, -⟩ := hpattern a ha
  refine stateVariables_resolve_node ?_ (fun hf => hf.elim) (by simp)
    (List.forall_mem_cons.mpr ⟨htarget, List.forall_mem_singleton.mpr hcall⟩)
  rfl

/-- Whatever a tree is moved to declares no state variable where it stands. -/
def Tree.DeclaresNone (r : Pass) (w : Text) (x : Symbol) (t : Tree) : Prop :=
  ∀ ⦃u : Tree⦄ ⦃env env' : Environment⦄, Follows r w x env env' → t.IsPlaced r w env →
    (t.moved r).Alike u → u.Avoids x → (u.resolve env').stateVariables x = []

/-- What several trees are moved to declares no state variable. -/
lemma Tree.DeclaresNone.all {ts us : List Tree} (h : ∀ t ∈ ts, t.DeclaresNone r w x)
    (hfollows : Follows r w x env env') (hts : ∀ t ∈ ts, t.IsPlaced r w env)
    (hus : List.Forall₂ Tree.Alike (ts.map (Tree.moved r)) us) (havoids : ∀ u ∈ us, u.Avoids x) :
    ∀ u ∈ us, (u.resolve env').stateVariables x = [] := by
  intro u hu
  obtain ⟨m, hm, hmu⟩ := exists_alike_of_mem hus hu
  obtain ⟨t, ht, rfl⟩ := List.mem_map.mp hm
  exact h t ht hfollows (hts t ht) hmu (havoids u hu)

/-- A region that is moved with its parts declares no state variable. -/
lemma Tree.stateVariables_resolve_region {isFunction : Bool} {s s' : Span} {ps us : List Tree}
    (h : ∀ p ∈ ps, p.DeclaresNone r w x) (hfollows : Follows r w x env env')
    (ht : (node (.scope isFunction) s ps).IsPlaced r w env)
    (hparts : List.Forall₂ Tree.Alike (ps.map (Tree.moved r)) us)
    (havoids : (node (.scope isFunction) s' us).Avoids x) :
    ((node (.scope isFunction) s' us).resolve env').stateVariables x = [] := by
  have hbinders := binders_of_moved_alike hparts (fun p hp => ht.setters_of_mem_parts hp) false
  have hanswers : ∀ space,
      (∃ d ∈ regionDeclarations isFunction ps, d.name = w ∧ d.binder.answers space = true) →
        ∃ d ∈ regionDeclarations isFunction us, d.name = w ∧ d.binder.answers space = true := by
    intro space
    rw [exists_answers_iff, exists_answers_iff, hbinders]
    exact id
  have hinside := hfollows.inside hanswers (havoids _ (mem_nodes_self _))
  exact stateVariables_resolve_scope (DeclaresNone.all h hinside
    (fun p hp => ht.of_mem_scope hp) hparts fun u hu => havoids.of_mem_parts hu)

/-- A node that declares nothing itself and is moved with its parts declares no state variable. -/
lemma Tree.stateVariables_resolve_other {f : Form} {s : Span} {ps : List Tree} {u : Tree}
    (hapart : r.IsApart w)
    (hdeclared : StateVariable.ofDeclarator? r.primitive (.node f s ps) = none)
    (h : ∀ p ∈ ps, p.DeclaresNone r w x) (hfollows : Follows r w x env env')
    (ht : (node f s ps).IsPlaced r w env)
    (halike : (node f s (ps.map (Tree.moved r))).Alike u) (havoids : u.Avoids x) :
    (u.resolve env').stateVariables x = [] := by
  obtain ⟨f', s', us⟩ := u
  rcases alike_node_iff.mp halike with ⟨hbare, hname, hparts⟩ | ⟨e', rfl, he', -, hlost⟩
  · by_cases hscope : ∃ isFunction, f = .scope isFunction
    · obtain ⟨isFunction, rfl⟩ := hscope
      cases Form.eq_of_bare_eq hbare id
      exact stateVariables_resolve_region h hfollows ht hparts havoids
    · have hscope' : ∀ b, f' ≠ .scope b := by
        rintro b rfl
        exact hscope ⟨b, (Form.eq_of_bare_eq hbare.symm id).symm⟩
      have hroot := ofDeclarator?_resolve_eq_none hapart hfollows ht.resolved ht.visible
        hdeclared halike
      refine stateVariables_resolve_node hroot
        (fun hf' => hname ((Form.isName_iff_of_bare_eq hbare).mpr hf')) hscope' ?_
      by_cases hf : f.IsName
      · rw [hname hf]
        simp
      · exact DeclaresNone.all h hfollows
          (fun p hp => ht.of_mem_parts hf (fun b heq => hscope ⟨b, heq⟩) hp) hparts
            fun u hu => havoids.of_mem_parts hu
  · -- a chain whose only link was moved is none anymore
    obtain ⟨e, rfl, rfl⟩ := List.map_eq_singleton_iff.mp he'
    exact h e (by simp) hfollows (ht.of_mem_parts id (by simp) (by simp)) hlost havoids

/-- **A migrated tree declares no state variable**, if the symbol `x` is found only where the
function that makes them was, under its name. -/
lemma Tree.declaresNone (hapart : r.IsApart w) (t : Tree) : t.DeclaresNone r w x := by
  induction t using Tree.nodes_ind with
  | h f s ps ih =>
      intro u env env' hfollows ht halike havoids
      have hself : ∀ p ∈ ps, p.DeclaresNone r w x := fun p hp => ih p (mem_nodesOf_of_mem hp)
      have hmoved := (node f s ps).isMoved (r := r)
      generalize (node f s ps).moved r = m at hmoved halike
      cases hmoved with
      | read _ _ => exact stateVariables_resolve_use halike
      | chained _ _ => exact stateVariables_resolve_use halike
      | @assigned v operator _ target value hstate =>
          exact stateVariables_resolve_assigned (fun a ha havoids => hself value (by simp) hfollows
            (ht.of_mem_parts id (by simp) (by simp)) ha havoids) halike havoids
      | @declared name word binder space symbol _ s₁ s₂ nameSpan calleeSpan others operands =>
          -- what the hook is called with and what stands behind the name are moved
          have htarget := ht.of_mem_parts id (by simp) List.mem_cons_self
          have hcall := ht.of_mem_parts id (by simp) (List.mem_cons_of_mem _ List.mem_cons_self)
          refine stateVariables_resolve_declared (fun us hus => ?_)
            (fun us hus => ?_) halike havoids
          · exact DeclaresNone.all
              (fun t ht => ih t (by simp [nodesOf, nodes, mem_nodesOf_of_mem ht])) hfollows
                (fun t ht => htarget.of_mem_parts id (by simp) (List.mem_cons_of_mem _ ht)) hus
          · exact DeclaresNone.all
              (fun t ht => ih t (by simp [nodesOf, nodes, mem_nodesOf_of_mem ht])) hfollows
                (fun t ht => hcall.of_mem_parts id (by simp) (List.mem_cons_of_mem _ ht)) hus
      | other hdeclared =>
          exact stateVariables_resolve_other hapart hdeclared hself hfollows ht halike havoids

end ComponentMigration.Script
