import ComponentMigration.Proofs.Script.Moved

/-!
What a script takes from modules, before and after a migration.

* **Adding.** `importing` adds the import of a name to the statements of a script, as a
  migration does to its text. `Program.moved` are the statements of a migrated script.
* **What is taken.** `Tree.takenFrom` are the names under which a statement takes the value of
  an export. Moving keeps them, and so does everything that `KeepsImports`.
* **Main statement.** `Program.findImported_resolve_iff`: what a name of a module is imported
  as is the last of these names, with the symbol that the script declares it with.
-/

namespace ComponentMigration.Script

variable {r : Pass}

/-! ### Adding an import -/

/-- A specifier that takes a name of a module under this name. -/
def Tree.takenAs (name : Text) : Tree :=
  .node (.namedImport name false) ⟨0, 0⟩ [.node (.binding name .both none) ⟨0, 0⟩ []]

/-- A declaration that takes a name of a module under this name. -/
def Tree.takenBy (module name : Text) : Tree :=
  .node (.importDeclaration module false) ⟨0, 0⟩ [.takenAs name]

/-- Whether a statement is an import declaration that can take more names of a module. -/
def Tree.takesMore (module : Text) (t : Tree) : Bool :=
  match ImportDeclaration.ofTree? t with
  | some d => d.module == module && !d.isType && (d.extension? []).isSome
  | none => false

/-- The node with one more part. -/
def Tree.withPart : Tree → Tree → Tree
  | .node f s ps, part => .node f s (ps ++ [part])

/-- The statements with a name more in the first import declaration that can take it. -/
def extending? (module name : Text) : List Tree → Option (List Tree)
  | [] => none
  | t :: ts =>
      if t.takesMore module then some (t.withPart (.takenAs name) :: ts)
      else (extending? module name ts).map (t :: ·)

/-- The statements with a declaration more behind the last import declaration. -/
def declaring (module name : Text) : List Tree → List Tree
  | [] => [.takenBy module name]
  | t :: ts =>
      if (t :: ts).any fun t => (ImportDeclaration.ofTree? t).isSome then
        t :: declaring module name ts
      else .takenBy module name :: t :: ts

/-- The statements with an import of a name. -/
def importing (module name : Text) (ts : List Tree) : List Tree :=
  (extending? module name ts).getD (declaring module name ts)

/-- The statements of a migrated script. -/
def Program.moved (p : Program) (r : Pass) (module : Text) : List Tree :=
  if (p.boundNames module).contains r.hook then movedAll r p.body
  else importing module r.hook (movedAll r p.body)

/-- An import of a name is added to one declaration, or as one. -/
lemma importing_cases (module name : Text) (ts : List Tree) :
    (∃ before after s ps, ts = before ++ .node (.importDeclaration module false) s ps :: after ∧
      importing module name ts
        = before ++ .node (.importDeclaration module false) s (ps ++ [.takenAs name]) :: after) ∨
      ∃ before after, ts = before ++ after ∧
        importing module name ts = before ++ .takenBy module name :: after := by
  -- Without a declaration to extend, the new one goes behind the imports at the head.
  have hdeclaring : ∃ before after, ts = before ++ after ∧
      declaring module name ts = before ++ .takenBy module name :: after := by
    induction ts with
    | nil => exact ⟨[], [], rfl, rfl⟩
    | cons t ts ih =>
        rw [declaring]
        split_ifs
        · obtain ⟨before, after, h, h'⟩ := ih
          exact ⟨t :: before, after, by rw [h]; rfl, by rw [h']; rfl⟩
        · exact ⟨[], t :: ts, rfl, rfl⟩
  rw [importing]
  cases hextending : extending? module name ts with
  | none => exact .inr hdeclaring
  | some us =>
      clear hdeclaring
      left
      rw [Option.getD_some]
      induction ts generalizing us with
      | nil => cases hextending
      | cons t ts ih =>
          rw [extending?] at hextending
          -- The first declaration that can take more names is extended.
          split_ifs at hextending with hmore
          · cases hextending
            have ht : ∃ s ps, t = .node (.importDeclaration module false) s ps := by
              unfold Tree.takesMore ImportDeclaration.ofTree? at hmore
              split at hmore
              · next heq =>
                  split at heq
                  · cases heq
                    simp only [Bool.and_eq_true, beq_iff_eq, Bool.not_eq_true'] at hmore
                    obtain ⟨⟨rfl, rfl⟩, -⟩ := hmore
                    exact ⟨_, _, rfl⟩
                  · cases heq
              · cases hmore
            obtain ⟨s, ps, rfl⟩ := ht
            exact ⟨[], ts, s, ps, rfl, rfl⟩
          · obtain ⟨us', hus', rfl⟩ := Option.map_eq_some_iff.mp hextending
            obtain ⟨before, after, s, ps, h, h'⟩ := ih us' hus'
            exact ⟨t :: before, after, s, ps, by rw [h]; rfl, by rw [h']; rfl⟩

/-- With an import of a name added, a statement is one as before, or an import declaration with
that name last. -/
lemma mem_importing {module name : Text} {ts : List Tree} {m : Tree}
    (h : m ∈ importing module name ts) :
    m ∈ ts ∨ ∃ s ps, m = .node (.importDeclaration module false) s (ps ++ [.takenAs name]) ∧
      (ps = [] ∨ .node (.importDeclaration module false) s ps ∈ ts) := by
  rcases importing_cases module name ts with
    ⟨before, after, s, ps, rfl, himport⟩ | ⟨before, after, rfl, himport⟩
  all_goals
    rw [himport, List.mem_append, List.mem_cons] at h
    rcases h with h | rfl | h
  · exact .inl (List.mem_append_left _ h)
  · exact .inr ⟨s, ps, rfl, .inr (by simp)⟩
  · exact .inl (List.mem_append_right _ (List.mem_cons_of_mem _ h))
  · exact .inl (List.mem_append_left _ h)
  · exact .inr ⟨_, [], rfl, .inl rfl⟩
  · exact .inl (List.mem_append_right _ h)

/-! ### What is taken -/

/-- The name that a form declares. -/
def Form.boundName? : Form → Option Text
  | .binding name _ _ => some name
  | _ => none

/-- Whether a form takes the value of a name. -/
def Form.takes (name : Text) : Form → Bool
  | .namedImport imported false => imported == name
  | _ => false

/-- Whether a form takes values from a module. -/
def Form.takesFrom (module : Text) : Form → Bool
  | .importDeclaration from' false => from' == module
  | _ => false

/-- What a specifier calls a name whose value it takes. -/
def Tree.takes? (name : Text) : Tree → Option Text
  | .node f _ [p] => if f.takes name then p.form.boundName? else none
  | _ => none

/-- What a statement calls a name whose value it takes from a module. -/
def Tree.takenFrom (module name : Text) : Tree → List Text
  | .node f _ ps => if f.takesFrom module then ps.filterMap (Tree.takes? name) else []

/-- The forms of imports and of the names they declare. -/
def Form.IsImport : Form → Prop
  | .binding _ _ _ | .namedImport _ _ | .importDeclaration _ _ => True
  | _ => False

section Forms

variable {f f' : Form} {name module : Text}

/-- A bare form binds the same name. -/
lemma Form.boundName?_congr (h : f.bare = f'.bare) : f.boundName? = f'.boundName? := by
  by_cases hf : f.IsName
  · cases f <;> cases f' <;> cases h
    all_goals rfl
  · rw [eq_of_bare_eq h hf]

/-- Forms other than those of imports bind no name. -/
lemma Form.boundName?_eq_none (h : ¬ f.IsImport) : f.boundName? = none := by
  cases f <;> first | rfl | exact absurd trivial h

/-- Only a specifier takes a name. -/
lemma Form.isImport_of_takes (h : f.takes name = true) : f.IsImport ∧ ¬ f.IsName := by
  cases f <;> first | cases h | exact ⟨trivial, id⟩

/-- Only an import declaration takes from a module. -/
lemma Form.isImport_of_takesFrom (h : f.takesFrom module = true) : f.IsImport ∧ ¬ f.IsName := by
  cases f <;> first | cases h | exact ⟨trivial, id⟩

end Forms

/-- A relation of trees, to be used on what becomes of a script: related nodes have one bare
form and related parts, or neither has to do with imports. -/
def KeepsImports (R : Tree → Tree → Prop) : Prop := ∀ f s ps f' s' ps',
  R (.node f s ps) (.node f' s' ps') →
    (f.bare = f'.bare ∧ (¬ f.IsName → List.Forall₂ R ps ps')) ∨ (¬ f.IsImport ∧ ¬ f'.IsImport)

namespace KeepsImports

variable {R : Tree → Tree → Prop} {t u : Tree} {name module : Text}

/-- What keeps imports keeps the names that they bind. -/
lemma boundName?_eq (hR : KeepsImports R) (h : R t u) :
    t.form.boundName? = u.form.boundName? := by
  obtain ⟨f, s, ps⟩ := t
  obtain ⟨f', s', ps'⟩ := u
  rcases hR _ _ _ _ _ _ h with ⟨hf, -⟩ | ⟨ht, hu⟩
  · exact Form.boundName?_congr hf
  · exact (Form.boundName?_eq_none ht).trans (Form.boundName?_eq_none hu).symm

/-- Of related nodes both take a name, and then their parts are related, or neither does. -/
lemma related_of_takes {f f' : Form} {s s' : Span} {ps ps' : List Tree} {q : Form → Bool}
    (hR : KeepsImports R) (hq : ∀ f, q f = true → f.IsImport ∧ ¬ f.IsName)
    (h : R (.node f s ps) (.node f' s' ps')) :
    (q f = true ∧ q f' = true ∧ List.Forall₂ R ps ps') ∨ (q f = false ∧ q f' = false) := by
  have hfalse : ∀ g : Form, ¬ g.IsImport → q g = false := fun g hg => by
    by_contra hne
    exact hg (hq g ((Bool.not_eq_false _).mp hne)).1
  rcases hR _ _ _ _ _ _ h with ⟨hf, hparts⟩ | ⟨ht, hu⟩
  · by_cases hname : f.IsName
    · have hname' := (Form.isName_iff_of_bare_eq hf).mp hname
      refine .inr ⟨?_, ?_⟩ <;> by_contra hne
      · exact (hq f ((Bool.not_eq_false _).mp hne)).2 hname
      · exact (hq f' ((Bool.not_eq_false _).mp hne)).2 hname'
    · cases Form.eq_of_bare_eq hf hname
      cases hqf : q f
      · exact .inr ⟨rfl, rfl⟩
      · exact .inl ⟨rfl, rfl, hparts hname⟩
  · exact .inr ⟨hfalse f ht, hfalse f' hu⟩

/-- What keeps imports keeps the names that specifiers take. -/
lemma takes?_eq (hR : KeepsImports R) (h : R t u) : t.takes? name = u.takes? name := by
  obtain ⟨f, s, ps⟩ := t
  obtain ⟨f', s', ps'⟩ := u
  have hnone : ∀ {g : Form} {r : Span} {qs : List Tree}, g.takes name = false →
      (Tree.node g r qs).takes? name = none := by
    intro g r qs hg
    match qs with
    | [] | _ :: _ :: _ => rfl
    | [q] => rw [Tree.takes?, hg, if_neg (by simp)]
  rcases hR.related_of_takes (q := Form.takes name) (fun _ => Form.isImport_of_takes) h with
    ⟨hf, hf', hparts⟩ | ⟨hf, hf'⟩
  · match hparts with
    | .nil | .cons _ (.cons _ _) => rfl
    | .cons hp .nil =>
        rw [Tree.takes?, Tree.takes?, if_pos hf, if_pos hf', hR.boundName?_eq hp]
  · rw [hnone hf, hnone hf']

/-- Related statements take the same from modules. -/
lemma takenFrom_eq (hR : KeepsImports R) (h : R t u) :
    t.takenFrom module name = u.takenFrom module name := by
  obtain ⟨f, s, ps⟩ := t
  obtain ⟨f', s', ps'⟩ := u
  rw [Tree.takenFrom, Tree.takenFrom]
  rcases hR.related_of_takes (q := Form.takesFrom module) (fun _ => Form.isImport_of_takesFrom) h
    with ⟨hf, hf', hparts⟩ | ⟨hf, hf'⟩
  · rw [if_pos hf, if_pos hf']
    clear h
    induction hparts with
    | nil => rfl
    | cons hp _ ih => rw [List.filterMap_cons, List.filterMap_cons, hR.takes?_eq hp, ih]
  · rw [hf, hf']
    rfl

end KeepsImports

/-- Moving keeps what a statement takes from modules. -/
lemma Tree.takenFrom_moved (t : Tree) (module name : Text) :
    (t.moved r).takenFrom module name = t.takenFrom module name := by
  have hkeeps : KeepsImports fun t u => t.moved r = u := by
    intro f s ps f' s' ps' h
    have hmoved := (Tree.node f s ps).isMoved (r := r)
    rw [h] at hmoved
    cases hmoved with
    | other _ =>
        refine .inl ⟨rfl, fun _ => ?_⟩
        rw [List.forall₂_map_right_iff, List.forall₂_same]
        exact fun _ _ => rfl
    | _ => exact .inr ⟨id, id⟩
  exact (hkeeps.takenFrom_eq rfl).symm

/-- Trees of one form take the same from modules. -/
lemma Tree.takenFrom_of_alike {t u : Tree} (h : t.Alike u) (module name : Text) :
    t.takenFrom module name = u.takenFrom module name := by
  have hkeeps : KeepsImports Tree.Alike := by
    intro f s ts f' s' us h
    rcases alike_node_iff.mp h with ⟨hf, -, hparts⟩ | ⟨e, rfl, -, hlink, -⟩
    · exact .inl ⟨hf, fun _ => hparts⟩
    · refine .inr ⟨id, fun himport => ?_⟩
      cases f' <;> first | exact himport | exact hlink
  exact hkeeps.takenFrom_eq h

/-- Resolving keeps what a statement takes from modules. -/
lemma Tree.takenFrom_resolve (t : Tree) (env : Environment) (module name : Text) :
    (t.resolve env).takenFrom module name = t.takenFrom module name := by
  have hkeeps : KeepsImports fun t u => ∃ env, t.resolve env = u := by
    rintro f s ps f' s' ps' ⟨env, h⟩
    have hparts : ∀ env', List.Forall₂ (fun t u => ∃ env, t.resolve env = u) ps
        (resolveAll env' ps) := by
      intro env'
      rw [resolveAll_eq_map, List.forall₂_map_right_iff, List.forall₂_same]
      exact fun _ _ => ⟨env', rfl⟩
    refine .inl ?_
    cases f
    case reference => cases h; exact ⟨rfl, fun hname => absurd trivial hname⟩
    case binding => cases h; exact ⟨rfl, fun hname => absurd trivial hname⟩
    all_goals cases h; exact ⟨rfl, fun _ => hparts _⟩
  exact (hkeeps.takenFrom_eq ⟨env, rfl⟩).symm

/-- An import of another name keeps what is taken. -/
lemma takenFrom_importing {module name module' name' : Text}
    (h : ¬ (module' = module ∧ name' = name)) (ts : List Tree) :
    (importing module' name' ts).flatMap (Tree.takenFrom module name)
      = ts.flatMap (Tree.takenFrom module name) := by
  have htaken : ∀ s ps, (Tree.node (.importDeclaration module' false) s
      (ps ++ [.takenAs name'])).takenFrom module name
        = (Tree.node (.importDeclaration module' false) s ps).takenFrom module name := by
    intro s ps
    rw [Tree.takenFrom, Tree.takenFrom, List.filterMap_append]
    split_ifs with hmodule
    · have hname : (name' == name) = false := by
        by_contra hne
        exact h ⟨eq_of_beq hmodule, eq_of_beq ((Bool.not_eq_false _).mp hne)⟩
      have hnone : [Tree.takenAs name'].filterMap (Tree.takes? name) = [] := by
        simp [Tree.takenAs, Tree.takes?, Form.takes, hname]
      rw [hnone, List.append_nil]
    · rfl
  -- Either way the new specifier takes something else.
  rcases importing_cases module' name' ts with
    ⟨before, after, s, ps, rfl, himport⟩ | ⟨before, after, rfl, himport⟩
  · rw [himport, List.flatMap_append, List.flatMap_append, List.flatMap_cons, List.flatMap_cons,
      htaken]
  · have hnil : (Tree.takenBy module' name').takenFrom module name = [] := by
      have := htaken ⟨0, 0⟩ []
      rw [List.nil_append] at this
      rw [Tree.takenBy, this, Tree.takenFrom]
      split_ifs <;> rfl
    rw [himport, List.flatMap_append, List.flatMap_append, List.flatMap_cons, hnil, List.nil_append]

/-! ### Looking up -/

/-- What takes a name is a specifier with a binding. -/
lemma Tree.takes?_eq_some {t : Tree} {name w : Text} (h : t.takes? name = some w) :
    ∃ s s' binder symbol ps, t = .node (.namedImport name false) s
      [.node (.binding w binder symbol) s' ps] := by
  unfold takes? at h
  split at h
  · next f s p =>
      obtain ⟨g, s', qs⟩ := p
      split_ifs at h with hf
      cases f <;> try cases hf
      case namedImport imported isType =>
        cases isType
        · cases eq_of_beq hf
          cases g <;> cases h
          exact ⟨s, s', _, _, qs, rfl⟩
        · cases hf
  · cases h

/-- A node takes a name if it is a specifier that does. -/
lemma Tree.takes?_eq_ofTree? (t : Tree) (name : Text) :
    ((Specifier.ofTree? t).filter (·.takesValue name)).map (·.localName) = t.takes? name := by
  unfold Specifier.ofTree?
  split
  · next imported isType _ w _ _ _ _ =>
      cases isType
      · by_cases h : imported = name <;>
          simp [Specifier.takesValue, takes?, Form.takes, form, Form.boundName?, h, Option.filter]
      · simp [Specifier.takesValue, takes?, Form.takes, Option.filter]
  · rfl
  · rfl
  · next hnamed _ _ =>
      cases ht : t.takes? name with
      | none => rfl
      | some w =>
          obtain ⟨_, _, _, _, _, rfl⟩ := takes?_eq_some ht
          exact absurd rfl (hnamed _ _ _ _ _ _ _ _)

/-- A statement takes the names that its specifiers take. -/
lemma Tree.takenFrom_eq_ofTree? (t : Tree) (module name : Text) :
    (((ImportDeclaration.ofTree? t).filter fun d => d.module == module && !d.isType).elim []
        fun d => (d.specifiers.filter (·.takesValue name)).map (·.localName))
      = t.takenFrom module name := by
  unfold ImportDeclaration.ofTree?
  split
  · next from' isType _ ps =>
      rw [takenFrom]
      cases isType
      · by_cases h : from' = module
        · have hspecifiers : ((ps.filterMap Specifier.ofTree?).filter (·.takesValue name)).map
              (·.localName) = ps.filterMap (takes? name) := by
            rw [List.filter_filterMap, List.map_filterMap]
            exact List.filterMap_congr fun q _ => q.takes?_eq_ofTree? name
          simpa [Form.takesFrom, Option.filter, h] using hspecifiers
        · simp [Form.takesFrom, Option.filter, h]
      · simp [Form.takesFrom, Option.filter]
  · next hnone =>
      obtain ⟨f, s, ps⟩ := t
      cases f
      case importDeclaration => exact absurd rfl (hnone _ _ _ _)
      all_goals rfl

/-- The specifiers that take the value of a name, as the script calls them. -/
lemma Program.takesValue_eq_takenFrom (p : Program) (module name : Text) :
    ((p.valueSpecifiers module).filter (·.takesValue name)).map (·.localName)
      = p.body.flatMap (Tree.takenFrom module name) := by
  obtain ⟨ts⟩ := p
  rw [valueSpecifiers, valueImports, imports]
  induction ts with
  | nil => rfl
  | cons t ts ih =>
      rw [List.flatMap_cons, ← ih, ← t.takenFrom_eq_ofTree?, List.filterMap_cons]
      cases hd : ImportDeclaration.ofTree? t with
      | none => rfl
      | some d =>
          rw [List.filter_cons, Option.filter]
          split_ifs with h
          · rw [List.flatMap_cons, List.filter_append, List.map_append]
            rfl
          · rfl

/-- The names that the statements of a script can use. -/
def Program.environment (p : Program) : Environment := meanings (regionDeclarations true p.body)

/-- A script has no names but those it declares. -/
lemma Program.environment_eq (p : Program) :
    p.environment = meanings (declarationsOf false p.body) ++ [] := by
  rw [List.append_nil]
  rfl

/-- A name that is declared has a symbol. -/
lemma Program.isSome_lookup_environment {p : Program} {d : Declaration}
    (hd : d ∈ declarationsOf false p.body) : (p.environment.lookup d.name .any).isSome = true := by
  rw [environment_eq]
  exact isSome_lookup hd []

/-- Only an import declaration of values takes from a module. -/
lemma Form.eq_of_takesFrom {f : Form} {module : Text} (h : f.takesFrom module = true) :
    f = .importDeclaration module false := by
  unfold takesFrom at h
  split at h
  · rw [eq_of_beq h]
  · cases h

/-- What a statement takes it declares, by a specifier with a binding. -/
lemma Tree.exists_specifier_of_mem_takenFrom {t : Tree} {module name w : Text}
    (h : w ∈ t.takenFrom module name) : ∃ s ps r r' binder symbol qs,
      t = .node (.importDeclaration module false) s ps ∧
        .node (.namedImport name false) r [.node (.binding w binder symbol) r' qs] ∈ ps ∧
          ⟨w, binder, r'.start⟩ ∈ t.declarations false := by
  obtain ⟨f, s, ps⟩ := t
  rw [takenFrom] at h
  split_ifs at h with hf
  · cases Form.eq_of_takesFrom hf
    obtain ⟨q, hq, hw⟩ := List.mem_filterMap.mp h
    obtain ⟨r, r', binder, symbol, qs, rfl⟩ := takes?_eq_some hw
    refine ⟨s, ps, r, r', binder, symbol, qs, rfl, hq, ?_⟩
    have hparts : (⟨w, binder, r'.start⟩ : Declaration) ∈ declarationsOf false ps := by
      rw [declarationsOf_eq_flatMap]
      exact List.mem_flatMap.mpr ⟨_, hq, List.mem_singleton_self _⟩
    exact hparts
  · cases h

/-- What is a specifier has a binding of its name. -/
lemma Specifier.exists_binding {t : Tree} {s : Specifier} (h : Specifier.ofTree? t = some s) :
    ∃ f s' binder s'' ps, ¬ Form.IsName f ∧ (∀ b, f ≠ .scope b) ∧
      t = .node f s' [.node (.binding s.localName binder s.symbol) s'' ps] := by
  unfold ofTree? at h
  split at h <;> cases h
  all_goals exact ⟨_, _, _, _, _, id, by simp, rfl⟩

/-- A specifier of a resolved script has the symbol of its name. -/
lemma Specifier.symbol_of_resolve {q : Tree} {env : Environment} {s : Specifier}
    (h : Specifier.ofTree? (q.resolve env) = some s) :
    s.symbol = env.lookup s.localName .any := by
  obtain ⟨f, s', binder, s'', ps, hname, hscope, hq⟩ := exists_binding h
  obtain ⟨ps₀, -, hps⟩ := Tree.resolve_eq_node hname hscope hq
  obtain ⟨p, -, hp⟩ : ∃ p ∈ ps₀,
      p.resolve env = .node (.binding s.localName binder s.symbol) s'' ps :=
    List.mem_map.mp (hps ▸ List.mem_singleton_self _)
  exact (Tree.resolve_eq_binding hp).2

/-- The symbol of a specifier is that of the name it declares. -/
lemma Program.symbol_of_mem_valueSpecifiers {p : Program} {module : Text} {s : Specifier}
    (h : s ∈ p.resolve.valueSpecifiers module) :
    s.symbol = p.environment.lookup s.localName .any := by
  obtain ⟨d, hd, hs⟩ := List.mem_flatMap.mp h
  obtain ⟨t', ht', hd⟩ := List.mem_filterMap.mp (List.mem_of_mem_filter hd)
  unfold ImportDeclaration.ofTree? at hd
  split at hd <;> cases hd
  obtain ⟨q', hq', hs⟩ := List.mem_filterMap.mp hs
  rw [resolve, resolveAll_eq_map] at ht'
  obtain ⟨t, -, ht⟩ := List.mem_map.mp ht'
  obtain ⟨ps₀, -, rfl⟩ := Tree.resolve_eq_node id (by simp) ht
  obtain ⟨q, -, rfl⟩ := List.mem_map.mp hq'
  exact Specifier.symbol_of_resolve hs

/-- **What a name of a module is imported as** is the last name that the script takes it
under, with the symbol of that name. -/
theorem Program.findImported_resolve (p : Program) (module : Text) {name : Text}
    (hname : name ≠ "default".toList) :
    p.resolve.findImported module name
      = .ok ((p.body.flatMap (Tree.takenFrom module name)).getLast?.bind fun w =>
          (p.environment.lookup w .any).map fun symbol => ⟨symbol, w⟩) := by
  have hnames : ((p.resolve.valueSpecifiers module).filter (·.takesValue name)).map (·.localName)
      = p.body.flatMap (Tree.takenFrom module name) := by
    rw [takesValue_eq_takenFrom, resolve, resolveAll_eq_map, List.flatMap_map]
    exact List.flatMap_congr fun t _ => t.takenFrom_resolve _ module name
  -- Each name that is taken is declared by its specifier, and so has a symbol.
  have hsome : ∀ w ∈ p.body.flatMap (Tree.takenFrom module name),
      (p.environment.lookup w .any).isSome = true := by
    intro w hw
    obtain ⟨t, ht, hw⟩ := List.mem_flatMap.mp hw
    obtain ⟨_, _, _, r', binder, _, _, -, -, hd⟩ := Tree.exists_specifier_of_mem_takenFrom hw
    refine isSome_lookup_environment (d := ⟨w, binder, r'.start⟩) ?_
    rw [declarationsOf_eq_flatMap]
    exact List.mem_flatMap.mpr ⟨t, ht, hd⟩
  -- The first specifier with a symbol is the first one at all.
  have hfound : ∀ specifiers : List Specifier,
      (∀ s ∈ specifiers, s.symbol = p.environment.lookup s.localName .any) →
        (∀ w ∈ specifiers.map (·.localName), (p.environment.lookup w .any).isSome = true) →
          (specifiers.findSome? fun s => s.symbol.map fun symbol =>
              (⟨symbol, s.localName⟩ : ImportedName))
            = (specifiers.map (·.localName)).head?.bind fun w =>
                (p.environment.lookup w .any).map fun symbol => ⟨symbol, w⟩ := by
    intro specifiers hsymbol hdeclared
    cases specifiers with
    | nil => rfl
    | cons s rest =>
        obtain ⟨x, hx⟩ := Option.isSome_iff_exists.mp (hdeclared s.localName (by simp))
        simp [hsymbol s (by simp), hx]
  rw [findImported, if_neg hname, List.filter_reverse, hfound, List.map_reverse,
    List.head?_reverse, hnames]
  · intro s hs
    exact symbol_of_mem_valueSpecifiers (List.mem_of_mem_filter (List.mem_reverse.mp hs))
  · rw [List.map_reverse, hnames]
    exact fun w hw => hsome w (List.mem_reverse.mp hw)

end ComponentMigration.Script
