import ComponentMigration.Proofs.Migration
import ComponentMigration.Proofs.Script.Following
import ComponentMigration.Proofs.Script.Taken

/-!
Migrating a migrated script.

* **Migrated trees.** `p.IsReadBack q`: a script `q` has the migrated tree of `p`, with the import of
  the hook. That is a relation between two trees, which can be computed. The script `q` takes the
  function that makes state variables under the names that `p` had (`takenFrom_readBack`), and its
  names follow those of `p` (`IsReadBack.follows`).
* **Main statement.** `migrateScript_of_isReadBack`: a script with a migrated tree is left as it
  is, if what a migration adds `KeepsApart` from the function.
* **The condition.** `not_migrateScript_idempotent`: without it a second migration can move what
  was no state variable before.
-/

namespace ComponentMigration

namespace Script

variable {source code : Text} {p q : Program} {o : Options} {i : ImportedName} {x : Symbol}
  {env' : Environment}

/-! ### Migrated trees -/

/-- A specifier declares no state variable. -/
lemma Tree.stateVariables_resolve_takenAs {name : Text} {u : Tree}
    (h : (takenAs name).Alike u) : (u.resolve env').stateVariables x = [] := by
  obtain ⟨f, s, us, rfl, hbare, -, hparts⟩ := h.of_ne_chain (by simp)
  cases Form.eq_of_bare_eq hbare id
  refine stateVariables_resolve_of_ne (by simp) (fun hf => hf.elim) (by simp) fun u hu => ?_
  obtain ⟨t, ht, htu⟩ := exists_alike_of_mem hparts hu
  cases List.mem_singleton.mp ht
  obtain ⟨g, _, qs, rfl, hg, hqs, -⟩ := htu.of_ne_chain (by simp)
  cases hqs trivial
  cases g <;> cases hg
  rfl

/-- A script has the migrated tree of another one, up to spans and symbols. -/
def Program.IsReadBack (p q : Program) (source : Text) (o : Options) (i : ImportedName) : Prop :=
  AlikeAll (p.resolve.moved (p.resolve.pass source o i.symbol) o.targetModule) q.body

/-- A migration keeps apart what it adds from the function that makes state variables: the hook
is not imported as one more import of the function, and neither a state variable nor a setter is
the function. -/
structure Program.KeepsApart (p : Program) (source : Text) (o : Options) (i : ImportedName) :
    Prop where
  hook : ¬ (o.targetModule = o.sourceModule ∧ o.hook = o.primitive) ∨
    (p.boundNames o.targetModule).contains o.hook = true
  states : (p.pass source o i.symbol).IsApart i.localName

instance : Decidable (p.IsReadBack q source o i) :=
  inferInstanceAs (Decidable
    (AlikeAll (p.resolve.moved (p.resolve.pass source o i.symbol) o.targetModule) q.body))

instance (r : Pass) (w : Text) : Decidable (r.IsApart w) :=
  inferInstanceAs (Decidable (∀ v ∈ r.states, v.symbol ≠ r.primitive ∧ v.setter ≠ w))

instance : Decidable (p.KeepsApart source o i) :=
  decidable_of_iff ((¬ (o.targetModule = o.sourceModule ∧ o.hook = o.primitive) ∨
      (p.boundNames o.targetModule).contains o.hook = true) ∧
        (p.pass source o i.symbol).IsApart i.localName)
    ⟨fun h => ⟨h.1, h.2⟩, fun h => ⟨h.hook, h.states⟩⟩

/-- What is imported is taken by the script, last of all its names, and has its symbol. -/
lemma Program.findImported_resolve_eq_some (h : p.resolve.findImported o.sourceModule o.primitive
    = .ok (some i)) : o.primitive ≠ "default".toList ∧
      (p.body.flatMap (Tree.takenFrom o.sourceModule o.primitive)).getLast? = some i.localName ∧
        p.environment.lookup i.localName .any = some i.symbol := by
  have hname : o.primitive ≠ "default".toList := by
    intro heq
    rw [findImported, if_pos heq] at h
    cases h
  rw [findImported_resolve p _ hname] at h
  obtain ⟨w, hw, h⟩ := Option.bind_eq_some_iff.mp (Except.ok.inj h)
  obtain ⟨symbol, hsymbol, rfl⟩ := Option.map_eq_some_iff.mp h
  exact ⟨hname, hw, hsymbol⟩

/-- A script with a migrated tree takes the function under the names it had. -/
lemma Program.takenFrom_readBack (h : p.IsReadBack q source o i)
    (hapart : p.resolve.KeepsApart source o i) :
    q.body.flatMap (Tree.takenFrom o.sourceModule o.primitive)
      = p.body.flatMap (Tree.takenFrom o.sourceModule o.primitive) := by
  have hread : ∀ {ts us : List Tree}, List.Forall₂ Tree.Alike ts us →
      us.flatMap (Tree.takenFrom o.sourceModule o.primitive)
        = ts.flatMap (Tree.takenFrom o.sourceModule o.primitive) := by
    intro ts us h
    induction h with
    | nil => rfl
    | cons htu _ ih =>
        rw [List.flatMap_cons, List.flatMap_cons, ih, Tree.takenFrom_of_alike htu]
  -- Moving a statement leaves what it takes,
  have hmoved : (movedAll (p.resolve.pass source o i.symbol) p.resolve.body).flatMap
      (Tree.takenFrom o.sourceModule o.primitive)
        = p.body.flatMap (Tree.takenFrom o.sourceModule o.primitive) := by
    rw [movedAll_eq_map, resolve, resolveAll_eq_map, List.map_map, List.flatMap_map]
    exact List.flatMap_congr fun t _ =>
      (Tree.takenFrom_moved _ _ _).trans (t.takenFrom_resolve _ _ _)
  rw [hread (alikeAll_iff.mp h), Program.moved]
  -- and the import of the hook takes nothing more of the function.
  split_ifs with hbound
  · exact hmoved
  · have hne := hapart.hook.resolve_right hbound
    exact (takenFrom_importing hne _).trans hmoved

/-- Of what an import declaration of a script takes, the names are values and types. -/
lemma Program.declaresBoth_of_parse? {module : Text} {s : Span} {ps : List Tree}
    (hp : parse? source = some p) (h : .node (.importDeclaration module false) s ps ∈ p.body) :
    ∀ q ∈ ps, Grammar.DeclaresBoth q := by
  obtain ⟨-, xs, hxs, -, hbody⟩ := parse?_eq_some_iff.mp hp
  rw [hbody] at h
  obtain ⟨⟨u, f, s₀, ps₀⟩, hmem, heq⟩ := List.mem_map.mp h
  obtain ⟨xs₁, xs₂, rfl⟩ := List.append_of_mem hmem
  obtain ⟨_, -, hreads⟩ := reads_append_iff.mp hxs
  rw [Tree.shift, shiftAll_eq_map] at heq
  cases heq
  cases hreads with
  | cons _ hx _ =>
      obtain ⟨-, _, _, t', -, ht', -, hdeclares⟩ :=
        (statement?_import_iff (by simp [ImportDeclaration.ofTree?])).mp hx
      intro q hq
      obtain ⟨q, hq₀, rfl⟩ := List.mem_map.mp hq
      -- A specifier with a binding in it is one of the statement as it was read, at another
      -- place.
      intro name w b symbol r r' qs heq
      obtain ⟨g, _, qs₀⟩ := q
      rw [Tree.shift, shiftAll_eq_map] at heq
      injection heq with hg _ hparts
      obtain ⟨⟨g', _, _⟩, rfl, hq'⟩ := List.map_eq_singleton_iff.mp hparts
      rw [Tree.shift] at hq'
      injection hq' with hg'
      cases hg
      cases hg'
      exact hdeclares.declaresBoth ht' rfl _ hq₀ rfl

/-- What a script takes from a module it declares as a value and a type. -/
lemma Program.exists_both_of_takenFrom {module name w : Text} (hp : parse? source = some p)
    (hw : w ∈ p.body.flatMap (Tree.takenFrom module name)) :
    ∃ d ∈ declarationsOf false p.body, d.name = w ∧ d.binder = .both := by
  obtain ⟨t, ht, hw⟩ := List.mem_flatMap.mp hw
  obtain ⟨s, ps, _, r, binder, _, _, rfl, hq, hd⟩ := Tree.exists_specifier_of_mem_takenFrom hw
  refine ⟨⟨w, binder, r.start⟩, ?_, rfl, declaresBoth_of_parse? hp ht _ hq rfl⟩
  rw [declarationsOf_eq_flatMap]
  exact List.mem_flatMap.mpr ⟨_, ht, hd⟩

/-- In a script the symbol of a name is the offset of a declaration of the name. -/
lemma Program.exists_declaration_of_lookup {name : Text} {space : Space}
    (h : p.environment.lookup name space = some x) :
    ∃ d ∈ declarationsOf false p.body, d.name = name ∧ d.offset = x := by
  rw [environment_eq] at h
  rcases lookup_eq_some h with h | ⟨-, h⟩
  · exact h
  · cases h

/-- The statements of a script that was read back have plain names. -/
lemma Program.IsReadBack.hasPlainNames (h : p.IsReadBack q source o i) :
    ∀ u ∈ q.body, u.HasPlainNames := by
  intro u hu
  obtain ⟨t, -, htu⟩ := exists_alike_of_mem (alikeAll_iff.mp h) hu
  exact htu.hasPlainNames

/-- The names of a script that was read are not empty. -/
lemma Program.hasFilledNames_of_parse? (h : parse? code = some q) :
    ∀ u ∈ q.body, u.HasFilledNames := fun u hu n hn =>
  (isProper_of_parse? h n (nodesOf_eq_flatMap q.body ▸ List.mem_flatMap.mpr ⟨u, hu, hn⟩)).name

/-- The names of a migrated script follow those of the script. -/
lemma Program.IsReadBack.follows (h : p.IsReadBack q source o i) (hread : parse? code = some q)
    (hboth : ∃ d ∈ declarationsOf false p.body, d.name = i.localName ∧ d.binder = .both)
    (hp : p.environment.lookup i.localName .any = some i.symbol)
    (hq : q.environment.lookup i.localName .any = some x) :
    Follows (p.resolve.pass source o i.symbol) i.localName x p.environment q.environment := by
  -- The symbol is the offset of one declaration, and no other one stands there.
  obtain ⟨e, he, hename, heoffset⟩ := exists_declaration_of_lookup hq
  refine ⟨fun name space hx => ?_, fun space _ => ?_⟩
  · obtain ⟨d, hd, hdname, hdoffset⟩ := exists_declaration_of_lookup hx
    rw [← hdname, ← hename,
      declarationsOf_inj (isLaidOut_of_parse? hread) h.hasPlainNames
        (hasFilledNames_of_parse? hread) hd he (hdoffset.trans heoffset.symm)]
  -- The name was declared for all spaces, so a lookup in any of them finds it.
  · obtain ⟨d, hd, hname, hboth⟩ := hboth
    have hanswers : ∀ space, d.binder.answers space = true := by
      rw [hboth]
      intro space
      cases space <;> rfl
    rw [environment_eq, ← hname, lookup_of_declared hd (hanswers _)] at hp ⊢
    exact hp

/-- The statements of a resolved script stand in it. -/
lemma Program.isPlaced_of_mem (hapart : (p.resolve.pass source o i.symbol).IsApart i.localName)
    {t : Tree} (ht : t ∈ p.resolve.body) :
    t.IsPlaced (p.resolve.pass source o i.symbol) i.localName p.environment := by
  refine ⟨?_, fun d hd => isSome_lookup_environment ?_, fun v hv => (hapart v ?_).2⟩
  · rw [resolve, resolveAll_eq_map] at ht
    obtain ⟨t, -, rfl⟩ := List.mem_map.mp ht
    exact t.resolve_resolve _
  · rw [← declarationsOf_resolveAll p.body p.environment, declarationsOf_eq_flatMap]
    exact List.mem_flatMap.mpr ⟨t, ht, hd⟩
  · rw [pass, stateVariablesOf_eq_flatMap]
    exact List.mem_flatMap.mpr ⟨t, ht, hv⟩

/-- A script that was read back declares no state variable. -/
lemma Program.IsReadBack.stateVariables_eq_nil (h : p.IsReadBack q source o i)
    (hread : parse? code = some q) (hapart : p.resolve.KeepsApart source o i)
    (hboth : ∃ d ∈ declarationsOf false p.body, d.name = i.localName ∧ d.binder = .both)
    (hp : p.environment.lookup i.localName .any = some i.symbol)
    (hq : q.environment.lookup i.localName .any = some x) :
    stateVariablesOf x q.resolve.body = [] := by
  have hfollows := h.follows hread hboth hp hq
  -- No region further in declares something at the offset of the function.
  have havoids : ∀ u ∈ q.body, u.Avoids x := by
    intro u hu n hn d hd
    obtain ⟨e, he, -, rfl⟩ := exists_declaration_of_lookup hq
    refine offset_ne_of_mem_region (isLaidOut_of_parse? hread) h.hasPlainNames
      (hasFilledNames_of_parse? hread) (n := n) ?_ hd he
    rw [nodesOf_eq_flatMap]
    exact List.mem_flatMap.mpr ⟨u, hu, hn⟩
  have hmoved : ∀ t : Tree,
      t.IsPlaced (p.resolve.pass source o i.symbol) i.localName p.environment → ∀ u : Tree,
        (t.moved (p.resolve.pass source o i.symbol)).Alike u → u.Avoids x →
          (u.resolve q.environment).stateVariables x = [] := fun t ht u htu hu =>
    t.declaresNone hapart.states hfollows ht htu hu
  rw [resolve, resolveAll_eq_map, stateVariablesOf_eq_flatMap, List.flatMap_map,
    List.flatMap_eq_nil_iff]
  intro u hu
  obtain ⟨m, hm, hmu⟩ := exists_alike_of_mem (alikeAll_iff.mp h) hu
  -- A statement was moved, or is an import declaration with one specifier more.
  have hadded : m ∈ movedAll (p.resolve.pass source o i.symbol) p.resolve.body ∨ ∃ s ps,
      m = .node (.importDeclaration o.targetModule false) s (ps ++ [.takenAs o.hook]) ∧
        (ps = [] ∨ .node (.importDeclaration o.targetModule false) s ps ∈
          movedAll (p.resolve.pass source o i.symbol) p.resolve.body) := by
    rw [Program.moved] at hm
    split_ifs at hm
    · exact .inl hm
    · exact mem_importing hm
  rw [movedAll_eq_map] at hadded
  rcases hadded with hm | ⟨s, ps, rfl, hps⟩
  · obtain ⟨t, ht, rfl⟩ := List.mem_map.mp hm
    exact hmoved t (isPlaced_of_mem hapart.states ht) u hmu (havoids u hu)
  · obtain ⟨f, s', us, rfl, hbare, -, hparts⟩ := hmu.of_ne_chain (by simp)
    cases Form.eq_of_bare_eq hbare id
    refine Tree.stateVariables_resolve_of_ne (by simp) (fun hf => hf.elim) (by simp)
      fun v hv => ?_
    obtain ⟨m', hm', hmv⟩ := exists_alike_of_mem hparts hv
    rcases List.mem_append.mp hm' with hm' | hm'
    · rcases hps with rfl | hps
      · cases hm'
      · obtain ⟨t, ht, heq⟩ := List.mem_map.mp hps
        obtain ⟨ps₀, rfl, rfl⟩ := Tree.eq_of_moved_eq heq (by simp) (by simp) (by simp)
        obtain ⟨t', ht', rfl⟩ := List.mem_map.mp hm'
        exact hmoved t' ((isPlaced_of_mem hapart.states ht).of_mem_parts id (by simp) ht') v hmv
          (Tree.Avoids.of_mem_parts (havoids _ hu) hv)
    -- The specifier that was added declares no state variable.
    · cases List.mem_singleton.mp hm'
      exact Tree.stateVariables_resolve_takenAs hmv

/-- Without state variables a script stays as it is. -/
lemma Program.migrate_of_stateVariables (h : p.stateVariables o = .ok []) :
    p.migrate source o = .ok ⟨source, [], []⟩ := by
  have hstates : p.hookStates source o {} = ({}, .ok []) := by
    rw [hookStates, h]
  refine migrate_eq_ok_iff.mpr ⟨?_, ?_, ?_⟩
  · rw [hstates]
  · rw [recordedPatch, hstates]
    exact Patch.apply_nil source
  · rw [hstates]
    rfl

end Script

open Script (Program)

variable {source code : Text} {p q : Program} {o : Options} {i : Script.ImportedName}

/-- **A migrated script is left as it is**: a migration changes nothing in a script with the
migrated tree of another one, if what was added is kept apart from the function that makes state
variables. -/
theorem migrateScript_of_isReadBack (hp : Program.parse? source = some p)
    (hi : p.resolve.findImported o.sourceModule o.primitive = .ok (some i))
    (hq : Program.parse? code = some q) (hread : p.IsReadBack q source o i)
    (hapart : p.resolve.KeepsApart source o i) :
    migrateScript code o = .ok ⟨code, [], []⟩ := by
  obtain ⟨hname, htaken, hsymbol⟩ := Program.findImported_resolve_eq_some hi
  refine migrateScript_eq_ok_iff.mpr ⟨q, hq, Program.migrate_of_stateVariables ?_⟩
  rw [Program.stateVariables_eq_ok_iff]
  refine ⟨_, Program.findImported_resolve q _ hname, ?_⟩
  rw [Program.takenFrom_readBack hread hapart, htaken, Option.bind_some]
  have hboth := Program.exists_both_of_takenFrom hp (List.mem_of_getLast? htaken)
  -- Where the name has no symbol any more, nothing is looked for.
  cases hx : q.environment.lookup i.localName .any with
  | none => rfl
  | some x => exact (hread.stateVariables_eq_nil hq hapart hboth hsymbol hx).symm

/-- Migrating the migration of nested assignments changes nothing. -/
theorem migrateScript_nestedMigration :
    migrateScript nestedMigration.code {} = .ok ⟨nestedMigration.code, [], []⟩ := by
  obtain ⟨p, hp, q, hq, hfound, hread, hapart⟩ :
      ∃ p ∈ Program.parse? nestedAssignments, ∃ q ∈ Program.parse? nestedMigration.code,
        p.resolve.findImported "vue" "ref" = .ok (some ⟨8, "ref"⟩) ∧
          p.IsReadBack q nestedAssignments {} ⟨8, "ref"⟩ ∧
            p.resolve.KeepsApart nestedAssignments {} ⟨8, "ref"⟩ := by
    decide +kernel
  exact migrateScript_of_isReadBack hp hfound hq hread hapart

/-! ### A second import of the function -/

/-- A script that imports the function under another name, and calls one of its own name. -/
def aliasedText : Text :=
  "import { ref as r } from \"vue\";\nconst a = r(1);\nconst b = ref(2);\n"

/-- Options by which the hook is the function that makes state variables. -/
def sameHook : Options := { targetModule := "vue", hook := "ref" }

/-- The edits of the script, in the order of application. -/
def aliasedEdits : List Edit := [⟨17, 17, ", ref"⟩, ⟨38, 39, "[a, setA]"⟩, ⟨42, 43, "ref"⟩]

/-- The first migration of the script. -/
def aliasedMigration : Migration where
  code := "import { ref as r, ref } from \"vue\";\nconst [a, setA] = ref(1);\nconst b = ref(2);\n"
  states := [⟨"a", "setA", 2⟩]
  imports := ["vue:ref"]

/-- The script is migrated. -/
lemma migrateScript_aliased : migrateScript aliasedText sameHook = .ok aliasedMigration := by
  obtain ⟨p, hp, hperm, hstates, himports⟩ :
      ∃ p ∈ Program.parse? aliasedText,
        aliasedEdits.Perm (p.resolve.recordedPatch aliasedText sameHook).edits ∧
        (p.resolve.hookStates aliasedText sameHook {}).2 = .ok aliasedMigration.states ∧
        ((p.resolve.hookStates aliasedText sameHook {}).1.requests.apply p.resolve
          (p.resolve.hookStates aliasedText sameHook {}).1.patch).2 = aliasedMigration.imports := by
    decide +kernel
  have hcode : (p.resolve.recordedPatch aliasedText sameHook).apply aliasedText
      = .ok aliasedMigration.code := by
    rw [apply_recordedPatch (Program.isLaidOut_resolve_of_parse? hp) hperm (by decide) (by decide)]
    decide +kernel
  exact migrateScript_eq_ok_iff.mpr
    ⟨p, hp, Program.migrate_eq_ok_iff.mpr ⟨hstates, hcode, himports⟩⟩

/-- Migrating a script again moves a state variable that it did not have before. -/
theorem not_migrateScript_idempotent :
    ∃ m m', migrateScript aliasedText sameHook = .ok m ∧
      migrateScript m.code sameHook = .ok m' ∧ m' ≠ ⟨m.code, [], []⟩ := by
  obtain ⟨q, hq, hstates⟩ : ∃ q ∈ Program.parse? aliasedMigration.code,
      (q.resolve.hookStates aliasedMigration.code sameHook {}).2 = .ok [⟨"b", "setB", 3⟩] := by
    decide +kernel
  obtain ⟨code, hcode⟩ := succeeds_apply (o := sameHook) (Program.isLaidOut_resolve_of_parse? hq)
  refine ⟨aliasedMigration, ⟨code, [⟨"b", "setB", 3⟩], _⟩, migrateScript_aliased,
    migrateScript_eq_ok_iff.mpr ⟨q, hq, Program.migrate_eq_ok_iff.mpr ⟨hstates, hcode, rfl⟩⟩, ?_⟩
  intro heq
  injection heq with _ hnone _
  cases hnone

end ComponentMigration
