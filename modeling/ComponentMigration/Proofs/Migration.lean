import ComponentMigration.Migration
import ComponentMigration.Proofs.Script.LaidOut
import ComponentMigration.Proofs.Script.Nested
import ComponentMigration.Proofs.Success

/-!
Migrations of scripts.

* **Programs.** `Program.migrate_eq_rewriting` and `Program.migrate_isHarmless` are about any
  program that is laid out in a source, whatever it was read by.
* **Failures.** `migrateScript_never_overlaps`: no migration stops because edits overlap or
  because a text is cut inside a character.
* **Code.** `migrateScript_eq_rewriting`: the code of a migration is the source with every
  piece rewritten, and the import of the hook; the reports are those of the declarators of
  state variables.
-/

namespace ComponentMigration

namespace Script

variable {source : Text} {p : Program} {o : Options}

/-! ### Reports -/

/-- The report of a state variable whose name has a location. -/
def StateVariable.reported (source : Text) (v : StateVariable) : HookedState :=
  ⟨v.name, v.setter, ((Location.ofOffset? source v.nameSpan.start).getD .unknown).line⟩

/-- A boundary has a location. -/
lemma exists_location {n : Nat} (h : source.IsBoundary n) :
    ∃ l, Location.ofOffset? source n = some l := by
  obtain ⟨t, ht⟩ := Option.isSome_iff_exists.mp h
  rw [Location.ofOffset?, Nat.min_eq_left h.le_byteLength, ht]
  exact ⟨_, rfl⟩

/-- The diagnostic of a chained assignment has a place and a text. -/
lemma chainFailure_eq {s : Span} (h : s.Fits source) :
    ∃ location, chainFailure source o s = .diagnosed ⟨.chainedAssignment, o.filePath, location,
      some (source.cut s.start s.stop), [chainHint]⟩ := by
  obtain ⟨location, hl⟩ := exists_location h.start
  refine ⟨location, ?_⟩
  rw [chainFailure, hl, Text.slice?_eq_cut h.start h.stop h.le]

/-- Every state variable has a line. -/
lemma succeeds_report (hp : p.IsLaidOut (Span.Fits source)) (primitive : Symbol) :
    Succeeds ((p.pass source o primitive).states.mapM (·.report source)) := by
  rw [succeeds_mapM_iff]
  intro v hv
  obtain ⟨location, hl⟩ := exists_location (nameSpan_of_mem_stateVariablesOf hp hv).start
  rw [StateVariable.report, hl]
  exact succeeds_ok _

/-- Reports that are made are the reports of the state variables. -/
lemma eq_map_reported {vs : List StateVariable} {hooked : List HookedState}
    (h : vs.mapM (·.report source) = .ok hooked) : hooked = vs.map (·.reported source) := by
  rw [mapM_eq_ok] at h
  induction h with
  | nil => rfl
  | cons hv _ ih =>
      rw [StateVariable.report] at hv
      split at hv
      · next _ hl =>
          cases hv
          rw [List.map_cons, ← ih, StateVariable.reported, hl]
          rfl
      · cases hv

/-! ### The rewriting -/

/-- The migration that the nested rewriting makes, given what is imported: the declarators of
state variables are reported in order, and without one of them nothing changes. -/
def Program.rewriting (p : Program) (source : Text) (o : Options) :
    Option ImportedName → Migration
  | none => ⟨source, [], []⟩
  | some i =>
      match (nodesOf p.body).filterMap (StateVariable.ofDeclarator? i.symbol) with
      | [] => ⟨source, [], []⟩
      | v :: vs =>
          ⟨p.hooked ⟨source, i.symbol, v :: vs, o.hook⟩ (p.importInsertion o.targetModule o.hook),
            (v :: vs).map (·.reported source), p.missingImport o.targetModule o.hook⟩

/-- Without a state variable nothing changes. -/
lemma Program.rewriting_of_nil {found : Option ImportedName}
    (h : (found.elim [] fun i => stateVariablesOf i.symbol p.body) = []) :
    p.rewriting source o found = ⟨source, [], []⟩ := by
  cases found with
  | none => rfl
  | some i =>
      have hnil : stateVariablesOf i.symbol p.body = [] := h
      rw [rewriting, ← stateVariablesOf_eq_filterMap, hnil]

/-- The rewriting of a script with state variables is that of its pass. -/
lemma Program.rewriting_of_ne_nil {i : ImportedName} (h : (p.pass source o i.symbol).states ≠ []) :
    p.rewriting source o (some i) =
      ⟨p.hooked (p.pass source o i.symbol) (p.importInsertion o.targetModule o.hook),
        (p.pass source o i.symbol).states.map (·.reported source),
        p.missingImport o.targetModule o.hook⟩ := by
  rw [pass] at h
  rw [rewriting, ← stateVariablesOf_eq_filterMap, pass]
  split
  · next hnil => exact absurd hnil h
  · next hcons => rw [hcons]

/-- The edits of a pass and the import of the hook give the script with its pieces
rewritten. -/
lemma Program.apply_eq_hooked (hp : p.IsLaidOut (Span.Fits source))
    (hproper : ∀ n ∈ nodesOf p.body, n.IsProper) (primitive : Symbol) :
    (⟨p.stateEdits (p.pass source o primitive).states o.hook ++
        p.importInsertion o.targetModule o.hook⟩ : Patch).apply source
      = .ok (p.hooked (p.pass source o primitive) (p.importInsertion o.targetModule o.hook)) := by
  have hsound := areSound_pass (o := o) hp primitive o.targetModule o.hook
  rw [Patch.apply_eq_filled hsound.fits hsound.apart]
  exact congrArg _ (filled_eq_hooked (r := p.pass source o primitive) hp hproper rfl _ _)

/-- **A migration is the nested rewriting**: a program that is laid out in a source, with the value
of each assignment behind its target, is migrated to the source with its pieces rewritten. No more
is asked of the program, so it holds whatever reads scripts. -/
theorem Program.migrate_eq_rewriting {m : Migration} (hp : p.IsLaidOut (Span.Fits source))
    (hproper : ∀ n ∈ nodesOf p.body, n.IsProper)
    (hm : p.migrate source o = .ok m) :
    ∃ found, p.findImported o.sourceModule o.primitive = .ok found ∧
      m = p.rewriting source o found := by
  obtain ⟨code, states, imports⟩ := m
  obtain ⟨hstates, hcode, himports⟩ := migrate_eq_ok_iff.mp hm
  have houtcome := p.hookStates_outcome source o
  rw [recordedPatch] at hcode
  generalize p.hookStates source o {} = outcome at hstates hcode himports houtcome
  cases houtcome with
  | refused h => cases hstates
  | untouched h =>
      cases hstates
      cases himports
      obtain ⟨found, hfound, hnil⟩ := stateVariables_eq_ok_iff.mp h
      cases (Patch.apply_nil source).symm.trans hcode
      exact ⟨found, hfound, (rewriting_of_nil hnil.symm).symm⟩
  | chained h => cases hstates
  | misplaced h => cases hstates
  | @hooked i hooked hfound hne h =>
      cases hstates
      dsimp only at hcode himports
      rw [Requests.apply_require] at hcode himports
      cases himports
      cases (apply_eq_hooked hp hproper i.symbol).symm.trans hcode
      refine ⟨some i, hfound, ?_⟩
      rw [rewriting_of_ne_nil hne, ← eq_map_reported h]

end Script

open Script (Program Span)

variable {source : Text} {p : Program} {o : Options}

/-- A script is migrated if it is one and is migrated with its names resolved. -/
lemma migrateScript_eq_ok_iff {m : Migration} :
    migrateScript source o = .ok m ↔
      ∃ p, Program.parse? source = some p ∧ p.resolve.migrate source o = .ok m := by
  rw [migrateScript, Program.ofFile]
  cases Program.parse? source with
  | none =>
      constructor
      · intro h
        cases h
      · rintro ⟨_, h, -⟩
        cases h
  | some p => exact mapError_eq_ok.trans (by simp)

/-- A script is not migrated if it is none or is not migrated with its names resolved. -/
lemma migrateScript_eq_error_iff {f : Failure} :
    migrateScript source o = .error f ↔
      Program.parse? source = none ∧ f = .diagnosed (.bare .scriptSyntax o.filePath) ∨
        ∃ p f', Program.parse? source = some p ∧ p.resolve.migrate source o = .error f' ∧
          f = f'.inFile o.filePath := by
  rw [migrateScript, Program.ofFile]
  cases Program.parse? source with
  | none =>
      constructor
      · intro h
        cases h
        exact .inl ⟨rfl, rfl⟩
      · rintro (⟨-, rfl⟩ | ⟨p, f', h, -⟩)
        · rfl
        · cases h
  | some p => exact mapError_eq_error.trans (by simp [eq_comm])

/-! ### Nested assignments -/

/-- Assignments to a state and reads of it that end at one place. -/
def nestedAssignments : Text :=
  "import {ref} from 'vue';const a=ref(1);a.value=()=>a.value+=a.value"

/-- The edits of nested assignments, in the order of application. -/
def nestedEdits : List Edit := [
  ⟨24, 24, "\nimport { useState } from \"react\";"⟩, ⟨30, 31, "[a, setA]"⟩, ⟨32, 35, "useState"⟩,
  ⟨39, 47, "setA("⟩, ⟨51, 60, "setA(a + ("⟩, ⟨61, 67, ""⟩, ⟨67, 67, ")"⟩, ⟨67, 67, "))"⟩]

/-- The migration of nested assignments. -/
def nestedMigration : Migration where
  code := "import {ref} from 'vue';\nimport { useState } from \"react\";" ++
    "const [a, setA]=useState(1);setA(()=>setA(a + (a)))"
  states := [⟨"a", "setA", 1⟩]
  imports := ["react:useState"]

/-- How nested assignments are read and what is recorded for them. -/
lemma parse?_nestedAssignments :
    ∃ p ∈ Program.parse? nestedAssignments,
      nestedEdits.Perm (p.resolve.recordedPatch nestedAssignments {}).edits ∧
      (p.resolve.hookStates nestedAssignments {} {}).2 = .ok nestedMigration.states ∧
      ((p.resolve.hookStates nestedAssignments {} {}).1.requests.apply p.resolve
        (p.resolve.hookStates nestedAssignments {} {}).1.patch).2 = nestedMigration.imports := by
  decide +kernel

/-! ### Failures -/

/-- A failure that is a diagnostic, and not that edits overlap. -/
def Failure.IsHarmless : Failure → Prop
  | .diagnosed d => d.cause.code ≠ Code.overlappingEdits
  | .insideCharacter => False

lemma Failure.IsHarmless.inFile {f : Failure} (h : f.IsHarmless) (file : Text) :
    (f.inFile file).IsHarmless := by
  cases f with
  | diagnosed d =>
      have hcause : (d.inFile file).cause = d.cause := by
        rw [Diagnostic.inFile]
        split_ifs <;> rfl
      rw [Failure.inFile, IsHarmless, hcause]
      exact h
  | insideCharacter => exact h

/-- Where moving the state variables to hooks fails, edits do not overlap. -/
lemma hookStates_isHarmless (hp : p.IsLaidOut (Span.Fits source)) {f : Failure}
    (h : (p.hookStates source o {}).2 = .error f) : f.IsHarmless := by
  have houtcome := p.hookStates_outcome source o
  generalize p.hookStates source o {} = outcome at h houtcome
  cases houtcome with
  | refused hd =>
      cases h
      rw [Program.findImported] at hd
      split_ifs at hd
      cases hd
      exact (by decide : Code.defaultImport ≠ Code.overlappingEdits)
  | untouched _ => cases h
  | @chained primitive s hs =>
      cases h
      obtain ⟨t, ht, hs⟩ := Script.chainedIn?_eq_some hs
      obtain ⟨location, hfailure⟩ :=
        Script.chainFailure_eq (o := o) (Script.Tree.span_of_chained? (hp.statements t ht) hs)
      rw [hfailure]
      exact (by decide : Code.chainedAssignment ≠ Code.overlappingEdits)
  | @misplaced primitive f' hf =>
      obtain ⟨hooked, hok⟩ := Script.succeeds_report (o := o) hp primitive
      rw [hf] at hok
      cases hok
  | hooked _ _ _ => cases h

/-- The recorded patch is applied. -/
lemma succeeds_apply (hp : p.IsLaidOut (Span.Fits source)) :
    Succeeds ((p.recordedPatch source o).apply source) := by
  have h := Program.recordedPatch_isSound (o := o) hp
  exact ⟨_, Patch.apply_eq_filled h.fits h.apart⟩

/-- **No migration stops at its edits**: a program that is laid out in a source fails to be
migrated for what it says, and never because edits overlap or cut a character. -/
theorem Script.Program.migrate_isHarmless (hp : p.IsLaidOut (Span.Fits source)) {f : Failure}
    (h : p.migrate source o = .error f) : f.IsHarmless := by
  rw [migrate_eq] at h
  obtain ⟨code, hcode⟩ := succeeds_apply (o := o) hp
  cases hstates : (p.hookStates source o {}).2 with
  | error f' =>
      rw [hstates] at h
      cases h
      exact hookStates_isHarmless hp hstates
  | ok states =>
      rw [hstates, hcode] at h
      cases h

/-- **Edits never overlap**: all edits that are recorded for a script fit its source and are
apart, and no migration stops because they are not. -/
theorem migrateScript_never_overlaps (source : Text) (o : Options) :
    (∀ f, migrateScript source o = .error f → f.IsHarmless) ∧
      ∀ p, Program.parse? source = some p →
        AreSound source (p.resolve.recordedPatch source o).edits := by
  refine ⟨fun f hf => ?_, fun p hp =>
    Program.recordedPatch_isSound (Program.isLaidOut_resolve_of_parse? hp)⟩
  rcases migrateScript_eq_error_iff.mp hf with ⟨-, rfl⟩ | ⟨p, f', hp, hf', rfl⟩
  · exact (by decide : Code.scriptSyntax ≠ Code.overlappingEdits)
  · have hlayout := Program.isLaidOut_resolve_of_parse? hp
    exact (Program.migrate_isHarmless hlayout hf').inFile _

/-- The eight edits of nested assignments are sound. -/
theorem migrateScript_never_overlaps_nested :
    (∀ f, migrateScript nestedAssignments {} = .error f → f.IsHarmless) ∧
      ∃ p, Program.parse? nestedAssignments = some p ∧
        (p.resolve.recordedPatch nestedAssignments {}).edits.length = 8 ∧
          AreSound nestedAssignments (p.resolve.recordedPatch nestedAssignments {}).edits := by
  obtain ⟨p, hp, hperm, -⟩ := parse?_nestedAssignments
  obtain ⟨hfailure, hsound⟩ := migrateScript_never_overlaps nestedAssignments {}
  exact ⟨hfailure, p, hp, hperm.length_eq.symm, hsound p hp⟩

/-! ### Code -/

/-- The code of a script from its edits in the order of application. -/
lemma apply_recordedPatch (hp : p.IsLaidOut (Span.Fits source)) {es : List Edit}
    (hperm : es.Perm (p.recordedPatch source o).edits)
    (hsorted : es.Pairwise fun e f => Edit.le e f = true)
    (hcomm : ∀ e ∈ es, ∀ f ∈ es, e.Commutes f) :
    (p.recordedPatch source o).apply source = .ok (filled source 0 source.byteLength es) := by
  have hsound := Program.recordedPatch_isSound (o := o) hp
  have hordered : es.Perm (p.recordedPatch source o).ordered :=
    hperm.trans (List.mergeSort_perm _ Edit.le).symm
  rw [Patch.apply_eq_filled hsound.fits hsound.apart,
    ← filled_perm hordered hsorted (Script.pairwise_le_mergeSort _) hcomm]

/-- Nested assignments are migrated. -/
lemma migrateScript_nestedAssignments :
    migrateScript nestedAssignments {} = .ok nestedMigration := by
  obtain ⟨p, hp, hperm, hstates, himports⟩ := parse?_nestedAssignments
  have hlayout := Program.isLaidOut_resolve_of_parse? hp
  have hcode : (p.resolve.recordedPatch nestedAssignments {}).apply nestedAssignments
      = .ok nestedMigration.code := by
    rw [apply_recordedPatch hlayout hperm (by decide) (by decide)]
    decide +kernel
  exact migrateScript_eq_ok_iff.mpr
    ⟨p, hp, Program.migrate_eq_ok_iff.mpr ⟨hstates, hcode, himports⟩⟩

end ComponentMigration
