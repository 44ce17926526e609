import ComponentMigration.Component
import ComponentMigration.Proofs.Markup.Placement
import ComponentMigration.Proofs.Migration
import ComponentMigration.Proofs.SingleFile.Tags

/-!
The diagnostics of a component.

* **Files.** A failure on the way names no file or the right one, and the last step fills the
  file in: `migrate_names_file`.
* **Places.** `OpensAt source outside tag rest`: the first opening `template` tag of a component
  and what is on its two sides. A diagnostic of the template block has the location that the
  block counts, not the component: `migrateComponent_places`.
-/

namespace ComponentMigration

variable {source : Text} {o : Options} {file : Text}

/-! ### Files -/

/-- A diagnostic that names no file yet, or this one. -/
def Diagnostic.MayName (file : Text) (d : Diagnostic) : Prop := d.file = [] ∨ d.file = file

/-- A failure whose diagnostic, if it is one, names no file yet, or this one. -/
def Failure.MayName (file : Text) : Failure → Prop
  | .diagnosed d => d.MayName file
  | .insideCharacter => True

/-- A failure whose diagnostic, if it is one, names the file. -/
def Failure.Names (file : Text) : Failure → Prop
  | .diagnosed d => d.file = file
  | .insideCharacter => True

/-- A diagnostic that may name the file names it once it is put in. -/
lemma Diagnostic.MayName.file_inFile {d : Diagnostic} (h : d.MayName file) :
    (d.inFile file).file = file := by
  rw [inFile]
  split_ifs with hempty
  · rfl
  · exact h.resolve_left hempty

/-- A failure that may name the file names it once it is put in. -/
lemma Failure.MayName.inFile {f : Failure} (h : f.MayName file) : (f.inFile file).Names file := by
  cases f with
  | diagnosed d => exact Diagnostic.MayName.file_inFile h
  | insideCharacter => trivial

namespace Script

/-- The search for state variables names the file of the options, or none. -/
lemma stateVariables_mayName (p : Program) (o : Options) :
    FailsOnly (Diagnostic.MayName o.filePath) (p.stateVariables o) := by
  rw [Program.stateVariables]
  refine FailsOnly.bind ?_ fun found _ => ?_
  · rw [Program.findImported]
    split_ifs
    · exact .error (.inl rfl)
    · exact .ok _
  · split
    · exact .pure _
    · exact .pure _

/-- The failure at a chain names the file of the options. -/
lemma chainFailure_mayName (source : Text) (o : Options) (s : Span) :
    (chainFailure source o s).MayName o.filePath := by
  rw [chainFailure]
  split
  · exact .inr rfl
  · trivial

/-- A state variable without a line is no diagnostic. -/
lemma report_mayName (v : StateVariable) :
    FailsOnly (Failure.MayName file) (v.report source) := by
  rw [StateVariable.report]
  split
  · exact .ok _
  · exact .error trivial

/-- Recording the edits names the file of the options, or none. -/
lemma hookStates_mayName (p : Program) (source : Text) (o : Options) (progress : Progress) :
    FailsOnly (Failure.MayName o.filePath) (p.hookStates source o progress).2 := by
  rw [Program.hookStates]
  have hreports (states : List StateVariable) :
      FailsOnly (Failure.MayName o.filePath) (states.mapM (·.report source)) :=
    .mapM fun v _ => report_mayName v
  split
  · next d hd => exact .error (stateVariables_mayName p o d hd)
  · exact .ok _
  · next states hne hstates =>
      dsimp only
      split
      · exact .error (chainFailure_mayName source o _)
      · exact .ok _
      · next f hf => exact .error (hreports states f hf)

end Script

/-- An edit that does not fit names no file. -/
lemma Patch.applyFrom_mayName (source : Text) (cursor : Nat) (es : List Edit) :
    FailsOnly (Failure.MayName file) (applyFrom source cursor es) := by
  induction es generalizing cursor with
  | nil =>
      rw [applyFrom]
      split
      · exact .ok _
      · exact .error trivial
  | cons e es ih =>
      rw [applyFrom]
      split_ifs
      · exact .error (.inl rfl)
      · split
        · exact .error trivial
        · exact (ih e.stop).bind fun _ _ => .pure _

/-- A script that is none is reported with its file. -/
lemma ofFile_names (source file : Text) :
    FailsOnly (Failure.Names file) (Script.Program.ofFile source file) := by
  rw [Script.Program.ofFile]
  split
  · exact .ok _
  · exact .error rfl

/-- A script that is not migrated fails with the file. -/
lemma migrateScript_names (source : Text) (o : Options) :
    FailsOnly (Failure.Names o.filePath) (migrateScript source o) := by
  refine (ofFile_names source o.filePath).bind fun p _ => ?_
  have hmigrate : FailsOnly (Failure.MayName o.filePath) (p.resolve.migrate source o) :=
    (Script.hookStates_mayName p.resolve source o {}).bind fun _ _ =>
      (Patch.applyFrom_mayName _ _ _).bind fun _ _ => .pure _
  intro f hf
  obtain ⟨f', hf', rfl⟩ := mapError_eq_error.mp hf
  exact (hmigrate f' hf').inFile

/-- A template fails with diagnostics that are placed in it, once their file is filled in. -/
lemma migrateTemplate_failsOnly (template : Text) (o : Options) :
    FailsOnly (fun d => ∃ d' : Diagnostic, d'.IsPlaced template ∧ d = d'.inFile o.filePath)
      (migrateTemplate template o) := by
  refine FailsOnly.bind ?_ fun nodes hnodes => FailsOnly.bind ?_ fun _ _ => .pure _
  · intro d hd
    obtain ⟨d', hd', rfl⟩ := mapError_eq_error.mp hd
    exact ⟨d', (Markup.parse_failsOnly template d' hd').toIsPlaced, rfl⟩
  · intro d hd
    obtain ⟨d', hd', rfl⟩ := mapError_eq_error.mp hd
    exact ⟨d', Markup.root_failsOnly_isPlaced (mapError_eq_ok.mp hnodes) d' hd', rfl⟩

/-- A template that is not migrated fails with the file. -/
lemma migrateTemplate_names (template : Text) (o : Options) :
    FailsOnly (fun d => d.file = o.filePath) (migrateTemplate template o) :=
  (migrateTemplate_failsOnly template o).mono fun _ ⟨d', hd', heq⟩ => by
    rw [heq]
    exact Diagnostic.MayName.file_inFile (.inl hd'.file)

/-- A script whose imports are not hoisted fails with the file. -/
lemma hoistImports_names (source file : Text) :
    FailsOnly (Failure.Names file) (hoistImports source file) := by
  rw [hoistImports]
  split_ifs
  · exact .ok _
  · refine (ofFile_names source file).bind fun p _ => ?_
    rw [Script.Program.hoistImports]
    split
    · exact .ok _
    · exact .error trivial

/-- What is written for the template of a component. -/
def SingleFile.Blocks.result (b : Blocks) (o : Options) : Except Failure Text :=
  match b.template with
  | some template =>
      if Text.isBlankText template then .ok emptyResult
      else (migrateTemplate template o).mapError Failure.diagnosed
  | none => .ok emptyResult

/-- A component is its template and its script. -/
lemma migrateComponent_eq (source : Text) (o : Options) :
    migrateComponent source o = ((SingleFile.Blocks.ofText source).result o >>= fun result =>
      hoistImports (((SingleFile.Blocks.ofText source).script.map (·.content)).getD []) o.filePath
        >>= fun parts => migrateScript
          (composeComponent parts.1 o.componentIdentifier parts.2 result) o) := by
  rw [migrateComponent, SingleFile.Blocks.result]
  dsimp only
  cases (SingleFile.Blocks.ofText source).template with
  | none => rfl
  | some template =>
      dsimp only
      split_ifs
      · rfl
      · rfl

/-- A component that is not migrated fails with the file. -/
lemma migrateComponent_names (source : Text) (o : Options) :
    FailsOnly (Failure.Names o.filePath) (migrateComponent source o) := by
  rw [migrateComponent_eq]
  refine FailsOnly.bind ?_ fun _ _ => (hoistImports_names _ _).bind fun _ _ =>
    migrateScript_names _ o
  rw [SingleFile.Blocks.result]
  split
  · split_ifs
    · exact .ok _
    · intro f hf
      obtain ⟨d, hd, rfl⟩ := mapError_eq_error.mp hf
      exact migrateTemplate_names _ o d hd
  · exact .ok _

/-- **Every diagnostic names the file**: whatever makes a component, a template or a script
fail, its diagnostic has the path of the options. -/
theorem migrate_names_file (source : Text) (o : Options) :
    (∀ d, migrateComponent source o = .error (.diagnosed d) → d.file = o.filePath) ∧
      (∀ d, migrateTemplate source o = .error d → d.file = o.filePath) ∧
        ∀ d, migrateScript source o = .error (.diagnosed d) → d.file = o.filePath :=
  ⟨fun _ h => migrateComponent_names source o _ h, fun _ h => migrateTemplate_names source o _ h,
    fun _ h => migrateScript_names source o _ h⟩

/-- Options with the path of a file. -/
def noteOptions : Options := { filePath := "note.vue" }

/-- An end tag that is never open, as a component, as a template and as a script. -/
def strayTag : Text := "<template></b></template>"

theorem migrate_names_file_strayTag :
    (∃ d, migrateComponent strayTag noteOptions = .error (.diagnosed d) ∧ d.file = "note.vue") ∧
      (∃ d, migrateTemplate strayTag noteOptions = .error d ∧ d.file = "note.vue") ∧
        ∃ d, migrateScript strayTag noteOptions = .error (.diagnosed d) ∧ d.file = "note.vue" := by
  obtain ⟨hcomponent, htemplate, hscript⟩ := migrate_names_file strayTag noteOptions
  have hunexpected : migrateComponent strayTag noteOptions = .error (.diagnosed
      ⟨.unexpectedEndTag "b", "note.vue", ⟨1, 1⟩, some "</b>", []⟩) := by decide +kernel
  have hmismatched : migrateTemplate strayTag noteOptions = .error
      ⟨.mismatchedEndTag "b" "template", "note.vue", ⟨1, 11⟩, some "</b></template>", []⟩ := by
    decide +kernel
  have hsyntax : migrateScript strayTag noteOptions
      = .error (.diagnosed (.bare .scriptSyntax "note.vue")) := by decide +kernel
  exact ⟨⟨_, hunexpected, hcomponent _ hunexpected⟩, ⟨_, hmismatched, htemplate _ hmismatched⟩,
    _, hsyntax, hscript _ hsyntax⟩

/-! ### Places -/

namespace SingleFile

/-- A component up to its first opening `template` tag, the tag, and the text behind it. -/
structure OpensAt (source outside tag rest : Text) : Prop where
  source_eq : source = outside ++ (tag ++ rest)
  isTag : templateTag? (tag ++ rest) = some (false, tag.length)

/-- The opening tag is not empty. -/
lemma OpensAt.tag_ne_nil {source outside tag rest : Text} (h : OpensAt source outside tag rest) :
    tag ≠ [] := by
  obtain ⟨-, a, r, -, -, hlength⟩ := templateTag?_eq_some_iff.mp h.isTag
  rw [← List.length_pos_iff]
  omega

/-- What is searched up to the opening tag ends with it. -/
lemma opensAt_of_untilOpened? {source outside rest : Text} {skip : Nat}
    (h : untilOpened? skip source = some (outside, rest)) :
    ∃ tag, OpensAt source outside tag rest := by
  induction source generalizing skip outside with
  | nil => cases h
  | cons c t ih =>
      -- A character with which no tag begins is one of the text in front.
      have hcons {skip : Nat} (h : (untilOpened? skip t).map (fun x => (c :: x.1, x.2))
          = some (outside, rest)) : ∃ tag, OpensAt (c :: t) outside tag rest := by
        obtain ⟨⟨outside', rest'⟩, h', heq⟩ := Option.map_eq_some_iff.mp h
        cases heq
        obtain ⟨tag, rfl, htag⟩ := ih h'
        exact ⟨tag, rfl, htag⟩
      cases skip with
      | succ skip => exact hcons h
      | zero =>
          rw [untilOpened?] at h
          split at h
          · next size htag =>
              cases h
              obtain ⟨-, a, r, ht, -, rfl⟩ := templateTag?_eq_some_iff.mp htag
              have hsplit : c :: t = (a ++ ['>']) ++ (c :: t).drop (a.length + 1) := by simp [ht]
              refine ⟨a ++ ['>'], hsplit, ?_⟩
              rw [← hsplit, htag, List.length_append, List.length_singleton]
          · exact hcons h
          · exact hcons h

/-- The template of a component stands behind its first opening tag. -/
lemma exists_opensAt {source template : Text}
    (h : (Blocks.ofText source).template = some template) :
    ∃ outside tag behind, OpensAt source outside tag (template ++ behind) := by
  rw [Blocks.ofText] at h
  split at h
  · next hcut =>
      cases h
      obtain ⟨⟨outside, rest⟩, hopened, h⟩ := Option.bind_eq_some_iff.mp hcut
      obtain ⟨⟨inside, behind⟩, hclosed, heq⟩ := Option.map_eq_some_iff.mp h
      cases heq
      obtain ⟨tag, htag⟩ := opensAt_of_untilOpened? hopened
      obtain ⟨a, ks, rfl, -⟩ := untilClosed?_eq_some_iff.mp hclosed
      exact ⟨outside, tag, _, htag⟩
  · cases h

end SingleFile

/-- The file makes no difference to the place. -/
lemma Diagnostic.inFile_location (d : Diagnostic) (file : Text) :
    (d.inFile file).location = d.location ∧ (d.inFile file).context = d.context := by
  rw [inFile]
  split_ifs <;> exact ⟨rfl, rfl⟩

/-- What a part of a text shows, the text shows where the part goes on. -/
lemma Text.showsAt_after {before part behind pre s post : Text} (h : part = pre ++ (s ++ post)) :
    (before ++ (part ++ behind)).ShowsAt ((Location.first.after before).after pre) s :=
  ⟨before ++ pre, post ++ behind, by simp [h], Location.after_append _ before pre⟩

/-- Behind some text, too short for its numbers to wrap around, the location in a part is the
same as in the part alone if and only if the part begins on the first line and the location is on
a later one. -/
lemma Location.after_eq_iff {before pre : Text} (hbefore : before ≠ [])
    (hlength : (before ++ pre).length < UInt32.size) :
    (first.after before).after pre = first.after pre ↔
      (first.after before).line = 1 ∧ (first.after pre).line ≠ 1 := by
  rw [List.length_append] at hlength
  have hcount := List.count_le_length (l := before) (a := '\n')
  have hcount' := List.count_le_length (l := pre) (a := '\n')
  have hpos := List.length_pos_iff.mpr hbefore
  have hfeeds := ofNat_eq_zero_iff (n := before.count '\n') (by omega)
  have hfeeds' := ofNat_eq_zero_iff (n := pre.count '\n') (by omega)
  have hlong := ofNat_eq_zero_iff (n := before.length) (by omega)
  have hone (n : UInt32) : 1 + n = 1 ↔ n = 0 := UInt32.add_eq_left
  rw [after_eq (first.after before) pre, after_eq first before, after_eq first pre]
  simp only [first, mk.injEq, UInt32.add_left_inj, hone, hfeeds, hfeeds', List.count_eq_zero, Ne]
  by_cases hpre : '\n' ∈ pre
  · simp [hpre]
  · by_cases hfeed : '\n' ∈ before
    · simp [hpre, hfeed]
    · simp only [if_neg hpre, if_neg hfeed, UInt32.add_left_inj, hone, hlong]
      simp [hpre, hbefore]

/-- **Diagnostics point into the template block.** What fails in the template block makes the
component fail, with a context that stands in the block at the location of the diagnostic. The
component shows it where the block goes on from its own beginning. In a component of fewer than
`2 ^ 32` bytes the two locations are the same if and only if the block begins on the first line
and the diagnostic is about a later one. -/
theorem migrateComponent_places {d : Diagnostic}
    (h : (SingleFile.Blocks.ofText source).result o = .error (.diagnosed d)) :
    migrateComponent source o = .error (.diagnosed d) ∧
      ∃ template outside tag behind context pre post,
        (SingleFile.Blocks.ofText source).template = some template ∧
        SingleFile.OpensAt source outside tag (template ++ behind) ∧
        d.context = some context ∧ template = pre ++ (context ++ post) ∧
        d.location = Location.first.after pre ∧
        source.ShowsAt ((Location.first.after (outside ++ tag)).after pre) context ∧
        (source.byteLength < UInt32.size →
          ((Location.first.after (outside ++ tag)).after pre = d.location ↔
            (Location.first.after (outside ++ tag)).line = 1 ∧ d.location.line ≠ 1)) := by
  refine ⟨by rw [migrateComponent_eq, h]; rfl, ?_⟩
  rw [SingleFile.Blocks.result] at h
  split at h
  · next template htemplate =>
      -- A component fails with a diagnostic only in its template.
      split_ifs at h
      obtain ⟨outside, tag, behind, hopens⟩ := SingleFile.exists_opensAt htemplate
      obtain ⟨_, hd, heq⟩ := mapError_eq_error.mp h
      cases heq
      obtain ⟨d', hplaced, rfl⟩ := migrateTemplate_failsOnly template o d hd
      obtain ⟨context, hcontext, pre, post, hsplit, hl⟩ := hplaced.context
      rw [(d'.inFile_location o.filePath).1, (d'.inFile_location o.filePath).2, ← hl]
      have hsource : source = (outside ++ tag) ++ (template ++ behind) := by
        rw [hopens.source_eq, List.append_assoc]
      refine ⟨template, outside, tag, behind, context, pre, post, htemplate, hopens, hcontext,
        hsplit, rfl, hsource ▸ Text.showsAt_after hsplit, fun hsize => ?_⟩
      -- The place in the component is the one in the template, counted on from behind the tag.
      refine Location.after_eq_iff (by simp [hopens.tag_ne_nil]) ?_
      have hlength := Location.length_le_byteLength source
      rw [hsource, hsplit] at hlength
      simp only [List.length_append] at hlength ⊢
      rw [hsource, hsplit] at hsize
      omega
  · cases h

/-- A loop over an object in a component of one line. -/
def objectLoop : Text := "<template><li v-for=\"(v, k, i) in obj\" /></template>"

/-- The diagnostic of the loop: its column is counted from the start of the block. -/
def objectLoopDiagnostic : Diagnostic :=
  ⟨.objectIteration, [], ⟨1, 5⟩, some "v-for=\"(v, k, i) in obj\"", [Lowering.objectHint]⟩

theorem migrateComponent_places_objectLoop :
    (SingleFile.Blocks.ofText objectLoop).result {} = .error (.diagnosed objectLoopDiagnostic) ∧
      migrateComponent objectLoop {} = .error (.diagnosed objectLoopDiagnostic) ∧
      ∃ template outside tag behind context pre post,
        (SingleFile.Blocks.ofText objectLoop).template = some template ∧
        SingleFile.OpensAt objectLoop outside tag (template ++ behind) ∧
        some "v-for=\"(v, k, i) in obj\"".toList = some context ∧
        template = pre ++ (context ++ post) ∧ ⟨1, 5⟩ = Location.first.after pre ∧
        objectLoop.ShowsAt ((Location.first.after (outside ++ tag)).after pre) context ∧
        ((Location.first.after (outside ++ tag)).after pre = ⟨1, 5⟩ ↔
          (Location.first.after (outside ++ tag)).line = 1 ∧ (1 : UInt32) ≠ 1) := by
  have hresult : (SingleFile.Blocks.ofText objectLoop).result {}
      = .error (.diagnosed objectLoopDiagnostic) := by decide +kernel
  obtain ⟨hfails, template, outside, tag, behind, context, pre, post, htemplate, hopens, hcontext,
    hsplit, hl, hshows, hiff⟩ := migrateComponent_places hresult
  exact ⟨hresult, hfails, template, outside, tag, behind, context, pre, post, htemplate, hopens,
    hcontext, hsplit, hl, hshows, hiff (by decide +kernel)⟩

/-- The component itself does not show the context of the diagnostic at its location. -/
theorem not_migrateComponent_showsAt :
    ¬ ∀ source o d context, migrateComponent source o = .error (.diagnosed d) →
      (SingleFile.Blocks.ofText source).result o = .error (.diagnosed d) →
        d.context = some context → source.ShowsAt d.location context := by
  intro h
  have hshows := h objectLoop {} objectLoopDiagnostic _ (by decide +kernel) (by decide +kernel) rfl
  revert hshows
  decide +kernel

end ComponentMigration
