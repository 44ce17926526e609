import ComponentMigration.Proofs.Script.Hoisting
import ComponentMigration.Proofs.Script.Rewriting
import ComponentMigration.Proofs.Splicing

/-!
A script taken apart into its imports and the rest.

* **Statements in line.** The statements of a program that `IsInLine` fit the source, and each
  ends before the next begins. Those of a script do (`Program.isInLine_of_parse?`), and so its
  imports are in line (`Program.IsInLine.deletions`).
* **Cuts.** With spans in line nothing is lost between two cuts (`cutSpans?_eq`): there is a gap
  in front of each span and one behind the last.
* **Main statement.** `Program.hoistImports_weaves`: for a program in line the source is the gaps
  woven with the imports; the imports are returned on lines of their own, the gaps one behind the
  other. For scripts that is `hoistImports_partitions`.
-/

namespace ComponentMigration

open Text

variable {source : Text} {a : Nat}

namespace Script

/-! ### Statements in line -/

/-- The statements of a script stand in its source one behind the other. -/
structure Program.IsInLine (source : Text) (p : Program) : Prop where
  fits : ∀ t ∈ p.body, t.span.Fits source
  inOrder : p.body.Pairwise fun t u => t.span.Precedes u.span

variable {p : Program} {qs : List Piece} {ts : List Tree} {ss : List Span}

/-- Pieces that are placed behind a text stand there one behind the other. -/
lemma isInLine_place (h : ∀ q ∈ qs, q.Fits) (a : Text) :
    (∀ t ∈ place (byteLength a) qs, byteLength a ≤ t.span.start) ∧
      Program.IsInLine (a ++ whole qs) ⟨place (byteLength a) qs⟩ := by
  induction qs generalizing a with
  | nil => exact ⟨nofun, nofun, .nil⟩
  | cons q qs ih =>
      obtain ⟨⟨hspan, -⟩, hqs⟩ := List.forall_mem_cons.mp h
      obtain ⟨hbehind, hfits, horder⟩ := ih hqs (a ++ (q.text ++ q.gap))
      have hplaced : (q.tree.shift (byteLength a)).span
          = ⟨byteLength a, byteLength a + byteLength q.text⟩ := by
        rw [Tree.span_shift, hspan, Nat.add_zero]
      have hsource : a ++ whole (q :: qs) = a ++ (q.text ++ q.gap) ++ whole qs := by
        rw [whole_cons, List.append_assoc, List.append_assoc]
      have hspanFits : (q.tree.shift (byteLength a)).span.Fits (a ++ whole (q :: qs)) := by
        rw [hplaced, whole_cons]
        refine ⟨Nat.le_add_right _ _, isBoundary_iff.mpr ⟨a, _, rfl, rfl⟩,
          isBoundary_iff.mpr ⟨a ++ q.text, _, (List.append_assoc _ _ _).symm, ?_⟩⟩
        exact byteLength_append a q.text
      rw [byteLength_append, byteLength_append] at hbehind hfits horder
      rw [place_cons, byteLength_append]
      refine ⟨List.forall_mem_cons.mpr ⟨?_, fun t ht => ?_⟩,
        List.forall_mem_cons.mpr ⟨hspanFits, hsource ▸ hfits⟩,
        List.pairwise_cons.mpr ⟨fun t ht => ?_, horder⟩⟩
      · rw [hplaced]
      · exact Nat.le_trans (Nat.le_add_right _ _) (hbehind t ht)
      · have hle := hbehind t ht
        rw [hplaced, Span.Precedes]
        dsimp only
        omega

/-- The statements that are read from a script stand in it one behind the other. -/
lemma Program.isInLine_of_parse? (hp : parse? source = some p) : p.IsInLine source := by
  obtain ⟨pre, qs, hrow⟩ := exists_row hp
  obtain ⟨-, hfits, horder⟩ := isInLine_place hrow.row.fits pre
  rw [hrow.text]
  exact ⟨hrow.body ▸ hfits, hrow.body ▸ horder⟩

/-- The imports among some trees have spans of these trees, in order. -/
lemma importSpans_sublist (ts : List Tree) : (importSpans ts).Sublist (ts.map Tree.span) := by
  induction ts with
  | nil => exact .slnil
  | cons t ts ih =>
      cases ht : ImportDeclaration.ofTree? t with
      | none =>
          rw [importSpans, List.filterMap_cons_none ht, List.map_cons]
          exact ih.cons _
      | some d =>
          rw [importSpans, List.filterMap_cons_some ht, List.map_cons, List.map_cons,
            span_of_ofTree? ht]
          exact ih.cons_cons _

/-- The imports of a script, as edits that leave nothing in their place. -/
def Program.deletions (p : Program) : List Edit := p.imports.map (·.span.edit [])

lemma Program.deletions_eq (p : Program) :
    p.deletions = (importSpans p.body).map (·.edit []) := by
  rw [deletions, importSpans, List.map_map]
  rfl

/-- Spans of the source that stand one behind the other are in line. -/
lemma inLine_map_edit (ha : source.IsBoundary a) (hle : ∀ s ∈ ss, a ≤ s.start)
    (hfits : ∀ s ∈ ss, s.Fits source) (horder : ss.Pairwise Span.Precedes) :
    InLine source a (ss.map (·.edit [])) := by
  induction ss generalizing a with
  | nil => exact .nil ha
  | cons s ss ih =>
      obtain ⟨hhead, htail⟩ := List.pairwise_cons.mp horder
      obtain ⟨hs, hss⟩ := List.forall_mem_cons.mp hfits
      exact .cons ha (hle s List.mem_cons_self) (hs.edit []) (ih hs.stop hhead hss htail)

lemma Program.IsInLine.fits_of_mem {s : Span} (h : p.IsInLine source)
    (hs : s ∈ importSpans p.body) : s.Fits source := by
  obtain ⟨t, ht, rfl⟩ := List.mem_map.mp ((importSpans_sublist p.body).subset hs)
  exact h.fits t ht

/-- Where the statements are in line, the imports among them are. -/
lemma Program.IsInLine.deletions (h : p.IsInLine source) : InLine source 0 p.deletions := by
  have horder := (List.pairwise_map.mpr h.inOrder).sublist (importSpans_sublist p.body)
  rw [deletions_eq]
  exact inLine_map_edit (isBoundary_zero source) (fun _ _ => Nat.zero_le _)
    (fun _ => h.fits_of_mem) horder

/-! ### Cuts -/

/-- Spans in line are cut out with the gaps around them. -/
lemma cutSpans?_eq (h : InLine source a (ss.map (·.edit []))) :
    cutSpans? source a ss = some (ss.map fun s => source.cut s.start s.stop,
      gaps source a (ss.map (·.edit []))) := by
  induction ss generalizing a with
  | nil =>
      cases h with
      | nil ha =>
          rw [cutSpans?, dropBytes?_eq_cut ha]
          rfl
  | cons s ss ih =>
      cases h with
      | cons ha hle hs hss =>
          have hgap : source.slice? a s.start = some (source.cut a s.start) :=
            slice?_eq_cut ha hs.start hle
          have hspan : source.slice? s.start s.stop = some (source.cut s.start s.stop) :=
            slice?_eq_cut hs.start hs.stop hs.le
          have hbehind : cutSpans? source s.stop ss = _ := ih hss
          rw [cutSpans?, hgap, hspan, hbehind]
          rfl

/-- The texts of the imports of a script. -/
def Program.importTexts (p : Program) (source : Text) : List Text :=
  p.imports.map fun d => source.cut d.span.start d.span.stop

/-- What is returned of any program with its imports in line. -/
lemma Program.hoistImports_eq (h : InLine source 0 p.deletions) :
    p.hoistImports source
      = .ok (join ['\n'] (p.importTexts source), (gaps source 0 p.deletions).flatten) := by
  have hspans : p.deletions = (p.imports.map (·.span)).map (·.edit []) := by
    rw [deletions, List.map_map]
    rfl
  rw [hspans] at h ⊢
  rw [hoistImports, cutSpans?_eq h, List.map_map]
  rfl

/-- The source is the gaps with the imports between them. -/
lemma Program.eq_weave (h : InLine source 0 p.deletions) :
    source = weave (gaps source 0 p.deletions) (p.importTexts source) := by
  have hcut := cut_eq_weave h
  rw [cut_all, deletions, List.map_map] at hcut
  exact hcut

/-- **Hoisting takes a program apart** without loss if its statements stand in the source one behind
the other, whatever they were read by: with the gaps around them the imports are the source; alone
they are returned on lines of their own, and the gaps are returned as the rest. -/
theorem Program.hoistImports_weaves (h : p.IsInLine source) :
    ∃ found kept : List Text,
      p.hoistImports source = .ok (join ['\n'] found, kept.flatten) ∧
        List.Forall₂ (fun d t => source.slice? d.span.start d.span.stop = some t) p.imports found ∧
          kept.length = found.length + 1 ∧ source = weave kept found ∧
            InLine source 0 p.deletions ∧ kept.flatten = source.outside p.deletions := by
  have hline := h.deletions
  refine ⟨p.importTexts source, gaps source 0 p.deletions, hoistImports_eq hline, ?_, ?_,
    eq_weave hline, hline, ?_⟩
  · refine List.forall₂_map_right_iff.mpr (List.forall₂_same.mpr fun d hd => ?_)
    have hfits := h.fits_of_mem (List.mem_map_of_mem hd)
    exact slice?_eq_cut hfits.start hfits.stop hfits.le
  · rw [length_gaps, deletions, importTexts, List.length_map, List.length_map]
  · rw [flatten_gaps hline, cut_all, outside]

end Script

/-! ### The main statement -/

variable {p : Script.Program}

/-- **Hoisting takes a script apart** without loss. The imports stand in the source one behind
the other. With the gaps around them they are the source, text for text; alone they are returned
on lines of their own, and the gaps are returned as the rest: what stands outside all imports,
once and in order. -/
theorem hoistImports_partitions (hblank : isBlankText source = false)
    (hp : Script.Program.parse? source = some p) (file : Text) :
    ∃ found kept : List Text,
      hoistImports source file = .ok (join ['\n'] found, kept.flatten) ∧
        List.Forall₂ (fun d t => source.slice? d.span.start d.span.stop = some t) p.imports found ∧
          kept.length = found.length + 1 ∧ source = weave kept found ∧
            InLine source 0 p.deletions ∧ kept.flatten = source.outside p.deletions := by
  rw [hoistImports, hblank, Script.Program.ofFile, hp]
  exact Script.Program.hoistImports_weaves (Script.Program.isInLine_of_parse? hp)

/-- A script with imports at both ends, side by side, and between other statements. -/
def crowded : Text :=
  "import a from \"a\";import \"b\"\n// é\nconst c = a()\nimport d from \"d\"; // d\nd(c)\nimport \"e\""

theorem hoistImports_partitions_crowded :
    isBlankText crowded = false ∧ ∃ p ∈ Script.Program.parse? crowded, p.imports.length = 4 ∧
      hoistImports crowded "app.vue" = .ok
        ("import a from \"a\";\nimport \"b\"\nimport d from \"d\";\nimport \"e\"",
          "\n// é\nconst c = a()\n // d\nd(c)\n") ∧
        ∃ found kept : List Text,
          hoistImports crowded "app.vue" = .ok (join ['\n'] found, kept.flatten) ∧
            List.Forall₂ (fun d t => crowded.slice? d.span.start d.span.stop = some t)
              p.imports found ∧
              kept.length = found.length + 1 ∧ crowded = weave kept found ∧
                InLine crowded 0 p.deletions ∧ kept.flatten = crowded.outside p.deletions := by
  have hblank : isBlankText crowded = false := by decide
  obtain ⟨p, hp, hlength, hhoist⟩ : ∃ p ∈ Script.Program.parse? crowded, p.imports.length = 4 ∧
      p.hoistImports crowded = .ok
        ("import a from \"a\";\nimport \"b\"\nimport d from \"d\";\nimport \"e\"",
          "\n// é\nconst c = a()\n // d\nd(c)\n") := by
    decide +kernel
  refine ⟨hblank, p, hp, hlength, ?_, hoistImports_partitions hblank hp "app.vue"⟩
  rw [hoistImports, hblank, Script.Program.ofFile, hp]
  exact hhoist

end ComponentMigration
