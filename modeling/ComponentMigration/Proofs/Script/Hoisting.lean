import ComponentMigration.Component
import ComponentMigration.Proofs.Script.Adding
import ComponentMigration.Proofs.Script.Pieces

/-!
Imports that are hoisted out of a script.

* **What is returned.** `hoistImports_eq`: the body that is returned is what is left of the pieces
  of the script, with all gaps.
* **Statements that are kept.** `Program.KeepsOthers`: the body is a script, of the other statements
  in order, each with its text and its tree. A tree has moved by the bytes that were cut out in
  front of it.
* **Statements that stand alone.** `Program.OthersAlone`: each other statement is read in front of
  what is left behind it. With no import behind another statement that is so:
  `Row.alone_of_importsFirst`.
* **Main statement.** `hoistImports_keeps`: the other statements are kept if and only if they stand
  alone. Where an import was what ended a statement they do not: `not_hoistImports_keeps`.
-/

namespace ComponentMigration

open Text Script.Parser

namespace Script

variable {source pre rest a g w : Text} {p p' : Program} {q : Piece} {qs ps : List Piece}
  {t t' : Tree} {ts ts' : List Tree} {k : Nat}

/-! ### The imports among the trees -/

/-- The spans of the imports among some trees. -/
def importSpans (ts : List Tree) : List Span :=
  (ts.filterMap ImportDeclaration.ofTree?).map (·.span)

/-- The imports of trees in a row are those of the one and of the other part. -/
lemma importSpans_append (ts ts' : List Tree) :
    importSpans (ts ++ ts') = importSpans ts ++ importSpans ts' := by
  rw [importSpans, List.filterMap_append, List.map_append]
  rfl

/-- Whether a statement is an import does not depend on its place. -/
lemma isNone_ofTree?_shift (k : Nat) (q : Piece) :
    (ImportDeclaration.ofTree? (q.tree.shift k)).isNone = !q.isImport := by
  rw [ImportDeclaration.ofTree?_shift, Option.isNone_map, Piece.isImport, Option.not_isSome]

/-- A statement that is no import adds no span. -/
lemma importSpans_cons_other (hq : q.isImport = false) :
    importSpans (q.tree.shift k :: ts) = importSpans ts := by
  have hnone : ImportDeclaration.ofTree? (q.tree.shift k) = none := by
    rw [← Option.isNone_iff_eq_none, isNone_ofTree?_shift, hq]
    rfl
  rw [importSpans, List.filterMap_cons_none hnone]
  rfl

/-- The span of an import is that of its tree. -/
lemma span_of_ofTree? {d : ImportDeclaration} (h : ImportDeclaration.ofTree? t = some d) :
    d.span = t.span := by
  revert h
  fun_cases ImportDeclaration.ofTree? t with
  | case1 => rintro ⟨⟩; rfl
  | case2 => nofun

/-- An import adds its span. -/
lemma importSpans_cons_import (hq : q.isImport = true) :
    importSpans (q.tree.shift k :: ts)
      = ⟨k + q.tree.span.start, k + q.tree.span.stop⟩ :: importSpans ts := by
  obtain ⟨d, hd⟩ := Option.isSome_iff_exists.mp hq
  have hsome : ImportDeclaration.ofTree? (q.tree.shift k) = some (d.shift k) := by
    rw [ImportDeclaration.ofTree?_shift, hd]
    rfl
  rw [importSpans, List.filterMap_cons_some hsome, List.map_cons, span_of_ofTree? hsome,
    Tree.span_shift]
  rfl

/-! ### What is returned -/

/-- Between the imports of a row there is what is left of it. -/
lemma Row.cutSpans?_eq (h : Row qs) (a g : Text) : ∃ found gaps,
    cutSpans? (a ++ (g ++ whole qs)) (byteLength a)
      (importSpans (place (byteLength a + byteLength g) qs)) = some (found, gaps) ∧
        gaps.flatten = g ++ left qs := by
  induction h generalizing a g with
  | nil =>
      refine ⟨[], [g], ?_, rfl⟩
      have hdrop := dropBytes?_append a g
      rw [whole_nil, List.append_nil, place]
      simp only [importSpans, List.filterMap_nil, List.map_nil, cutSpans?, hdrop, Option.map_some]
  | @cons q qs hq hqs ih =>
      cases himport : q.isImport with
      | false =>
          -- A statement that is no import becomes part of the gap in front of the next import.
          obtain ⟨found, gaps, hcut, hgaps⟩ := ih a (g ++ (q.text ++ q.gap))
          refine ⟨found, gaps, ?_, ?_⟩
          · rw [place, importSpans_cons_other himport, whole_cons]
            simpa only [byteLength_append, List.append_assoc, Nat.add_assoc] using hcut
          · rw [hgaps, left_cons_other himport]
            simp only [List.append_assoc]
      | true =>
          obtain ⟨found, gaps, hcut, hgaps⟩ := ih (a ++ g ++ q.text) q.gap
          -- An import ends the gap, and the next one begins behind it.
          have hgap := slice?_append a g (q.text ++ (q.gap ++ whole qs))
          have htext := slice?_append (a ++ g) q.text (q.gap ++ whole qs)
          refine ⟨q.text :: found, g :: gaps, ?_, ?_⟩
          · rw [place, importSpans_cons_import himport, hq.span, whole_cons, cutSpans?]
            simp only [byteLength_append, List.append_assoc, Nat.add_assoc, Nat.add_zero] at *
            rw [hgap, htext, hcut]
            rfl
          · rw [List.flatten_cons, hgaps, left_cons_import himport]

namespace Program

/-- The body that is returned is what is left of the pieces. -/
lemma IsRow.hoistImports_eq (h : p.IsRow source pre qs) :
    ∃ imports, p.hoistImports source = .ok (imports, pre ++ left qs) := by
  obtain ⟨found, gaps, hcut, hgaps⟩ := h.row.cutSpans?_eq [] pre
  have hspans : p.imports.map (·.span) = importSpans (place (byteLength pre) qs) := by
    rw [← h.body]
    rfl
  rw [List.nil_append, byteLength_nil, Nat.zero_add, ← hspans, ← h.text] at hcut
  exact ⟨_, by rw [hoistImports, hcut, ← hgaps]⟩

/-! ### Statements that are kept -/

/-- The statements that are no imports. -/
def others (p : Program) : List Tree := p.body.filter fun t => (ImportDeclaration.ofTree? t).isNone

/-- The bytes of the imports that end before an offset. -/
def bytesCut (p : Program) (offset : Nat) : Nat :=
  (((p.imports.map (·.span)).filter (·.stop ≤ offset)).map fun s => s.stop - s.start).sum

/-- A statement is found again in the body, with its text and its tree. -/
structure IsKept (p : Program) (source rest : Text) (t t' : Tree) : Prop where
  text : ∃ w, source.slice? t.span.start t.span.stop = some w ∧
    rest.slice? t'.span.start t'.span.stop = some w
  tree : t = t'.shift (p.bytesCut t.span.start)

/-- A text is a script of the statements that are no imports. -/
def KeepsOthers (p : Program) (source rest : Text) : Prop :=
  ∃ p', parse? rest = some p' ∧ List.Forall₂ (p.IsKept source rest) p.others p'.body

end Program

/-- What is left of a text from an offset on, without the imports among some trees. -/
def leftBehind? (source : Text) (offset : Nat) (ts : List Tree) : Option Text :=
  (cutSpans? source offset (importSpans ts)).map (·.2.flatten)

/-- A statement is read in front of what is left behind it. -/
def StandsAlone (source : Text) (t : Tree) (behind : List Tree) : Prop :=
  (do
    let w ← source.slice? t.span.start t.span.stop
    let l ← leftBehind? source t.span.stop behind
    let (x, _) ← Program.statement? (w ++ l)
    return x.shift t.span.start) = some t

instance (source : Text) (t : Tree) (behind : List Tree) :
    Decidable (StandsAlone source t behind) :=
  inferInstanceAs (Decidable (_ = some t))

/-- Each statement of some that is no import stands alone. -/
def AllAlone (source : Text) (ts : List Tree) : Prop :=
  ∀ t behind, t :: behind <:+ ts → ImportDeclaration.ofTree? t = none → StandsAlone source t behind

/-- Each statement of a script that is no import stands alone. -/
def Program.OthersAlone (p : Program) (source : Text) : Prop := AllAlone source p.body

/-! ### What was cut out -/

/-- The imports lie behind the place from where the pieces stand, and are not empty. -/
lemma importSpans_place_bounds (h : ∀ q ∈ qs, q.Fits) (k : Nat) :
    ∀ s ∈ importSpans (place k qs), k < s.stop ∧ s.stop ≤ k + byteLength (whole qs) := by
  induction qs generalizing k with
  | nil => nofun
  | cons q qs ih =>
      obtain ⟨⟨hspan, hne⟩, hqs⟩ := List.forall_mem_cons.mp h
      have hpos : 0 < byteLength q.text :=
        Nat.pos_of_ne_zero fun h => hne (byteLength_eq_zero_iff.mp h)
      have hbehind : ∀ s ∈ importSpans (place (k + byteLength (q.text ++ q.gap)) qs),
          k < s.stop ∧ s.stop ≤ k + byteLength (whole (q :: qs)) := by
        intro s hs
        have hbounds := ih hqs _ s hs
        simp only [whole_cons, byteLength_append] at hbounds ⊢
        omega
      rw [place]
      cases himport : q.isImport with
      | false =>
          rw [importSpans_cons_other himport]
          exact hbehind
      | true =>
          rw [importSpans_cons_import himport, hspan, List.forall_mem_cons]
          refine ⟨?_, hbehind⟩
          simp only [whole_cons, byteLength_append]
          omega

/-- The imports and what is left make up the whole. -/
lemma sum_importSpans_place (h : ∀ q ∈ qs, q.Fits) (k : Nat) :
    ((importSpans (place k qs)).map fun s => s.stop - s.start).sum + byteLength (left qs)
      = byteLength (whole qs) := by
  induction qs generalizing k with
  | nil => rfl
  | cons q qs ih =>
      obtain ⟨⟨hspan, -⟩, hqs⟩ := List.forall_mem_cons.mp h
      have hsum := ih hqs (k + byteLength (q.text ++ q.gap))
      rw [place]
      cases himport : q.isImport with
      | false =>
          rw [importSpans_cons_other himport, left_cons_other himport, whole_cons]
          simp only [byteLength_append] at hsum ⊢
          omega
      | true =>
          rw [importSpans_cons_import himport, left_cons_import himport, whole_cons, hspan,
            List.map_cons, List.sum_cons]
          simp only [byteLength_append] at hsum ⊢
          omega

namespace Program

/-- In front of a piece there is cut out what is not left of the pieces in front of it. -/
lemma IsRow.bytesCut_eq (h : p.IsRow source pre (ps ++ qs)) :
    p.bytesCut (byteLength pre + byteLength (whole ps)) + byteLength (left ps)
      = byteLength (whole ps) := by
  have hspans : p.imports.map (·.span) = importSpans (place (byteLength pre) ps)
      ++ importSpans (place (byteLength pre + byteLength (whole ps)) qs) := by
    rw [← importSpans_append, ← place_append, ← h.body]
    rfl
  obtain ⟨hps, hqs⟩ := List.forall_mem_append.mp h.row.fits
  have hfront : (importSpans (place (byteLength pre) ps)).filter
      (·.stop ≤ byteLength pre + byteLength (whole ps)) = importSpans (place (byteLength pre) ps) :=
    List.filter_eq_self.mpr fun s hs =>
      decide_eq_true (importSpans_place_bounds hps (byteLength pre) s hs).2
  have hbehind : (importSpans (place (byteLength pre + byteLength (whole ps)) qs)).filter
      (·.stop ≤ byteLength pre + byteLength (whole ps)) = [] :=
    List.filter_eq_nil_iff.mpr fun s hs => by
      have hlt := (importSpans_place_bounds hqs _ s hs).1
      rw [decide_eq_true_iff]
      omega
  rw [bytesCut, hspans, List.filter_append, hfront, hbehind, List.append_nil]
  exact sum_importSpans_place hps _

/-! ### What is kept -/

/-- A statement is kept where its text was left. -/
lemma IsRow.isKept_iff (h : p.IsRow source pre (ps ++ q :: qs)) (hq : q.isImport = false) :
    p.IsKept source (pre ++ left (ps ++ q :: qs))
        (q.tree.shift (byteLength pre + byteLength (whole ps))) t'
      ↔ t' = q.tree.shift (byteLength pre + byteLength (left ps)) := by
  have hcut := h.bytesCut_eq
  have hspan := (h.row.fits q (by simp)).1
  -- The bytes that were cut out are the difference between the two places.
  have hmoved : q.tree.shift (byteLength pre + byteLength (whole ps))
      = (q.tree.shift (byteLength pre + byteLength (left ps))).shift
        (p.bytesCut (byteLength pre + byteLength (whole ps))) := by
    rw [Tree.shift_shift]
    congr 1
    omega
  have hstart : (q.tree.shift (byteLength pre + byteLength (whole ps))).span
      = ⟨byteLength pre + byteLength (whole ps),
        byteLength pre + byteLength (whole ps) + byteLength q.text⟩ := by
    rw [Tree.span_shift, hspan, Nat.add_zero]
  constructor
  · rintro ⟨-, htree⟩
    rw [hstart, hmoved] at htree
    exact (Tree.shift_inj htree).symm
  · rintro rfl
    refine ⟨⟨q.text, ?_, ?_⟩, ?_⟩
    -- The text of the statement is the same at its place in the script and in what is left.
    · have hslice := slice?_append (pre ++ whole ps) q.text (q.gap ++ whole qs)
      rw [hstart, h.text, whole_append, whole_cons]
      simpa only [byteLength_append, List.append_assoc] using hslice
    · have hslice := slice?_append (pre ++ left ps) q.text (q.gap ++ left qs)
      rw [Tree.span_shift, hspan, Nat.add_zero, left_append, left_cons_other hq]
      simpa only [byteLength_append, List.append_assoc] using hslice
    · rw [hstart]
      exact hmoved

/-- The statements are kept where the other pieces were left. -/
lemma IsRow.forall₂_isKept_iff (h : p.IsRow source pre (ps ++ qs)) :
    List.Forall₂ (p.IsKept source (pre ++ left (ps ++ qs)))
        ((place (byteLength pre + byteLength (whole ps)) qs).filter
          fun t => (ImportDeclaration.ofTree? t).isNone) ts'
      ↔ ts' = placeLeft (byteLength pre + byteLength (left ps)) qs := by
  induction qs generalizing ps ts' with
  | nil => exact List.forall₂_nil_left_iff
  | cons q qs ih =>
      have hbehind := fun ts' => @ih (ps ++ [q]) ts'
      -- The induction moves each piece from the list to what stands in front of it.
      have hwhole : byteLength (whole (ps ++ [q]))
          = byteLength (whole ps) + byteLength (q.text ++ q.gap) := by
        rw [whole_append, byteLength_append, whole_cons, whole_nil, List.append_nil]
      have hleft : byteLength (left (ps ++ [q]))
          = byteLength (left ps) + byteLength (left [q]) := by
        rw [left_append, byteLength_append]
      rw [← List.append_cons, hwhole, hleft, ← Nat.add_assoc, ← Nat.add_assoc] at hbehind
      rw [place_cons, placeLeft, List.filter_cons, isNone_ofTree?_shift]
      cases himport : q.isImport with
      | true =>
          rw [left_cons_import himport, left_nil, List.append_nil] at hbehind
          rw [if_neg (by simp), if_pos rfl]
          exact hbehind _ h
      | false =>
          rw [left_cons_other himport, left_nil, List.append_nil] at hbehind
          rw [Bool.not_false, if_pos rfl, if_neg (by simp), List.forall₂_cons_left_iff]
          constructor
          · rintro ⟨t', ts', hkept, hall, rfl⟩
            rw [(h.isKept_iff himport).mp hkept, (hbehind _ h).mp hall]
          · rintro rfl
            exact ⟨_, _, (h.isKept_iff himport).mpr rfl, (hbehind _ h).mpr rfl, rfl⟩

/-- The other statements are kept if the other pieces stand alone, and only then. -/
lemma IsRow.keepsOthers_iff (h : p.IsRow source pre qs) (hp : parse? source = some p) :
    p.KeepsOthers source (pre ++ left qs) ↔ Alone qs := by
  have hrow : p.IsRow source pre ([] ++ qs) := h
  have hkept : ∀ ts', List.Forall₂ (p.IsKept source (pre ++ left qs))
      ((place (byteLength pre) qs).filter fun t => (ImportDeclaration.ofTree? t).isNone) ts'
        ↔ ts' = placeLeft (byteLength pre) qs :=
    fun _ => hrow.forall₂_isKept_iff
  rw [← h.parse?_left_iff hp, KeepsOthers, others, h.body]
  constructor
  · rintro ⟨p', hp', hall⟩
    rw [hp', ← (hkept _).mp hall]
  · intro hparse
    exact ⟨_, hparse, (hkept _).mpr rfl⟩

end Program

/-! ### What stands alone -/

/-- A piece stands alone if it is read in front of what is left behind it. -/
lemma Row.standsAlone_iff (h : Row (q :: qs)) (a : Text) :
    StandsAlone (a ++ whole (q :: qs)) (q.tree.shift (byteLength a))
        (place (byteLength a + byteLength (q.text ++ q.gap)) qs)
      ↔ ∃ v, Program.statement? (q.text ++ (q.gap ++ left qs)) = some (q.tree, v) := by
  cases h with
  | cons hq hqs =>
      have hslice := slice?_append a q.text (q.gap ++ whole qs)
      obtain ⟨found, gaps, hcut, hgaps⟩ := hqs.cutSpans?_eq (a ++ q.text) q.gap
      have hspan : (q.tree.shift (byteLength a)).span
          = ⟨byteLength a, byteLength a + byteLength q.text⟩ := by
        rw [Tree.span_shift, hq.span, Nat.add_zero]
      simp only [byteLength_append, List.append_assoc, Nat.add_assoc] at hslice hcut
      rw [StandsAlone, hspan, whole_cons, leftBehind?, byteLength_append, hslice, hcut,
        Option.map_some, hgaps]
      simp only [bind, Option.bind_some, pure, Option.bind_eq_some_iff, Option.some.injEq]
      constructor
      · rintro ⟨⟨x, v⟩, hx, htree⟩
        exact ⟨v, Tree.shift_inj htree ▸ hx⟩
      · rintro ⟨v, hv⟩
        exact ⟨_, hv, rfl⟩

/-- All stand alone if the first one and the others do. -/
lemma allAlone_cons_iff : AllAlone source (t :: ts) ↔
    (ImportDeclaration.ofTree? t = none → StandsAlone source t ts) ∧ AllAlone source ts := by
  constructor
  · intro h
    exact ⟨h t ts List.suffix_rfl, fun t' behind hsuffix =>
      h t' behind (hsuffix.trans (List.suffix_cons t ts))⟩
  · rintro ⟨hhead, htail⟩ t' behind hsuffix
    rcases List.suffix_cons_iff.mp hsuffix with heq | hsuffix
    · obtain ⟨rfl, rfl⟩ := List.cons.inj heq
      exact hhead
    · exact htail t' behind hsuffix

instance decidableAllAlone (source : Text) : (ts : List Tree) → Decidable (AllAlone source ts)
  | [] => .isTrue fun _ _ h => nomatch List.suffix_nil.mp h
  | _ :: ts =>
      have := decidableAllAlone source ts
      decidable_of_iff' _ allAlone_cons_iff

instance (p : Program) (source : Text) : Decidable (p.OthersAlone source) :=
  decidableAllAlone source p.body

/-- The statements of a row stand alone if its pieces do. -/
lemma Row.allAlone_iff (h : Row qs) (a : Text) :
    AllAlone (a ++ whole qs) (place (byteLength a) qs) ↔ Alone qs := by
  induction h generalizing a with
  | nil => exact iff_of_true (fun _ _ h => nomatch List.suffix_nil.mp h) trivial
  | @cons q qs hq hqs ih =>
      have hbehind := ih (a ++ (q.text ++ q.gap))
      rw [byteLength_append a] at hbehind
      rw [place_cons, allAlone_cons_iff, (Row.cons hq hqs).standsAlone_iff, Alone,
        ← Option.isNone_iff_eq_none, isNone_ofTree?_shift, Bool.not_eq_true', ← hbehind, whole_cons]
      simp only [List.append_assoc]

/-- With no import behind another statement the pieces stand alone. -/
lemma Row.alone_of_importsFirst (h : Row qs) (k : Nat)
    (hfirst : Program.ImportsFirst ⟨place k qs⟩) : Alone qs := by
  induction h generalizing k with
  | nil => trivial
  | @cons q qs hq hqs ih =>
      obtain ⟨hhead, htail⟩ := List.pairwise_cons.mp hfirst
      refine ⟨fun hother => ?_, ih _ htail⟩
      have hleft : left qs = whole qs := left_eq_whole fun r hr => by
        obtain ⟨j, hj⟩ := exists_mem_place hr (k + byteLength (q.text ++ q.gap))
        have hnone := hhead _ hj
        simp only [← Option.isNone_iff_eq_none, isNone_ofTree?_shift, Bool.not_eq_true'] at hnone
        exact hnone hother
      rw [hleft]
      exact ⟨_, hq.statement⟩

/-! ### Blank scripts -/

/-- A blank that ends no line is a space. -/
lemma isSpace_of_isBlank {c : Char} (hc : isBlank c = true) (hend : isLineEnd c = false) :
    isSpace c = true := by
  simp only [isLineEnd, Bool.or_eq_false_iff, beq_eq_false_iff_ne, ne_eq, ← Char.toNat_inj,
    Char.reduceToNat] at hend
  simp only [isBlank, isSpace, Bool.or_eq_true, Bool.and_eq_true, decide_eq_true_eq,
    beq_iff_eq] at hc ⊢
  omega

/-- Blanks can stand between tokens. -/
lemma gap_of_isBlankText (h : isBlankText g = true) (f : Bool) : ∃ fresh, Gap .space f g fresh := by
  induction g generalizing f with
  | nil => exact ⟨f, .nil⟩
  | cons c g ih =>
      rw [isBlankText, List.all_cons, Bool.and_eq_true] at h
      obtain ⟨hc, hg⟩ := h
      by_cases hend : isLineEnd c = true
      · obtain ⟨fresh, hgap⟩ := ih hg true
        exact ⟨fresh, .lineEnd hend hgap⟩
      · obtain ⟨fresh, hgap⟩ := ih hg f
        rw [Bool.not_eq_true] at hend
        exact ⟨fresh, .space hend (isSpace_of_isBlank hc hend) hgap⟩

/-- A blank text is a script without statements. -/
lemma Program.parse?_of_isBlankText (h : isBlankText source = true) :
    parse? source = some ⟨[]⟩ := by
  obtain ⟨fresh, hgap⟩ := gap_of_isBlankText h false
  have hsound : IsSound [] := ⟨rfl, by decide⟩
  have hstarts := not_startsWith_gap_append hgap hsound
  have hempty := fromToken_gap_append hgap []
  rw [List.append_nil] at hstarts hempty
  have hline : State.interpreterLine ([] ++ source) = [] := by
    rw [List.nil_append, State.interpreterLine, hstarts]
    rfl
  refine parse?_eq_some_iff.mpr ⟨?_, [], ?_, Nat.zero_le _, rfl⟩
  · rw [← List.nil_append source, State.behindLine_eq hline, hempty.2]
    exact hsound
  · rw [← List.nil_append source, State.behindLine_eq hline, hempty.1]
    exact .nil

end Script

/-! ### The main statement -/

section

variable {source : Text} {p : Script.Program}

/-- **Hoisting the imports of a script** keeps its other statements if and only if they stand
alone, as they do where no import is behind another statement. -/
theorem hoistImports_keeps (hp : Script.Program.parse? source = some p) (file : Text) :
    ∃ imports rest, hoistImports source file = .ok (imports, rest) ∧
      (p.KeepsOthers source rest ↔ p.OthersAlone source) ∧
        (p.ImportsFirst → p.KeepsOthers source rest) := by
  by_cases hblank : isBlankText source = true
  · cases hp.symm.trans (Script.Program.parse?_of_isBlankText hblank)
    have hkeeps : Script.Program.KeepsOthers ⟨[]⟩ source [] :=
      ⟨⟨[]⟩, Script.Program.parse?_of_isBlankText rfl, .nil⟩
    refine ⟨[], [], by rw [hoistImports, if_pos hblank], iff_of_true hkeeps ?_, fun _ => hkeeps⟩
    exact fun _ _ h => nomatch List.suffix_nil.mp h
  · obtain ⟨pre, qs, hrow⟩ := Script.Program.exists_row hp
    obtain ⟨imports, himports⟩ := hrow.hoistImports_eq
    have hkeeps := hrow.keepsOthers_iff hp
    refine ⟨imports, pre ++ Script.left qs, ?_, ?_, fun hfirst => ?_⟩
    · rw [hoistImports, if_neg hblank, Script.Program.ofFile, hp]
      exact himports
    · rw [hkeeps, Script.Program.OthersAlone, hrow.body, hrow.text]
      exact (hrow.row.allAlone_iff pre).symm
    · refine hkeeps.mpr (hrow.row.alone_of_importsFirst (byteLength pre) ?_)
      rwa [← hrow.body]

/-- A script with imports between its statements. -/
def scattered : Text :=
  "import \x7b ref \x7d from \"vue\"\nconst a = ref(1)\nimport show from \"./show\" // it\nshow(a)\n"

theorem hoistImports_keeps_scattered : ∃ p ∈ Script.Program.parse? scattered, ∃ imports rest,
    hoistImports scattered "app.vue" = .ok (imports, rest) ∧ p.KeepsOthers scattered rest := by
  obtain ⟨p, hp, halone⟩ : ∃ p ∈ Script.Program.parse? scattered, p.OthersAlone scattered := by
    decide +kernel
  obtain ⟨imports, rest, hhoist, hkeeps, -⟩ := hoistImports_keeps hp "app.vue"
  exact ⟨p, hp, imports, rest, hhoist, hkeeps.mpr halone⟩

/-- A script in which an import ends a name, in front of the parameters of a function. -/
def endedName : Text := "a\nimport x from \"y\"\n(b) => c\n"

/-- A script in which an import ends a declaration, in front of a function in parentheses. -/
def endedDeclaration : Text := "const a = b\nimport c from \"./c\"\n(function () \x7b c() \x7d)()\n"

/-- Without the import that ended a statement the body may be no script, or the statements may be
read as one call. -/
theorem not_hoistImports_keeps :
    (∃ p rest, Script.Program.parse? endedName = some p ∧
      hoistImports endedName "app.vue" = .ok ("import x from \"y\"", rest) ∧
        Script.Program.parse? rest = none ∧ ¬ p.KeepsOthers endedName rest) ∧
      ∃ p rest p', Script.Program.parse? endedDeclaration = some p ∧
        hoistImports endedDeclaration "app.vue" = .ok ("import c from \"./c\"", rest) ∧
          Script.Program.parse? rest = some p' ∧ p'.body.length < p.others.length ∧
            ¬ p.KeepsOthers endedDeclaration rest := by
  constructor
  -- A name that an import ended becomes the head of a call.
  · obtain ⟨p, hp⟩ : ∃ p, Script.Program.parse? endedName = some p := by
      rw [← Option.isSome_iff_exists]
      decide +kernel
    have hhoist : hoistImports endedName "app.vue"
        = .ok ("import x from \"y\"", "a\n\n(b) => c\n") := by
      decide +kernel
    have hrest : Script.Program.parse? "a\n\n(b) => c\n" = none := by
      rw [← Option.isNone_iff_eq_none]
      decide +kernel
    refine ⟨p, _, hp, hhoist, hrest, ?_⟩
    rintro ⟨p', hp', -⟩
    cases hrest.symm.trans hp'
  -- The value of a declaration is called by what follows, so that two statements become one.
  · obtain ⟨p, hp, p', hp', hlt⟩ : ∃ p ∈ Script.Program.parse? endedDeclaration,
        ∃ p' ∈ Script.Program.parse? "const a = b\n\n(function () \x7b c() \x7d)()\n",
          p'.body.length < p.others.length := by
      decide +kernel
    have hhoist : hoistImports endedDeclaration "app.vue" = .ok ("import c from \"./c\"",
        "const a = b\n\n(function () \x7b c() \x7d)()\n") := by
      decide +kernel
    refine ⟨p, _, p', hp, hhoist, hp', hlt, ?_⟩
    rintro ⟨p'', hp'', hall⟩
    cases hp'.symm.trans hp''
    rw [hall.length_eq] at hlt
    exact lt_irrefl _ hlt

end

end ComponentMigration
