import ComponentMigration.Proofs.Script.Directives

/-!
Names that are added to the imports of a script.

* **Names that are taken.** `Program.Takes`: a script imports the value of an export under its own
  name. Where all names are taken nothing is missing, so nothing is added.
* **Edits.** `IsAdded`: with an edit the text is a script again that takes more names, and all that
  it took. There are three: a declaration of the module is extended, a declaration is written
  behind another one, or in front of a script without imports.
* **In front.** Imports in front of an edit are read as before, and so are the directives in front
  of them. `ImportsLead` asks that nothing else stands there: the grammar looks ahead without a
  bound where a type or an arrow function may begin.
* **Main statement.** `addImports_takes`: adding names keeps a script a script, takes every name,
  and is done once. It fails where a default specifier has empty braces behind it, and behind an
  interpreter line without imports: `not_addImports_takes`.
-/

namespace ComponentMigration.Script

open Text Script.Parser

variable {text m n list ins : Text} {names ns bound : List Text} {p p' : Program}

/-! ### Names that are taken -/

/-- The value of an export is imported under its own name. -/
def Program.Takes (p : Program) (module name : Text) : Prop :=
  ∃ d ∈ p.imports, d.module = module ∧ d.isType = false ∧
    ∃ s ∈ d.specifiers, s.taken = .named name false ∧ s.localName = name

/-- The names that are looked up are the ones that are taken. -/
lemma Program.mem_boundNames_iff : n ∈ p.boundNames m ↔ p.Takes m n := by
  simp only [boundNames, valueSpecifiers, valueImports, Takes, Specifier.takesValue, List.mem_map,
    List.mem_filter, List.mem_flatMap, Bool.and_eq_true, beq_iff_eq, Bool.not_eq_true']
  constructor
  · rintro ⟨s, ⟨⟨d, ⟨hd, hmodule, htype⟩, hs⟩, htaken⟩, rfl⟩
    exact ⟨d, hd, hmodule, htype, s, hs, htaken, rfl⟩
  · rintro ⟨d, hd, hmodule, htype, s, hs, htaken, rfl⟩
    exact ⟨s, ⟨⟨d, ⟨hd, hmodule, htype⟩, hs⟩, htaken⟩, rfl⟩

/-- A script takes a name if one of its statements does. -/
lemma Program.takes_iff_mem_takenFrom : p.Takes m n ↔ ∃ t ∈ p.body, n ∈ t.takenFrom m n := by
  rw [← List.mem_flatMap, ← p.takesValue_eq_takenFrom, ← mem_boundNames_iff, boundNames]
  simp only [List.mem_map, List.mem_filter, Specifier.takesValue, beq_iff_eq]
  constructor <;> rintro ⟨s, ⟨hs, htaken⟩, rfl⟩ <;> exact ⟨s, ⟨hs, htaken⟩, rfl⟩

/-- What is missing is asked for and not there yet. -/
lemma mem_missingNames_iff : n ∈ missingNames bound names ↔ n ∈ names ∧ n ∉ bound := by
  induction names generalizing bound with
  | nil => simp [missingNames]
  | cons k names ih =>
      rw [missingNames]
      split_ifs with hk
      · rw [ih, List.mem_cons]
        rw [List.contains_iff_mem] at hk
        constructor
        · exact fun h => ⟨.inr h.1, h.2⟩
        · rintro ⟨rfl | h, hn⟩
          · exact absurd hk hn
          · exact ⟨h, hn⟩
      · rw [List.contains_iff_mem] at hk
        rw [List.mem_cons, List.mem_cons, ih, List.mem_cons]
        by_cases hnk : n = k <;> simp [hnk, hk]

/-- Where all names are taken, nothing is added. -/
lemma Program.addImports_eq_self (h : ∀ n ∈ names, p.Takes m n) (patch : Patch) :
    p.addImports patch m names = (patch, []) := by
  have hnil : missingNames (p.boundNames m) names = [] := by
    rw [List.eq_nil_iff_forall_not_mem]
    intro n hn
    obtain ⟨hn, hbound⟩ := mem_missingNames_iff.mp hn
    exact hbound (mem_boundNames_iff.mpr (h n hn))
  rw [addImports, hnil]

/-- A script takes what another one takes from a module, and more names. -/
structure Program.TakesMore (p p' : Program) (module : Text) (names : List Text) : Prop where
  keeps : ∀ n, p.Takes module n → p'.Takes module n
  gains : ∀ n ∈ names, p'.Takes module n

namespace Tree

variable {s : Span} {ps qs : List Tree} {t t' : Tree}

/-- Only imports take something. -/
lemma takenFrom_of_not_import (h : ImportDeclaration.ofTree? t = none) : t.takenFrom m n = [] := by
  rw [← takenFrom_eq_ofTree?, h]
  rfl

/-- A specifier with the name takes the name. -/
lemma mem_takenFrom_of_takenAs (h : takenAs n ∈ ps) :
    n ∈ (node (.importDeclaration m false) s ps).takenFrom m n := by
  have hmodule : (Form.importDeclaration m false).takesFrom m = true := beq_self_eq_true m
  have htakes : (takenAs n).takes? n = some n := by
    rw [takenAs, takes?, Form.takes, if_pos (beq_self_eq_true n)]
    rfl
  rw [takenFrom, if_pos hmodule]
  exact List.mem_filterMap.mpr ⟨_, h, htakes⟩

/-- With more specifiers a declaration takes what it took. -/
lemma takenFrom_append_subset :
    (node (.importDeclaration m false) s ps).takenFrom m n
      ⊆ (node (.importDeclaration m false) s (ps ++ qs)).takenFrom m n := by
  rw [takenFrom, takenFrom, List.filterMap_append]
  split_ifs
  · exact List.subset_append_left _ _
  · exact List.Subset.refl _

end Tree

namespace Program

variable {t u v w e : Text} {x x' : Tree} {xs xs₁ xs₂ ys : List (Text × Tree)}
  {d : ImportDeclaration} {k : Text} {pos : Nat}

/-- Where the statements stand makes no difference to what is taken. -/
lemma takes_iff_of_body {f : Text × Tree → Nat} (h : p.body = xs.map fun y => y.2.shift (f y)) :
    p.Takes m n ↔ ∃ y ∈ xs, n ∈ y.2.takenFrom m n := by
  have hshift : ∀ y : Text × Tree, (y.2.shift (f y)).takenFrom m n = y.2.takenFrom m n := fun y =>
    ((Tree.sameAs_shift _ y.2).takenFrom_eq m n).symm
  rw [takes_iff_mem_takenFrom, h]
  constructor
  · rintro ⟨_, ht, hn⟩
    obtain ⟨y, hy, rfl⟩ := List.mem_map.mp ht
    exact ⟨y, hy, hshift y ▸ hn⟩
  · rintro ⟨y, hy, hn⟩
    exact ⟨_, List.mem_map_of_mem hy, (hshift y).symm ▸ hn⟩

/-- An import declaration is read between the statements in front of it and those behind. -/
lemma exists_reads_import {f : Text × Tree → Nat} (hxs : Reads t xs [])
    (hbody : p.body = xs.map fun y => y.2.shift (f y)) (hd : d ∈ p.imports) :
    ∃ xs₁ xs₂ u v module isType s ps,
      xs = xs₁ ++ (u, .node (.importDeclaration module isType) s ps) :: xs₂ ∧ Reads t xs₁ u ∧
        statement? u = some (.node (.importDeclaration module isType) s ps, v) ∧ Reads v xs₂ [] ∧
          d = ImportDeclaration.shift (f (u, .node (.importDeclaration module isType) s ps))
            ⟨module, isType, ps.filterMap Specifier.ofTree?, s⟩ := by
  obtain ⟨t', ht', hd⟩ := List.mem_filterMap.mp hd
  rw [hbody] at ht'
  obtain ⟨⟨u, x⟩, hmem, rfl⟩ := List.mem_map.mp ht'
  rw [ImportDeclaration.ofTree?_shift] at hd
  obtain ⟨d', hd', rfl⟩ := Option.map_eq_some_iff.mp hd
  obtain ⟨m', isType, s, ps, rfl⟩ := exists_importDeclaration (x := x) (by rw [hd']; simp)
  cases hd'
  obtain ⟨xs₁, xs₂, rfl⟩ := List.append_of_mem hmem
  obtain ⟨_, h₁, h₂⟩ := reads_append_iff.mp hxs
  cases h₂ with
  | cons _ hx h₂ => exact ⟨xs₁, xs₂, u, _, m', isType, s, ps, rfl, h₁, hx, h₂, rfl⟩

/-- What is taken by the statements of a script, one of which becomes others. -/
lemma takesMore_of_body {f g : Text × Tree → Nat}
    (hbody : p.body = (xs₁ ++ (u, x) :: xs₂).map fun y => y.2.shift (f y))
    (hbody' : p'.body = (xs ++ ys).map fun y => y.2.shift (g y))
    (hrel : List.Forall₂ (fun y y' : Text × Tree =>
      ImportDeclaration.ofTree? y.2 = none ∨ y.2.SameAs y'.2) xs₁ xs)
    (hx : ∀ n, n ∈ x.takenFrom m n → ∃ y ∈ ys, n ∈ y.2.takenFrom m n) (hxs₂ : xs₂ ⊆ ys)
    (hns : ∀ n ∈ ns, ∃ y ∈ ys, n ∈ y.2.takenFrom m n) : p.TakesMore p' m ns := by
  -- In front of the edit the imports are the same, and the other statements take nothing.
  have hfront : ∀ y ∈ xs₁, ∀ n, n ∈ y.2.takenFrom m n → ∃ y' ∈ xs, n ∈ y'.2.takenFrom m n := by
    clear hbody hbody'
    induction hrel with
    | nil => simp
    | cons h _ ih =>
        rw [List.forall_mem_cons]
        refine ⟨fun n hn => ?_, fun y hy n hn => ?_⟩
        · rcases h with hnone | hsame
          · rw [Tree.takenFrom_of_not_import hnone] at hn
            cases hn
          · exact ⟨_, List.mem_cons_self, hsame.takenFrom_eq m n ▸ hn⟩
        · obtain ⟨y', hy', hn'⟩ := ih y hy n hn
          exact ⟨y', List.mem_cons_of_mem _ hy', hn'⟩
  have hright : ∀ n, (∃ y ∈ ys, n ∈ y.2.takenFrom m n) → p'.Takes m n := by
    rintro n ⟨y, hy, hn⟩
    exact (takes_iff_of_body hbody').mpr ⟨y, List.mem_append_right _ hy, hn⟩
  refine ⟨fun n hn => ?_, fun n hn => hright n (hns n hn)⟩
  obtain ⟨y, hy, hn⟩ := (takes_iff_of_body hbody).mp hn
  rw [List.mem_append, List.mem_cons] at hy
  -- A name was taken in front of the edit, by the statement that becomes others, or behind it.
  rcases hy with hy | rfl | hy
  · obtain ⟨y', hy', hn'⟩ := hfront y hy n hn
    exact (takes_iff_of_body hbody').mpr ⟨y', List.mem_append_left _ hy', hn'⟩
  · exact hright n (hx n hn)
  · exact hright n ⟨y, hxs₂ hy, hn⟩

/-! ### A declaration that takes more names -/

/-- With an edit the text is a script that takes more names. -/
def IsAdded (p : Program) (text module : Text) (names : List Text) (edit : Nat × Text) : Prop :=
  ∃ before e p', text = before ++ e ∧ byteLength before = edit.1 ∧
    parse? (before ++ (edit.2 ++ e)) = some p' ∧ p.TakesMore p' module names

/-- In front of an import declaration stand import declarations only. -/
def ImportsFirst (p : Program) : Prop :=
  p.body.Pairwise fun t u => ImportDeclaration.ofTree? t = none → ImportDeclaration.ofTree? u = none

instance : DecidablePred ImportsFirst := fun p =>
  inferInstanceAs (Decidable (p.body.Pairwise fun t u =>
    ImportDeclaration.ofTree? t = none → ImportDeclaration.ofTree? u = none))

/-- Behind the directives that a script begins with, import declarations come first. -/
def ImportsLead (p : Program) (text : Text) : Prop :=
  ImportsFirst ⟨p.body.drop (directives text.length (State.behindLine text))⟩

instance (p : Program) (text : Text) : Decidable (p.ImportsLead text) :=
  inferInstanceAs (Decidable (ImportsFirst _))

/-- The place behind the front of a text at the end of another one. -/
lemma byteLength_place (h : w ++ e <:+ text) :
    byteLength e + (byteLength text - byteLength (w ++ e) + byteLength w) = byteLength text := by
  obtain ⟨before, hbefore⟩ := h
  have hsize := congrArg byteLength hbefore
  simp only [byteLength_append] at hsize ⊢
  omega

/-- A text is inserted into an import declaration or behind it. -/
lemma staysRead_of_place {f : Text × Tree → Nat} {isType : Bool} {s : Span} {ps : List Tree}
    (hlead : p.ImportsLead text)
    (hbody : p.body = (xs₁ ++ (w ++ e, .node (.importDeclaration m isType) s ps) :: xs₂).map
      fun y => y.2.shift (f y))
    (h₁ : Reads (fromToken (State.behindLine text)) xs₁ (w ++ e)) (hw : 7 ≤ w.length)
    (hx : statement? (w ++ e) = some (.node (.importDeclaration m isType) s ps, v)) (hv : v <:+ e) :
    StaysRead (fromToken (State.behindLine text)) e ins := by
  refine .of_directives text.length h₁ hw (fun y hy hnone => ?_) hx
    (by simp [ImportDeclaration.ofTree?]) (byteLength_le_of_suffix hv)
  -- A statement behind the directives stands in front of the import, so it is one itself.
  have hlt := List.length_pos_of_mem hy
  rw [List.length_drop, Nat.sub_pos_iff_lt] at hlt
  rw [ImportsLead, ImportsFirst, hbody, ← List.map_drop, List.drop_append_of_le_length hlt.le,
    List.pairwise_map, List.pairwise_append] at hlead
  have hnone' := hlead.2.2 y hy _ List.mem_cons_self (by
    rw [ImportDeclaration.ofTree?_shift, hnone]
    rfl)
  rw [ImportDeclaration.ofTree?_shift] at hnone'
  cases hnone'

/-- A text is inserted into a statement or behind it, and what follows is read as other
statements. -/
lemma isAdded_of_reads
    (hbody : p.body = (xs₁ ++ (w ++ e, x) :: xs₂).map
      fun y => y.2.shift (byteLength text - byteLength y.1))
    (hlength : (xs₁ ++ (w ++ e, x) :: xs₂).length ≤ text.length)
    (h₁ : Reads (fromToken (State.behindLine text)) xs₁ (w ++ e)) (hw : 7 ≤ w.length)
    (hstay : StaysRead (fromToken (State.behindLine text)) e ins)
    (hys : Reads (w ++ (ins ++ e)) ys []) (hlength' : ys.length ≤ xs₂.length + 1 + ins.length)
    (hx : ∀ n, n ∈ x.takenFrom m n → ∃ y ∈ ys, n ∈ y.2.takenFrom m n) (hxs₂ : xs₂ ⊆ ys)
    (hns : ∀ n ∈ ns, ∃ y ∈ ys, n ∈ y.2.takenFrom m n) :
    p.IsAdded text m ns (byteLength text - byteLength (w ++ e) + byteLength w, ins) := by
  have hlonger : xs₁.length + ys.length ≤ text.length + ins.length := by
    simp only [List.length_append, List.length_cons] at hlength
    omega
  obtain ⟨front, xs', p', htext, hparse, hrel, hbody'⟩ := exists_parse?_inserted h₁ hw hstay hys
    hlonger
  refine ⟨front, e, p', htext, ?_, hparse, takesMore_of_body hbody hbody' hrel hx hxs₂ hns⟩
  have hfront := congrArg byteLength htext
  have hsize := byteLength_place (h₁.suffix.trans (fromToken_behindLine_suffix text))
  rw [byteLength_append] at hfront
  dsimp only
  omega

/-- A declaration of the module takes more names. -/
lemma isAdded_extension (hp : parse? text = some p) (hns : ∀ n ∈ k :: ns, IsIdentifier n)
    (hd : d ∈ p.valueImports m) (hedit : d.extension? (Text.join ", " (k :: ns)) = some (pos, ins))
    (hempty : ∀ s, d.specifiers = [s] → s.taken = .defaultExport → ∀ v, v <:+ text →
      byteLength v + s.span.stop = byteLength text → peek v ≠ .punctuator ",")
    (hlead : p.ImportsLead text) : p.IsAdded text m (k :: ns) (pos, ins) := by
  obtain ⟨-, xs, hxs, hlength, hbody⟩ := parse?_eq_some_iff.mp hp
  obtain ⟨hd, hmodule⟩ := List.mem_filter.mp hd
  obtain ⟨xs₁, xs₂, u, v, m', isType, s, ps, rfl, h₁, hx, h₂, rfl⟩ :=
    exists_reads_import hxs hbody hd
  simp only [ImportDeclaration.shift, Bool.and_eq_true, beq_iff_eq, Bool.not_eq_true'] at hmodule
  obtain ⟨rfl, rfl⟩ := hmodule
  rw [ImportDeclaration.extension?_shift] at hedit
  obtain ⟨⟨pos', ins'⟩, hedit', heq⟩ := Option.map_eq_some_iff.mp hedit
  cases heq
  -- Braces are told by the text behind the specifier, which is the same from the declaration on.
  have hempty' : (Frame.of u).NoEmptyBraces u ps := by
    obtain ⟨before, hu⟩ := h₁.suffix.trans (fromToken_behindLine_suffix text)
    have hsize := congrArg byteLength hu
    rw [byteLength_append] at hsize
    intro sp hsp htaken r hr hplace
    refine hempty (sp.shift (byteLength text - byteLength u)) ?_ htaken r (hr.trans ⟨before, hu⟩) ?_
    · rw [ImportDeclaration.shift, hsp]
      rfl
    · dsimp only [Frame.of, Specifier.shift] at hplace ⊢
      omega
  obtain ⟨w, e, rfl, hw, rfl, hv, s', ps', hsame, hx'⟩ :=
    exists_statement?_extended hx hns hempty' hedit'
  have htaken : ∀ n, (Tree.node (.importDeclaration m' false) s' ps').takenFrom m' n
      = (Tree.node (.importDeclaration m' false) s (ps ++ (k :: ns).map Tree.takenAs)).takenFrom
        m' n := fun n => ((Tree.SameAs.node hsame _ _ _).takenFrom_eq m' n).symm
  refine isAdded_of_reads hbody hlength h₁ hw
    (staysRead_of_place hlead hbody h₁ hw hx hv)
    (.cons (append_ne_nil hw) hx' h₂) (by simp)
    (fun n hn => ⟨_, List.mem_cons_self, ?_⟩) (List.subset_cons_self _ _)
    (fun n hn => ⟨_, List.mem_cons_self, ?_⟩)
  · dsimp only
    rw [htaken]
    exact Tree.takenFrom_append_subset hn
  · dsimp only
    rw [htaken]
    exact Tree.mem_takenFrom_of_takenAs (List.mem_append_right _ (List.mem_map_of_mem hn))

/-! ### A declaration of its own -/

/-- A declaration takes the names behind another one. -/
lemma isAdded_behind (hp : parse? text = some p) (hns : ∀ n ∈ k :: ns, IsIdentifier n)
    (hm : IsQuotable m) (hd : d ∈ p.imports) (hlead : p.ImportsLead text) :
    p.IsAdded text m (k :: ns) (d.span.stop, '\n' :: importText m (Text.join ", " (k :: ns))) := by
  obtain ⟨-, xs, hxs, hlength, hbody⟩ := parse?_eq_some_iff.mp hp
  obtain ⟨xs₁, xs₂, u, v, m', isType, s, ps, rfl, h₁, hx, h₂, rfl⟩ :=
    exists_reads_import hxs hbody hd
  obtain ⟨w, e, rfl, hw, hstop, he, rfl, hmoved⟩ := exists_statement?_moved hx
  obtain ⟨s', zs, hsame, hwritten⟩ := exists_statement?_importText hns hm he
  have htoken := isToken_importText m (Text.join ", " (k :: ns)) e
  have hfrom := (fromToken_newline _).1.trans (fromToken_of_isToken htoken)
  obtain ⟨s'', ps'', hsame', hx'⟩ := hmoved
    ((fromToken_newline _).2.mpr (isSound_of_statement? hwritten))
    (continues_importText e m (Text.join ", " (k :: ns)) e)
  rw [hfrom] at hx'
  -- The edit stands where the declaration ends.
  have hplace : (ImportDeclaration.shift (byteLength text - byteLength (w ++ e))
      ⟨m', isType, ps.filterMap Specifier.ofTree?, s⟩).span.stop
        = byteLength text - byteLength (w ++ e) + byteLength w := by
    rw [hstop]
    rfl
  rw [hplace]
  have hreads := Reads.cons (append_ne_nil hw) hx'
    (.cons (by rw [importText_append]; simp) hwritten h₂)
  refine isAdded_of_reads hbody hlength h₁ hw
    (staysRead_of_place hlead hbody h₁ hw hx (fromToken_suffix e)) hreads (by simp)
    (fun n hn => ?_)
    (fun y hy => List.mem_cons_of_mem _ (List.mem_cons_of_mem _ hy)) (fun n hn => ?_)
  · refine ⟨_, List.mem_cons_self, ?_⟩
    exact ((Tree.SameAs.node hsame' _ s s'').takenFrom_eq m n) ▸ hn
  · refine ⟨_, List.mem_cons_of_mem _ List.mem_cons_self, ?_⟩
    exact ((Tree.SameAs.node hsame _ ⟨0, 0⟩ s').takenFrom_eq m n) ▸
      Tree.mem_takenFrom_of_takenAs (List.mem_map_of_mem hn)

/-- A declaration takes the names in front of a script without imports. -/
lemma isAdded_front (hp : parse? text = some p) (hns : ∀ n ∈ k :: ns, IsIdentifier n)
    (hm : IsQuotable m) (hline : State.interpreterLine text = []) :
    p.IsAdded text m (k :: ns) (0, importText m (Text.join ", " (k :: ns)) ++ ['\n']) := by
  obtain ⟨hsound, xs, hxs, hlength, hbody⟩ := parse?_eq_some_iff.mp hp
  rw [State.behindLine, hline, List.length_nil, List.drop_zero] at hsound hxs
  obtain ⟨hfrom, hsound'⟩ := fromToken_newline text
  obtain ⟨s, zs, hsame, hwritten⟩ := exists_statement?_importText hns hm (hsound'.mpr hsound)
  have htoken := isToken_importText m (Text.join ", " (k :: ns)) ('\n' :: text)
  have hself := fromToken_of_isToken htoken
  -- The new declaration is no interpreter line.
  have hinterpreter : State.interpreterLine
      ([] ++ (importText m (Text.join ", " (k :: ns)) ++ '\n' :: text)) = [] := by
    rw [List.nil_append, State.interpreterLine, importText_append, if_neg]
    simp [startsWith]
  have hbehind := State.behindLine_eq hinterpreter
  rw [List.nil_append] at hbehind
  rw [hfrom] at hwritten
  have hne : importText m (Text.join ", " (k :: ns)) ++ '\n' :: text ≠ [] := by
    rw [importText_append]
    simp
  -- Behind the new declaration stands the script as it was.
  have hparse : parse? ([] ++ (importText m (Text.join ", " (k :: ns)) ++ ['\n'] ++ text)) = some
      ⟨((importText m (Text.join ", " (k :: ns)) ++ '\n' :: text,
        Tree.node (.importDeclaration m false) s zs) :: xs).map fun y => y.2.shift (byteLength
          (importText m (Text.join ", " (k :: ns)) ++ '\n' :: text) - byteLength y.1)⟩ := by
    rw [List.nil_append, List.append_assoc, List.singleton_append, parse?_eq_some_iff, hbehind,
      hself]
    refine ⟨isSound_of_statement? hwritten, _, .cons hne hwritten hxs, ?_, rfl⟩
    simp only [List.length_append, List.length_cons]
    omega
  refine ⟨[], text, _, rfl, rfl, hparse, fun n hn => ?_, fun n hn => ?_⟩
  · obtain ⟨y, hy, hn⟩ := (takes_iff_of_body hbody).mp hn
    exact (takes_iff_of_body rfl).mpr ⟨y, List.mem_cons_of_mem _ hy, hn⟩
  · refine (takes_iff_of_body rfl).mpr ⟨_, List.mem_cons_self, ?_⟩
    exact ((Tree.SameAs.node hsame _ ⟨0, 0⟩ s).takenFrom_eq m n) ▸
      Tree.mem_takenFrom_of_takenAs (List.mem_map_of_mem hn)

/-! ### Adding names -/

/-- The declaration that takes more names of a module, if one can. -/
def taker? (p : Program) (module : Text) : Option ImportDeclaration :=
  (p.valueImports module).find? fun d => (d.extension? []).isSome

/-- Whether names of a module are to be written behind a default specifier that a comma follows:
the braces behind the comma are empty. -/
def hasEmptyBraces (p : Program) (text module : Text) : Bool :=
  (p.taker? module).any fun d => d.specifiers.length == 1 && d.specifiers.any fun s =>
    s.taken == .defaultExport && (text.dropBytes? s.span.stop).any (peek · == .punctuator ",")

/-- Whether a declaration can take names does not depend on the names. -/
lemma isSome_extension? (d : ImportDeclaration) (list : Text) :
    (d.extension? list).isSome = (d.extension? []).isSome := by
  unfold ImportDeclaration.extension?
  split <;> rfl

/-- Names are added in the declaration that takes more. -/
lemma taker?_of_findSome? {edit : Nat × Text}
    (h : (p.valueImports m).findSome? (·.extension? list) = some edit) :
    ∃ d ∈ p.valueImports m, p.taker? m = some d ∧ d.extension? list = some edit := by
  obtain ⟨before, d, behind, hsplit, hedit, hnone⟩ := List.findSome?_eq_some_iff.mp h
  refine ⟨d, by rw [hsplit]; simp, ?_, hedit⟩
  rw [taker?, hsplit, List.find?_append, List.find?_eq_none.mpr, Option.none_or,
    List.find?_cons_of_pos]
  · rw [← isSome_extension? d list, hedit]
    rfl
  · intro d' hd'
    rw [← isSome_extension? d' list, hnone d' hd']
    simp

/-- The edit of `importEdit` adds the names. -/
lemma isAdded_importEdit (hp : parse? text = some p) (hns : ∀ n ∈ k :: ns, IsIdentifier n)
    (hm : IsQuotable m) (hbraces : p.hasEmptyBraces text m = false)
    (hline : p.imports = [] → State.interpreterLine text = [])
    (hlead : p.ImportsLead text) : p.IsAdded text m (k :: ns) (p.importEdit m (k :: ns)) := by
  cases hfind : (p.valueImports m).findSome? (·.extension? (Text.join ", " (k :: ns))) with
  -- A declaration that takes more names is extended.
  | some edit =>
      obtain ⟨d, hd, htaker, hedit⟩ := taker?_of_findSome? hfind
      have heq : p.importEdit m (k :: ns) = edit := by rw [importEdit, hfind]
      rw [heq]
      refine isAdded_extension hp hns hd hedit (fun s hs htaken v hv hplace hpeek => ?_) hlead
      obtain ⟨before, rfl⟩ := hv
      rw [byteLength_append] at hplace
      have hdrop : dropBytes? (before ++ v) s.span.stop = some v :=
        dropBytes?_eq_some_iff.mpr ⟨before, rfl, by omega⟩
      simp [hasEmptyBraces, htaker, hs, htaken, hdrop, hpeek] at hbraces
  -- Without one the names get a declaration of their own, behind the last import, or in front of
  -- the script if it has none.
  | none =>
      cases hlast : p.imports.getLast? with
      | some d =>
          have heq : p.importEdit m (k :: ns)
              = (d.span.stop, '\n' :: importText m (Text.join ", " (k :: ns))) := by
            rw [importEdit, hfind, hlast]
          rw [heq]
          exact isAdded_behind hp hns hm (List.mem_of_getLast? hlast) hlead
      | none =>
          have heq : p.importEdit m (k :: ns)
              = (0, importText m (Text.join ", " (k :: ns)) ++ ['\n']) := by
            rw [importEdit, hfind, hlast]
          rw [heq]
          exact isAdded_front hp hns hm (hline (List.getLast?_eq_none_iff.mp hlast))

/-- **Adding names to the imports of a script** gives a script that takes them all, to which there
is nothing to add. -/
theorem addImports_takes (hp : parse? text = some p) (hnames : ∀ n ∈ names, IsIdentifier n)
    (hm : IsQuotable m) (hbraces : p.hasEmptyBraces text m = false)
    (hline : p.imports = [] → State.interpreterLine text = [])
    (hlead : p.ImportsLead text) :
    ∃ text' p', (p.addImports Patch.empty m names).1.apply text = .ok text' ∧
      parse? text' = some p' ∧ (∀ n ∈ names, p'.Takes m n) ∧
        ∀ patch, p'.addImports patch m names = (patch, []) := by
  suffices h : ∃ text' p', (p.addImports Patch.empty m names).1.apply text = .ok text' ∧
      parse? text' = some p' ∧ ∀ n ∈ names, p'.Takes m n by
    obtain ⟨text', p', htext, hparse, htakes⟩ := h
    exact ⟨text', p', htext, hparse, htakes, addImports_eq_self htakes⟩
  -- What is not missing is taken already.
  have hbound : ∀ n ∈ names, n ∉ missingNames (p.boundNames m) names → p.Takes m n := by
    intro n hn hmissing
    by_contra htakes
    exact hmissing (mem_missingNames_iff.mpr ⟨hn, fun h => htakes (mem_boundNames_iff.mp h)⟩)
  cases hmissing : missingNames (p.boundNames m) names with
  | nil =>
      refine ⟨text, p, ?_, hp, fun n hn => hbound n hn (by rw [hmissing]; simp)⟩
      rw [addImports, hmissing]
      exact Patch.apply_nil text
  | cons k ns =>
      have hns : ∀ n ∈ k :: ns, IsIdentifier n := by
        rw [← hmissing]
        exact fun n hn => hnames n (mem_missingNames_iff.mp hn).1
      obtain ⟨before, e, p', rfl, hplace, hparse, hmore⟩ :=
        isAdded_importEdit hp hns hm hbraces hline hlead
      refine ⟨_, p', ?_, hparse, fun n hn => ?_⟩
      · rw [addImports, hmissing, ← Patch.apply_insert, hplace]
      · by_cases h : n ∈ k :: ns
        · exact hmore.gains n h
        · exact hmore.keeps n (hbound n hn (by rw [hmissing]; exact h))

/-- A script that imports the default export of a module behind a directive. -/
def defaultText : Text :=
  "'use client';\nimport React from \"react\";\nconst [a, setA] = useState(0);\n"

theorem addImports_takes_default :
    ∃ p ∈ parse? defaultText, ∃ text' p',
      (p.addImports Patch.empty "react" ["useState", "useMemo"]).1.apply defaultText = .ok text' ∧
        parse? text' = some p' ∧ (∀ n ∈ ["useState".toList, "useMemo"], p'.Takes "react" n) ∧
          ∀ patch, p'.addImports patch "react" ["useState", "useMemo"] = (patch, []) := by
  obtain ⟨p, hp, hbraces, himports, hlead⟩ : ∃ p ∈ parse? defaultText,
      p.hasEmptyBraces defaultText "react" = false ∧ p.imports ≠ [] ∧
        p.ImportsLead defaultText := by
    decide +kernel
  have hnames : ∀ n ∈ ["useState".toList, "useMemo"], IsIdentifier n := by
    simp only [List.forall_mem_cons]
    exact ⟨by decide, by decide, by simp⟩
  have hmodule : IsQuotable "react" := by simp [IsQuotable]
  exact ⟨p, hp, addImports_takes hp hnames hmodule hbraces (fun h => absurd h himports) hlead⟩

/-- A script that takes no names in braces behind a default export. -/
def emptyBraces : Text := "import React, \x7b\x7d from \"react\";"

/-- A script with an interpreter line and no imports. -/
def interpreted : Text := "#!/usr/bin/env node\nuseState(0);\n"

/-- Names behind a default specifier with empty braces, and names in front of an interpreter line,
leave no script. -/
theorem not_addImports_takes :
    IsIdentifier "useState" ∧ IsQuotable "react" ∧
      (∃ p text', parse? emptyBraces = some p ∧
        (p.addImports Patch.empty "react" ["useState"]).1.apply emptyBraces = .ok text' ∧
          parse? text' = none) ∧
      ∃ p text', parse? interpreted = some p ∧
        (p.addImports Patch.empty "react" ["useState"]).1.apply interpreted = .ok text' ∧
          parse? text' = none := by
  refine ⟨by decide, by simp [IsQuotable], ?_, ?_⟩
  · obtain ⟨p, hp, hpatch⟩ : ∃ p ∈ parse? emptyBraces,
        (p.addImports Patch.empty "react" ["useState"]).1
        = Patch.empty.insert (byteLength "import React") ", \x7b useState \x7d" := by
      decide +kernel
    refine ⟨p, _, hp, by
      rw [hpatch]
      exact Patch.apply_insert "import React" ", \x7b\x7d from \"react\";" _, ?_⟩
    rw [← Option.isNone_iff_eq_none]
    decide +kernel
  · obtain ⟨p, hp, hpatch⟩ : ∃ p ∈ parse? interpreted,
        (p.addImports Patch.empty "react" ["useState"]).1
        = Patch.empty.insert (byteLength []) "import \x7b useState \x7d from \"react\";\n" := by
      decide +kernel
    refine ⟨p, _, hp, by rw [hpatch]; exact Patch.apply_insert [] interpreted _, ?_⟩
    rw [← Option.isNone_iff_eq_none]
    decide +kernel

end Program

end ComponentMigration.Script
