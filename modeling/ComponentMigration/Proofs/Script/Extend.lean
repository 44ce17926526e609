import ComponentMigration.Proofs.Script.Reads
import ComponentMigration.Proofs.Script.Imports

/-!
Declarations that take more names.

* **Specifiers.** A specifier in braces takes an export by its name, and ends where the parser has
  read to: that is the place that `ImportDeclaration.extension?` chooses.
* **Clauses.** `Clause.exists_extends`: names that are written at that place are taken by the clause
  as well. A default specifier must have no empty braces behind it, `NoEmptyBraces`.
* **Main statement.** `Declares.exists_extends`: the declaration ends where it ended before.
-/

namespace ComponentMigration.Script

open Text Script.Parser

/-! ### The tree of a specifier -/

namespace Grammar

/-- What follows a parser may use what the parser yields. -/
lemma Yields.bindOf {α β : Type} {p : Parser α} {f : α → Parser β} {P : α → Prop} {Q : β → Prop}
    (hp : Yields p P) (hf : ∀ a, P a → Yields (f a) Q) : Yields (p >>= f) Q := by
  intro s s' b hb
  rw [run_bind] at hb
  obtain ⟨⟨a, s₁⟩, h₁, h₂⟩ := Option.bind_eq_some_iff.mp hb
  exact hf a (hp h₁) h₂

/-- A node ends where the parser has read to. -/
def StopsThere (p : Parser Tree) : Prop :=
  ∀ ⦃s s' : State⦄ ⦃x : Tree⦄, p s = some (x, s') → x.span.stop = s'.lastStop

/-- What comes last is where the parser stops. -/
lemma StopsThere.bind {α : Type} {p : Parser α} {f : α → Parser Tree}
    (h : ∀ a, StopsThere (f a)) : StopsThere (p >>= f) := by
  intro s s' x hx
  rw [run_bind] at hx
  obtain ⟨⟨a, s₁⟩, -, h₂⟩ := Option.bind_eq_some_iff.mp hx
  exact h a h₂

lemma StopsThere.node {f : Form} {n : Nat} {ps : List Tree} : StopsThere (Parser.node f n ps) := by
  intro s s' x hx
  rw [run_node] at hx
  cases hx
  rfl

/-- A choice stops where its branches do. -/
lemma StopsThere.ite {b : Prop} [Decidable b] {p q : Parser Tree} (hp : StopsThere p)
    (hq : StopsThere q) : StopsThere (if b then p else q) := by
  split_ifs
  · exact hp
  · exact hq

/-- A tree is a specifier that takes an export by its name. -/
def IsNamedSpecifier (x : Tree) : Prop := ∃ s, Specifier.ofTree? x = some s ∧ s.isNamed = true

/-- A name that is declared is a leaf. -/
lemma yields_bindingName (b : Binder) :
    Yields (bindingName b) fun d => ∃ w s, d = .node (.binding w b none) s [] :=
  .bind fun _ => .bind fun w => .node fun s => ⟨w, s, rfl⟩

/-- The tree of a specifier has the form of a named import. -/
lemma yields_namedSpecifier (b : Binder) (isType isText : Bool) (start nameStart : Nat) :
    Yields (namedSpecifier b isType isText start nameStart) IsNamedSpecifier := by
  refine .bind fun imported => .bind fun _ =>
    .ite (.bindOf (yields_bindingName b) ?_) (.bind fun _ => ?_)
  · rintro _ ⟨w, s, rfl⟩
    exact .node fun s => ⟨_, rfl, rfl⟩
  · refine .bindOf (P := fun d => ∃ s, d = .node (.binding imported b none) s [])
      (.node fun s => ⟨s, rfl⟩) ?_
    rintro _ ⟨s, rfl⟩
    exact .node fun s => ⟨_, rfl, rfl⟩

/-- A specifier in braces is a named import. -/
lemma yields_importSpecifier (b : Binder) : Yields (importSpecifier b) IsNamedSpecifier := by
  rw [importSpecifier_eq]
  exact .bind fun _ => .bind fun _ => .ite
    (.bind fun _ => .bind fun _ => .bind fun _ => yields_namedSpecifier _ _ _ _ _)
    (.bind fun _ => .bind fun _ => yields_namedSpecifier _ _ _ _ _)

/-- If a tree takes a value by its name, then what it declares is a value and a type. -/
def DeclaresBoth (x : Tree) : Prop := ∀ ⦃name w : Text⦄ ⦃b : Binder⦄ ⦃symbol : Option Symbol⦄
  ⦃s s' : Span⦄ ⦃ps : List Tree⦄,
    x = .node (.namedImport name false) s [.node (.binding w b symbol) s' ps] → b = .both

/-- A specifier declares a type only if it says so. -/
lemma yields_declaresBoth (isType isText : Bool) (start nameStart : Nat) :
    Yields (namedSpecifier (if isType then .type else .both) isType isText start nameStart)
      DeclaresBoth := by
  have hnode : ∀ imported w s s', DeclaresBoth (.node (.namedImport imported isType) s
      [.node (.binding w (if isType then .type else .both) none) s' []]) := by
    rintro imported w s s' _ _ _ _ _ _ _ heq
    cases heq
    rfl
  refine .bind fun imported => .bind fun _ =>
    .ite (.bindOf (yields_bindingName _) ?_) (.bind fun _ => ?_)
  · rintro _ ⟨w, s, rfl⟩
    exact .node fun s' => hnode _ _ _ _
  · refine .bindOf (P := fun d => ∃ s, d = .node (.binding imported
      (if isType then .type else .both) none) s []) (.node fun s => ⟨s, rfl⟩) ?_
    rintro _ ⟨s, rfl⟩
    exact .node fun s' => hnode _ _ _ _

/-- In an import that is not one of types a specifier declares a value and a type. -/
lemma yields_importSpecifier_both : Yields (importSpecifier .both) DeclaresBoth := by
  rw [importSpecifier_eq]
  refine .bind fun _ => .bind fun isType => ?_
  cases isType
  · exact .bind fun _ => .bind fun _ => yields_declaresBoth false _ _ _
  · exact .bind fun _ => .bind fun _ => .bind fun _ => yields_declaresBoth true _ _ _

/-- A specifier ends where the parser stops. -/
lemma stopsThere_importSpecifier (b : Binder) : StopsThere (importSpecifier b) := by
  have hnamed : ∀ c isType isText start nameStart,
      StopsThere (namedSpecifier c isType isText start nameStart) := fun _ _ _ _ _ =>
    .bind fun _ => .bind fun _ => .ite (.bind fun _ => .node) (.bind fun _ => .bind fun _ => .node)
  rw [importSpecifier_eq]
  exact .bind fun _ => .bind fun _ => .ite
    (.bind fun _ => .bind fun _ => .bind fun _ => hnamed _ _ _ _ _)
    (.bind fun _ => .bind fun _ => hnamed _ _ _ _ _)

end Grammar

namespace ImportDeclaration

variable {m : Text} {isType : Bool} {s : Span} {ps ys : List Tree} {x : Tree} {list : Text}

/-- Behind the last specifier in braces more names can stand. -/
lemma extension?_of_getLast {sp : Specifier} (hx : ps.getLast? = some x)
    (hsp : Specifier.ofTree? x = some sp) (hnamed : sp.isNamed = true) :
    (⟨m, isType, ps.filterMap Specifier.ofTree?, s⟩ : ImportDeclaration).extension? list
      = some (sp.span.stop, ", ".toList ++ list) := by
  obtain ⟨ys, rfl⟩ := List.getLast?_eq_some_iff.mp hx
  have hlast : (((ys ++ [x]).filterMap Specifier.ofTree?).filter (·.isNamed)).getLast?
      = some sp := by
    simp [hsp, hnamed]
  unfold extension?
  dsimp only
  rw [hlast]

end ImportDeclaration

/-! ### Names behind a specifier -/

namespace Frame

variable {F : Frame} {b : Binder} {t u r t' e : Text} {x d : Tree} {xs ps : List Tree} {m n : Text}
  {ns : List Text} {k pos : Nat} {ins : Text} {s : Span}

/-- The end of the last specifier in braces. -/
lemma exists_namedSpecifier (h : F.Passes (Grammar.importSpecifier b) t x e) :
    ∃ sp, Specifier.ofTree? x = some sp ∧ sp.isNamed = true ∧
      sp.span.stop = F.size - byteLength e := by
  obtain ⟨sp, hsp, hnamed⟩ := Grammar.yields_importSpecifier b h.run
  refine ⟨sp, hsp, hnamed, ?_⟩
  rw [Specifier.span_of_ofTree? hsp, Grammar.stopsThere_importSpecifier b h.run, state_lastStop]

/-- A default specifier stands for a name. -/
lemma exists_defaultSpecifier (h : F.Passes (bindingName b) t d e) (he : IsSound e) :
    ∃ w, Specifier.ofTree? (.node .defaultImport d.span [d])
        = some ⟨.defaultExport, w, none, d.span⟩ ∧
      d.span.stop = F.size - byteLength e := by
  obtain ⟨-, w, isEscaped, fresh, -, -, -, rfl⟩ := (passes_bindingName he).mp h
  exact ⟨w, rfl, rfl⟩

/-- What an element yields holds of all elements. -/
lemma Upto.yields {element : Parser Tree} {P : Tree → Prop} (h : F.Upto element t xs e)
    (hp : Grammar.Yields element P) : ∀ x ∈ xs, P x := by
  induction h with
  | nil => simp
  | cons _ _ hx _ ih => exact List.forall_mem_cons.mpr ⟨hp hx.run, ih⟩

/-- What an element yields holds of all elements of a list in braces. -/
lemma Braced.yields {element : Parser Tree} {P : Tree → Prop} (h : F.Braced element t xs e)
    (hp : Grammar.Yields element P) : ∀ x ∈ xs, P x := by
  cases h with
  | empty _ _ => simp
  | series _ hxs _ _ =>
      cases hxs with
      | intro _ hx hxs => exact List.forall_mem_cons.mpr ⟨hp hx.run, hxs.yields hp⟩

/-- A clause that imports values declares what it takes as values and types. -/
lemma Clause.declaresBoth (h : F.Clause .both t ps r) : ∀ x ∈ ps, Grammar.DeclaresBoth x := by
  have hspecifiers : ∀ {u e : Text} {xs : List Tree}, IsSound e →
      F.Passes (Grammar.importSpecifiers .both) u xs e → ∀ x ∈ xs, Grammar.DeclaresBoth x := by
    intro u e xs he hxs
    rcases (passes_importSpecifiers he).mp hxs with ⟨d, hd, rfl⟩ | ⟨-, hxs⟩
    · obtain ⟨-, _, _, _, _, _, -, -, -, rfl⟩ := (passes_namespaceSpecifier he).mp hd
      exact List.forall_mem_singleton.mpr (by rintro _ _ _ _ _ _ _ ⟨⟩)
    · exact hxs.yields Grammar.yields_importSpecifier_both
  cases h with
  | default _ _ => exact List.forall_mem_singleton.mpr (by rintro _ _ _ _ _ _ _ ⟨⟩)
  | both _ _ hxs hfrom =>
      exact List.forall_mem_cons.mpr
        ⟨by rintro _ _ _ _ _ _ _ ⟨⟩, hspecifiers (hfrom.isSound (by simp)) hxs⟩
  | named hxs hfrom => exact hspecifiers (hfrom.isSound (by simp)) hxs

/-- A declaration that imports values declares what it takes as values and types. -/
lemma Declares.declaresBoth (h : F.Declares k t x t') (ht' : IsSound t')
    (hx : x = .node (.importDeclaration m false) s ps) : ∀ y ∈ ps, Grammar.DeclaresBoth y := by
  cases h with
  | bare _ h =>
      obtain ⟨_, _, _, -, -, heq, -⟩ := passes_importSource_portable h ht'
      cases hx.symm.trans heq
      simp
  | clause hps h =>
      obtain ⟨_, _, _, -, -, heq, -⟩ := passes_importSource_portable h ht'
      cases hx.symm.trans heq
      exact hps.declaresBoth
  | typed _ _ _ _ h =>
      obtain ⟨_, _, _, -, -, heq, -⟩ := passes_importSource_portable h ht'
      cases hx.symm.trans heq

/-- More names behind the last one in braces. -/
lemma Braced.extend (h : F.Braced (Grammar.importSpecifier .both) t xs t') (hxs : xs ≠ [])
    (hns : ∀ m ∈ ns, IsIdentifier m) :
    ∃ w e x sp, t = w ++ e ∧ w ≠ [] ∧ t' <:+ e ∧ xs.getLast? = some x ∧
      Specifier.ofTree? x = some sp ∧ sp.isNamed = true ∧ sp.span.stop = F.size - byteLength e ∧
        ∀ ⦃F' : Frame⦄, F'.Holds (w ++ (others ns ++ e)) →
          ∃ xs', List.Forall₂ Tree.SameAs (xs ++ ns.map Tree.takenAs) xs' ∧
            F'.Braced (Grammar.importSpecifier .both) (w ++ (others ns ++ e)) xs' t' := by
  have hopen := h.peek_eq
  obtain ⟨w, e, rfl, ⟨r, x, hlast, hx⟩, ht', hstop, hinsert⟩ :=
    h.insert (portable_importSpecifier _) hxs
  -- The list begins with its brace, so the place is not at its beginning.
  have hne : w ≠ [] := by
    rintro rfl
    rw [IsStop, ← List.nil_append e, hopen] at hstop
    exact absurd hstop (by decide)
  obtain ⟨sp, hsp, hnamed, hspan⟩ := exists_namedSpecifier hx
  refine ⟨w, e, x, sp, rfl, hne, ht', hlast, hsp, hnamed, hspan, fun F' hF => ?_⟩
  obtain ⟨ys, hsame, hys⟩ := exists_upto_others hns hF.of_append hstop
  -- The new names begin with a comma, as does what could stand there anyway.
  have hgoes : GoesOn e (others ns ++ e) := by
    cases ns with
    | nil => exact .inl rfl
    | cons n ns =>
        rw [others_cons_append]
        exact .inr (.inl rfl)
  obtain ⟨xs', hsame', hxs'⟩ := hinsert hF hgoes (isStop_others hstop) hys
  exact ⟨xs' ++ ys, List.rel_append hsame' hsame, hxs'⟩

/-- The module of a declaration stays behind other specifiers. -/
lemma exists_importSource (h : F.Passes (Grammar.importSource k false ps) r
    (.node (.importDeclaration m false) s xs) t') (ht' : IsSound t') :
    xs = ps ∧ ∀ ⦃F' : Frame⦄ (k' : Nat) (ps' : List Tree), F'.Holds r →
      ∃ s', F'.Passes (Grammar.importSource k' false ps') r
        (.node (.importDeclaration m false) s' ps') t' := by
  obtain ⟨w, m', s', rfl, -, hx, -, hpasses⟩ := passes_importSource_portable h ht'
  cases hx
  exact ⟨rfl, fun F' k' ps' hF => (hpasses k' ps' hF ht' (.refl t')).2⟩

/-- A text with a default specifier that stands in front of empty braces. -/
def NoEmptyBraces (F : Frame) (u : Text) (ps : List Tree) : Prop :=
  ∀ sp, ps.filterMap Specifier.ofTree? = [sp] → sp.taken = .defaultExport →
    ∀ v, v <:+ u → byteLength v + sp.span.stop = F.size → peek v ≠ .punctuator ","

/-- A place behind a text, and what becomes of names that are written there. -/
structure Extends (F : Frame) (u r : Text) (ps : List Tree) (ns : List Text) (pos : Nat)
    (ins w e : Text) : Prop where
  text : u = w ++ e
  ne : w ≠ []
  place : pos = F.size - byteLength e
  suffix : r <:+ e
  goesOn : GoesOn e (ins ++ e)
  clause : ∀ ⦃F' : Frame⦄, F'.Holds (w ++ (ins ++ e)) →
    ∃ ps', List.Forall₂ Tree.SameAs (ps ++ ns.map Tree.takenAs) ps' ∧
      F'.Clause .both (w ++ (ins ++ e)) ps' r

/-- New braces are written behind a comma. -/
lemma braces_append (list e : Text) : ", \x7b ".toList ++ list ++ " \x7d".toList ++ e
    = ',' :: (" \x7b ".toList ++ (list ++ (" \x7d".toList ++ e))) := by
  simp

/-- A comma may stand in place of any text. -/
lemma goesOn_comma (e r : Text) : GoesOn e (',' :: r) := .inr (.inl rfl)

lemma Holds.add_eq (hF : F.Holds t) : byteLength t + (F.size - byteLength t) = F.size := by
  have := hF.size
  omega

/-- A name that is declared is not empty. -/
lemma ne_nil_of_bindingName {w : Text} (h : F.Passes (bindingName b) (w ++ e) d e)
    (he : IsSound e) : w ≠ [] := by
  rintro rfl
  obtain ⟨-, _, _, _, -, -, hshows, -⟩ := (passes_bindingName he).mp h
  exact absurd (hshows.lt_length rfl) (Nat.lt_irrefl _)

/-- A star stands for a name. -/
lemma exists_namespaceSpecifier (h : F.Passes (Grammar.namespaceSpecifier b) t x e)
    (he : IsSound e) : ∃ w, Specifier.ofTree? x = some ⟨.everything, w, none, x.span⟩ := by
  obtain ⟨-, _, _, d, _, _, -, -, hd, rfl⟩ := (passes_namespaceSpecifier he).mp h
  obtain ⟨-, w, isEscaped, fresh, -, -, -, rfl⟩ := (passes_bindingName he).mp hd
  exact ⟨w, rfl⟩

/-- Names in braces behind a default specifier alone. -/
lemma exists_extends_default {fresh : Bool} (hd : F.Passes (bindingName .both) u d e)
    (hfrom : Shows e (.word "from" false) fresh r) (hns : ∀ m ∈ n :: ns, IsIdentifier m)
    (hplace : (⟨m, false, [.node .defaultImport d.span [d]].filterMap Specifier.ofTree?, s⟩ :
      ImportDeclaration).extension? (Text.join ", " (n :: ns)) = some (pos, ins)) :
    ∃ w, F.Extends u r [.node .defaultImport d.span [d]] (n :: ns) pos ins w e := by
  have hsound := hfrom.isSound (by simp)
  obtain ⟨w, rfl, hd'⟩ := movable_bindingName .both hd hsound
  obtain ⟨v, hv, hstop⟩ := exists_defaultSpecifier hd hsound
  rw [List.filterMap_cons_some hv, List.filterMap_nil] at hplace
  cases hplace
  refine ⟨w, rfl, ne_nil_of_bindingName hd hsound, hstop, hfrom.suffix, ?_, fun F' hF => ?_⟩
  · rw [braces_append]
    exact goesOn_comma _ _
  -- Behind the comma stands a list in braces, and then the rest of the declaration as it was.
  rw [braces_append] at hF ⊢
  have hcomma := shows_comma (" \x7b ".toList ++ (join ", " (n :: ns) ++ (" \x7d".toList ++ e)))
  obtain ⟨-, d', hsame, hd'⟩ := hd' hF (goesOn_comma _ _) (hcomma.isSound (by simp))
  have hF₁ := hF.of_append.of_suffix hcomma.suffix
  obtain ⟨xs, hsame', hxs⟩ := exists_braced_join hns hF₁
  exact ⟨_, .cons (.node (.cons hsame .nil) _ _ _) hsame', .both hd' hcomma
    ((passes_importSpecifiers hsound).mpr (.inr ⟨hF₁, hxs⟩)) hfrom⟩

/-- Names behind the last one in braces. -/
lemma exists_extends_named {fresh : Bool} (hxs : F.Passes (Grammar.importSpecifiers .both) u ps t)
    (hfrom : Shows t (.word "from" false) fresh r) (hns : ∀ m ∈ n :: ns, IsIdentifier m)
    (hplace : (⟨m, false, ps.filterMap Specifier.ofTree?, s⟩ : ImportDeclaration).extension?
      (Text.join ", " (n :: ns)) = some (pos, ins)) :
    ∃ w e, F.Extends u r ps (n :: ns) pos ins w e := by
  have hsound := hfrom.isSound (by simp)
  -- An import of everything takes no more names, and neither do empty braces, so `extension?`
  -- finds no place there.
  rcases (passes_importSpecifiers hsound).mp hxs with ⟨y, hy, rfl⟩ | ⟨-, hxs⟩
  · obtain ⟨y', hy'⟩ := exists_namespaceSpecifier hy hsound
    rw [List.filterMap_cons_some hy', List.filterMap_nil] at hplace
    cases hplace
  · by_cases hnil : ps = []
    · subst hnil
      cases hplace
    · obtain ⟨w, e, x, sp, rfl, hne, hsuffix, hlast, hsp, hnamed, hspan, hextend⟩ :=
        hxs.extend hnil hns
      rw [ImportDeclaration.extension?_of_getLast hlast hsp hnamed, append_join] at hplace
      cases hplace
      refine ⟨w, e, rfl, hne, hspan, hfrom.suffix.trans hsuffix, ?_, fun F' hF => ?_⟩
      · rw [others_cons_append]
        exact goesOn_comma _ _
      · obtain ⟨xs', hsame, hxs'⟩ := hextend hF
        exact ⟨xs', hsame, .named ((passes_importSpecifiers hsound).mpr (.inr ⟨hF, hxs'⟩)) hfrom⟩

/-- Names behind the last one in braces that stand behind a default specifier. -/
lemma exists_extends_both {fresh fresh' : Bool} {r₁ r₂ : Text}
    (hd : F.Passes (bindingName .both) u d r₁) (hcomma : Shows r₁ (.punctuator ",") fresh r₂)
    (hxs : F.Passes (Grammar.importSpecifiers .both) r₂ xs t)
    (hfrom : Shows t (.word "from" false) fresh' r) (hns : ∀ m ∈ n :: ns, IsIdentifier m)
    (hempty : F.NoEmptyBraces u (.node .defaultImport d.span [d] :: xs))
    (hplace : (⟨m, false, (.node .defaultImport d.span [d] :: xs).filterMap Specifier.ofTree?,
      s⟩ : ImportDeclaration).extension? (Text.join ", " (n :: ns)) = some (pos, ins)) :
    ∃ w e, F.Extends u r (.node .defaultImport d.span [d] :: xs) (n :: ns) pos ins w e := by
  have hsound := hcomma.isSound (by simp)
  have hsound' := hfrom.isSound (by simp)
  obtain ⟨w₁, rfl, hd'⟩ := movable_bindingName .both hd hsound
  obtain ⟨w₂, -, rfl, hcomma'⟩ := hcomma.goesOn rfl
  obtain ⟨z, hz, hstop⟩ := exists_defaultSpecifier hd hsound
  rcases (passes_importSpecifiers hsound').mp hxs with ⟨y, hy, rfl⟩ | ⟨-, hxs⟩
  · obtain ⟨y', hy'⟩ := exists_namespaceSpecifier hy hsound'
    rw [List.filterMap_cons_some hz, List.filterMap_cons_some hy', List.filterMap_nil] at hplace
    cases hplace
  · by_cases hnil : xs = []
    -- The comma in front of empty braces follows the default specifier.
    · subst hnil
      have hspecifiers := List.filterMap_cons_some (l := []) hz
      refine absurd hcomma.fromToken_eq.2
        (hempty _ hspecifiers rfl _ (List.suffix_append _ _) ?_)
      dsimp only
      rw [hstop]
      exact hd.holds.of_append.add_eq
    · obtain ⟨w₃, e, x, sp, rfl, -, hsuffix, hlast, hsp, hnamed, hspan, hextend⟩ :=
        hxs.extend hnil hns
      have hlast' := (List.getLast?_cons_of_ne_nil (x := Tree.node .defaultImport d.span [d])
        hnil).trans hlast
      rw [ImportDeclaration.extension?_of_getLast hlast' hsp hnamed, append_join] at hplace
      cases hplace
      have hgoes : GoesOn e (others (n :: ns) ++ e) := by
        rw [others_cons_append]
        exact goesOn_comma _ _
      refine ⟨w₁ ++ (w₂ ++ w₃), e, by simp, by simp [ne_nil_of_bindingName hd hsound],
        hspan, hfrom.suffix.trans hsuffix, hgoes, fun F' hF => ?_⟩
      simp only [List.append_assoc] at hF ⊢
      obtain ⟨xs', hsames, hxs'⟩ := hextend hF.of_append.of_append
      have hcomma' := hcomma' _ (hgoes.append w₃)
      obtain ⟨-, d', hsame, hd'⟩ := hd' hF ((hgoes.append w₃).append w₂)
        (hcomma'.isSound (by simp))
      exact ⟨_, .cons (.node (.cons hsame .nil) _ _ _) hsames, .both hd' hcomma'
        ((passes_importSpecifiers hsound').mpr (.inr ⟨hF.of_append.of_append, hxs'⟩)) hfrom⟩

/-- More names are taken behind the last one, or in braces behind a default specifier alone. -/
lemma Clause.exists_extends (h : F.Clause .both u ps r) (hns : ∀ m ∈ n :: ns, IsIdentifier m)
    (hempty : F.NoEmptyBraces u ps)
    (hplace : (⟨m, false, ps.filterMap Specifier.ofTree?, s⟩ : ImportDeclaration).extension?
      (Text.join ", " (n :: ns)) = some (pos, ins)) :
    ∃ w e, F.Extends u r ps (n :: ns) pos ins w e := by
  cases h with
  | default hd hfrom =>
      obtain ⟨w, hextends⟩ := exists_extends_default hd hfrom hns hplace
      exact ⟨w, _, hextends⟩
  | both hd hcomma hxs hfrom => exact exists_extends_both hd hcomma hxs hfrom hns hempty hplace
  | named hxs hfrom => exact exists_extends_named hxs hfrom hns hplace

/-- More names are taken in a declaration. -/
lemma Declares.exists_extends
    (h : F.Declares k u (.node (.importDeclaration m false) s ps) t') (ht' : IsSound t')
    (hns : ∀ m ∈ n :: ns, IsIdentifier m) (hempty : F.NoEmptyBraces u ps)
    (hplace : (⟨m, false, ps.filterMap Specifier.ofTree?, s⟩ : ImportDeclaration).extension?
      (Text.join ", " (n :: ns)) = some (pos, ins)) :
    ∃ w e, u = w ++ e ∧ w ≠ [] ∧ pos = F.size - byteLength e ∧ t' <:+ e ∧ GoesOn e (ins ++ e) ∧
      ∀ ⦃F' : Frame⦄ (k' : Nat), F'.Holds (w ++ (ins ++ e)) →
        ∃ s' ps', List.Forall₂ Tree.SameAs (ps ++ (n :: ns).map Tree.takenAs) ps' ∧
          F'.Declares k' (w ++ (ins ++ e)) (.node (.importDeclaration m false) s' ps') t' := by
  generalize hx : Tree.node (.importDeclaration m false) s ps = x at h
  -- Neither an import without names nor one of types can be extended.
  cases h with
  | bare hm h =>
      obtain ⟨_, _, _, -, -, hx', -⟩ := passes_importSource_portable h ht'
      cases hx.trans hx'
      cases hplace
  | clause hps h =>
      subst hx
      obtain ⟨rfl, hsource⟩ := exists_importSource h ht'
      obtain ⟨w, e, hextends⟩ := hps.exists_extends hns hempty hplace
      refine ⟨w, e, hextends.text, hextends.ne, hextends.place, h.suffix.trans hextends.suffix,
        hextends.goesOn, fun F' k' hF => ?_⟩
      obtain ⟨ps', hsame, hps'⟩ := hextends.clause hF
      obtain ⟨s', h'⟩ := hsource k' ps' (hF.of_append.of_append.of_suffix hextends.suffix)
      exact ⟨s', ps', hsame, .clause hps' h'⟩
  | typed _ _ _ _ h =>
      obtain ⟨_, _, _, -, -, hx', -⟩ := passes_importSource_portable h ht'
      cases hx.trans hx'

end Frame

end ComponentMigration.Script
