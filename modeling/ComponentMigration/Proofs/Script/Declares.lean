import ComponentMigration.Proofs.Script.Decl

/-!
Import declarations are read from their own characters.

* **Movable parsers.** A `Movable` parser reads a text from its own characters if what stands
  behind it begins alike.
* **The word `type`.** `beginsTyped`: the word at the head of a declaration stands for one of types
  only, and is no name.
* **Main statement.** `Declares` are the three shapes of a declaration: with a module alone, with a
  clause, and of types. `Declares.portable`: each is read as before in front of any text that
  continues what stood behind it.
-/

namespace ComponentMigration.Script

open Text Script.Parser

/-! ### Moving names -/

/-- A parser reads a text from its own characters, whatever goes on behind it. -/
def Movable {α : Type} (p : Parser α) (R : α → α → Prop) : Prop :=
  ∀ ⦃F : Frame⦄ ⦃t t' : Text⦄ ⦃a : α⦄, F.Passes p t a t' → IsSound t' →
    ∃ w, t = w ++ t' ∧ ∀ ⦃F' : Frame⦄ ⦃u : Text⦄, F'.Holds (w ++ u) → GoesOn t' u → IsSound u →
      peek (w ++ u) = peek t ∧ ∃ a', R a a' ∧ F'.Passes p (w ++ u) a' u

/-- A name that is declared is read from its own characters. -/
lemma movable_bindingName (b : Binder) : Movable (bindingName b) Tree.SameAs := by
  intro F t t' d hd ht'
  obtain ⟨-, w, isEscaped, fresh, hidentifier, hoperator, hshows, rfl⟩ :=
    (Frame.passes_bindingName ht').mp hd
  obtain ⟨v, -, rfl, hgoes⟩ := hshows.goesOn rfl
  refine ⟨v, rfl, fun F' u hF hu hsound => ?_⟩
  have hshows' := hgoes u hu
  exact ⟨by rw [hshows.fromToken_eq.2, hshows'.fromToken_eq.2], _, .node .nil _ _ _,
    (Frame.passes_bindingName hsound).mpr
      ⟨hF, w, isEscaped, fresh, hidentifier, hoperator, hshows', rfl⟩⟩

/-- An import of everything is read from its own characters. -/
lemma movable_namespaceSpecifier (b : Binder) :
    Movable (Grammar.namespaceSpecifier b) Tree.SameAs := by
  intro F t t' x hx ht'
  obtain ⟨-, r, r', d, fresh, fresh', hstar, has, hd, rfl⟩ :=
    (Frame.passes_namespaceSpecifier ht').mp hx
  obtain ⟨w₁, -, rfl, hstar'⟩ := hstar.goesOn rfl
  obtain ⟨w₂, -, rfl, has'⟩ := has.goesOn rfl
  obtain ⟨w₃, rfl, hd'⟩ := movable_bindingName b hd ht'
  refine ⟨w₁ ++ (w₂ ++ w₃), by simp, fun F' u hF hgoes hu => ?_⟩
  simp only [List.append_assoc] at hF ⊢
  obtain ⟨-, d', hsame, hd'⟩ := hd' hF.of_append.of_append hgoes hu
  have hstar' := hstar' _ ((hgoes.append w₃).append w₂)
  exact ⟨by rw [hstar.fromToken_eq.2, hstar'.fromToken_eq.2], _, .node (.cons hsame .nil) _ _ _,
    (Frame.passes_namespaceSpecifier hu).mpr
      ⟨hF, _, _, d', fresh, fresh', hstar', has' _ (hgoes.append w₃), hd', rfl⟩⟩

/-- A list in braces begins with a brace. -/
lemma Frame.Braced.peek_eq {F : Frame} {element : Parser Tree} {t t' : Text} {xs : List Tree}
    (h : F.Braced element t xs t') : peek t = .punctuator "\x7b" := by
  cases h with
  | empty hopen _ => exact hopen.fromToken_eq.2
  | series hopen _ _ _ => exact hopen.fromToken_eq.2

/-- Specifiers are read from their own characters. -/
lemma movable_importSpecifiers (b : Binder) :
    Movable (Grammar.importSpecifiers b) (List.Forall₂ Tree.SameAs) := by
  intro F t t' xs hxs ht'
  rcases (Frame.passes_importSpecifiers ht').mp hxs with ⟨d, hd, rfl⟩ | ⟨-, hxs⟩
  · obtain ⟨w, rfl, hd'⟩ := movable_namespaceSpecifier b hd ht'
    refine ⟨w, rfl, fun F' u hF hgoes hu => ?_⟩
    obtain ⟨hpeek, d', hsame, hd'⟩ := hd' hF hgoes hu
    exact ⟨hpeek, [d'], .cons hsame .nil,
      (Frame.passes_importSpecifiers hu).mpr (.inl ⟨d', hd', rfl⟩)⟩
  · obtain ⟨w, rfl, hxs'⟩ := hxs.portable (portable_importSpecifier b)
    refine ⟨w, rfl, fun F' u hF hgoes hu => ?_⟩
    obtain ⟨xs', hsame, hxs'⟩ := hxs' hF hgoes
    exact ⟨by rw [hxs'.peek_eq, hxs.peek_eq], xs', hsame,
      (Frame.passes_importSpecifiers hu).mpr (.inr ⟨hF, hxs'⟩)⟩

/-! ### The word `type` -/

/-- The text behind the first token. -/
def behind (t : Text) : Text := (Lexeme.read (fromToken t)).rest

/-- What stands behind the first token. -/
lemma Shows.behind_eq {t r : Text} {tok : Token} {fresh : Bool} (h : Shows t tok fresh r) :
    behind t = r := by
  obtain ⟨g, w, rfl, hgap, htoken, hread⟩ := h
  rw [behind, fromToken, skipTrivia_of_gap hgap htoken, hread]

/-- What makes the word `type` in front of a text say that types are imported. -/
def followsType (t : Text) : Bool :=
  if peek t = .word "from" false then
    peek (behind t) == .word "from" false || peek (behind t) == .punctuator "="
  else (peek t).isIdentifier || (peek t == .punctuator "*" || peek t == .punctuator "\x7b")

/-- Whether an import of types begins here. -/
def beginsTyped (t : Text) : Bool := peek t == .word "type" false && followsType (behind t)

/-- Whether a declaration is one of types is told by what follows the word. -/
lemma run_startsTypeImport {F : Frame} {fl : Bool} {t : Text} (hF : F.Holds t) :
    Grammar.startsTypeImport (F.state fl t) = some (beginsTyped t, F.state fl t) := by
  rw [Grammar.startsTypeImport, beginsTyped, run_bind, run_isAtWord, Frame.state_token,
    Option.bind_some]
  cases htype : peek t == .word "type" false with
  | false => rfl
  | true =>
      have hpeek : peek t = .word "type" false := eq_of_beq htype
      obtain ⟨r, hr⟩ := exists_shows (t := t) (hpeek ▸ rfl)
      rw [hpeek] at hr
      have hFr := hF.of_suffix hr.suffix
      rw [if_pos rfl, run_ahead, run_bind, run_advance, Frame.state_next hF hr (by simp),
        hr.behind_eq, Option.bind_some, run_bind, run_eatWord, Frame.state_token, followsType,
        Bool.true_and]
      -- Behind `type from` it depends on one token more.
      split_ifs with hfrom
      · obtain ⟨v, hv⟩ := exists_shows (t := r) (hfrom ▸ rfl)
        rw [hfrom] at hv
        rw [Frame.state_next hFr hv (by simp), Option.bind_some, if_pos rfl, hv.behind_eq]
        simp
      · rw [Option.bind_some, if_neg Bool.false_ne_true]
        simp only [run_bind, run_isAtIdentifier, run_isAtAny, Frame.state_token, Option.bind_some,
          run_pure, Option.map_some, Option.getD_some]
        congr 3
        rw [Bool.eq_iff_iff]
        cases peek r <;> simp

/-! ### Import declarations -/

namespace Frame

variable {F : Frame} {b : Binder} {t r t' : Text} {x : Tree} {xs ps : List Tree} {m : Text}

/-- A frame that passes a clause holds its text. -/
lemma Clause.holds (h : F.Clause b t ps r) : F.Holds t := by
  cases h with
  | default hd _ => exact hd.holds
  | both hd _ _ _ => exact hd.holds
  | named hxs _ => exact hxs.holds

/-- A clause that is followed by a module does not begin with an import of types. -/
lemma Clause.beginsTyped_eq (h : F.Clause b t ps r) (hr : peek r = .string m) :
    beginsTyped t = false := by
  have hsound := isSound_of_isPlain (t := r) (hr ▸ rfl)
  rw [beginsTyped, followsType]
  cases h with
  -- A default specifier with the name `type` is followed by `from` and the module,
  | default hd hfrom =>
      obtain ⟨-, w, isEscaped, fresh, -, -, hshows, -⟩ :=
        (passes_bindingName (hfrom.isSound (by simp))).mp hd
      rw [hshows.behind_eq, hfrom.fromToken_eq.2, if_pos rfl, hfrom.behind_eq, hr]
      simp
  -- or by a comma,
  | both hd hcomma hxs hfrom =>
      obtain ⟨-, w, isEscaped, fresh, -, -, hshows, -⟩ :=
        (passes_bindingName (hcomma.isSound (by simp))).mp hd
      rw [hshows.behind_eq, hcomma.fromToken_eq.2, if_neg (by simp)]
      simp [Token.isIdentifier]
  -- and specifiers do not begin with a word.
  | named hxs hfrom =>
      have hne := not_isIdentifier_of_importSpecifiers (hfrom.isSound (by simp)) hxs
      have htype : (peek t == .word "type" false) = false := by
        rw [beq_eq_false_iff_ne]
        rintro heq
        rw [heq] at hne
        exact absurd hne (by decide)
      rw [htype, Bool.false_and]

/-- An import declaration behind the word `import`. -/
inductive Declares (F : Frame) (n : Nat) : Text → Tree → Text → Prop
  | bare {t t' m : Text} {x : Tree} (hm : peek t = .string m)
      (h : F.Passes (Grammar.importSource n false []) t x t') : F.Declares n t x t'
  | clause {t r t' : Text} {x : Tree} {ps : List Tree} (hps : F.Clause .both t ps r)
      (h : F.Passes (Grammar.importSource n false ps) r x t') : F.Declares n t x t'
  | typed {t u r t' : Text} {x : Tree} {ps : List Tree} {fresh : Bool}
      (hF : F.Holds t) (htype : Shows t (.word "type" false) fresh u)
      (hfollows : followsType u = true) (hps : F.Clause .type u ps r)
      (h : F.Passes (Grammar.importSource n true ps) r x t') : F.Declares n t x t'

/-- The end of a declaration begins with the name of its module. -/
lemma exists_string_of_importSource {n : Nat} {isType : Bool}
    (h : F.Passes (Grammar.importSource n isType ps) r x t') (ht' : IsSound t') :
    ∃ m, peek r = .string m := by
  obtain ⟨-, m, fresh, _, _, hm, -⟩ := (passes_importSource ht').mp h
  exact ⟨m, hm.fromToken_eq.2⟩

/-- A clause does not begin with a string. -/
lemma Clause.isText_eq (h : F.Clause b t ps r) : (peek t).isText = false := by
  cases h with
  | default hd hfrom =>
      have hidentifier := isIdentifier_of_bindingName (hfrom.isSound (by simp)) hd
      revert hidentifier
      cases peek t <;> simp [Token.isIdentifier, Token.isText]
  | both hd hcomma hxs hfrom =>
      have hidentifier := isIdentifier_of_bindingName (hcomma.isSound (by simp)) hd
      revert hidentifier
      cases peek t <;> simp [Token.isIdentifier, Token.isText]
  | named hxs hfrom =>
      rcases (passes_importSpecifiers (hfrom.isSound (by simp))).mp hxs with ⟨d, hd, -⟩ | ⟨-, hxs⟩
      · obtain ⟨-, _, _, _, _, _, hstar, -⟩ :=
          (passes_namespaceSpecifier (hfrom.isSound (by simp))).mp hd
        rw [hstar.fromToken_eq.2]
        rfl
      · rw [hxs.peek_eq]
        rfl

/-- The word `type` is passed where it stands for an import of types. -/
lemma passes_typeImport {f : Bool → Parser Tree} (hf : Steady (f true)) :
    F.Passes (Grammar.startsTypeImport >>= fun isType => if isType = true then
        advance >>= fun _ => f isType else f isType) t x t' ↔
      F.Holds t ∧ ((∃ fresh u, Shows t (.word "type" false) fresh u ∧ followsType u = true ∧
          F.Passes (f true) u x t') ∨ beginsTyped t = false ∧ F.Passes (f false) t x t') := by
  constructor
  · rintro ⟨hF, hsuffix, hrun⟩
    rw [run_bind, run_startsTypeImport hF, Option.bind_some] at hrun
    cases htyped : beginsTyped t with
    | false =>
        rw [htyped] at hrun
        exact ⟨hF, .inr ⟨rfl, hF, hsuffix, hrun⟩⟩
    | true =>
        rw [htyped, if_pos rfl, run_bind, run_advance, Option.bind_some] at hrun
        rw [beginsTyped, Bool.and_eq_true, beq_iff_eq] at htyped
        obtain ⟨htype, hfollows⟩ := htyped
        obtain ⟨u, hu⟩ := exists_shows (t := t) (htype ▸ rfl)
        rw [htype] at hu
        rw [state_next hF hu (by simp)] at hrun
        rw [hu.behind_eq] at hfollows
        exact ⟨hF, .inl ⟨_, u, hu, hfollows, .of_steady hf hF hu.suffix hsuffix hrun⟩⟩
  · rintro ⟨hF, ⟨fresh, u, hu, hfollows, h⟩ | ⟨htyped, h⟩⟩
    · refine ⟨hF, h.suffix.trans hu.suffix, ?_⟩
      have htyped : beginsTyped t = true := by
        rw [beginsTyped, hu.behind_eq, hfollows, hu.fromToken_eq.2]
        rfl
      rw [run_bind, run_startsTypeImport hF, htyped, Option.bind_some, if_pos rfl, run_bind,
        run_advance, state_next hF hu (by simp), Option.bind_some, h.run]
    · refine ⟨hF, h.suffix, ?_⟩
      rw [run_bind, run_startsTypeImport hF, htyped, Option.bind_some, if_neg Bool.false_ne_true,
        h.run]

/-- What the parser of a declaration passes is a declaration in one of the three shapes. -/
lemma passes_moduleImport {n : Nat} (ht' : IsSound t') :
    F.Passes (Grammar.moduleImport n) t x t' ↔ F.Declares n t x t' := by
  rw [Grammar.moduleImport, passes_look_iff run_token, passes_ite_iff, state_token,
    passes_typeImport (.importClause n true)]
  simp only [passes_importClause ht', if_true, Bool.false_eq_true, if_false]
  constructor
  · rintro (⟨htext, h⟩ |
      ⟨-, hF, ⟨fresh, u, hu, hfollows, ps, r, hr, hps, h⟩ | ⟨-, ps, r, hr, hps, h⟩⟩)
    · obtain ⟨m, hm⟩ := exists_string_of_importSource h ht'
      exact .bare hm h
    · exact .typed hF hu hfollows hps h
    · exact .clause hps h
  · rintro h
    cases h with
    | bare hm h => exact .inl ⟨by rw [hm]; rfl, h⟩
    | clause hps h =>
        obtain ⟨m, hm⟩ := exists_string_of_importSource h ht'
        exact .inr ⟨hps.isText_eq, hps.holds, .inr ⟨hps.beginsTyped_eq hm, _, _,
          h.isSound (.importSource _ _ _) ht', hps, h⟩⟩
    | typed hF hu hfollows hps h =>
        exact .inr ⟨by rw [hu.fromToken_eq.2]; rfl, hF, .inl ⟨_, _, hu, hfollows, _, _,
          h.isSound (.importSource _ _ _) ht', hps, h⟩⟩

/-! ### Moving declarations -/

/-- Whether types are imported depends on two tokens at most. -/
lemma followsType_congr {t u : Text} (h : peek t = peek u)
    (h' : peek t = .word "from" false → peek (behind t) = peek (behind u)) :
    followsType t = followsType u := by
  rw [followsType, followsType, ← h]
  split_ifs with hfrom
  · rw [h' hfrom]
  · rfl

/-- A name that is declared is one token. -/
lemma behind_of_bindingName {d : Tree} (h : F.Passes (bindingName b) t d r) (hr : IsSound r) :
    behind t = r := by
  obtain ⟨-, _, _, _, -, -, hshows, -⟩ := (passes_bindingName hr).mp h
  exact hshows.behind_eq

/-- A clause is read from its own characters; it ends with the word `from`. -/
lemma Clause.portable (h : F.Clause b t ps r) :
    ∃ w, t = w ++ r ∧ ∀ ⦃F' : Frame⦄ ⦃u : Text⦄, F'.Holds (w ++ u) → GoesOn r u →
      peek (w ++ u) = peek t ∧ followsType (w ++ u) = followsType t ∧
        ∃ ps', List.Forall₂ Tree.SameAs ps ps' ∧ F'.Clause b (w ++ u) ps' u := by
  cases h with
  -- In each shape the pieces are moved one by one, each in front of the pieces behind it. The
  -- first token, and the one behind it, are the same.
  | default hd hfrom =>
      have hsound := hfrom.isSound (by simp)
      have hbehind := behind_of_bindingName hd hsound
      obtain ⟨w₁, rfl, hd'⟩ := movable_bindingName b hd hsound
      obtain ⟨w₂, -, rfl, hfrom'⟩ := hfrom.goesOn rfl
      refine ⟨w₁ ++ w₂, by simp, fun F' u hF hgoes => ?_⟩
      rw [List.append_assoc] at hF ⊢
      have hfrom' := hfrom' u hgoes
      obtain ⟨hpeek, d', hsame, hd'⟩ := hd' hF (hgoes.append w₂) (hfrom'.isSound (by simp))
      refine ⟨hpeek, followsType_congr hpeek fun _ => ?_, _,
        .cons (.node (.cons hsame .nil) _ _ _) .nil,
        .default hd' hfrom'⟩
      rw [behind_of_bindingName hd' (hfrom'.isSound (by simp)), hbehind, hfrom.fromToken_eq.2,
        hfrom'.fromToken_eq.2]
  | both hd hcomma hxs hfrom =>
      have hsound := hcomma.isSound (by simp)
      have hbehind := behind_of_bindingName hd hsound
      obtain ⟨w₁, rfl, hd'⟩ := movable_bindingName b hd hsound
      obtain ⟨w₂, -, rfl, hcomma'⟩ := hcomma.goesOn rfl
      obtain ⟨w₃, rfl, hxs'⟩ := movable_importSpecifiers b hxs (hfrom.isSound (by simp))
      obtain ⟨w₄, -, rfl, hfrom'⟩ := hfrom.goesOn rfl
      refine ⟨w₁ ++ (w₂ ++ (w₃ ++ w₄)), by simp, fun F' u hF hgoes => ?_⟩
      simp only [List.append_assoc] at hF ⊢
      have hgoes₃ := (hgoes.append w₄).append w₃
      have hfrom' := hfrom' u hgoes
      have hcomma' := hcomma' _ hgoes₃
      obtain ⟨-, xs', hsames, hxs'⟩ := hxs' hF.of_append.of_append (hgoes.append w₄)
        (hfrom'.isSound (by simp))
      obtain ⟨hpeek, d', hsame, hd'⟩ := hd' hF (hgoes₃.append w₂) (hcomma'.isSound (by simp))
      refine ⟨hpeek, followsType_congr hpeek fun _ => ?_, _,
        .cons (.node (.cons hsame .nil) _ _ _) hsames, .both hd' hcomma' hxs' hfrom'⟩
      rw [behind_of_bindingName hd' (hcomma'.isSound (by simp)), hbehind, hcomma.fromToken_eq.2,
        hcomma'.fromToken_eq.2]
  | named hxs hfrom =>
      have hsound := hfrom.isSound (by simp)
      have hnot := not_isIdentifier_of_importSpecifiers hsound hxs
      obtain ⟨w₁, rfl, hxs'⟩ := movable_importSpecifiers b hxs hsound
      obtain ⟨w₂, -, rfl, hfrom'⟩ := hfrom.goesOn rfl
      refine ⟨w₁ ++ w₂, by simp, fun F' u hF hgoes => ?_⟩
      rw [List.append_assoc] at hF ⊢
      have hfrom' := hfrom' u hgoes
      obtain ⟨hpeek, xs', hsame, hxs'⟩ := hxs' hF (hgoes.append w₂) (hfrom'.isSound (by simp))
      refine ⟨hpeek, followsType_congr hpeek fun hword => ?_, xs', hsame, .named hxs' hfrom'⟩
      rw [← hpeek, hword] at hnot
      exact absurd hnot (by decide)

/-- An import declaration is read from its own characters. -/
lemma Declares.portable {n : Nat} (h : F.Declares n t x t') (ht' : IsSound t') :
    ∃ w m isType s ps, t = w ++ t' ∧ x = .node (.importDeclaration m isType) s ps ∧
      s.stop = F.size - byteLength t' ∧ ∀ ⦃F' : Frame⦄ (n' : Nat) ⦃u : Text⦄, F'.Holds (w ++ u) →
        IsSound u → Continues t' u → peek (w ++ u) = peek t ∧ ∃ s' ps',
          List.Forall₂ Tree.SameAs ps ps' ∧
            F'.Declares n' (w ++ u) (.node (.importDeclaration m isType) s' ps') u := by
  cases h with
  | bare hm h =>
      obtain ⟨w, m, s, rfl, hm', rfl, hstop, hpasses⟩ := passes_importSource_portable h ht'
      refine ⟨w, m, false, s, [], rfl, rfl, hstop, fun F' n' u hF hu hcontinues => ?_⟩
      obtain ⟨hpeek, s', h'⟩ := hpasses n' [] hF hu hcontinues
      exact ⟨hpeek.trans hm'.symm, s', [], .nil, .bare hpeek h'⟩
  | clause hps h =>
      obtain ⟨w₁, rfl, hps'⟩ := hps.portable
      obtain ⟨w₂, m, s, rfl, hm, rfl, hstop, hpasses⟩ := passes_importSource_portable h ht'
      refine ⟨w₁ ++ w₂, m, false, s, _, by simp, rfl, hstop, fun F' n' u hF hu hcontinues => ?_⟩
      rw [List.append_assoc] at hF ⊢
      -- The clause stands in front of the module, and the module in front of the new text.
      obtain ⟨hpeek, -, ps', hsame, hps'⟩ := hps' hF (hcontinues.goesOn.append w₂)
      obtain ⟨-, s', h'⟩ := hpasses n' ps' hF.of_append hu hcontinues
      exact ⟨hpeek, s', ps', hsame, .clause hps' h'⟩
  | typed hF htype hfollows hps h =>
      obtain ⟨w₀, -, rfl, htype'⟩ := htype.goesOn rfl
      obtain ⟨w₁, rfl, hps'⟩ := hps.portable
      obtain ⟨w₂, m, s, rfl, hm, rfl, hstop, hpasses⟩ := passes_importSource_portable h ht'
      refine ⟨w₀ ++ (w₁ ++ w₂), m, true, s, _, by simp, rfl, hstop,
        fun F' n' u hF hu hcontinues => ?_⟩
      simp only [List.append_assoc] at hF ⊢
      have hgoes := hcontinues.goesOn.append w₂
      obtain ⟨-, hfollows', ps', hsame, hps'⟩ := hps' hF.of_append hgoes
      obtain ⟨-, s', h'⟩ := hpasses n' ps' hF.of_append.of_append hu hcontinues
      have htype' := htype' _ (hgoes.append w₁)
      exact ⟨htype'.fromToken_eq.2.trans htype.fromToken_eq.2.symm, s', ps', hsame,
        .typed hF htype' (hfollows'.trans hfollows) hps' h'⟩

end Frame

end ComponentMigration.Script
