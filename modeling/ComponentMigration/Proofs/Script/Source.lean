import ComponentMigration.Proofs.Script.Clause

/-!
The end of an import declaration, from its module on.

* **Ends.** `EndsStatement`: a statement can end here without a semicolon. `Attributes` is what may
  stand between the module and that end.
* **Main statement.** `passes_importSource_portable`: the end of a declaration is read from its own
  characters in front of any text that `Continues` the one behind it.
-/

namespace ComponentMigration.Script

open Text Script.Parser

/-! ### The end of a statement -/

/-- A statement can end here without a semicolon. -/
def EndsStatement (t : Text) : Prop :=
  peek t ≠ .punctuator ";" ∧
    (peek t = .punctuator "\x7d" ∨ peek t = .endOfText ∨ startsFresh t = true)

/-- A statement ends with a semicolon, or where one can be left out. -/
lemma run_endStatement (s : State) : endStatement s =
    if s.token = .punctuator ";" then some ((), s.next)
    else if s.token = .punctuator "\x7d" ∨ s.token = .endOfText ∨ s.isFresh = true then some ((), s)
    else none := by
  rw [endStatement, run_bind, run_eat]
  by_cases hsemicolon : s.token = .punctuator ";"
  · rw [if_pos hsemicolon, if_pos hsemicolon]
    rfl
  · rw [if_neg hsemicolon, if_neg hsemicolon]
    simp only [Option.bind_some, run_bind, run_isAt, run_isAtEnd, run_isFresh, run_require,
      Bool.false_eq_true, if_false, Bool.or_eq_true, beq_iff_eq, or_assoc]

/-- The end of a statement is passed steadily. -/
lemma Steady.endStatement : Steady Parser.endStatement := by
  refine .of_next fun s a s' hs => ?_
  rw [run_endStatement] at hs
  split_ifs at hs with hsemicolon hend
  · cases hs
    exact .inr ⟨hsemicolon ▸ rfl, false, by rw [Bool.or_false]⟩
  · cases hs
    exact .inl rfl

/-- Attributes of an import begin here. -/
def startsAttributes (t : Text) : Bool :=
  peek t == .word "with" false || (peek t == .word "assert" false && !startsFresh t)

/-- Elements in braces in front of a parser. -/
def inBraces {α : Type} (element : Parser Tree) (k : List Tree → Parser α) : Parser α := do
  expect "\x7b"
  let found ← separated "\x7d" "," element
  expect "\x7d"
  k found.1

/-- Attributes stand in braces behind their word. -/
lemma run_passImportAttributes (s : State) : Grammar.passImportAttributes s =
    if (s.token == .word "with" false ||
        (s.token == .word "assert" false && !s.isFresh)) = true then
      inBraces Grammar.attribute (fun _ => pure ()) s.next
    else some ((), s) := by
  rw [Grammar.passImportAttributes, inBraces]
  simp only [run_bind, run_isAtWord, run_isFresh, Option.bind_some, bind_pure_unit]
  split_ifs
  · rw [run_bind, run_advance, Option.bind_some, run_bind]
    rfl
  · rfl

/-- A list in braces is passed steadily. -/
lemma Steady.inBraces {α : Type} {element : Parser Tree} {k : List Tree → Parser α}
    (h : Steady element) (hk : ∀ xs, Steady (k xs)) : Steady (inBraces element k) :=
  .bind (.expect rfl) fun _ => .bind h.separated fun _ => .bind (.expect rfl) fun _ => hk _

/-- Attributes are passed steadily, whether there are any or not. -/
lemma Steady.passImportAttributes : Steady Grammar.passImportAttributes := by
  intro F fl t a s hF h
  rw [run_passImportAttributes] at h
  split_ifs at h with hstarts
  · have hplain : (peek t).isPlain = true := by
      rw [Frame.state_token] at hstarts
      rw [Bool.or_eq_true, Bool.and_eq_true, beq_iff_eq, beq_iff_eq] at hstarts
      rcases hstarts with h | ⟨h, -⟩ <;> rw [h] <;> rfl
    obtain ⟨r, hr⟩ := exists_shows hplain
    have hvalid := Token.ne_invalid hplain
    rw [Frame.state_next hF hr hvalid] at h
    obtain ⟨fl', t', ht', hs, hflawed⟩ :=
      Steady.inBraces .attribute (fun _ => .pure _) (hF.of_suffix hr.suffix) h
    refine ⟨fl', t', ht'.trans hr.suffix, hs, fun hfl => hflawed ?_⟩
    rw [(Frame.state_of_shows hF hr hvalid).2.2] at hfl
    rw [Frame.state_isFlawed, hfl]
    rfl
  · cases h
    exact ⟨fl, t, List.suffix_refl t, rfl, id⟩

namespace Frame

variable {F : Frame} {t t' : Text}

/-- A series of elements begins with a sound text. -/
lemma Series.isSound {r e : Text} {element : Parser Tree} {xs : List Tree} (h : Steady element)
    (hxs : F.Series element r xs e) (he : IsSound e) : IsSound r := by
  cases hxs with
  | intro _ hx hxs => exact hx.isSound h (hxs.isSound he)

/-- What is passed in braces. -/
lemma passes_inBraces {α : Type} {element : Parser Tree} {k : List Tree → Parser α} {a : α}
    (h : Steady element) (hk : ∀ xs, Steady (k xs)) (ht' : IsSound t') :
    F.Passes (inBraces element k) t a t' ↔ F.Holds t ∧ ∃ xs u, IsSound u ∧ F.Braced element t xs u ∧
      F.Passes (k xs) u a t' := by
  rw [inBraces, passes_bind_iff (.expect rfl) (fun _ => .bind h.separated fun _ =>
    .bind (.expect rfl) fun _ => hk _) ht']
  simp only [passes_bind_iff h.separated (fun found => .bind (.expect (w := "\x7d") rfl) fun _ =>
      hk found.1) ht', passes_bind_iff (.expect (w := "\x7d") rfl) (fun _ => hk _) ht']
  constructor
  · rintro ⟨_, r, hr, hopen, found, r', hr', hfound, _, u, hu, hclose, hk⟩
    obtain ⟨hF, fresh, hopen⟩ := (passes_expect (by rfl)).mp hopen
    obtain ⟨-, fresh', hclose⟩ := (passes_expect (by rfl)).mp hclose
    refine ⟨hF, found.1, u, hu, ?_, hk⟩
    -- The braces are empty, or there is a first element and there are others behind it.
    rcases (passes_separated h hr').mp hfound with ⟨-, rfl, rfl, -⟩ |
      ⟨hne, x, v, xs, e, hx, hxs, hend, heq⟩
    · exact .empty hopen hclose
    · rw [heq]
      exact .series hopen (.intro hne hx hxs) hend hclose
  · rintro ⟨hF, xs, u, hu, hxs, hk⟩
    cases hxs with
    | empty hopen hclose =>
        have hF₁ := hF.of_suffix hopen.suffix
        have hr := hclose.isSound (by simp)
        refine ⟨(), _, hr, (passes_expect rfl).mpr ⟨hF, _, hopen⟩, ([], false), _, hr, ?_, (), u,
          hu, (passes_expect rfl).mpr ⟨hF₁, _, hclose⟩, hk⟩
        exact (passes_separated h hr).mpr (.inl ⟨hF₁, rfl, rfl, hclose.fromToken_eq.2⟩)
    | series hopen hxs hend hclose =>
        rename_i r e r' _ _ isTrailing
        have hr' := hclose.isSound (by simp)
        have hF₁ := hF.of_suffix hopen.suffix
        have hF₂ := hF₁.of_suffix (hend.suffix.trans hxs.suffix)
        refine ⟨(), r, hxs.isSound h hend.isSound, (passes_expect rfl).mpr ⟨hF, _, hopen⟩,
          (xs, isTrailing), r', hr', ?_, (), u, hu, (passes_expect rfl).mpr ⟨hF₂, _, hclose⟩, hk⟩
        cases hxs with
        | intro hne hx hxs =>
            exact (passes_separated h hr').mpr (.inr ⟨hne, _, _, _, _, hx, hxs, hend, rfl⟩)

/-- A run between two rests of a text. -/
lemma Passes.of_steady {α : Type} {p : Parser α} {r : Text} {a : α} (hp : Steady p) (hF : F.Holds t)
    (hr : r <:+ t) (ht' : t' <:+ t) (h : p (F.state false r) = some (a, F.state false t')) :
    F.Passes p r a t' := by
  obtain ⟨_, v, hv, hs, -⟩ := hp (hF.of_suffix hr) h
  obtain rfl := state_inj hF ht' (hv.trans hr) hs
  exact ⟨hF.of_suffix hr, hv, h⟩

/-- What is passed at the end of a statement is a semicolon or nothing. -/
lemma passes_endStatement : F.Passes endStatement t () t' ↔
    F.Holds t ∧ ((∃ fresh, Shows t (.punctuator ";") fresh t') ∨ EndsStatement t ∧ t' = t) := by
  have hplain : (Token.punctuator ";").isPlain = true := rfl
  constructor
  · rintro ⟨hF, hsuffix, hrun⟩
    rw [run_endStatement, state_token, state_isFresh] at hrun
    split_ifs at hrun with hsemicolon hend
    · obtain ⟨r, hr⟩ := exists_shows (hsemicolon ▸ hplain)
      rw [state_next hF hr (Token.ne_invalid (hsemicolon ▸ hplain))] at hrun
      obtain rfl := state_inj hF hr.suffix hsuffix (Prod.mk.inj (Option.some.inj hrun)).2
      exact ⟨hF, .inl ⟨_, hsemicolon ▸ hr⟩⟩
    · obtain rfl := state_inj hF (List.suffix_refl t) hsuffix (Prod.mk.inj (Option.some.inj hrun)).2
      exact ⟨hF, .inr ⟨⟨hsemicolon, hend⟩, rfl⟩⟩
  · rintro ⟨hF, ⟨fresh, hr⟩ | ⟨⟨hsemicolon, hend⟩, rfl⟩⟩
    · refine ⟨hF, hr.suffix, ?_⟩
      rw [run_endStatement, state_token, if_pos hr.fromToken_eq.2,
        state_next hF hr (Token.ne_invalid hplain)]
    · refine ⟨hF, List.suffix_refl _, ?_⟩
      rw [run_endStatement, state_token, state_isFresh, if_neg hsemicolon, if_pos hend]

/-- What stands between the module of an import and the end of its statement. -/
inductive Attributes (F : Frame) : Text → Text → Prop
  | none {t : Text} (h : startsAttributes t = false) : F.Attributes t t
  | some {t r t' : Text} {tok : Token} {fresh : Bool} {xs : List Tree}
      (h : startsAttributes t = true) (hword : Shows t tok fresh r)
      (hxs : F.Braced Grammar.attribute r xs t') : F.Attributes t t'

/-- Attributes lead to a text at the end of theirs. -/
lemma Attributes.suffix (h : F.Attributes t t') : t' <:+ t := by
  cases h with
  | none _ => exact List.suffix_refl _
  | some _ hword hxs => exact hxs.suffix.trans hword.suffix

/-- Attributes begin with a word. -/
lemma isPlain_of_startsAttributes (h : startsAttributes t = true) : (peek t).isPlain = true := by
  rw [startsAttributes, Bool.or_eq_true, Bool.and_eq_true, beq_iff_eq, beq_iff_eq] at h
  rcases h with h | ⟨h, -⟩ <;> rw [h] <;> rfl

/-- What is passed as attributes are attributes. -/
lemma passes_passImportAttributes (ht' : IsSound t') :
    F.Passes Grammar.passImportAttributes t () t' ↔ F.Holds t ∧ F.Attributes t t' := by
  have hbraces : ∀ r, F.Passes (inBraces Grammar.attribute fun _ => pure ()) r () t' ↔
      F.Holds r ∧ ∃ xs, F.Braced Grammar.attribute r xs t' := by
    intro r
    rw [passes_inBraces .attribute (fun _ => .pure _) ht']
    simp only [passes_pure]
    constructor
    · rintro ⟨hF, xs, u, -, hxs, -, -, rfl⟩
      exact ⟨hF, xs, hxs⟩
    · rintro ⟨hF, xs, hxs⟩
      exact ⟨hF, xs, t', ht', hxs, hF.of_suffix hxs.suffix, trivial, rfl⟩
  have hrun : Grammar.passImportAttributes (F.state false t) =
      if startsAttributes t = true then
        inBraces Grammar.attribute (fun _ => pure ()) (F.state false t).next
      else some ((), F.state false t) := by
    rw [run_passImportAttributes, state_token, state_isFresh, startsAttributes]
  -- The first token tells whether there are attributes.
  cases hstarts : startsAttributes t with
  | false =>
      rw [hstarts, if_neg Bool.false_ne_true] at hrun
      constructor
      · rintro ⟨hF, hsuffix, h⟩
        rw [hrun] at h
        obtain rfl := state_inj hF (List.suffix_refl t) hsuffix (Prod.mk.inj (Option.some.inj h)).2
        exact ⟨hF, .none hstarts⟩
      · rintro ⟨hF, h⟩
        cases h with
        | none _ => exact ⟨hF, List.suffix_refl _, hrun⟩
        | some h _ _ =>
            rw [hstarts] at h
            cases h
  | true =>
      have hplain := isPlain_of_startsAttributes hstarts
      obtain ⟨r, hr⟩ := exists_shows hplain
      rw [hstarts, if_pos rfl] at hrun
      constructor
      · rintro ⟨hF, hsuffix, h⟩
        rw [hrun, state_next hF hr (Token.ne_invalid hplain)] at h
        have hpasses := Passes.of_steady
          (.inBraces .attribute fun _ => .pure _) hF hr.suffix hsuffix h
        obtain ⟨-, xs, hxs⟩ := (hbraces r).mp hpasses
        exact ⟨hF, .some hstarts hr hxs⟩
      · rintro ⟨hF, h⟩
        cases h with
        | none h =>
            rw [hstarts] at h
            cases h
        | some _ hword hxs =>
            obtain ⟨-, -, rfl⟩ := hr.unique hword
            refine ⟨hF, hxs.suffix.trans hr.suffix, ?_⟩
            rw [hrun, state_next hF hr (Token.ne_invalid hplain)]
            exact ((hbraces r).mpr ⟨hF.of_suffix hr.suffix, _, hxs⟩).run

/-- The end of an import from its module on. -/
lemma passes_importSource {n : Nat} {isType : Bool} {xs : List Tree} {x : Tree} (ht' : IsSound t') :
    F.Passes (Grammar.importSource n isType xs) t x t' ↔ F.Holds t ∧ ∃ m fresh r r',
      Shows t (.string m) fresh r ∧ F.Attributes r r' ∧
        ((∃ fresh', Shows r' (.punctuator ";") fresh' t') ∨ EndsStatement r' ∧ t' = r') ∧
          x = .node (.importDeclaration m isType) ⟨n, F.size - byteLength t'⟩ xs := by
  rw [Grammar.importSource, passes_bind_iff .moduleName (fun _ => .bind .passImportAttributes
    fun _ => .bind .endStatement fun _ => .node _ _ _) ht']
  simp only [passes_bind_iff .passImportAttributes
      (fun _ => .bind .endStatement fun _ => .node _ _ _) ht',
    passes_bind_iff .endStatement (fun _ => .node _ _ _) ht', passes_node]
  constructor
  · rintro ⟨m, r, -, hm, _, r', hr', hattributes, _, v, hv, hend, -, rfl, rfl⟩
    obtain ⟨hF, fresh, hm⟩ := passes_moduleName.mp hm
    exact ⟨hF, m, fresh, r, r', hm, ((passes_passImportAttributes hr').mp hattributes).2,
      (passes_endStatement.mp hend).2, rfl⟩
  · rintro ⟨hF, m, fresh, r, r', hm, hattributes, hend, rfl⟩
    have hF₁ := hF.of_suffix hm.suffix
    have hF₂ := hF₁.of_suffix hattributes.suffix
    have hend' := passes_endStatement.mpr ⟨hF₂, hend⟩
    have hr' := hend'.isSound .endStatement ht'
    have hpasses := (passes_passImportAttributes hr').mpr ⟨hF₁, hattributes⟩
    exact ⟨m, r, hpasses.isSound .passImportAttributes hr', passes_moduleName.mpr ⟨hF, _, hm⟩, (),
      r', hr', hpasses, (), t', ht', hend', hF₂.of_suffix hend'.suffix, rfl, rfl⟩

/-- Attributes are read from their own characters. -/
lemma Attributes.portable (h : F.Attributes t t') :
    ∃ w, t = w ++ t' ∧ ∀ ⦃F' : Frame⦄ ⦃u : Text⦄, F'.Holds (w ++ u) → GoesOn t' u →
      (startsAttributes t' = false → startsAttributes u = false) → F'.Attributes (w ++ u) u := by
  cases h with
  | none h => exact ⟨[], rfl, fun F' u _ _ hu => .none (hu h)⟩
  | some h hword hxs =>
      have hplain := isPlain_of_startsAttributes h
      rw [hword.fromToken_eq.2] at hplain
      obtain ⟨w₁, -, rfl, hword'⟩ := hword.goesOn hplain
      obtain ⟨w₂, rfl, hxs'⟩ := hxs.portable portable_attribute
      refine ⟨w₁ ++ w₂, by simp, fun F' u hF hgoes _ => ?_⟩
      rw [List.append_assoc] at hF ⊢
      obtain ⟨xs', -, hxs'⟩ := hxs' hF.of_append hgoes
      have hword' := hword' _ (hgoes.append w₂)
      refine .some ?_ hword' hxs'
      rwa [startsAttributes, hword'.fromToken_eq.1, hword'.fromToken_eq.2, ← hword.fromToken_eq.1,
        ← hword.fromToken_eq.2]

end Frame

/-- What can follow an import in place of another text. -/
structure Continues (t u : Text) : Prop where
  goesOn : GoesOn t u
  ends : EndsStatement t → EndsStatement u
  attributes : startsAttributes t = false → startsAttributes u = false

/-- What stands behind a declaration continues it. -/
lemma Continues.refl (t : Text) : Continues t t := ⟨.inl rfl, id, id⟩

namespace Frame

variable {F : Frame} {t t' : Text}

/-- The end of a declaration is moved piece by piece: the module, the attributes, and the semicolon
if there is one. -/
lemma passes_importSource_portable {n : Nat} {isType : Bool} {xs : List Tree} {x : Tree}
    (h : F.Passes (Grammar.importSource n isType xs) t x t') (ht' : IsSound t') :
    ∃ w m s, t = w ++ t' ∧ peek t = .string m ∧ x = .node (.importDeclaration m isType) s xs ∧
      s.stop = F.size - byteLength t' ∧
      ∀ ⦃F' : Frame⦄ (n' : Nat) (xs' : List Tree) ⦃u : Text⦄, F'.Holds (w ++ u) → IsSound u →
        Continues t' u → peek (w ++ u) = .string m ∧ ∃ s',
          F'.Passes (Grammar.importSource n' isType xs') (w ++ u)
            (.node (.importDeclaration m isType) s' xs') u := by
  obtain ⟨hF, m, fresh, r, r', hm, hattributes, hend, rfl⟩ := (passes_importSource ht').mp h
  obtain ⟨w₁, -, rfl, hm'⟩ := hm.goesOn rfl
  obtain ⟨w₂, rfl, hattributes'⟩ := hattributes.portable
  -- With a semicolon the text behind it does not matter for the attributes; without one it has
  -- to end the statement.
  rcases hend with ⟨fresh', hend⟩ | ⟨hend, rfl⟩
  · obtain ⟨w₃, -, rfl, hend'⟩ := hend.goesOn rfl
    refine ⟨w₁ ++ (w₂ ++ w₃), m, _, by simp, hm.fromToken_eq.2, rfl, rfl,
      fun F' n' xs' u hF hu hcontinues => ?_⟩
    simp only [List.append_assoc] at hF ⊢
    have hgoes := hcontinues.goesOn.append w₃
    have hend' := hend' u hcontinues.goesOn
    have hm' := hm' _ (hgoes.append w₂)
    refine ⟨hm'.fromToken_eq.2, _, (passes_importSource hu).mpr ⟨hF, m, fresh, _, _, hm',
      hattributes' hF.of_append hgoes fun _ => ?_, .inl ⟨_, hend'⟩, rfl⟩⟩
    rw [startsAttributes, hend'.fromToken_eq.2]
    rfl
  · refine ⟨w₁ ++ w₂, m, _, by simp, hm.fromToken_eq.2, rfl, rfl,
      fun F' n' xs' u hF hu hcontinues => ?_⟩
    rw [List.append_assoc] at hF ⊢
    have hm' := hm' _ (hcontinues.goesOn.append w₂)
    exact ⟨hm'.fromToken_eq.2, _, (passes_importSource hu).mpr ⟨hF, m, fresh, _, _, hm',
      hattributes' hF.of_append hcontinues.goesOn hcontinues.attributes,
      .inr ⟨hcontinues.ends hend, rfl⟩, rfl⟩⟩

end Frame

end ComponentMigration.Script
