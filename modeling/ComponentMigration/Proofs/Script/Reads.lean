import ComponentMigration.Proofs.Script.Stmt

/-!
Statements that are import declarations.

* **Frames.** A statement is read from the head of its text in the frame `Frame.of`.
* **Main statement.** `Program.statement?_import_iff`: an import declaration is the statement at
  the head of a text exactly if the text behind the word `import` declares it.
-/

namespace ComponentMigration.Script

open Text Script.Parser

/-! ### Statements that are imports -/

/-- The frame of a statement at the head of a text. -/
def Frame.of (t : Text) : Frame := ⟨byteLength t, t.length + 1⟩

lemma Frame.holds_of (t : Text) : (Frame.of t).Holds t := ⟨Nat.le_refl _, Nat.lt_succ_self _⟩

lemma first_eq_state (t : Text) : State.first [] t true = (Frame.of t).state false t := by
  rw [State.first, Frame.state, Frame.of, Nat.sub_self]
  rfl

lemma Grammar.run_startsTypeImport (s : State) : ∃ b, startsTypeImport s = some (b, s) ∧
    (b = true → s.token = .word "type" false) := by
  simp only [startsTypeImport, run_bind, run_isAtWord, Option.bind_some]
  cases htype : s.token == .word "type".toList false
  · exact ⟨false, rfl, fun h => by cases h⟩
  · exact ⟨_, run_ahead s _, fun _ => eq_of_beq htype⟩

lemma Steady.moduleImport (n : Nat) : Steady (Grammar.moduleImport n) := by
  refine .bind (.look run_token) fun _ => .ite (.importSource _ _ _) ?_
  refine .passIf (fun s => ?_) fun _ => .importClause _ _
  obtain ⟨b, hb, htype⟩ := Grammar.run_startsTypeImport s
  exact ⟨b, hb, fun h => by rw [htype h]; rfl⟩

/-- An import declaration begins with no import expression. -/
lemma Frame.Declares.peek_ne {F : Frame} {n : Nat} {t t' : Text} {x : Tree}
    (h : F.Declares n t x t') :
    peek t ≠ .punctuator "(" ∧ peek t ≠ .punctuator "." := by
  have hclause : ∀ {b ps r}, F.Clause b t ps r →
      peek t ≠ .punctuator "(" ∧ peek t ≠ .punctuator "." := by
    intro b ps r hps
    have hidentifier : (peek t).isIdentifier = true →
        peek t ≠ .punctuator "(" ∧ peek t ≠ .punctuator "." := by
      cases peek t <;> simp [Token.isIdentifier]
    cases hps with
    | default hd hfrom =>
        exact hidentifier (isIdentifier_of_bindingName (hfrom.isSound (by simp)) hd)
    | both hd hcomma _ _ =>
        exact hidentifier (isIdentifier_of_bindingName (hcomma.isSound (by simp)) hd)
    | named hxs hfrom =>
        rcases (passes_importSpecifiers (hfrom.isSound (by simp))).mp hxs with ⟨d, hd, -⟩ | ⟨-, hxs⟩
        · obtain ⟨-, _, _, _, _, _, hstar, -⟩ :=
            (passes_namespaceSpecifier (hfrom.isSound (by simp))).mp hd
          rw [hstar.fromToken_eq.2]
          decide
        · rw [hxs.peek_eq]
          decide
  cases h with
  | bare hm _ => simp [hm]
  | clause hps _ => exact hclause hps
  | typed _ htype _ _ _ => simp [htype.fromToken_eq.2]

/-! ### Trees that differ in their places -/

lemma Tree.hasDefault_unplaced (t : Tree) : hasDefault t.unplaced = hasDefault t := by
  induction t using Tree.ind with
  | h f s ps ih =>
      have hall : anyHasDefault (unplacedAll ps) = anyHasDefault ps := by
        induction ps with
        | nil => rfl
        | cons p ps ih' =>
            rw [unplacedAll, anyHasDefault, anyHasDefault, ih p List.mem_cons_self,
              ih' fun q hq => ih q (List.mem_cons_of_mem p hq)]
      rw [Tree.unplaced]
      cases f <;> first | rfl | exact hall

lemma Tree.SameAs.hasDefault_eq {t t' : Tree} (h : t.SameAs t') : hasDefault t = hasDefault t' := by
  rw [← t.hasDefault_unplaced, ← t'.hasDefault_unplaced, h]

namespace Program

variable {t r : Text} {x : Tree}

lemma statement?_eq_some_iff : statement? t = some (x, r) ↔ IsSound t ∧ ∃ s,
    Grammar.statement (grammar (depthFor t - 1)) ((Frame.of t).state false t) = some (x, s) ∧
      s.isFlawed = false ∧ hasDefault x = false ∧ r = s.here := by
  have hdepth : grammar (depthFor t) .statement = Grammar.statement (grammar (depthFor t - 1)) := by
    have hpos : depthFor t = depthFor t - 1 + 1 := by
      rw [depthFor, depthPerToken]
      omega
    rw [hpos]
    rfl
  have hsound : ((Frame.of t).state false t).isFlawed = false ↔ IsSound t := by
    simp [Frame.state_isFlawed_eq_false_iff]
  rw [statement?, first_eq_state, hdepth, ← hsound]
  generalize (Frame.of t).state false t = s₀
  cases hflawed : s₀.isFlawed with
  | true => simp
  | false =>
      cases hrun : Grammar.statement (grammar (depthFor t - 1)) s₀ with
      | none => simp
      | some found =>
          obtain ⟨y, s⟩ := found
          simp only [Bool.false_eq_true, if_false, accept?, Option.map_eq_some_iff,
            Prod.mk.injEq, Option.some.injEq, true_and]
          constructor
          · rintro ⟨z, hz, rfl, rfl⟩
            split_ifs at hz with h
            cases hz
            simp only [Bool.or_eq_true, not_or, Bool.not_eq_true] at h
            exact ⟨s, ⟨rfl, rfl⟩, h.1, h.2, rfl⟩
          · rintro ⟨_, ⟨rfl, rfl⟩, h, h', rfl⟩
            exact ⟨y, by rw [h, h']; rfl, rfl, rfl⟩

lemma atImportExpression_eq_false {F : Frame} {fl fresh : Bool} {u t' : Text} {n : Nat}
    (hF : F.Holds t) (himport : Shows t (.word "import" false) fresh u) (h : F.Declares n u x t') :
    Grammar.atImportExpression (F.state fl t) = false := by
  rw [Grammar.atImportExpression, Frame.state_next hF himport (by simp)]
  simp only [Frame.state_token]
  rw [beq_eq_false_iff_ne.mpr h.peek_ne.1, beq_eq_false_iff_ne.mpr h.peek_ne.2]
  simp

/-- An import declaration as a statement. -/
lemma statement?_import_iff (hx : ImportDeclaration.ofTree? x ≠ none) :
    statement? t = some (x, r) ↔ hasDefault x = false ∧ ∃ fresh u t',
      Shows t (.word "import" false) fresh u ∧ IsSound t' ∧ r = fromToken t' ∧
        (Frame.of t).Declares ((Frame.of t).state false t).start u x t' := by
  have hF := Frame.holds_of t
  rw [statement?_eq_some_iff]
  simp only [Grammar.run_statement hx, Grammar.run_moduleImport hx]
  constructor
  · rintro ⟨hsound, s, ⟨htoken, -, hrun⟩, hflawed, hdefault, rfl⟩
    rw [Frame.state_token] at htoken
    obtain ⟨u, himport⟩ := exists_shows (t := t) (by rw [htoken]; rfl)
    rw [htoken] at himport
    rw [Frame.state_next hF himport (by simp)] at hrun
    obtain ⟨fl', t', ht', rfl, -⟩ := Steady.moduleImport _ (hF.of_suffix himport.suffix) hrun
    obtain ⟨rfl, hsound'⟩ := Frame.state_isFlawed_eq_false_iff.mp hflawed
    have hpasses : (Frame.of t).Passes (Grammar.moduleImport _) u x t' :=
      ⟨hF.of_suffix himport.suffix, ht', hrun⟩
    exact ⟨hdefault, _, u, t', himport, hsound', Frame.state_here,
      (Frame.passes_moduleImport hsound').mp hpasses⟩
  · rintro ⟨hdefault, fresh, u, t', himport, ht', rfl, h⟩
    refine ⟨himport.isSound (by simp), (Frame.of t).state false t', ⟨?_, ?_, ?_⟩, ?_, hdefault,
      Frame.state_here.symm⟩
    · rw [Frame.state_token, himport.fromToken_eq.2]
    · exact atImportExpression_eq_false hF himport h
    · rw [Frame.state_next hF himport (by simp)]
      exact ((Frame.passes_moduleImport ht').mpr h).run
    · exact Frame.state_isFlawed_eq_false_iff.mpr ⟨rfl, ht'⟩

end Program

end ComponentMigration.Script
