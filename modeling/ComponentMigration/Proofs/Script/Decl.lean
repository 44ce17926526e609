import ComponentMigration.Proofs.Script.Source
import ComponentMigration.Script.Import

/-!
Import declarations, part by part.

* **Parts.** `importFrom`, `importOthers`, `importClause` and `moduleImport` are the steps of the
  parser of a declaration; `run_moduleImport` says that a tree of a declaration comes from them,
  and not from the alias of an import.
* **Yields.** `Yields p P`: what the parser `p` reads has the property `P`.
* **Main statement.** `passes_importClause`: what declares names is a `Clause`, that is a default
  specifier, a list, or both, in front of the word `from`.
-/

namespace ComponentMigration.Script

open Text Script.Parser

/-- A word that can be an identifier. -/
def Token.isIdentifier : Token → Bool
  | .word w _ => isIdentifierWord w
  | _ => false

/-- Whether an identifier stands here is told by the token. -/
lemma run_isAtIdentifier (s : State) : isAtIdentifier s = some (s.token.isIdentifier, s) := by
  rw [isAtIdentifier, run_bind, run_get, Option.bind_some]
  cases s.token <;> rfl

namespace Grammar

/-- An import declaration from the word `from` on. -/
def importFrom (start : Nat) (isType : Bool) (specifiers : List Tree) : Parser Tree := do
  expectWord "from"
  importSource start isType specifiers

/-- An import declaration behind its default specifier. -/
def importOthers (start : Nat) (isType : Bool) (binder : Binder) (declared : Tree) :
    Parser Tree := do
  require (!(← isAt "="))
  let others ← if ← eat "," then importSpecifiers binder else pure []
  importFrom start isType (.node .defaultImport declared.span [declared] :: others)

/-- An import declaration from its names on. -/
def importClause (start : Nat) (isType : Bool) : Parser Tree := do
  let binder : Binder := if isType then .type else .both
  if ← isAtIdentifier then
    let declared ← bindingName binder
    importOthers start isType binder declared
  else
    let specifiers ← importSpecifiers binder
    importFrom start isType specifiers

/-- An import declaration that is no alias. -/
def moduleImport (start : Nat) : Parser Tree := do
  let tok ← token
  if tok.isText then importSource start false []
  else
    let isType ← startsTypeImport
    if isType then advance
    importClause start isType

/-- A parser has no results but such ones. -/
def Yields {α : Type} (p : Parser α) (P : α → Prop) : Prop :=
  ∀ ⦃s s' : State⦄ ⦃a : α⦄, p s = some (a, s') → P a

namespace Yields

variable {α β : Type} {p q : Parser α} {f : α → Parser β} {P : α → Prop} {Q : β → Prop}

/-- What comes last is what is yielded. -/
lemma bind (h : ∀ a, Yields (f a) Q) : Yields (p >>= f) Q := by
  intro s s' b hb
  rw [run_bind] at hb
  obtain ⟨⟨a, s₁⟩, -, h₂⟩ := Option.bind_eq_some_iff.mp hb
  exact h a h₂

/-- A choice yields what its branches do. -/
lemma ite {b : Prop} [Decidable b] (hp : Yields p P) (hq : Yields q P) :
    Yields (if b then p else q) P := by
  split_ifs
  · exact hp
  · exact hq

/-- A node has its form and its parts. -/
lemma node {R : Tree → Prop} {g : Form} {n : Nat} {ps : List Tree}
    (h : ∀ s, R (.node g s ps)) : Yields (Parser.node g n ps) R := by
  intro s s' b hb
  rw [run_node] at hb
  cases hb
  exact h _

end Yields

/-- An import of something with a name of its own is no import declaration. -/
lemma yields_importAlias (start : Nat) (declared : Tree) :
    Yields (importAlias start declared) fun t => ImportDeclaration.ofTree? t = none := by
  have hnode : ∀ ps, Yields (do
      endStatement
      Parser.node .other start ps) fun t => ImportDeclaration.ofTree? t = none :=
    fun ps => .bind fun _ => .node fun _ => rfl
  rw [importAlias]
  refine .bind fun _ => .bind fun _ => .ite (.bind fun isModule => ?_) (.bind fun isModule => ?_)
  all_goals
    refine .ite (.bind fun _ => .bind fun _ => .bind fun tok => ?_) (.bind fun _ => hnode _)
    split <;> exact .bind fun _ => .bind fun _ => hnode _

/-- An import declaration from its names on, or an alias. -/
def importClauseOrAlias (start : Nat) (isType : Bool) : Parser Tree := do
  let binder : Binder := if isType then .type else .both
  if ← isAtIdentifier then
    let declared ← bindingName binder
    if ← isAt "=" then importAlias start declared
    else
      let default := Tree.node .defaultImport declared.span [declared]
      let others ← if ← eat "," then importSpecifiers binder else pure []
      expectWord "from"
      importSource start isType (default :: others)
  else
    let specifiers ← importSpecifiers binder
    expectWord "from"
    importSource start isType specifiers

/-- The parser of a declaration is put together from its steps. -/
lemma importDeclaration_eq (start : Nat) : importDeclaration start = (do
    let tok ← token
    if tok.isText then importSource start false []
    else
      let isType ← startsTypeImport
      if isType then advance
      importClauseOrAlias start isType) := by
  rw [importDeclaration]
  congr 1
  funext tok
  cases tok <;> rfl

variable {s s' : State} {x : Tree} {start : Nat} {isType : Bool}

/-- A tree of an import declaration does not come from an alias. -/
lemma run_importClause (hx : ImportDeclaration.ofTree? x ≠ none) :
    importClauseOrAlias start isType s = some (x, s') ↔
      importClause start isType s = some (x, s') := by
  simp only [importClauseOrAlias, importClause, importOthers, importFrom, run_bind,
    run_isAtIdentifier, Option.bind_some]
  cases s.token.isIdentifier with
  | false => rfl
  | true =>
      simp only [if_true, run_bind]
      cases bindingName (if isType = true then .type else .both) s with
      | none => rfl
      | some d =>
          obtain ⟨d, s₁⟩ := d
          simp only [Option.bind_some, run_isAt, run_require]
          cases s₁.token == .punctuator "=" with
          | false => rfl
          | true =>
              refine ⟨fun h => absurd (yields_importAlias start d h) hx, fun h => ?_⟩
              cases h

/-- What is read as an import declaration is no alias. -/
lemma run_moduleImport (hx : ImportDeclaration.ofTree? x ≠ none) :
    importDeclaration start s = some (x, s') ↔ moduleImport start s = some (x, s') := by
  simp only [importDeclaration_eq, moduleImport, run_bind, run_token, Option.bind_some]
  cases s.token.isText with
  | true => rfl
  | false =>
      simp only [Bool.false_eq_true, if_false, run_bind]
      cases startsTypeImport s with
      | none => rfl
      | some b =>
          obtain ⟨isType, s₁⟩ := b
          cases isType with
          | false => exact run_importClause hx
          | true =>
              simp only [Option.bind_some, if_true, run_bind, run_advance]
              exact run_importClause hx

end Grammar

/-! ### Names -/

/-- An import of everything is passed steadily. -/
lemma Steady.namespaceSpecifier (b : Binder) : Steady (Grammar.namespaceSpecifier b) :=
  .bind (.look run_place) fun _ => .bind (.expect rfl) fun _ => .bind (.expectWord _) fun _ =>
    .bind (.bindingName b) fun _ => .node _ _ _

/-- Specifiers are an import of everything or a list in braces. -/
lemma Grammar.importSpecifiers_eq (b : Binder) : Grammar.importSpecifiers b = (do
    if ← isAt "*" then
      let declared ← Grammar.namespaceSpecifier b
      return [declared]
    else inBraces (Grammar.importSpecifier b) pure) := rfl

/-- Specifiers are passed steadily. -/
lemma Steady.importSpecifiers (b : Binder) : Steady (Grammar.importSpecifiers b) := by
  rw [Grammar.importSpecifiers_eq]
  exact .bind (.look fun s => run_isAt s _) fun _ => .ite
    (.bind (.namespaceSpecifier b) fun _ => .pure _)
      (.inBraces (.importSpecifier b) fun _ => .pure _)

/-- The end of a declaration is passed steadily. -/
lemma Steady.importSource (n : Nat) (isType : Bool) (xs : List Tree) :
    Steady (Grammar.importSource n isType xs) :=
  .bind .moduleName fun _ => .bind .passImportAttributes fun _ => .bind .endStatement fun _ =>
    .node _ _ _

lemma Steady.importFrom (n : Nat) (isType : Bool) (xs : List Tree) :
    Steady (Grammar.importFrom n isType xs) :=
  .bind (.expectWord _) fun _ => .importSource _ _ _

lemma Steady.importOthers (n : Nat) (isType : Bool) (b : Binder) (d : Tree) :
    Steady (Grammar.importOthers n isType b d) := by
  refine .bind (.look fun s => run_isAt s _) fun _ => .bind (.require _) fun _ => ?_
  refine .bind (.eat rfl) fun _ => .ite (.bind (.importSpecifiers b) fun _ => .importFrom _ _ _) ?_
  exact .bind (.pure _) fun _ => .importFrom _ _ _

/-- What declares names is passed steadily. -/
lemma Steady.importClause (n : Nat) (isType : Bool) : Steady (Grammar.importClause n isType) :=
  .bind (.look run_isAtIdentifier) fun _ => .ite
    (.bind (.bindingName _) fun _ => .importOthers _ _ _ _)
    (.bind (.importSpecifiers _) fun _ => .importFrom _ _ _)

namespace Frame

variable {F : Frame} {b : Binder} {t t' : Text} {x : Tree} {xs : List Tree}

/-- A name is declared. -/
lemma passes_bindingName (ht' : IsSound t') : F.Passes (bindingName b) t x t' ↔ F.Holds t ∧
    ∃ w isEscaped fresh, isIdentifierWord w = true ∧ isOperatorWord {} w = false ∧
      Shows t (.word w isEscaped) fresh t' ∧
        x = .node (.binding w b none) ⟨(F.state false t).start, F.size - byteLength t'⟩ [] := by
  rw [bindingName, passes_look_iff run_place,
    passes_bind_iff .identifier (fun _ => .node _ _ _) ht']
  simp only [passes_node]
  constructor
  · rintro ⟨w, u, hu, hw, -, rfl, rfl⟩
    obtain ⟨hF, hidentifier, hoperator, isEscaped, fresh, hshows⟩ := (passes_identifier hu).mp hw
    exact ⟨hF, w, isEscaped, fresh, hidentifier, hoperator, hshows, rfl⟩
  · rintro ⟨hF, w, isEscaped, fresh, hidentifier, hoperator, hshows, rfl⟩
    exact ⟨w, t', ht', (passes_identifier ht').mpr ⟨hF, hidentifier, hoperator, isEscaped, fresh,
      hshows⟩, hF.of_suffix hshows.suffix, rfl, rfl⟩

/-- Everything is imported under one name. -/
lemma passes_namespaceSpecifier (ht' : IsSound t') :
    F.Passes (Grammar.namespaceSpecifier b) t x t' ↔ F.Holds t ∧ ∃ r r' d fresh fresh',
      Shows t (.punctuator "*") fresh r ∧ Shows r (.word "as" false) fresh' r' ∧
        F.Passes (bindingName b) r' d t' ∧
          x = .node .namespaceImport ⟨(F.state false t).start, F.size - byteLength t'⟩ [d] := by
  rw [Grammar.namespaceSpecifier, passes_look_iff run_place, passes_bind_iff (.expect rfl) (fun _ =>
    .bind (.expectWord _) fun _ => .bind (.bindingName b) fun _ => .node _ _ _) ht']
  simp only [passes_bind_iff (.expectWord "as") (fun _ => .bind (.bindingName b) fun _ =>
    .node _ _ _) ht', passes_bind_iff (.bindingName b) (fun _ => .node _ _ _) ht', passes_node]
  constructor
  · rintro ⟨_, r, -, hstar, _, r', -, has, d, u, -, hd, -, rfl, rfl⟩
    obtain ⟨hF, fresh, hstar⟩ := (passes_expect (by rfl)).mp hstar
    obtain ⟨-, fresh', has⟩ := passes_expectWord.mp has
    exact ⟨hF, r, r', d, fresh, fresh', hstar, has, hd, rfl⟩
  · rintro ⟨hF, r, r', d, fresh, fresh', hstar, has, hd, rfl⟩
    have hF₁ := hF.of_suffix hstar.suffix
    exact ⟨(), r, has.isSound (by simp), (passes_expect rfl).mpr ⟨hF, _, hstar⟩, (), r',
      hd.isSound (.bindingName b) ht', passes_expectWord.mpr ⟨hF₁, _, has⟩, d, t', ht', hd,
      hd.holds.of_suffix hd.suffix, rfl, rfl⟩

/-- Specifiers are passed as an import of everything, or in braces. -/
lemma passes_importSpecifiers (ht' : IsSound t') : F.Passes (Grammar.importSpecifiers b) t xs t' ↔
    (∃ d, F.Passes (Grammar.namespaceSpecifier b) t d t' ∧ xs = [d]) ∨
      F.Holds t ∧ F.Braced (Grammar.importSpecifier b) t xs t' := by
  rw [Grammar.importSpecifiers_eq, passes_look_iff fun s => run_isAt s _, passes_ite_iff,
    state_token, beq_iff_eq, beq_eq_false_iff_ne,
    passes_bind_iff (.namespaceSpecifier b) (fun _ => .pure _) ht',
    passes_inBraces (.importSpecifier b) (fun _ => .pure _) ht']
  simp only [passes_pure]
  constructor
  · rintro (⟨-, d, u, -, hd, -, rfl, rfl⟩ | ⟨-, hF, ys, u, -, hxs, -, rfl, rfl⟩)
    · exact .inl ⟨d, hd, rfl⟩
    · exact .inr ⟨hF, hxs⟩
  · rintro (⟨d, hd, rfl⟩ | ⟨hF, hxs⟩)
    -- A star begins the one, and a brace the other.
    · obtain ⟨-, r, r', _, _, _, hstar, -⟩ := (passes_namespaceSpecifier ht').mp hd
      exact .inl ⟨hstar.fromToken_eq.2, d, t', ht', hd, hd.holds.of_suffix hd.suffix, rfl, rfl⟩
    · refine .inr ⟨?_, hF, xs, t', ht', hxs, hF.of_suffix hxs.suffix, rfl, rfl⟩
      cases hxs with
      | empty hopen _ =>
          rw [hopen.fromToken_eq.2]
          decide
      | series hopen _ _ _ =>
          rw [hopen.fromToken_eq.2]
          decide

/-- A punctuator is passed if it is there. -/
lemma passes_eat_iff {α : Type} {f : Bool → Parser α} {a : α} {w : Text}
    (hplain : (Token.punctuator w).isPlain = true) (hf : ∀ b, Steady (f b)) :
    F.Passes (eat w >>= f) t a t' ↔
      (F.Holds t ∧ ∃ fresh u, Shows t (.punctuator w) fresh u ∧ F.Passes (f true) u a t') ∨
        peek t ≠ .punctuator w ∧ F.Passes (f false) t a t' := by
  have hvalid := Token.ne_invalid hplain
  constructor
  · rintro ⟨hF, hsuffix, hrun⟩
    rw [run_bind, run_eat, state_token] at hrun
    -- The punctuator is there and is passed, or the parser goes on where it is.
    split_ifs at hrun with htoken
    · obtain ⟨u, hu⟩ := exists_shows (htoken ▸ hplain)
      rw [htoken] at hu
      rw [state_next hF hu hvalid, Option.bind_some] at hrun
      exact .inl ⟨hF, _, u, hu, .of_steady (hf true) hF hu.suffix hsuffix hrun⟩
    · exact .inr ⟨htoken, hF, hsuffix, hrun⟩
  · rintro (⟨hF, fresh, u, hu, h⟩ | ⟨htoken, hF, hsuffix, hrun⟩)
    · refine ⟨hF, h.suffix.trans hu.suffix, ?_⟩
      rw [run_bind, run_eat, state_token, if_pos hu.fromToken_eq.2, state_next hF hu hvalid,
        Option.bind_some, h.run]
    · refine ⟨hF, hsuffix, ?_⟩
      rw [run_bind, run_eat, state_token, if_neg htoken, Option.bind_some, hrun]

/-- What stands between the word `import` and the module, with the word `from`. -/
inductive Clause (F : Frame) (b : Binder) : Text → List Tree → Text → Prop
  | default {t r t' : Text} {d : Tree} {fresh : Bool} (hd : F.Passes (bindingName b) t d r)
      (hfrom : Shows r (.word "from" false) fresh t') :
      F.Clause b t [.node .defaultImport d.span [d]] t'
  | both {t r r' u t' : Text} {d : Tree} {xs : List Tree} {fresh fresh' : Bool}
      (hd : F.Passes (bindingName b) t d r) (hcomma : Shows r (.punctuator ",") fresh r')
      (hxs : F.Passes (Grammar.importSpecifiers b) r' xs u)
      (hfrom : Shows u (.word "from" false) fresh' t') :
      F.Clause b t (.node .defaultImport d.span [d] :: xs) t'
  | named {t r t' : Text} {xs : List Tree} {fresh : Bool}
      (hxs : F.Passes (Grammar.importSpecifiers b) t xs r)
      (hfrom : Shows r (.word "from" false) fresh t') : F.Clause b t xs t'

/-- A name that is declared begins with an identifier. -/
lemma isIdentifier_of_bindingName {r : Text} {d : Tree} (hr : IsSound r)
    (h : F.Passes (bindingName b) t d r) : (peek t).isIdentifier = true := by
  obtain ⟨-, w, isEscaped, fresh, hidentifier, -, hshows, -⟩ := (passes_bindingName hr).mp h
  rw [hshows.fromToken_eq.2]
  exact hidentifier

/-- Specifiers begin with a star or a brace. -/
lemma not_isIdentifier_of_importSpecifiers {r : Text} (hr : IsSound r)
    (h : F.Passes (Grammar.importSpecifiers b) t xs r) : (peek t).isIdentifier = false := by
  rcases (passes_importSpecifiers hr).mp h with ⟨d, hd, -⟩ | ⟨-, hxs⟩
  · obtain ⟨-, _, _, _, _, _, hstar, -⟩ := (passes_namespaceSpecifier hr).mp hd
    rw [hstar.fromToken_eq.2]
    rfl
  · cases hxs with
    | empty hopen _ =>
        rw [hopen.fromToken_eq.2]
        rfl
    | series hopen _ _ _ =>
        rw [hopen.fromToken_eq.2]
        rfl

/-- The module of a declaration stands behind the word `from`. -/
lemma passes_importFrom {n : Nat} {isType : Bool} (ht' : IsSound t') :
    F.Passes (Grammar.importFrom n isType xs) t x t' ↔ F.Holds t ∧ ∃ fresh r, IsSound r ∧
      Shows t (.word "from" false) fresh r ∧
        F.Passes (Grammar.importSource n isType xs) r x t' := by
  rw [Grammar.importFrom, passes_bind_iff (.expectWord _) (fun _ => .importSource _ _ _) ht']
  simp only [passes_expectWord]
  constructor
  · rintro ⟨_, r, hr, ⟨hF, fresh, hfrom⟩, h⟩
    exact ⟨hF, fresh, r, hr, hfrom, h⟩
  · rintro ⟨hF, fresh, r, hr, hfrom, h⟩
    exact ⟨(), r, hr, ⟨hF, fresh, hfrom⟩, h⟩

/-- Behind a default specifier the word `from` follows, or a comma and further specifiers. -/
lemma passes_importOthers {n : Nat} {isType : Bool} {d : Tree} (ht' : IsSound t') :
    F.Passes (Grammar.importOthers n isType b d) t x t' ↔ F.Holds t ∧
      (F.Passes (Grammar.importFrom n isType [.node .defaultImport d.span [d]]) t x t' ∨
        ∃ fresh r xs u, Shows t (.punctuator ",") fresh r ∧ IsSound u ∧
          F.Passes (Grammar.importSpecifiers b) r xs u ∧
            F.Passes (Grammar.importFrom n isType (.node .defaultImport d.span [d] :: xs))
              u x t') := by
  have hfrom := Steady.importFrom n isType
  rw [Grammar.importOthers, passes_look_iff fun s => run_isAt s _, passes_require_iff, state_token,
    passes_eat_iff rfl fun _ => .ite (.bind (.importSpecifiers b) fun _ => hfrom _)
      (.bind (.pure _) fun _ => hfrom _)]
  simp only [if_true, Bool.false_eq_true, if_false, pure_bind,
    passes_bind_iff (.importSpecifiers b) (fun _ => hfrom _) ht']
  constructor
  · rintro ⟨-, ⟨hF, fresh, r, hcomma, ys, u, hu, hys, h⟩ | ⟨-, h⟩⟩
    · exact ⟨hF, .inr ⟨fresh, r, ys, u, hcomma, hu, hys, h⟩⟩
    · exact ⟨h.holds, .inl h⟩
  · rintro ⟨hF, h | ⟨fresh, r, ys, u, hcomma, hu, hys, h⟩⟩
    · obtain ⟨-, fresh, r, -, hfrom, -⟩ := (passes_importFrom ht').mp h
      rw [hfrom.fromToken_eq.2]
      exact ⟨rfl, .inr ⟨by simp, h⟩⟩
    · rw [hcomma.fromToken_eq.2]
      exact ⟨by decide, .inl ⟨hF, fresh, r, hcomma, ys, u, hu, hys, h⟩⟩

/-- An import declaration is read clause by clause. -/
lemma passes_importClause {n : Nat} {isType : Bool} (ht' : IsSound t') :
    F.Passes (Grammar.importClause n isType) t x t' ↔
      ∃ ps r, IsSound r ∧ F.Clause (if isType = true then .type else .both) t ps r ∧
        F.Passes (Grammar.importSource n isType ps) r x t' := by
  rw [Grammar.importClause]
  generalize (if isType = true then Binder.type else Binder.both) = binder
  rw [passes_look_iff run_isAtIdentifier, passes_ite_iff, state_token,
    passes_bind_iff (.bindingName _) (fun _ => .importOthers _ _ _ _) ht',
    passes_bind_iff (.importSpecifiers _) (fun _ => .importFrom _ _ _) ht']
  simp only [passes_importOthers ht', passes_importFrom ht']
  constructor
  · rintro (⟨-, d, u, hu, hd, hF, ⟨-, fresh, r, hr, hfrom, h⟩ |
      ⟨fresh, r, xs, v, hcomma, hv, hxs, hF', fresh', r', hr', hfrom, h⟩⟩ |
      ⟨-, xs, u, hu, hxs, hF, fresh, r, hr, hfrom, h⟩)
    · exact ⟨_, r, hr, .default hd hfrom, h⟩
    · exact ⟨_, r', hr', .both hd hcomma hxs hfrom, h⟩
    · exact ⟨_, r, hr, .named hxs hfrom, h⟩
  · rintro ⟨ps, r, hr, hclause, h⟩
    -- The first token tells a default specifier from a list: an identifier, a star or a brace.
    cases hclause with
    | default hd hfrom =>
        have hu := hfrom.isSound (by simp)
        have hF := hd.holds.of_suffix hd.suffix
        exact .inl ⟨isIdentifier_of_bindingName hu hd, _, _, hu, hd, hF,
          .inl ⟨hF, _, r, hr, hfrom, h⟩⟩
    | both hd hcomma hxs hfrom =>
        have hu := hcomma.isSound (by simp)
        have hF := hd.holds.of_suffix hd.suffix
        exact .inl ⟨isIdentifier_of_bindingName hu hd, _, _, hu, hd, hF,
          .inr ⟨_, _, _, _, hcomma, hfrom.isSound (by simp), hxs, hxs.holds.of_suffix hxs.suffix, _,
            r, hr, hfrom, h⟩⟩
    | named hxs hfrom =>
        have hu := hfrom.isSound (by simp)
        exact .inr ⟨not_isIdentifier_of_importSpecifiers hu hxs, ps, _, hu, hxs,
          hxs.holds.of_suffix hxs.suffix, _, r, hr, hfrom, h⟩

end Frame

end ComponentMigration.Script
