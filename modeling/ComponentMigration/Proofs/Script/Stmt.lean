import ComponentMigration.Proofs.Script.Written

/-!
Only an import declaration is read as one.

* **Other statements.** `ReadsNoImport`: a parser never gives the tree of an import declaration.
  That holds of every statement but the one that begins with the word `import`.
* **Main statement.** `run_statement`: where a statement is an import declaration, the parser of
  statements has run the one of declarations.
-/

namespace ComponentMigration.Script

open Text Script.Parser

namespace Grammar

/-- A parser reads no import declaration. -/
abbrev ReadsNoImport (p : Parser Tree) : Prop :=
  Yields p fun t => ImportDeclaration.ofTree? t = none

/-- A context does not change what a parser yields. -/
lemma Yields.within {α : Type} {p : Parser α} {P : α → Prop} (change : Context → Context)
    (h : Yields p P) : Yields (Parser.within change p) P := by
  intro s s' a ha
  simp only [Parser.within, run_bind, run_get, Option.bind_some] at ha
  obtain ⟨⟨_, s₁⟩, -, ha⟩ := Option.bind_eq_some_iff.mp ha
  obtain ⟨⟨a', s₂⟩, ha', hrest⟩ := Option.bind_eq_some_iff.mp ha
  obtain ⟨⟨_, s₃⟩, -, hrest⟩ := Option.bind_eq_some_iff.mp hrest
  cases hrest
  exact h ha'

namespace ReadsNoImport

variable (self : Grammar) (start : Nat)

lemma node (ps : List Tree) : ReadsNoImport (Parser.node .other start ps) :=
  Yields.node fun _ => rfl

/-- Either way behind a test. -/
lemma test {α : Type} {c : Parser α} {f : α → Bool} {p q : Parser Tree} (hp : ReadsNoImport p)
    (hq : ReadsNoImport q) : ReadsNoImport (c >>= fun b => if f b = true then p else q) :=
  .bind fun _ => .ite hp hq

lemma blockStatement : ReadsNoImport (blockStatement self) :=
  .bind fun _ => .bind fun _ => Yields.node fun _ => rfl

lemma ifStatement : ReadsNoImport (ifStatement self start) :=
  .bind fun _ => .bind fun _ => .bind fun _ => .bind fun _ => .ite
    (.bind fun _ => .bind fun _ => node _ _) (.bind fun _ => node _ _)

lemma switchStatement : ReadsNoImport (switchStatement self start) :=
  .bind fun _ => .bind fun _ => .bind fun _ => .bind fun _ => .bind fun _ => .bind fun _ =>
    .bind fun _ => node _ _

lemma tryStatement : ReadsNoImport (tryStatement self start) :=
  .bind fun _ => .bind fun _ => .bind fun _ => .bind fun _ => .ite
    (.bind fun _ => .bind fun _ => .bind fun _ => node _ _)
    (.bind fun _ => .bind fun _ => node _ _)

lemma whileStatement : ReadsNoImport (whileStatement self start) :=
  .bind fun _ => .bind fun _ => .bind fun _ => node _ _

lemma doStatement : ReadsNoImport (doStatement self start) :=
  .bind fun _ => .bind fun _ => .bind fun _ => .bind fun _ => .bind fun _ => node _ _

/-- A loop with a declaration in its head is a region, and any other loop a plain node. -/
lemma forStatement : ReadsNoImport (forStatement self start) := by
  refine .bind fun _ => .bind fun _ => .ite (.bind fun _ => .bind fun _ => .bind fun _ => ?_) ?_
  all_goals
    refine .bind fun _ => .bind fun _ => .bind fun _ => .bind fun _ => .bind fun _ =>
      .bind fun _ => ?_
    refine .ite ?_ (.ite ?_ ?_)
    · exact .bind fun _ => .bind fun _ => .bind fun _ => .bind fun _ => .bind fun _ =>
        .bind fun _ => .bind fun _ => .bind fun _ => node _ _
    · exact .bind fun _ => .bind fun _ => .bind fun _ => .bind fun _ => .bind fun _ =>
        .bind fun _ => .bind fun _ => .bind fun _ => node _ _
    · exact .bind fun _ => .bind fun _ => .bind fun _ => node _ _

lemma returnStatement : ReadsNoImport (returnStatement self start) := by
  refine .bind fun _ => .bind fun _ => .bind fun _ => .bind fun _ => .ite ?_ ?_
  · exact .bind fun _ => .bind fun _ => node _ _
  · exact .bind fun _ => .bind fun _ => .bind fun _ => node _ _

lemma throwStatement : ReadsNoImport (throwStatement self start) :=
  .bind fun _ => .bind fun _ => .bind fun _ => .bind fun _ => .bind fun _ => node _ _

lemma jumpStatement : ReadsNoImport (jumpStatement start) :=
  .bind fun _ => .bind fun _ => .ite (.bind fun _ => node _ _)
    (.bind fun _ => .bind fun _ => node _ _)

lemma expressionStatement : ReadsNoImport (expressionStatement self) := by
  refine .bind fun _ => .bind fun e => ?_
  split
  all_goals
    exact .bind fun _ => .ite (.bind fun _ => .bind fun _ => node _ _) (.bind fun _ => node _ _)

lemma variableStatement : ReadsNoImport (variableStatement self start) :=
  .bind fun _ => .bind fun _ => .bind fun _ => .bind fun _ => node _ _

lemma interfaceDeclaration : ReadsNoImport (interfaceDeclaration self start) := by
  refine .bind fun _ => .bind fun _ => .bind fun _ => .bind fun _ => .bind fun _ => .ite ?_ ?_
  · exact .bind fun _ => .bind fun _ => .bind fun _ => .bind fun _ => node _ _
  · exact .bind fun _ => .bind fun _ => .bind fun _ => node _ _

lemma aliasDeclaration : ReadsNoImport (aliasDeclaration self start) :=
  .bind fun _ => .bind fun _ => .bind fun _ => .bind fun _ => .bind fun _ => .bind fun _ =>
    .bind fun _ => .bind fun _ => node _ _

lemma enumDeclaration : ReadsNoImport (enumDeclaration self start) :=
  .bind fun _ => .bind fun _ => .bind fun _ => .bind fun _ => .bind fun _ => .bind fun _ =>
    .bind fun _ => .bind fun _ => node _ _

lemma namespaceDeclaration : ReadsNoImport (namespaceDeclaration self start) :=
  .bind fun _ => .bind fun _ => .bind fun _ => .bind fun _ => node _ _

lemma ambientModule : ReadsNoImport (ambientModule self start) := by
  refine .bind fun _ => .bind fun tok => ?_
  split
  · refine .bind fun _ => .bind fun _ => ?_
    exact test (.bind fun _ => .bind fun _ => node _ _) (.bind fun _ => node _ _)
  · refine .bind fun _ => ?_
    exact test (.bind fun _ => .bind fun _ => node _ _) (.bind fun _ => node _ _)

lemma classDeclaration (marks : List Tree) : ReadsNoImport (classDeclaration self start marks) :=
  .bind fun _ => .bind fun _ => .bind fun _ => .bind fun _ => .bind fun _ => node _ _

lemma functionDeclaration (isAsync isNameless : Bool) :
    ReadsNoImport (functionDeclaration self start isAsync isNameless) := by
  refine .bind fun _ => .bind fun _ => .bind fun _ => .ite ?_ ?_
  · exact .bind fun _ => .bind fun _ => .bind fun _ => .bind fun _ => node _ _
  · exact .bind fun _ => .bind fun _ => .bind fun _ => .bind fun _ => .bind fun _ => node _ _

lemma exportSource : ReadsNoImport (exportSource start) :=
  .bind fun _ => .bind fun _ => .bind fun _ => node _ _

lemma exportNames : ReadsNoImport (exportNames start) :=
  .bind fun _ => .bind fun _ => .ite (exportSource _) (.bind fun _ => .bind fun _ => node _ _)

lemma exportAll : ReadsNoImport (exportAll start) :=
  .bind fun _ => .bind fun _ => .ite (.bind fun _ => .bind fun _ => exportSource _)
    (.bind fun _ => exportSource _)

lemma exportDefault (marks : List Tree) : ReadsNoImport (exportDefault self start marks) := by
  refine .bind fun _ => test (.bind fun _ => .ite (.bind fun _ => ?_) ?_)
    (.bind fun _ => .ite (.bind fun _ => ?_) ?_)
  all_goals
    refine test (classDeclaration _ _ _) (test (functionDeclaration _ _ _ _) (test ?_ ?_))
    · exact .bind fun _ => functionDeclaration _ _ _ _
    · exact .bind fun _ => test (interfaceDeclaration _ _)
        (.bind fun _ => .bind fun _ => .bind fun _ => node _ _)

/-- A declaration at its own word. -/
lemma declarationHere (marks : List Tree) : ReadsNoImport (declarationHere self start marks) := by
  refine test (.bind fun _ => ?_) (.bind fun _ => ?_)
  all_goals
    refine test (enumDeclaration _ _) (test (variableStatement _ _) (test ?_ ?_))
    · exact .bind fun _ => variableStatement _ _
    · refine test (classDeclaration _ _ _) (test (functionDeclaration _ _ _ _) (test ?_ ?_))
      · exact .bind fun _ => functionDeclaration _ _ _ _
      · exact test (interfaceDeclaration _ _) (test (aliasDeclaration _ _)
          (test (ambientModule _ _) (.bind fun _ => .bind fun _ =>
            test (namespaceDeclaration _ _) (ambientModule _ _))))

lemma declaration (marks : List Tree) : ReadsNoImport (declaration self start marks) :=
  .bind fun _ => .within _ (declarationHere _ _ _)

lemma exportDeclaration (marks : List Tree) :
    ReadsNoImport (exportDeclaration self start marks) := by
  refine .bind fun _ => test (.bind fun _ => .ite (.bind fun _ => ?_) ?_)
    (.bind fun _ => .ite (.bind fun _ => ?_) ?_)
  all_goals
    refine test (exportNames _) (test (exportAll _) (test (exportDefault _ _ _) (test ?_ ?_)))
    · exact test (.bind fun _ => .bind fun _ => yields_importAlias _ _)
        (.bind fun _ => yields_importAlias _ _)
    · refine test (.bind fun _ => .bind fun _ => node _ _) (test ?_ ?_)
      · exact .bind fun _ => .bind fun _ => .bind fun _ => node _ _
      · exact .bind fun _ => .within _ (declaration _ _ _)

lemma decoratedStatement : ReadsNoImport (decoratedStatement self) :=
  .bind fun _ => .bind fun _ => test (exportDeclaration _ _ _)
    (.bind fun _ => .bind fun _ => .bind fun _ => declaration _ _ _)

/-- No statement with a word of its own is an import. -/
lemma keywordStatement {word : String} {p : Parser Tree}
    (h : keywordStatement? self start word = some p) : ReadsNoImport p := by
  unfold keywordStatement? at h
  split at h <;> cases h
  · exact ifStatement _ _
  · exact switchStatement _ _
  · exact tryStatement _ _
  · exact whileStatement _ _
  · exact whileStatement _ _
  · exact doStatement _ _
  · exact forStatement _ _
  · exact returnStatement _ _
  · exact throwStatement _ _
  · exact jumpStatement _
  · exact jumpStatement _
  · exact .bind fun _ => .bind fun _ => node _ _
  · exact declaration _ _ _
  · exact declaration _ _ _
  · exact declaration _ _ _
  · exact declaration _ _ _
  · exact declaration _ _ _
  · exact exportDeclaration _ _ _

end ReadsNoImport

/-- A statement that begins with a word, unless that word tells what it is. -/
def ordinaryStatement (self : Grammar) (start : Nat) : Parser Tree := do
  if (← startsLet) || (← startsUsing) || (← startsAwaitUsing) then declarationHere self start []
  else if (← startsAsyncFunction) || (← startsTypedDeclaration) then declaration self start []
  else expressionStatement self

lemma ReadsNoImport.ordinaryStatement (self : Grammar) (start : Nat) :
    ReadsNoImport (ordinaryStatement self start) :=
  .bind fun _ => .bind fun _ => .bind fun _ => .ite (declarationHere _ _ _)
    (.bind fun _ => .bind fun _ => .ite (declaration _ _ _) (expressionStatement _))

/-- A statement that begins with a word, with the test for an import put first. -/
lemma wordStatement_eq (self : Grammar) (word : String) : wordStatement self word = (do
    let start ← place
    match keywordStatement? self start word with
    | some p => p
    | none =>
        let isExpression ← startsImportExpression
        if word == "import" && !isExpression then
          advance
          importDeclaration start
        else ordinaryStatement self start) := rfl

/-- Behind another word than `import` no import declaration is read. -/
lemma ReadsNoImport.wordStatement (self : Grammar) {word : String} (h : word ≠ "import") :
    ReadsNoImport (wordStatement self word) := by
  rw [wordStatement_eq]
  refine .bind fun start => ?_
  split
  · next hp => exact keywordStatement self start hp
  · rw [beq_eq_false_iff_ne.mpr h]
    exact .bind fun _ => ReadsNoImport.ordinaryStatement self start

variable {self : Grammar} {s s' : State} {x : Tree}

/-- Whether an import of a module by an expression begins at a state. -/
def atImportExpression (s : State) : Bool :=
  s.token == .word "import" false &&
    (s.next.token == .punctuator "(" || s.next.token == .punctuator ".")

/-- Whether `import` begins an expression is told by the token behind it. -/
lemma run_startsImportExpression (s : State) :
    startsImportExpression s = some (atImportExpression s, s) := by
  rw [startsImportExpression, run_ahead, run_bind, run_expectWord, atImportExpression]
  by_cases h : s.token = .word "import".toList false
  · rw [if_pos h, Option.bind_some, run_isAtAny, h]
    refine congrArg some (Prod.ext ?_ rfl)
    rw [Bool.eq_iff_iff]
    cases s.next.token <;> simp
  · rw [if_neg h, beq_eq_false_iff_ne.mpr h]
    rfl

/-- Only behind the word `import` an import declaration is read as a statement. -/
lemma run_statement (hx : ImportDeclaration.ofTree? x ≠ none) :
    statement self s = some (x, s') ↔ s.token = .word "import" false ∧
      atImportExpression s = false ∧ importDeclaration s.start s.next = some (x, s') := by
  have hno : ∀ {p : Parser Tree}, ReadsNoImport p → p s ≠ some (x, s') := fun hp h => hx (hp h)
  rw [statement, run_bind, run_place, Option.bind_some, run_bind, run_token, Option.bind_some]
  cases htoken : s.token with
  | word w isEscaped =>
      cases isEscaped with
      | true => exact iff_of_false (hno (.expressionStatement _)) (by simp)
      | false =>
          dsimp only
          by_cases hword : w = "import".toList
          · subst hword
            rw [show String.ofList "import".toList = "import" from rfl, wordStatement_eq, run_bind,
              run_place, Option.bind_some,
              show keywordStatement? self s.start "import" = none from rfl]
            dsimp only
            rw [run_bind, run_startsImportExpression, Option.bind_some]
            -- A call of `import` or its properties are an expression.
            cases hexpression : atImportExpression s with
            | true => exact iff_of_false (hno (.ordinaryStatement _ _)) (by simp)
            | false => simp [run_advance]
          · refine iff_of_false (hno (.wordStatement _ ?_)) ?_
            · rintro h
              exact hword (by rw [← h, String.toList_ofList])
            · rintro ⟨h, -⟩
              exact hword (Token.word.inj h).1
  | punctuator p =>
      refine iff_of_false (hno ?_) (by simp)
      exact .test (.blockStatement _) (.test (.node _ _) (.test (.decoratedStatement _)
        (.expressionStatement _)))
  | _ => exact iff_of_false (hno (.expressionStatement _)) (by simp)

end Grammar

end ComponentMigration.Script
