import ComponentMigration.Proofs.Script.Grammar

/-!
Statements end with a token.

* **Gaps.** `State.Settled`: between the token before and the one that a state stands at there is a
  gap. `Settles`: a parser leads to such states, wherever it starts; `Rests`: from such states to
  such states.
* **Spans.** `Spans p`, `SpansAt start p`: the nodes that `p` reads reach from where it began, or
  from `start`, to the end of the last token.
* **Main statement.** `Program.exists_statement?`: a statement covers the text up to the end of its
  last token, and goes on with the token behind the gap that follows.
-/

namespace ComponentMigration.Script

open Text Script.Parser

/-! ### Gaps behind tokens -/

/-- Between the token before and the one here stands a gap, unless a fault was passed over. -/
def State.Settled (s : State) (t : Text) : Prop :=
  s.isFlawed = false → ∃ e, t.dropBytes? s.lastStop = some e ∧ s.here = fromToken e ∧ IsSound e

/-- The next token stands behind a gap. -/
lemma State.Within.settled_next {s : State} {t : Text} (h : s.Within t) : s.next.Settled t := by
  rw [State.next_eq]
  intro hflawed
  simp only [State.load, Bool.or_eq_false_iff, Bool.not_eq_false', beq_eq_false_iff_ne] at hflawed
  obtain ⟨⟨hflawed, hclosed⟩, hvalid⟩ := hflawed
  exact ⟨s.rest, (h hflawed).rest, rfl, hclosed, hvalid⟩

/-- A context is put in for the parser, and taken out again. -/
lemma run_within {α : Type} (g : Context → Context) (p : Parser α) (s : State) :
    Parser.within g p s = (p { s with context := g s.context }).map fun found =>
      (found.1, { found.2 with context := s.context }) := by
  simp only [Parser.within, run_bind, run_get, Option.bind_some]
  change (p { s with context := g s.context }).bind _ = _
  cases p { s with context := g s.context } <;> rfl

/-- A parser settles. -/
class Settles {α : Type} (p : Parser α) : Prop where
  settles : ∀ ⦃t : Text⦄ ⦃s s' : State⦄ ⦃a : α⦄, s.Within t → p s = some (a, s') → s'.Settled t

/-- A parser leaves settled what is settled. -/
class Rests {α : Type} (p : Parser α) : Prop where
  rests : ∀ ⦃t : Text⦄ ⦃s s' : State⦄ ⦃a : α⦄, s.Within t → s.Settled t → p s = some (a, s') →
    s'.Settled t

namespace Settles

variable {α β : Type} {p q : Parser α} {f : α → Parser β}

instance (priority := low) rests [hp : Settles p] : Rests p where
  rests _ _ _ _ hs _ hrun := hp.settles hs hrun

/-- What is settled stays so. -/
instance (priority := low) bind_rests [hon : Onward p] [hp : Settles p] [h : ∀ a, Rests (f a)] :
    Settles (p >>= f) where
  settles t s s' b hs hrun := by
    rw [run_bind] at hrun
    obtain ⟨⟨a, s₁⟩, h₁, h₂⟩ := Option.bind_eq_some_iff.mp hrun
    exact (h a).rests (hon.keeps hs h₁) (hp.settles hs h₁) h₂

instance bind [hp : Onward p] [h : ∀ a, Settles (f a)] : Settles (p >>= f) where
  settles t s s' b hs hrun := by
    rw [run_bind] at hrun
    obtain ⟨⟨a, s₁⟩, h₁, h₂⟩ := Option.bind_eq_some_iff.mp hrun
    exact (h a).settles (hp.keeps hs h₁) h₂

/-- What follows a token is told by its kind. -/
instance (priority := low) bind_token {p : Parser Token} {f : Token → Parser β} [Onward p]
    [hplain : ∀ w, Settles (f (.word w false))] [hescaped : ∀ w, Settles (f (.word w true))]
    [∀ w, Settles (f (.string w))]
    [∀ w, Settles (f (.privateWord w))] [∀ b, Settles (f (.number b))]
    [∀ isLast b, Settles (f (.template isLast b))] [∀ w, Settles (f (.punctuator w))]
    [Settles (f .endOfText)] [Settles (f .regex)] [Settles (f .markupText)] [Settles (f .invalid)] :
    Settles (p >>= f) := by
  refine bind (h := fun tok => ?_)
  cases tok with
  | word w isEscaped => cases isEscaped <;> infer_instance
  | _ => infer_instance

instance failure : Settles (failure : Parser α) where
  settles _ _ _ _ _ h := by cases h

instance ite {b : Prop} [Decidable b] [hp : Settles p] [hq : Settles q] :
    Settles (if b then p else q) := by
  split_ifs
  · exact hp
  · exact hq

instance expect (w : Text) : Settles (Parser.expect w) where
  settles t s s' a hs hrun := by
    rw [run_expect] at hrun
    split_ifs at hrun
    cases hrun
    exact hs.settled_next

/-- What was passed is settled. -/
instance eat_bind (w : Text) [hp : Rests p] [hq : Settles q] :
    Settles (Parser.eat w >>= fun isThere => if isThere = true then p else q) where
  settles t s s' a hs hrun := by
    rw [run_bind, run_eat] at hrun
    split_ifs at hrun
    · exact hp.rests hs.next hs.settled_next hrun
    · exact hq.settles hs hrun

/-- Where a semicolon can be left out, no markup is read. -/
instance endStatement : Settles Parser.endStatement where
  settles t s s' a hs hrun := by
    simp only [Parser.endStatement, run_bind, run_eat] at hrun
    split_ifs at hrun with hsemicolon
    · cases hrun
      exact hs.settled_next
    · simp only [Option.bind_some, Bool.false_eq_true, if_false, run_bind, run_isAt, run_isAtEnd,
        run_isFresh, run_require] at hrun
      split_ifs at hrun with hend
      cases hrun
      intro hflawed
      -- Among the children of markup there is no gap. But there no statement ends without a
      -- semicolon, unless the text does.
      obtain ⟨-, -, -, e, he, ⟨heq, hsound⟩ | ⟨heq, hmarkup⟩⟩ := hs hflawed
      · exact ⟨e, he, heq, hsound⟩
      · simp only [Bool.or_eq_true, beq_iff_eq, hmarkup.isFresh, or_false, hmarkup.token, false_or,
          Bool.false_eq_true] at hend
        have hnil := hmarkup.here hend
        rw [hnil] at heq
        subst heq
        exact ⟨[], he, hnil, rfl, by decide⟩

end Settles

namespace Rests

variable {α β : Type} {p q : Parser α} {f : α → Parser β}

/-- A parser that only looks rests where it is. -/
lemma look {g : State → α} (h : ∀ s, p s = some (g s, s)) : Rests p where
  rests t s s' a _ hs hrun := by
    rw [h] at hrun
    cases hrun
    exact hs

instance bind [hon : Onward p] [hp : Rests p] [h : ∀ a, Rests (f a)] : Rests (p >>= f) where
  rests t s s' b hs hsettled hrun := by
    rw [run_bind] at hrun
    obtain ⟨⟨a, s₁⟩, h₁, h₂⟩ := Option.bind_eq_some_iff.mp hrun
    exact (h a).rests (hon.keeps hs h₁) (hp.rests hs hsettled h₁) h₂

instance pure (a : α) : Rests (Pure.pure a : Parser α) := look fun _ => rfl

instance ite {b : Prop} [Decidable b] [hp : Rests p] [hq : Rests q] :
    Rests (if b then p else q) := by
  split_ifs
  · exact hp
  · exact hq

/-- A fault that is marked leaves nothing to show. -/
instance flawIf (b : Bool) : Rests (Parser.flawIf b) where
  rests t s s' a hs hsettled hrun := by
    cases b with
    | false =>
        cases hrun
        exact hsettled
    | true =>
        cases hrun
        exact fun h => absurd h (by simp)

instance get : Rests (MonadState.get : Parser State) := look run_get

instance place : Rests Parser.place := look run_place

instance node (f : Form) (n : Nat) (ps : List Tree) : Rests (Parser.node f n ps) where
  rests t s s' a _ hs hrun := by
    cases hrun
    exact hs

instance eat (w : Text) : Rests (Parser.eat w) where
  rests t s s' a hs hsettled hrun := by
    rw [run_eat] at hrun
    split_ifs at hrun <;> cases hrun
    · exact hs.settled_next
    · exact hsettled

instance eatWord (w : Text) : Rests (Parser.eatWord w) where
  rests t s s' a hs hsettled hrun := by
    rw [run_eatWord] at hrun
    split_ifs at hrun <;> cases hrun
    · exact hs.settled_next
    · exact hsettled

end Rests

/-- The context does not matter. -/
instance Settles.within {α : Type} {p : Parser α} (g : Context → Context) [hp : Settles p] :
    Settles (Parser.within g p) where
  settles t s s' a hs hrun := by
    rw [run_within] at hrun
    obtain ⟨⟨a, s₁⟩, h₁, hrun⟩ := Option.map_eq_some_iff.mp hrun
    cases hrun
    have hsettled := hp.settles (hs.inContext _) h₁
    exact hsettled

/-! ### The grammar -/

section

set_option synthInstance.maxSize 1000000

variable (self : Grammar) [∀ goal, Onward (self goal)] [Settles (self .statement)] (start : Nat)

namespace Settles

instance block : Settles (Grammar.block self) := by
  unfold Grammar.block
  infer_instance

instance body : Settles (Grammar.body self) := by
  unfold Grammar.body
  infer_instance

instance parenthesized : Settles (Grammar.parenthesized self) := by
  unfold Grammar.parenthesized
  infer_instance

instance blockStatement : Settles (Grammar.blockStatement self) := by
  unfold Grammar.blockStatement
  infer_instance

instance ifStatement : Settles (Grammar.ifStatement self start) := by
  unfold Grammar.ifStatement
  infer_instance

instance switchStatement : Settles (Grammar.switchStatement self start) := by
  unfold Grammar.switchStatement
  infer_instance

instance catchClause : Rests (Grammar.catchClause self) := by
  unfold Grammar.catchClause
  infer_instance

instance tryStatement : Settles (Grammar.tryStatement self start) := by
  unfold Grammar.tryStatement
  infer_instance

instance whileStatement : Settles (Grammar.whileStatement self start) := by
  unfold Grammar.whileStatement
  infer_instance

instance doStatement : Settles (Grammar.doStatement self start) := by
  unfold Grammar.doStatement
  infer_instance

instance countedLoop (head : Grammar.LoopHead) : Settles (Grammar.countedLoop self head) := by
  unfold Grammar.countedLoop
  cases head <;> infer_instance

instance forStatement : Settles (Grammar.forStatement self start) := by
  unfold Grammar.forStatement
  infer_instance

instance returnStatement : Settles (Grammar.returnStatement self start) := by
  unfold Grammar.returnStatement
  infer_instance

instance throwStatement : Settles (Grammar.throwStatement self start) := by
  unfold Grammar.throwStatement
  infer_instance

instance jumpStatement : Settles (Grammar.jumpStatement start) := by
  unfold Grammar.jumpStatement
  infer_instance

instance expressionStatement : Settles (Grammar.expressionStatement self) := by
  unfold Grammar.expressionStatement
  infer_instance

/-! ### Declarations -/

instance variableStatement : Settles (Grammar.variableStatement self start) := by
  unfold Grammar.variableStatement
  infer_instance

instance typeMembers : Settles (Grammar.typeMembers self) := by
  unfold Grammar.typeMembers
  infer_instance

instance interfaceDeclaration : Settles (Grammar.interfaceDeclaration self start) := by
  unfold Grammar.interfaceDeclaration
  infer_instance

instance aliasDeclaration : Settles (Grammar.aliasDeclaration self start) := by
  unfold Grammar.aliasDeclaration
  infer_instance

instance enumDeclaration : Settles (Grammar.enumDeclaration self start) := by
  unfold Grammar.enumDeclaration
  infer_instance

instance namespaceDeclaration : Settles (Grammar.namespaceDeclaration self start) := by
  unfold Grammar.namespaceDeclaration
  infer_instance

instance ambientModule : Settles (Grammar.ambientModule self start) := by
  unfold Grammar.ambientModule
  infer_instance

instance importAlias (declared : Tree) : Settles (Grammar.importAlias start declared) := by
  unfold Grammar.importAlias
  infer_instance

instance classParts : Settles (Grammar.classParts self) := by
  unfold Grammar.classParts
  infer_instance

instance classDeclaration (marks : List Tree) :
    Settles (Grammar.classDeclaration self start marks) := by
  unfold Grammar.classDeclaration
  infer_instance

instance functionParts (isAsync isGenerator : Bool) :
    Settles (Grammar.functionParts self isAsync isGenerator) := by
  unfold Grammar.functionParts
  infer_instance

instance functionDeclaration (isAsync isNameless : Bool) :
    Settles (Grammar.functionDeclaration self start isAsync isNameless) := by
  unfold Grammar.functionDeclaration
  infer_instance

instance declarationHere (marks : List Tree) :
    Settles (Grammar.declarationHere self start marks) := by
  unfold Grammar.declarationHere
  infer_instance

instance declaration (marks : List Tree) : Settles (Grammar.declaration self start marks) := by
  unfold Grammar.declaration
  infer_instance

instance importSource (isType : Bool) (specifiers : List Tree) :
    Settles (Grammar.importSource start isType specifiers) := by
  unfold Grammar.importSource
  infer_instance

instance importDeclaration : Settles (Grammar.importDeclaration start) := by
  unfold Grammar.importDeclaration
  infer_instance

instance exportSource : Settles (Grammar.exportSource start) := by
  unfold Grammar.exportSource
  infer_instance

instance exportNames : Settles (Grammar.exportNames start) := by
  unfold Grammar.exportNames
  infer_instance

instance exportAll : Settles (Grammar.exportAll start) := by
  unfold Grammar.exportAll
  infer_instance

instance exportDefault (marks : List Tree) : Settles (Grammar.exportDefault self start marks) := by
  unfold Grammar.exportDefault
  infer_instance

instance exportDeclaration (marks : List Tree) :
    Settles (Grammar.exportDeclaration self start marks) := by
  unfold Grammar.exportDeclaration
  infer_instance

instance decoratedStatement : Settles (Grammar.decoratedStatement self) := by
  unfold Grammar.decoratedStatement
  infer_instance

/-- Each statement with a word of its own settles. -/
lemma keyword {word : String} {p : Parser Tree}
    (h : Grammar.keywordStatement? self start word = some p) : Settles p := by
  unfold Grammar.keywordStatement? at h
  split at h <;> cases h <;> infer_instance

instance wordStatement (word : String) : Settles (Grammar.wordStatement self word) := by
  unfold Grammar.wordStatement
  refine bind (h := fun start => ?_)
  split
  · next h => exact keyword self start h
  · infer_instance

instance statement : Settles (Grammar.statement self) := by
  unfold Grammar.statement
  infer_instance

instance grammar (n : Nat) : Settles (Script.grammar n .statement) := by
  induction n with
  | zero => exact failure
  | succ n ih => exact statement (Script.grammar n)

end Settles

end

/-! ### Spans of nodes -/

/-- The nodes that a parser reads begin at a place and end with the last token. -/
class Spans (start : Nat) (p : Parser Tree) : Prop where
  spans : ∀ ⦃s s' : State⦄ ⦃x : Tree⦄, p s = some (x, s') → x.span = ⟨start, s'.lastStop⟩

/-- From a place on, the nodes that a parser reads begin there and end with the last token. -/
class SpansAt (start : Nat) (p : Parser Tree) : Prop where
  spans : ∀ ⦃s s' : State⦄ ⦃x : Tree⦄, s.start = start → p s = some (x, s') →
    x.span = ⟨start, s'.lastStop⟩

/-- A parser stays where it is. -/
class Stays {α : Type} (p : Parser α) : Prop where
  stays : ∀ ⦃s s' : State⦄ ⦃a : α⦄, p s = some (a, s') → s' = s

namespace Stays

variable {α β : Type} {p q : Parser α} {f : α → Parser β}

/-- A parser that only looks stays where it is. -/
lemma look {g : State → α} (h : ∀ s, p s = some (g s, s)) : Stays p where
  stays s s' a hrun := by
    rw [h] at hrun
    cases hrun
    rfl

instance bind [hp : Stays p] [h : ∀ a, Stays (f a)] : Stays (p >>= f) where
  stays s s' b hrun := by
    rw [run_bind] at hrun
    obtain ⟨⟨a, s₁⟩, h₁, h₂⟩ := Option.bind_eq_some_iff.mp hrun
    rw [(h a).stays h₂, hp.stays h₁]

instance pure (a : α) : Stays (Pure.pure a : Parser α) := look fun _ => rfl

instance ite {b : Prop} [Decidable b] [hp : Stays p] [hq : Stays q] :
    Stays (if b then p else q) := by
  split_ifs
  · exact hp
  · exact hq

instance ahead (p : Parser Bool) : Stays (Parser.ahead p) := look fun s => run_ahead s p

instance token : Stays Parser.token := look run_token

instance isAt (w : Text) : Stays (Parser.isAt w) := look fun s => run_isAt s w

instance isAtWord (w : Text) : Stays (Parser.isAtWord w) := look fun s => run_isAtWord s w

instance startsLet : Stays Grammar.startsLet := by
  unfold Grammar.startsLet
  infer_instance

instance startsUsing : Stays Grammar.startsUsing := by
  unfold Grammar.startsUsing
  infer_instance

instance startsAwaitUsing : Stays Grammar.startsAwaitUsing := by
  unfold Grammar.startsAwaitUsing
  infer_instance

instance startsAsyncFunction : Stays Grammar.startsAsyncFunction := by
  unfold Grammar.startsAsyncFunction
  infer_instance

instance startsTypedDeclaration : Stays Grammar.startsTypedDeclaration := by
  unfold Grammar.startsTypedDeclaration
  infer_instance

instance startsImportExpression : Stays Grammar.startsImportExpression := by
  unfold Grammar.startsImportExpression
  infer_instance

end Stays

namespace Spans

variable {α : Type} {start : Nat} {p : Parser α} {q q' : Parser Tree} {f : α → Parser Tree}

instance bind [h : ∀ a, Spans start (f a)] : Spans start (p >>= f) where
  spans s s' x hrun := by
    rw [run_bind] at hrun
    obtain ⟨⟨a, s₁⟩, h₁, h₂⟩ := Option.bind_eq_some_iff.mp hrun
    exact (h a).spans h₂

/-- What follows a token is told by its kind. -/
instance (priority := low) bind_token {p : Parser Token} {f : Token → Parser Tree}
    [∀ w isEscaped, Spans start (f (.word w isEscaped))] [∀ w, Spans start (f (.string w))]
    [∀ w, Spans start (f (.privateWord w))] [∀ b, Spans start (f (.number b))]
    [∀ isLast b, Spans start (f (.template isLast b))] [∀ w, Spans start (f (.punctuator w))]
    [Spans start (f .endOfText)] [Spans start (f .regex)] [Spans start (f .markupText)]
    [Spans start (f .invalid)] : Spans start (p >>= f) := by
  refine bind (h := fun tok => ?_)
  cases tok <;> infer_instance

instance ite {b : Prop} [Decidable b] [hq : Spans start q] [hq' : Spans start q'] :
    Spans start (if b then q else q') := by
  split_ifs
  · exact hq
  · exact hq'

instance node (f : Form) (ps : List Tree) : Spans start (Parser.node f start ps) where
  spans s s' x hrun := by
    cases hrun
    rfl

/-- A context does not move the end of the last token. -/
instance within (g : Context → Context) [hq : Spans start q] : Spans start (Parser.within g q) where
  spans s s' a hrun := by
    rw [run_within] at hrun
    obtain ⟨⟨x, s₁⟩, h₁, hrun⟩ := Option.map_eq_some_iff.mp hrun
    cases hrun
    have hspan := hq.spans h₁
    exact hspan

set_option synthInstance.maxSize 1000000

variable (self : Grammar) (start : Nat)

instance ifStatement : Spans start (Grammar.ifStatement self start) := by
  unfold Grammar.ifStatement
  infer_instance

instance switchStatement : Spans start (Grammar.switchStatement self start) := by
  unfold Grammar.switchStatement
  infer_instance

instance tryStatement : Spans start (Grammar.tryStatement self start) := by
  unfold Grammar.tryStatement
  infer_instance

instance whileStatement : Spans start (Grammar.whileStatement self start) := by
  unfold Grammar.whileStatement
  infer_instance

instance doStatement : Spans start (Grammar.doStatement self start) := by
  unfold Grammar.doStatement
  infer_instance

instance forStatement : Spans start (Grammar.forStatement self start) := by
  unfold Grammar.forStatement
  infer_instance

instance returnStatement : Spans start (Grammar.returnStatement self start) := by
  unfold Grammar.returnStatement
  infer_instance

instance throwStatement : Spans start (Grammar.throwStatement self start) := by
  unfold Grammar.throwStatement
  infer_instance

instance jumpStatement : Spans start (Grammar.jumpStatement start) := by
  unfold Grammar.jumpStatement
  infer_instance

instance variableStatement : Spans start (Grammar.variableStatement self start) := by
  unfold Grammar.variableStatement
  infer_instance

instance interfaceDeclaration : Spans start (Grammar.interfaceDeclaration self start) := by
  unfold Grammar.interfaceDeclaration
  infer_instance

instance aliasDeclaration : Spans start (Grammar.aliasDeclaration self start) := by
  unfold Grammar.aliasDeclaration
  infer_instance

instance enumDeclaration : Spans start (Grammar.enumDeclaration self start) := by
  unfold Grammar.enumDeclaration
  infer_instance

instance namespaceDeclaration : Spans start (Grammar.namespaceDeclaration self start) := by
  unfold Grammar.namespaceDeclaration
  infer_instance

instance ambientModule : Spans start (Grammar.ambientModule self start) := by
  unfold Grammar.ambientModule
  infer_instance

instance importAlias (declared : Tree) : Spans start (Grammar.importAlias start declared) := by
  unfold Grammar.importAlias
  infer_instance

instance classDeclaration (marks : List Tree) :
    Spans start (Grammar.classDeclaration self start marks) := by
  unfold Grammar.classDeclaration
  infer_instance

instance functionDeclaration (isAsync isNameless : Bool) :
    Spans start (Grammar.functionDeclaration self start isAsync isNameless) := by
  unfold Grammar.functionDeclaration
  infer_instance

instance declarationHere (marks : List Tree) :
    Spans start (Grammar.declarationHere self start marks) := by
  unfold Grammar.declarationHere
  infer_instance

instance declaration (marks : List Tree) : Spans start (Grammar.declaration self start marks) := by
  unfold Grammar.declaration
  infer_instance

instance importSource (isType : Bool) (specifiers : List Tree) :
    Spans start (Grammar.importSource start isType specifiers) := by
  unfold Grammar.importSource
  infer_instance

instance importDeclaration : Spans start (Grammar.importDeclaration start) := by
  unfold Grammar.importDeclaration
  infer_instance

instance exportSource : Spans start (Grammar.exportSource start) := by
  unfold Grammar.exportSource
  infer_instance

instance exportNames : Spans start (Grammar.exportNames start) := by
  unfold Grammar.exportNames
  infer_instance

instance exportAll : Spans start (Grammar.exportAll start) := by
  unfold Grammar.exportAll
  infer_instance

instance exportDefault (marks : List Tree) :
    Spans start (Grammar.exportDefault self start marks) := by
  unfold Grammar.exportDefault
  infer_instance

instance exportDeclaration (marks : List Tree) :
    Spans start (Grammar.exportDeclaration self start marks) := by
  unfold Grammar.exportDeclaration
  infer_instance

lemma keyword {word : String} {p : Parser Tree}
    (h : Grammar.keywordStatement? self start word = some p) : Spans start p := by
  unfold Grammar.keywordStatement? at h
  split at h <;> cases h <;> infer_instance

end Spans

namespace SpansAt

variable {α : Type} {start : Nat} {p : Parser α} {q q' : Parser Tree} {f : α → Parser Tree}

instance (priority := low) spans_start [hq : Spans start q] : SpansAt start q where
  spans _ _ _ _ hrun := hq.spans hrun

instance (priority := low) bind [hp : Stays p] [h : ∀ a, SpansAt start (f a)] :
    SpansAt start (p >>= f) where
  spans s s' x hs hrun := by
    rw [run_bind] at hrun
    obtain ⟨⟨a, s₁⟩, h₁, h₂⟩ := Option.bind_eq_some_iff.mp hrun
    exact (h a).spans (by rw [hp.stays h₁, hs]) h₂

/-- What follows a token is told by its kind. -/
instance (priority := low) bind_token {p : Parser Token} {f : Token → Parser Tree} [Stays p]
    [hplain : ∀ w, SpansAt start (f (.word w false))]
    [hescaped : ∀ w, SpansAt start (f (.word w true))] [∀ w, SpansAt start (f (.string w))]
    [∀ w, SpansAt start (f (.privateWord w))] [∀ b, SpansAt start (f (.number b))]
    [∀ isLast b, SpansAt start (f (.template isLast b))] [∀ w, SpansAt start (f (.punctuator w))]
    [SpansAt start (f .endOfText)] [SpansAt start (f .regex)] [SpansAt start (f .markupText)]
    [SpansAt start (f .invalid)] : SpansAt start (p >>= f) := by
  refine bind (h := fun tok => ?_)
  cases tok with
  | word w isEscaped => cases isEscaped <;> infer_instance
  | _ => infer_instance

instance place {f : Nat → Parser Tree} [h : SpansAt start (f start)] :
    SpansAt start (Parser.place >>= f) where
  spans s s' x hs hrun := by
    rw [run_bind, run_place, Option.bind_some, hs] at hrun
    exact h.spans hs hrun

instance ite {b : Prop} [Decidable b] [hq : SpansAt start q] [hq' : SpansAt start q'] :
    SpansAt start (if b then q else q') := by
  split_ifs
  · exact hq
  · exact hq'

instance eat_bind (w : Text) [hq : Spans start q] [hq' : SpansAt start q'] :
    SpansAt start (Parser.eat w >>= fun isThere => if isThere = true then q else q') where
  spans s s' x hs hrun := by
    rw [run_bind, run_eat] at hrun
    split_ifs at hrun
    · exact hq.spans hrun
    · exact hq'.spans hs hrun

variable (self : Grammar)

instance blockStatement : SpansAt start (Grammar.blockStatement self) := by
  unfold Grammar.blockStatement
  infer_instance

instance expressionStatement : SpansAt start (Grammar.expressionStatement self) := by
  unfold Grammar.expressionStatement
  infer_instance

instance decoratedStatement : SpansAt start (Grammar.decoratedStatement self) := by
  unfold Grammar.decoratedStatement
  infer_instance

instance wordStatement (word : String) : SpansAt start (Grammar.wordStatement self word) := by
  unfold Grammar.wordStatement
  refine place (h := ?_)
  split
  · next h =>
    have := Spans.keyword self start h
    infer_instance
  · infer_instance

instance statement : SpansAt start (Grammar.statement self) := by
  unfold Grammar.statement
  infer_instance

end SpansAt

namespace Program

variable {t u : Text} {x : Tree}

/-- A statement covers the text up to the end of its last token, and goes on with the token behind
the gap that follows. -/
theorem exists_statement? (h : statement? t = some (x, u)) :
    ∃ w e, t = w ++ e ∧ x.span = ⟨gapLength t, byteLength w⟩ ∧ IsSound e ∧ u = fromToken e := by
  obtain ⟨-, s, hrun, hflawed, -, rfl⟩ := statement?_eq_some_iff.mp h
  rw [← first_eq_state] at hrun
  have hstart : (State.first [] t true).start = gapLength t := by
    rw [State.first, State.next_eq]
    exact Nat.zero_add _
  obtain ⟨e, hdrop, hhere, hsound⟩ := Settles.settles (State.within_first t true) hrun hflawed
  obtain ⟨w, rfl, hw⟩ := dropBytes?_eq_some_iff.mp hdrop
  exact ⟨w, e, rfl, by rw [SpansAt.spans hstart hrun, hw], hsound, hhere⟩

end Program

end ComponentMigration.Script
