import ComponentMigration.Proofs.Script.Onward
import ComponentMigration.Proofs.Script.Reads

/-!
Every part of the grammar goes on.

* **Parts.** Each parser of the grammar is `Onward` if the grammar that it calls is.
* **Main statement.** `Program.suffix_of_statement?`: a statement leaves a text at the end of the
  one it is read from.
-/

namespace ComponentMigration.Script

open Text Script.Parser

namespace Onward

set_option synthInstance.maxSize 1000000

variable (self : Grammar) [∀ goal, Onward (self goal)]

/-! ### Patterns and parameters -/

instance statedType? : Onward (Grammar.statedType? self) := by
  unfold Grammar.statedType?
  infer_instance

instance initializer? : Onward (Grammar.initializer? self) := by
  unfold Grammar.initializer?
  infer_instance

instance propertyName : Onward (Grammar.propertyName self) := by
  unfold Grammar.propertyName
  infer_instance

instance isModifier (w : Text) (acrossLines : Bool) :
    Onward (Grammar.isModifier w acrossLines) := by
  unfold Grammar.isModifier
  infer_instance

instance patternWithDefault (binder : Binder) :
    Onward (Grammar.patternWithDefault self binder) := by
  unfold Grammar.patternWithDefault
  infer_instance

instance restPattern (binder : Binder) : Onward (Grammar.restPattern self binder) := by
  unfold Grammar.restPattern
  infer_instance

instance propertyPattern (binder : Binder) : Onward (Grammar.propertyPattern self binder) := by
  unfold Grammar.propertyPattern
  refine @bind _ _ _ _ place fun start => restore fun s t s' p hs hrun => ?_
  rw [run_bind, run_ahead, Option.bind_some] at hrun
  split_ifs at hrun
  · exact Onward.keeps (p := do
      let p ← Parser.bindingName binder
      let value ← Grammar.initializer? self
      Parser.node .other start (p :: value)) hs hrun
  · exact Onward.keeps hs hrun

instance pattern (binder : Binder) : Onward (Grammar.pattern self binder) := by
  unfold Grammar.pattern
  infer_instance

instance decorators : Onward (Grammar.decorators self) := by
  unfold Grammar.decorators
  infer_instance

instance passParameterModifiers : Onward Grammar.passParameterModifiers := by
  unfold Grammar.passParameterModifiers
  infer_instance

instance parameter : Onward (Grammar.parameter self) := by
  unfold Grammar.parameter
  infer_instance

instance parameters : Onward (Grammar.parameters self) := by
  unfold Grammar.parameters
  infer_instance

/-! ### Types -/

instance typeArguments : Onward (Grammar.typeArguments self) := by
  unfold Grammar.typeArguments
  infer_instance

instance typeArguments? : Onward (Grammar.typeArguments? self) := by
  unfold Grammar.typeArguments?
  infer_instance

instance entityName (space : Space) : Onward (Grammar.entityName space) := by
  unfold Grammar.entityName
  infer_instance

instance typeParameter : Onward (Grammar.typeParameter self) := by
  unfold Grammar.typeParameter
  infer_instance

instance typeParameters? : Onward (Grammar.typeParameters? self) := by
  unfold Grammar.typeParameters?
  infer_instance

instance returnType : Onward (Grammar.returnType self) := by
  unfold Grammar.returnType
  infer_instance

instance returnType? : Onward (Grammar.returnType? self) := by
  unfold Grammar.returnType?
  infer_instance

instance signature : Onward (Grammar.signature self) := by
  unfold Grammar.signature
  infer_instance

instance functionType : Onward (Grammar.functionType self) := by
  unfold Grammar.functionType
  infer_instance

instance isFunctionType : Onward (Grammar.isFunctionType self) := by
  unfold Grammar.isFunctionType
  infer_instance

instance isIndexSignature : Onward Grammar.isIndexSignature := by
  unfold Grammar.isIndexSignature
  infer_instance

instance indexSignature : Onward (Grammar.indexSignature self) := by
  unfold Grammar.indexSignature
  infer_instance

instance endMember : Onward Grammar.endMember := by
  unfold Grammar.endMember
  infer_instance

instance namedMember : Onward (Grammar.namedMember self) := by
  unfold Grammar.namedMember
  infer_instance

instance typeMember : Onward (Grammar.typeMember self) := by
  unfold Grammar.typeMember
  infer_instance

instance typeMembers : Onward (Grammar.typeMembers self) := by
  unfold Grammar.typeMembers
  infer_instance

instance isMappedType : Onward Grammar.isMappedType := by
  unfold Grammar.isMappedType
  infer_instance

instance mappedType : Onward (Grammar.mappedType self) := by
  unfold Grammar.mappedType
  infer_instance

instance tupleElement : Onward (Grammar.tupleElement self) := by
  unfold Grammar.tupleElement
  infer_instance

instance templateOf (inside : Parser Tree) [Onward inside] :
    Onward (Grammar.templateOf inside) := by
  unfold Grammar.templateOf
  infer_instance

instance typeReference : Onward (Grammar.typeReference self) := by
  unfold Grammar.typeReference
  infer_instance

instance importType : Onward (Grammar.importType self) := by
  unfold Grammar.importType
  infer_instance

instance primaryType : Onward (Grammar.primaryType self) := by
  unfold Grammar.primaryType
  infer_instance

instance postfixType : Onward (Grammar.postfixType self) := by
  unfold Grammar.postfixType
  infer_instance

instance inferredBound? : Onward (Grammar.inferredBound? self) := by
  unfold Grammar.inferredBound?
  infer_instance

instance operatorType : Onward (Grammar.operatorType self) := by
  unfold Grammar.operatorType
  infer_instance

instance joinedTypes (operator : Text) (element : Parser Tree) [Onward element] :
    Onward (Grammar.joinedTypes self operator element) := by
  unfold Grammar.joinedTypes
  infer_instance

instance type : Onward (Grammar.type self) := by
  unfold Grammar.type
  infer_instance

/-! ### Functions and classes -/

instance block : Onward (Grammar.block self) := by
  unfold Grammar.block
  infer_instance

instance functionParts (isAsync isGenerator : Bool) :
    Onward (Grammar.functionParts self isAsync isGenerator) := by
  unfold Grammar.functionParts
  infer_instance

instance functionDeclaration (start : Nat) (isAsync isNameless : Bool) :
    Onward (Grammar.functionDeclaration self start isAsync isNameless) := by
  unfold Grammar.functionDeclaration
  infer_instance

instance functionExpression (start : Nat) (isAsync : Bool) :
    Onward (Grammar.functionExpression self start isAsync) := by
  unfold Grammar.functionExpression
  infer_instance

instance method (isAsync isGenerator : Bool) :
    Onward (Grammar.method self isAsync isGenerator) := by
  unfold Grammar.method
  infer_instance

instance startsAsyncFunction : Onward Grammar.startsAsyncFunction := by
  unfold Grammar.startsAsyncFunction
  infer_instance

instance passMemberModifiers : Onward Grammar.passMemberModifiers := by
  unfold Grammar.passMemberModifiers
  refine @bind _ _ _ _
    (@repeatWhile _ _ (fun _ => @bind _ _ _ _ token fun tok => ?_) _) fun _ => pure _
  split
  · split <;> infer_instance
  · infer_instance

instance startsStaticBlock : Onward Grammar.startsStaticBlock := by
  unfold Grammar.startsStaticBlock
  infer_instance

instance classMember : Onward (Grammar.classMember self) := by
  unfold Grammar.classMember
  infer_instance

instance heritage (element : Parser Tree) [Onward element] :
    Onward (Grammar.heritage self element) := by
  unfold Grammar.heritage
  infer_instance

instance classParts : Onward (Grammar.classParts self) := by
  unfold Grammar.classParts
  infer_instance

instance className? : Onward Grammar.className? := by
  unfold Grammar.className?
  infer_instance

instance classDeclaration (start : Nat) (marks : List Tree) :
    Onward (Grammar.classDeclaration self start marks) := by
  unfold Grammar.classDeclaration
  infer_instance

instance classExpression (start : Nat) (marks : List Tree) :
    Onward (Grammar.classExpression self start marks) := by
  unfold Grammar.classExpression
  infer_instance

/-! ### Literals and groups -/

instance spread : Onward (Grammar.spread self) := by
  unfold Grammar.spread
  infer_instance

instance arrayElement : Onward (Grammar.arrayElement self) := by
  unfold Grammar.arrayElement
  infer_instance

instance array : Onward (Grammar.array self) := by
  unfold Grammar.array
  infer_instance

instance shorthand? : Onward Grammar.shorthand? := by
  unfold Grammar.shorthand?
  refine @bind _ _ _ _ get fun s => ?_
  split <;> infer_instance

instance objectMember : Onward (Grammar.objectMember self) := by
  unfold Grammar.objectMember
  infer_instance

instance object : Onward (Grammar.object self) := by
  unfold Grammar.object
  infer_instance

instance group : Onward (Grammar.group self) := by
  unfold Grammar.group
  infer_instance

instance template : Onward (Grammar.template self) := by
  unfold Grammar.template
  infer_instance

instance literal (form : Form) : Onward (Grammar.literal form) := by
  unfold Grammar.literal
  infer_instance

instance wordExpression : Onward (Grammar.wordExpression self) := by
  unfold Grammar.wordExpression
  infer_instance

instance primary : Onward (Grammar.primary self) := by
  unfold Grammar.primary
  infer_instance

/-! ### Accesses and calls -/

instance operatorRank? : Onward Grammar.operatorRank? := by
  unfold Grammar.operatorRank?
  refine @bind _ _ _ _ get fun s => ?_
  split <;> infer_instance

instance startsExpression : Onward Grammar.startsExpression := by
  unfold Grammar.startsExpression
  infer_instance

instance canFollowTypeArguments : Onward Grammar.canFollowTypeArguments := by
  unfold Grammar.canFollowTypeArguments
  infer_instance

instance callTypeArguments? : Onward (Grammar.callTypeArguments? self) := by
  unfold Grammar.callTypeArguments?
  infer_instance

instance callArguments : Onward (Grammar.callArguments self) := by
  unfold Grammar.callArguments
  infer_instance

instance memberName (start : Nat) (object : Tree) : Onward (Grammar.memberName start object) := by
  unfold Grammar.memberName
  infer_instance

instance memberIndex (start : Nat) (object : Tree) :
    Onward (Grammar.memberIndex self start object) := by
  unfold Grammar.memberIndex
  infer_instance

instance taggedTemplate (start : Nat) (tag : Tree) :
    Onward (Grammar.taggedTemplate self start tag) := by
  unfold Grammar.taggedTemplate
  infer_instance

instance startsOptionalAccess : Onward Grammar.startsOptionalAccess := by
  unfold Grammar.startsOptionalAccess
  infer_instance

instance nextAccess? (start : Nat) (c : Grammar.Chain) :
    Onward (Grammar.nextAccess? self start c) := by
  unfold Grammar.nextAccess?
  infer_instance

instance nextLink? (start : Nat) (c : Grammar.Chain) : Onward (Grammar.nextLink? self start c) := by
  unfold Grammar.nextLink?
  infer_instance

instance construction : Onward (Grammar.construction self) := by
  unfold Grammar.construction
  infer_instance

instance importExpression : Onward (Grammar.importExpression self) := by
  unfold Grammar.importExpression
  infer_instance

instance chainHead : Onward (Grammar.chainHead self) := by
  unfold Grammar.chainHead
  infer_instance

instance accesses : Onward (Grammar.accesses self) := by
  unfold Grammar.accesses
  infer_instance

instance chain : Onward (Grammar.chain self) := by
  unfold Grammar.chain
  infer_instance

/-! ### Operators -/

instance isFollowedByOperand : Onward Grammar.isFollowedByOperand := by
  unfold Grammar.isFollowedByOperand
  infer_instance

instance startsAwait : Onward Grammar.startsAwait := by
  unfold Grammar.startsAwait
  infer_instance

instance updateTarget (start : Nat) (e : Tree) : Onward (Grammar.updateTarget start e) := by
  unfold Grammar.updateTarget
  split <;> infer_instance

instance update : Onward (Grammar.update self) := by
  unfold Grammar.update
  infer_instance

instance startsUnary : Onward Grammar.startsUnary := by
  unfold Grammar.startsUnary
  infer_instance

instance unary : Onward (Grammar.unary self) := by
  unfold Grammar.unary
  infer_instance

instance nextOperation? (start least : Nat) (left : Grammar.LeftOperand) :
    Onward (Grammar.nextOperation? self start least left) := by
  unfold Grammar.nextOperation?
  infer_instance

instance privateTest : Onward (Grammar.privateTest self) := by
  unfold Grammar.privateTest
  infer_instance

instance operand (least : Nat) : Onward (Grammar.operand self least) := by
  unfold Grammar.operand
  infer_instance

instance conditional (start : Nat) (test : Tree) (allowsReturnType : Bool) :
    Onward (Grammar.conditional self start test allowsReturnType) := by
  unfold Grammar.conditional
  infer_instance

/-! ### Arrow functions, assignments and sequences -/

instance arrowLikelihood : Onward Grammar.arrowLikelihood := by
  unfold Grammar.arrowLikelihood
  refine restore fun s t s' found hs hrun => ?_
  have hset : ∀ {q : Parser Grammar.Likelihood} {s₁ : State}, (do
      let found ← q
      set s
      return found) s₁ = some (found, s') → s'.Within t := by
    intro q s₁ h
    rw [run_bind] at h
    obtain ⟨_, -, h⟩ := Option.bind_eq_some_iff.mp h
    cases h
    exact hs
  rw [run_bind] at hrun
  obtain ⟨⟨hasWord, s₁⟩, -, hrun⟩ := Option.bind_eq_some_iff.mp hrun
  simp only [run_bind s₁, run_isFresh, run_isAt, Option.bind_some] at hrun
  split_ifs at hrun <;> exact hset hrun

instance arrow : Onward Grammar.arrow := by
  unfold Grammar.arrow
  infer_instance

instance arrowHead : Onward (Grammar.arrowHead self) := by
  unfold Grammar.arrowHead
  infer_instance

instance arrowBody (isAsync allowsReturnType : Bool) :
    Onward (Grammar.arrowBody self isAsync allowsReturnType) := by
  unfold Grammar.arrowBody
  infer_instance

instance arrowNode (start : Nat) (parts body : List Tree) :
    Onward (Grammar.arrowNode start parts body) := by
  unfold Grammar.arrowNode
  infer_instance

instance arrowFunction (allowsReturnType : Bool) :
    Onward (Grammar.arrowFunction self allowsReturnType) := by
  unfold Grammar.arrowFunction
  infer_instance

instance arrowFunction? (allowsReturnType : Bool) :
    Onward (Grammar.arrowFunction? self allowsReturnType) := by
  unfold Grammar.arrowFunction?
  refine bind (h := fun found => ?_)
  cases found <;> infer_instance

instance startsAsyncArrow : Onward Grammar.startsAsyncArrow := by
  unfold Grammar.startsAsyncArrow
  infer_instance

instance simpleArrow (start : Nat) (parameter : Tree) (isAsync allowsReturnType : Bool) :
    Onward (Grammar.simpleArrow self start parameter isAsync allowsReturnType) := by
  unfold Grammar.simpleArrow
  infer_instance

instance startsYield : Onward Grammar.startsYield := by
  unfold Grammar.startsYield
  infer_instance

instance yieldExpression : Onward (Grammar.yieldExpression self) := by
  unfold Grammar.yieldExpression
  infer_instance

instance assignTo (start : Nat) (left : Tree) (operator : Text) (allowsReturnType : Bool) :
    Onward (Grammar.assignTo self start left operator allowsReturnType) := by
  unfold Grammar.assignTo
  split <;> infer_instance

instance assignmentFrom (start : Nat) (left : Tree) (allowsReturnType : Bool) :
    Onward (Grammar.assignmentFrom self start left allowsReturnType) := by
  unfold Grammar.assignmentFrom
  refine bind (h := fun tok => ?_)
  split <;> infer_instance

instance assignment (allowsReturnType : Bool) :
    Onward (Grammar.assignment self allowsReturnType) := by
  unfold Grammar.assignment
  infer_instance

instance expression : Onward (Grammar.expression self) := by
  unfold Grammar.expression
  infer_instance

/-! ### Markup -/

instance markupName : Onward Grammar.markupName := by
  unfold Grammar.markupName
  infer_instance

instance elementName : Onward Grammar.elementName := by
  unfold Grammar.elementName
  infer_instance

instance embedded : Onward (Grammar.embedded self) := by
  unfold Grammar.embedded
  infer_instance

instance tagAttribute : Onward (Grammar.tagAttribute self) := by
  unfold Grammar.tagAttribute
  infer_instance

instance child : Onward (Grammar.child self) := by
  unfold Grammar.child
  infer_instance

instance isAtEndTag : Onward Grammar.isAtEndTag := by
  unfold Grammar.isAtEndTag
  infer_instance

instance children : Onward (Grammar.children self) := by
  unfold Grammar.children
  infer_instance

instance endTagMark (inMarkup : Bool) : Onward (Grammar.endTagMark inMarkup) := by
  unfold Grammar.endTagMark
  infer_instance

instance element (inMarkup : Bool) : Onward (Grammar.element self inMarkup) := by
  unfold Grammar.element
  infer_instance

/-! ### Declarations -/

instance variableDeclarator (binder : Binder) (isConstant : Bool) :
    Onward (Grammar.variableDeclarator self binder isConstant) := by
  unfold Grammar.variableDeclarator
  infer_instance

instance variableKind? : Onward Grammar.variableKind? := by
  unfold Grammar.variableKind?
  infer_instance

instance variableList : Onward (Grammar.variableList self) := by
  unfold Grammar.variableList
  infer_instance

instance variableStatement (start : Nat) : Onward (Grammar.variableStatement self start) := by
  unfold Grammar.variableStatement
  infer_instance

instance startsLet : Onward Grammar.startsLet := by
  unfold Grammar.startsLet
  infer_instance

instance startsUsing : Onward Grammar.startsUsing := by
  unfold Grammar.startsUsing
  infer_instance

instance startsAwaitUsing : Onward Grammar.startsAwaitUsing := by
  unfold Grammar.startsAwaitUsing
  infer_instance

instance interfaceDeclaration (start : Nat) : Onward (Grammar.interfaceDeclaration self start) := by
  unfold Grammar.interfaceDeclaration
  infer_instance

instance aliasDeclaration (start : Nat) : Onward (Grammar.aliasDeclaration self start) := by
  unfold Grammar.aliasDeclaration
  infer_instance

instance enumMember : Onward (Grammar.enumMember self) := by
  unfold Grammar.enumMember
  infer_instance

instance enumDeclaration (start : Nat) : Onward (Grammar.enumDeclaration self start) := by
  unfold Grammar.enumDeclaration
  infer_instance

instance namespaceNames : Onward Grammar.namespaceNames := by
  unfold Grammar.namespaceNames
  infer_instance

instance namespaceDeclaration (start : Nat) : Onward (Grammar.namespaceDeclaration self start) := by
  unfold Grammar.namespaceDeclaration
  infer_instance

instance ambientModule (start : Nat) : Onward (Grammar.ambientModule self start) := by
  unfold Grammar.ambientModule
  infer_instance

instance importAlias (start : Nat) (declared : Tree) :
    Onward (Grammar.importAlias start declared) := by
  unfold Grammar.importAlias
  infer_instance

instance startsTypedDeclaration : Onward Grammar.startsTypedDeclaration := by
  unfold Grammar.startsTypedDeclaration
  infer_instance

instance declarationHere (start : Nat) (marks : List Tree) :
    Onward (Grammar.declarationHere self start marks) := by
  unfold Grammar.declarationHere
  infer_instance

instance declaration (start : Nat) (marks : List Tree) :
    Onward (Grammar.declaration self start marks) := by
  unfold Grammar.declaration
  infer_instance

/-! ### Imports and exports -/

instance exportName : Onward Grammar.exportName := by
  unfold Grammar.exportName
  infer_instance

instance isAtExportName : Onward Grammar.isAtExportName := by
  unfold Grammar.isAtExportName
  infer_instance

instance isTypeSpecifier : Onward Grammar.isTypeSpecifier := by
  unfold Grammar.isTypeSpecifier
  infer_instance

instance moduleName : Onward Grammar.moduleName := by
  unfold Grammar.moduleName
  infer_instance

instance passImportAttributes : Onward Grammar.passImportAttributes := by
  unfold Grammar.passImportAttributes
  infer_instance

instance importSpecifier (binder : Binder) : Onward (Grammar.importSpecifier binder) := by
  unfold Grammar.importSpecifier
  infer_instance

instance namespaceSpecifier (binder : Binder) : Onward (Grammar.namespaceSpecifier binder) := by
  unfold Grammar.namespaceSpecifier
  infer_instance

instance importSpecifiers (binder : Binder) : Onward (Grammar.importSpecifiers binder) := by
  unfold Grammar.importSpecifiers
  infer_instance

instance startsTypeImport : Onward Grammar.startsTypeImport := by
  unfold Grammar.startsTypeImport
  infer_instance

instance importSource (start : Nat) (isType : Bool) (specifiers : List Tree) :
    Onward (Grammar.importSource start isType specifiers) := by
  unfold Grammar.importSource
  infer_instance

instance importDeclaration (start : Nat) : Onward (Grammar.importDeclaration start) := by
  unfold Grammar.importDeclaration
  infer_instance

instance startsImportExpression : Onward Grammar.startsImportExpression := by
  unfold Grammar.startsImportExpression
  infer_instance

instance exportSpecifier : Onward Grammar.exportSpecifier := by
  unfold Grammar.exportSpecifier
  infer_instance

instance exportSpecifiers : Onward Grammar.exportSpecifiers := by
  unfold Grammar.exportSpecifiers
  infer_instance

instance exportSource (start : Nat) : Onward (Grammar.exportSource start) := by
  unfold Grammar.exportSource
  infer_instance

instance exportNames (start : Nat) : Onward (Grammar.exportNames start) := by
  unfold Grammar.exportNames
  infer_instance

instance exportAll (start : Nat) : Onward (Grammar.exportAll start) := by
  unfold Grammar.exportAll
  infer_instance

instance exportDefault (start : Nat) (marks : List Tree) :
    Onward (Grammar.exportDefault self start marks) := by
  unfold Grammar.exportDefault
  infer_instance

instance exportDeclaration (start : Nat) (marks : List Tree) :
    Onward (Grammar.exportDeclaration self start marks) := by
  unfold Grammar.exportDeclaration
  infer_instance

/-! ### Statements -/

instance blockStatement : Onward (Grammar.blockStatement self) := by
  unfold Grammar.blockStatement
  infer_instance

instance parenthesized : Onward (Grammar.parenthesized self) := by
  unfold Grammar.parenthesized
  infer_instance

instance startsBlockDeclaration : Onward Grammar.startsBlockDeclaration := by
  unfold Grammar.startsBlockDeclaration
  infer_instance

instance body : Onward (Grammar.body self) := by
  unfold Grammar.body
  infer_instance

instance ifStatement (start : Nat) : Onward (Grammar.ifStatement self start) := by
  unfold Grammar.ifStatement
  infer_instance

instance switchCase : Onward (Grammar.switchCase self) := by
  unfold Grammar.switchCase
  infer_instance

instance switchStatement (start : Nat) : Onward (Grammar.switchStatement self start) := by
  unfold Grammar.switchStatement
  infer_instance

instance catchClause : Onward (Grammar.catchClause self) := by
  unfold Grammar.catchClause
  infer_instance

instance tryStatement (start : Nat) : Onward (Grammar.tryStatement self start) := by
  unfold Grammar.tryStatement
  infer_instance

instance whileStatement (start : Nat) : Onward (Grammar.whileStatement self start) := by
  unfold Grammar.whileStatement
  infer_instance

instance doStatement (start : Nat) : Onward (Grammar.doStatement self start) := by
  unfold Grammar.doStatement
  infer_instance

instance loopHead : Onward (Grammar.loopHead self) := by
  unfold Grammar.loopHead
  infer_instance

instance countedLoop (head : Grammar.LoopHead) : Onward (Grammar.countedLoop self head) := by
  unfold Grammar.countedLoop
  cases head <;> infer_instance

instance target (head : Grammar.LoopHead) : Onward head.target := by
  unfold Grammar.LoopHead.target
  split
  · infer_instance
  · infer_instance
  · split <;> infer_instance

instance forStatement (start : Nat) : Onward (Grammar.forStatement self start) := by
  unfold Grammar.forStatement
  infer_instance

instance isAtStatementEnd : Onward Grammar.isAtStatementEnd := by
  unfold Grammar.isAtStatementEnd
  infer_instance

instance returnStatement (start : Nat) : Onward (Grammar.returnStatement self start) := by
  unfold Grammar.returnStatement
  infer_instance

instance throwStatement (start : Nat) : Onward (Grammar.throwStatement self start) := by
  unfold Grammar.throwStatement
  infer_instance

instance jumpStatement (start : Nat) : Onward (Grammar.jumpStatement start) := by
  unfold Grammar.jumpStatement
  infer_instance

instance expressionStatement : Onward (Grammar.expressionStatement self) := by
  unfold Grammar.expressionStatement
  infer_instance

instance decoratedStatement : Onward (Grammar.decoratedStatement self) := by
  unfold Grammar.decoratedStatement
  infer_instance

lemma keyword {start : Nat} {word : String} {p : Parser Tree}
    (h : Grammar.keywordStatement? self start word = some p) : Onward p := by
  unfold Grammar.keywordStatement? at h
  split at h <;> cases h <;> infer_instance

instance wordStatement (word : String) : Onward (Grammar.wordStatement self word) := by
  unfold Grammar.wordStatement
  refine bind (h := fun start => ?_)
  split
  · next h => exact keyword self h
  · infer_instance

instance statement : Onward (Grammar.statement self) := by
  unfold Grammar.statement
  infer_instance

/-! ### The grammar -/

instance rule (goal : Goal) : Onward (Script.rule self goal) := by
  cases goal <;> (unfold Script.rule; infer_instance)

instance grammar (n : Nat) (goal : Goal) : Onward (Script.grammar n goal) := by
  induction n generalizing goal with
  | zero => exact failure
  | succ n ih => exact rule (Script.grammar n) goal

end Onward

namespace Program

variable {t u : Text} {x : Tree}

/-- A statement leaves a text at the end of the one it is read from. -/
lemma suffix_of_statement? (h : statement? t = some (x, u)) : u <:+ t := by
  obtain ⟨-, s, hrun, hflawed, -, rfl⟩ := statement?_eq_some_iff.mp h
  rw [← first_eq_state] at hrun
  have hwithin := Onward.keeps (State.within_first t true)
    (show Script.grammar (depthFor t - 1 + 1) .statement _ = _ from hrun)
  exact suffix_of_dropBytes? (hwithin hflawed).here

end Program

end ComponentMigration.Script
