import ComponentMigration.Proofs.Script.Lays
import ComponentMigration.Proofs.Script.Grammar

/-!
The grammar lays out the trees that it reads.

* **Parts of the grammar.** Each part `LaysAlone`, or goes on with trees behind a mark (`LaysFrom`).
  For most of them that is found from the parts that they are composed of.
* **Holes.** A hole of an array stands in front of the next token, so that the elements reach to
  where the token begins (`Reaches`), and not to where the last one ended.
* **Tags.** The name of a tag can be empty. Then a word follows, and the name is no reference
  (`run_markupName`, `run_tagRest_nil`).
* **Namespaces.** The names of a namespace are declared inside of each other, in the order in which
  they were read (`Names`).
* **Main statement.** `Lays.grammar`: the grammar lays out its trees for every goal, to any depth.
-/

namespace ComponentMigration.Script

open Text Script.Parser

namespace Lays

set_option synthInstance.maxSize 1000000

variable {Γ Γ' : Shelf} {Δ : List (List Tree)} (self : Grammar) [∀ goal, Onward (self goal)]
  [∀ goal, LaysAlone false (self goal)]

/-! ### Names -/

instance exportName : LaysAlone true Grammar.exportName := alone_of <| by
  unfold Grammar.exportName
  infer_instance

/-- The name of an export is a token that is not empty. -/
instance spells_exportName : Spells Grammar.exportName where
  spells s s' w hs hrun := by
    rw [Grammar.run_exportName] at hrun
    obtain ⟨_, hname, hrun⟩ := Option.map_eq_some_iff.mp hrun
    cases hrun
    rw [State.lastStop_next]
    exact hs.name (Option.isSome_of_eq_some hname)

instance isAtExportName : Stays Grammar.isAtExportName := Stays.look Grammar.run_isAtExportName

/-! ### Patterns and parameters -/

instance statedType? : LaysAlone false (Grammar.statedType? self) := alone_of <| by
  unfold Grammar.statedType?
  infer_instance

instance initializer? : LaysAlone false (Grammar.initializer? self) := alone_of <| by
  unfold Grammar.initializer?
  infer_instance

instance propertyName : LaysAlone true (Grammar.propertyName self) := alone_of <| by
  unfold Grammar.propertyName
  infer_instance

instance isModifier (w : Text) (acrossLines : Bool) : Stays (Grammar.isModifier w acrossLines) := by
  unfold Grammar.isModifier
  infer_instance

instance patternWithDefault (binder : Binder) :
    LaysAlone false (Grammar.patternWithDefault self binder) := alone_of <| by
  unfold Grammar.patternWithDefault
  infer_instance

instance restPattern (binder : Binder) :
    LaysAlone false (Grammar.restPattern self binder) := alone_of <| by
  unfold Grammar.restPattern
  infer_instance

/-- Behind the test the state is as it was. -/
instance propertyPattern (binder : Binder) :
    LaysAlone false (Grammar.propertyPattern self binder) :=
  alone_of <| by
    have h : Lays false [] (do
        let start ← Parser.place
        let isShorthand ← Parser.ahead do
          let _ ← Parser.identifier
          return !(← Parser.isAt ":")
        if isShorthand then
          let p ← Parser.bindingName binder
          let value ← Grammar.initializer? self
          Parser.node .other start (p :: value)
        else
          let (key, _) ← Grammar.propertyName self
          Parser.expect ":"
          let value ← Grammar.patternWithDefault self binder
          Parser.node .other start (key ++ [value])) := by infer_instance
    refine of_run h fun s => ?_
    simp only [Grammar.propertyPattern, run_bind, run_place, run_ahead, run_get,
      Option.bind_some]
    split_ifs <;> rfl

instance pattern (binder : Binder) :
    LaysAlone false (Grammar.pattern self binder) := alone_of <| by
  unfold Grammar.pattern
  infer_instance

instance decorators : LaysAlone false (Grammar.decorators self) := alone_of <| by
  unfold Grammar.decorators
  infer_instance

instance passParameterModifiers :
    LaysAlone false (Grammar.passParameterModifiers) := alone_of <| by
  unfold Grammar.passParameterModifiers
  infer_instance

instance parameter : LaysAlone false (Grammar.parameter self) := alone_of <| by
  unfold Grammar.parameter
  infer_instance

instance parameters : LaysAlone true (Grammar.parameters self) := alone_of <| by
  unfold Grammar.parameters
  infer_instance

/-! ### Types -/

instance typeArguments : LaysAlone true (Grammar.typeArguments self) := alone_of <| by
  unfold Grammar.typeArguments
  infer_instance

instance typeArguments? : LaysAlone false (Grammar.typeArguments? self) := alone_of <| by
  unfold Grammar.typeArguments?
  infer_instance

instance entityName (space : Space) : LaysAlone false (Grammar.entityName space) := alone_of <| by
  unfold Grammar.entityName
  infer_instance

instance typeParameter : LaysAlone false (Grammar.typeParameter self) := alone_of <| by
  unfold Grammar.typeParameter
  infer_instance

instance typeParameters? : LaysAlone false (Grammar.typeParameters? self) := alone_of <| by
  unfold Grammar.typeParameters?
  infer_instance

instance returnType : LaysAlone false (Grammar.returnType self) := alone_of <| by
  unfold Grammar.returnType
  infer_instance

instance returnType? : LaysAlone false (Grammar.returnType? self) := alone_of <| by
  unfold Grammar.returnType?
  infer_instance

instance signature : LaysAlone false (Grammar.signature self) := alone_of <| by
  unfold Grammar.signature
  infer_instance

instance functionType : LaysAlone false (Grammar.functionType self) := alone_of <| by
  unfold Grammar.functionType
  infer_instance

instance isFunctionType : Stays (Grammar.isFunctionType self) := by
  unfold Grammar.isFunctionType
  infer_instance

instance isIndexSignature : Stays (Grammar.isIndexSignature) := by
  unfold Grammar.isIndexSignature
  infer_instance

instance indexSignature : LaysAlone true (Grammar.indexSignature self) := alone_of <| by
  unfold Grammar.indexSignature
  infer_instance

instance endMember : LaysAlone false (Grammar.endMember) := alone_of <| by
  unfold Grammar.endMember
  infer_instance

instance namedMember : LaysAlone false (Grammar.namedMember self) := alone_of <| by
  unfold Grammar.namedMember
  infer_instance

instance typeMember : LaysAlone false (Grammar.typeMember self) := alone_of <| by
  unfold Grammar.typeMember
  infer_instance

instance typeMembers : LaysAlone true (Grammar.typeMembers self) := alone_of <| by
  unfold Grammar.typeMembers
  infer_instance

instance isMappedType : Stays (Grammar.isMappedType) := by
  unfold Grammar.isMappedType
  infer_instance

instance mappedType : LaysAlone false (Grammar.mappedType self) := alone_of <| by
  unfold Grammar.mappedType
  infer_instance

instance tupleElement : LaysAlone false (Grammar.tupleElement self) := alone_of <| by
  unfold Grammar.tupleElement
  infer_instance

instance templateOf (inside : Parser Tree) [Onward inside] [LaysAlone false inside] :
    LaysAlone true (Grammar.templateOf inside) := alone_of <| by
  unfold Grammar.templateOf
  infer_instance

instance typeReference : LaysAlone false (Grammar.typeReference self) := alone_of <| by
  unfold Grammar.typeReference
  infer_instance

instance importType : LaysAlone false (Grammar.importType self) := alone_of <| by
  unfold Grammar.importType
  infer_instance

instance primaryType : LaysAlone false (Grammar.primaryType self) := alone_of <| by
  unfold Grammar.primaryType
  infer_instance

instance postfixType : LaysAlone false (Grammar.postfixType self) := alone_of <| by
  unfold Grammar.postfixType
  infer_instance

instance inferredBound? : LaysAlone false (Grammar.inferredBound? self) := alone_of <| by
  unfold Grammar.inferredBound?
  infer_instance

instance operatorType : LaysAlone false (Grammar.operatorType self) := alone_of <| by
  unfold Grammar.operatorType
  infer_instance

instance joinedTypes (operator : Text) (element : Parser Tree) [Onward element]
    [LaysAlone false element] : LaysAlone false (Grammar.joinedTypes self operator element) :=
  alone_of <| by
    unfold Grammar.joinedTypes
    infer_instance

instance type : LaysAlone false (Grammar.type self) := alone_of <| by
  unfold Grammar.type
  infer_instance

/-! ### Functions and classes -/

instance block : LaysAlone true (Grammar.block self) := alone_of <| by
  unfold Grammar.block
  infer_instance

instance functionParts (isAsync isGenerator : Bool) :
    LaysAlone true (Grammar.functionParts self isAsync isGenerator) := alone_of <| by
  unfold Grammar.functionParts
  infer_instance

instance functionDeclaration (start : Nat) (isAsync isNameless : Bool) :
    LaysFrom start [] (Grammar.functionDeclaration self start isAsync isNameless) where
  laid := by
    unfold Grammar.functionDeclaration
    infer_instance

instance functionExpression (start : Nat) (isAsync : Bool) :
    LaysFrom start [] (Grammar.functionExpression self start isAsync) where
  laid := by
    unfold Grammar.functionExpression
    infer_instance

instance method (isAsync isGenerator : Bool) :
    LaysAlone false (Grammar.method self isAsync isGenerator) := alone_of <| by
  unfold Grammar.method
  infer_instance

/-- Each modifier is told by a test that leaves the state alone, so the loop only goes on. -/
instance passMemberModifiers : LaysAlone false Grammar.passMemberModifiers := alone_of <|
  of_leads fun s s' a hs hrun => by
    rw [Grammar.passMemberModifiers, run_bind] at hrun
    obtain ⟨⟨b, s₁⟩, h₁, h₂⟩ := Option.bind_eq_some_iff.mp hrun
    cases h₂
    -- Whatever the token is, a step either passes it or is the end of the loop.
    refine leads_repeatUpTo (Γ := fun _ => []) (fun _ => bind_still (h := fun tok => ?_)) hs h₁
    split
    · split <;> infer_instance
    · infer_instance

instance startsStaticBlock : Stays (Grammar.startsStaticBlock) := by
  unfold Grammar.startsStaticBlock
  infer_instance

instance classMember : LaysAlone false (Grammar.classMember self) := alone_of <| by
  unfold Grammar.classMember
  infer_instance

instance heritage (element : Parser Tree) [Onward element] [LaysAlone false element] :
    LaysAlone false (Grammar.heritage self element) := alone_of <| by
  unfold Grammar.heritage
  infer_instance

instance classParts : LaysAlone true (Grammar.classParts self) := alone_of <| by
  unfold Grammar.classParts
  infer_instance

instance className? : LaysAlone false (Grammar.className?) := alone_of <| by
  unfold Grammar.className?
  infer_instance

instance classDeclaration (start : Nat) (marks : List Tree) :
    LaysFrom start marks (Grammar.classDeclaration self start marks) where
  laid := by
    unfold Grammar.classDeclaration
    infer_instance

instance classExpression (start : Nat) (marks : List Tree) :
    LaysFrom start marks (Grammar.classExpression self start marks) where
  laid := by
    unfold Grammar.classExpression
    infer_instance

/-! ### Literals and groups -/

instance spread : LaysAlone false (Grammar.spread self) := alone_of <| by
  unfold Grammar.spread
  infer_instance

/-- A hole stands where a spread ends. -/
instance withLastHole {Δ Δ' : List (List Tree)} (elements : List Tree) (isTrailing : Bool)
    [h : Picks elements Δ Δ'] : Picks (Grammar.withLastHole elements isTrailing) Δ Δ' where
  picks _ _ _ _ hΔ := Grammar.between_withLastHole isTrailing (h.picks hΔ)

/-- Trees that end where the next token begins. -/
structure Reaches (s : State) (xs : List Tree) (s' : State) : Prop where
  leads : s.Leads s'
  within : ∀ ⦃t : Text⦄, s.Within t → s'.Within t
  between : ∀ ⦃t : Text⦄, s.Within t → s'.isFlawed = false → Between t s.start s'.start xs

namespace Reaches

variable {s s' s'' : State} {xs ys : List Tree}

/-- Nothing was read yet. -/
lemma nil (hs : s.IsOrdered) : Reaches s [] s := ⟨hs.refl, fun _ h => h, fun _ _ _ => .nil⟩

/-- A token more was passed behind the trees. -/
lemma next (h : Reaches s xs s') : Reaches s xs s'.next := by
  have hnext := h.leads.ordered.next
  exact ⟨h.leads.trans hnext, fun _ hs => (h.within hs).next, fun _ hs hflawed =>
    (h.between hs (hnext.flawed hflawed)).mono (Nat.le_refl _) hnext.start⟩

/-- Trees that were read behind others stand behind them; they are found in front of them in the
list. -/
lemma append (h : Reaches s xs s') (h' : Reaches s' ys s'') : Reaches s (ys ++ xs) s'' := by
  refine ⟨h.leads.trans h'.leads, fun _ hs => h'.within (h.within hs), fun _ hs hflawed => ?_⟩
  have hxs := h.between hs (h'.leads.flawed hflawed)
  exact (hxs.append (h'.between (h.within hs) hflawed) h.leads.start (Nat.le_refl _)
    h'.leads.start).of_subperm List.perm_append_comm.subperm

/-- The order of the list does not matter. -/
lemma reverse (h : Reaches s xs s') : Reaches s xs.reverse s' :=
  ⟨h.leads, h.within, fun _ hs hflawed =>
    (h.between hs hflawed).of_subperm xs.reverse_perm.subperm⟩

end Reaches

/-- An element of an array can be a hole, which stands in front of the next token. -/
lemma reaches_arrayElement {s s' : State} {x : Tree} (hs : s.IsOrdered)
    (hrun : Grammar.arrayElement self s = some (x, s')) : Reaches s [x] s' := by
  have hkeeps := hrun
  rw [Grammar.arrayElement, run_bind, run_place, Option.bind_some, run_bind, run_isAt,
    Option.bind_some] at hrun
  split_ifs at hrun
  -- A hole is empty: it begins and ends at the token in front of which it stands.
  · cases hrun
    refine ⟨hs.refl, fun _ h => h, fun t hwithin hflawed => ?_⟩
    have hstart := (hwithin hflawed).isBoundary_start
    exact Between.nil.node hstart hstart (Nat.le_refl _)
  -- Any other element ends in front of the next token, and so before that token begins.
  · have h : Lays false [] (Parser.isAt "..." >>= fun isSpread =>
        if isSpread = true then Grammar.spread self else self (.assignment true)) := by
      infer_instance
    have hlead := h.leads hs hrun
    refine ⟨hlead, fun _ hwithin => Onward.keeps hwithin hkeeps, fun t hwithin hflawed => ?_⟩
    exact (h.lays hwithin hs (.nil (Nat.le_refl _)) hrun hflawed).1.mono (Nat.le_refl _)
      hlead.ordered.last

/-- The elements of an array, each behind a comma: the loop keeps that they reach to the next
token. -/
lemma reaches_arrayElements {s s' : State} {found : List Tree × Bool} (hs : s.IsOrdered)
    (hrun : Parser.separated "]" "," (Grammar.arrayElement self) s = some (found, s')) :
    Reaches s found.1 s' := by
  rw [Parser.separated, run_bind, run_isAt, Option.bind_some] at hrun
  split_ifs at hrun
  · cases hrun
    exact .nil hs
  · rw [run_bind] at hrun
    obtain ⟨⟨x, s₁⟩, h₁, hrun⟩ := Option.bind_eq_some_iff.mp hrun
    rw [run_bind] at hrun
    obtain ⟨⟨found', s₂⟩, h₂, hrun⟩ := Option.bind_eq_some_iff.mp hrun
    cases hrun
    -- The loop collects the elements with the last one first.
    refine Reaches.reverse (repeatUpTo_keeps
      (P := fun (found : List Tree × Bool) s₁ => Reaches s found.1 s₁) ?_
        (reaches_arrayElement self hs h₁) h₂)
    -- One step: the list is over, a comma was its end, or one more element is read behind a
    -- comma.
    rintro ⟨elements, isTrailing⟩ s₁ o s₂ hreaches hstep
    dsimp only at hstep
    split_ifs at hstep
    · cases hstep
      exact hreaches
    · rw [run_bind, run_isAt, Option.bind_some] at hstep
      split_ifs at hstep
      · cases hstep
        exact hreaches
      · rw [run_bind] at hstep
        obtain ⟨⟨u, s₃⟩, h₃, hstep⟩ := Option.bind_eq_some_iff.mp hstep
        rw [run_expect] at h₃
        split_ifs at h₃
        cases h₃
        rw [run_bind, run_isAt, Option.bind_some] at hstep
        split_ifs at hstep
        · cases hstep
          exact hreaches.next
        · rw [run_bind] at hstep
          obtain ⟨⟨y, s₄⟩, h₄, hstep⟩ := Option.bind_eq_some_iff.mp hstep
          cases hstep
          exact hreaches.next.append (reaches_arrayElement self hreaches.next.leads.ordered h₄)

/-- A context for some part of the text moves nothing. -/
lemma Reaches.of_within {g : Context → Context} {p : Parser (List Tree × Bool)}
    (h : ∀ ⦃s s' : State⦄ ⦃found⦄, s.IsOrdered → p s = some (found, s') → Reaches s found.1 s')
    {s s' : State} {found : List Tree × Bool} (hs : s.IsOrdered)
    (hrun : Parser.within g p s = some (found, s')) : Reaches s found.1 s' := by
  rw [run_within] at hrun
  obtain ⟨⟨found, s₁⟩, h₁, hrun⟩ := Option.map_eq_some_iff.mp hrun
  cases hrun
  obtain ⟨⟨hord, hl, hst, hflawed⟩, hwithin, hbetween⟩ := h (hs.inContext (g s.context)) h₁
  exact ⟨⟨hord.inContext _, hl, hst, hflawed⟩,
    fun _ hs => (hwithin (hs.inContext _)).inContext _, fun _ hs => hbetween (hs.inContext _)⟩

/-- The elements of an array and the bracket behind them. -/
def arrayElements : Parser (List Tree × Bool) := do
  let found ← Parser.within Grammar.Context.inBrackets
    (Parser.separated "]" "," (Grammar.arrayElement self))
  Parser.expect "]"
  return found

/-- The closing bracket is the token that the elements reach to. -/
lemma run_arrayElements {s s' : State} {found : List Tree × Bool} (hs : s.IsOrdered)
    (hrun : arrayElements self s = some (found, s')) :
    ∃ s₁, Reaches s found.1 s₁ ∧ s' = s₁.next := by
  rw [arrayElements, run_bind] at hrun
  obtain ⟨⟨found', s₁⟩, h₁, hrun⟩ := Option.bind_eq_some_iff.mp hrun
  rw [run_bind] at hrun
  obtain ⟨⟨u, s₂⟩, h₂, hrun⟩ := Option.bind_eq_some_iff.mp hrun
  cases hrun
  rw [run_expect] at h₂
  split_ifs at h₂
  cases h₂
  exact ⟨s₁, .of_within (fun _ _ _ => reaches_arrayElements self) hs h₁, rfl⟩

/-- The bracket ends behind its beginning, so the elements end before the last token passed does. -/
instance elements : LaysAlone true (arrayElements self) where
  laid := {
    leads := fun s s' found hs hrun => by
      obtain ⟨s₁, hreaches, rfl⟩ := run_arrayElements self hs hrun
      exact hreaches.next.leads
    lays := fun t k s s' found hwithin hs hΓ hrun hflawed => by
      obtain ⟨s₁, hreaches, rfl⟩ := run_arrayElements self hs hrun
      have hord := hreaches.leads.ordered
      have hstop := State.start_le_lastStop_next hord
      have hk := hΓ.le
      refine ⟨?_, fun _ => Nat.le_trans hk (Nat.le_trans hreaches.leads.start hstop)⟩
      exact (hreaches.between hwithin (hord.next.flawed hflawed)).mono hk hstop }

instance onward_elements : Onward (arrayElements self) := by
  unfold arrayElements
  infer_instance

/-- The array is its elements between brackets, with the last hole put in. -/
instance array : LaysAlone false (Grammar.array self) := alone_of <| by
  have h : Lays false [] (do
      let start ← Parser.place
      Parser.expect "["
      let found ← arrayElements self
      Parser.node .array start (Grammar.withLastHole found.1 found.2)) := by infer_instance
  refine of_run h fun s => ?_
  simp only [Grammar.array, arrayElements, bind_assoc, LawfulMonad.pure_bind]

/-- The test looks at a token and leaves the state as it was. -/
instance shorthand? : Stays Grammar.shorthand? := by
  unfold Grammar.shorthand?
  refine Stays.bind (h := fun s => ?_)
  split <;> infer_instance

/-- The name of a shorthand property is a node already. -/
instance shorthandMember (start : Nat) (w : Text) [Since start Γ Δ Γ'] [Passed start Γ]
    [Exceeds start Γ] :
    Lays false Γ (do
      let reference := Tree.node (.reference w .value none) ⟨start, (← get).lastStop⟩ []
      if ← Parser.eat "=" then
        let default ← self (.assignment true)
        Parser.node .initialized start [reference, default]
      else Parser.node .shorthand start [reference]) := by
  change Lays false Γ (Parser.node (.reference w .value none) start [] >>= fun reference => do
    if ← Parser.eat "=" then
      let default ← self (.assignment true)
      Parser.node .initialized start [reference, default]
    else Parser.node .shorthand start [reference])
  infer_instance

/-- The name of a property that can be a reference is a word. -/
lemma shorthand?_eq_some {s s' : State} {w : Text}
    (h : Grammar.shorthand? s = some (some w, s')) : s' = s ∧ ∃ e, s.token = .word w e := by
  simp only [Grammar.shorthand?, run_bind, run_get, Option.bind_some] at h
  cases htoken : s.token <;> rw [htoken] at h <;> try cases h
  obtain ⟨hw, rfl⟩ := Prod.mk.inj (Option.some.inj h)
  split_ifs at hw
  cases hw
  exact ⟨rfl, _, rfl⟩

/-- In front of such a name a word is passed. -/
instance shorthand_bind {on : Bool} {α : Type} [Bears α]
    {f : Option Text → List Tree × Bool → Parser α}
    [hnone : Lays on Γ (Grammar.propertyName self >>= f none)]
    [hsome : ∀ w, Lays on (.word :: Γ) (f (some w) ([], true))] :
    Lays on Γ (Grammar.shorthand? >>= fun short => Grammar.propertyName self >>= f short) := by
  -- In place of the name of the property a word is passed, which is what lies in front of its
  -- end.
  have h : Lays on Γ (Grammar.shorthand? >>= fun short => match short with
      | some w => Grammar.exportName >>= fun _ => f (some w) ([], true)
      | none => Grammar.propertyName self >>= f none) := by infer_instance
  refine of_run h fun s => ?_
  rw [run_bind, run_bind]
  cases hshort : Grammar.shorthand? s with
  | none => rfl
  | some found =>
      obtain ⟨short, s'⟩ := found
      cases short with
      | none => rfl
      | some w =>
          -- Where the test finds a word, the name of the property passes just this word.
          obtain ⟨rfl, e, hword⟩ := shorthand?_eq_some hshort
          simp [Grammar.propertyName, hword, Token.name?]

instance objectMember : LaysAlone false (Grammar.objectMember self) := alone_of <| by
  unfold Grammar.objectMember
  infer_instance

instance object : LaysAlone false (Grammar.object self) := alone_of <| by
  unfold Grammar.object
  infer_instance

instance group : LaysAlone false (Grammar.group self) := alone_of <| by
  unfold Grammar.group
  infer_instance

instance template : LaysAlone true (Grammar.template self) := alone_of <| by
  unfold Grammar.template
  infer_instance

instance literal (form : Form) [Fails form.isSpecial] :
    LaysAlone false (Grammar.literal form) := alone_of <| by
  unfold Grammar.literal
  infer_instance

instance wordExpression : LaysAlone false (Grammar.wordExpression self) := alone_of <| by
  unfold Grammar.wordExpression
  infer_instance

instance primary : LaysAlone false (Grammar.primary self) := alone_of <| by
  unfold Grammar.primary
  infer_instance

/-! ### Accesses and calls -/

instance operatorRank? : Stays Grammar.operatorRank? := by
  unfold Grammar.operatorRank?
  refine Stays.bind (h := fun s => ?_)
  split <;> infer_instance

/-- What a call takes lies where the called expression does. -/
instance instantiation {Δ Δ' : List (List Tree)} (x : Tree) [h : Picks [x] Δ Δ'] :
    Picks (Grammar.instantiation x) Δ Δ' := h.of_inside fun _ => Grammar.between_instantiation

/-- A chain that is closed is the chain, or a node of the same span around it. -/
instance close {Δ Δ' : List (List Tree)} (c : Grammar.Chain) [h : Picks [c.1] Δ Δ'] :
    Picks [c.close] Δ Δ' := h.of_replaces <| by
  obtain ⟨x, isOptional⟩ := c
  cases isOptional
  · exact .refl x
  · exact .around x

instance startsExpression : Stays (Grammar.startsExpression) := by
  unfold Grammar.startsExpression
  infer_instance

instance canFollowTypeArguments : Stays (Grammar.canFollowTypeArguments) := by
  unfold Grammar.canFollowTypeArguments
  infer_instance

instance callTypeArguments? : LaysAlone false (Grammar.callTypeArguments? self) := alone_of <| by
  unfold Grammar.callTypeArguments?
  infer_instance

instance callArguments : LaysAlone false (Grammar.callArguments self) := alone_of <| by
  unfold Grammar.callArguments
  infer_instance

instance memberName (start : Nat) (object : Tree) :
    LaysFrom start [object] (Grammar.memberName start object) where
  laid := by
    unfold Grammar.memberName
    infer_instance

instance memberIndex (start : Nat) (object : Tree) :
    LaysFrom start [object] (Grammar.memberIndex self start object) where
  laid := by
    unfold Grammar.memberIndex
    infer_instance

instance taggedTemplate (start : Nat) (tag : Tree) :
    LaysFrom start [tag] (Grammar.taggedTemplate self start tag) where
  laid := by
    unfold Grammar.taggedTemplate
    infer_instance

instance startsOptionalAccess : Stays (Grammar.startsOptionalAccess) := by
  unfold Grammar.startsOptionalAccess
  infer_instance

instance nextAccess? (start : Nat) (c : Grammar.Chain) :
    LaysFrom start [c.1] (Grammar.nextAccess? self start c) where
  laid := by
    unfold Grammar.nextAccess?
    infer_instance

instance nextLink? (start : Nat) (c : Grammar.Chain) :
    LaysFrom start [c.1] (Grammar.nextLink? self start c) where
  laid := by
    unfold Grammar.nextLink?
    infer_instance

instance construction : LaysAlone false (Grammar.construction self) := alone_of <| by
  unfold Grammar.construction
  infer_instance

instance importExpression : LaysAlone false (Grammar.importExpression self) := alone_of <| by
  unfold Grammar.importExpression
  infer_instance

instance chainHead : LaysAlone false (Grammar.chainHead self) := alone_of <| by
  unfold Grammar.chainHead
  infer_instance

instance accesses : LaysAlone false (Grammar.accesses self) := alone_of <| by
  unfold Grammar.accesses
  infer_instance

instance chain : LaysAlone false (Grammar.chain self) := alone_of <| by
  unfold Grammar.chain
  infer_instance

/-! ### Operators -/

instance isFollowedByOperand : Stays (Grammar.isFollowedByOperand) := by
  unfold Grammar.isFollowedByOperand
  infer_instance

instance startsAwait : Stays (Grammar.startsAwait) := by
  unfold Grammar.startsAwait
  infer_instance

instance updateTarget (start : Nat) (e : Tree) :
    LaysFrom start [e] (Grammar.updateTarget start e) where
  laid := by
    unfold Grammar.updateTarget
    split
    -- The target takes the place of the operand that it was read as.
    · next target h =>
      have htarget (Δ : List (List Tree)) : Picks [target] ([e] :: Δ) Δ :=
        Picks.here.of_replaces (Grammar.replaces_of_toPlace? h)
      infer_instance
    · infer_instance

instance update : LaysAlone false (Grammar.update self) := alone_of <| by
  unfold Grammar.update
  infer_instance

instance startsUnary : Stays (Grammar.startsUnary) := by
  unfold Grammar.startsUnary
  infer_instance

instance unary : LaysAlone false (Grammar.unary self) := alone_of <| by
  unfold Grammar.unary
  infer_instance

instance nextOperation? (start least : Nat) (left : Grammar.LeftOperand) :
    LaysFrom start [left.1] (Grammar.nextOperation? self start least left) where
  laid := by
    unfold Grammar.nextOperation?
    infer_instance

instance privateTest : LaysAlone false (Grammar.privateTest self) := alone_of <| by
  unfold Grammar.privateTest
  infer_instance

instance operand (least : Nat) : LaysAlone false (Grammar.operand self least) := alone_of <| by
  unfold Grammar.operand
  infer_instance

instance conditional (start : Nat) (test : Tree) (allowsReturnType : Bool) :
    LaysFrom start [test] (Grammar.conditional self start test allowsReturnType) where
  laid := by
    unfold Grammar.conditional
    infer_instance

/-! ### Arrow functions, assignments and sequences -/

/-- Behind the test the state is as it was. -/
instance arrowLikelihood : Stays Grammar.arrowLikelihood where
  stays s s' found hrun := by
    have hset {q : Parser Grammar.Likelihood} {s₁ : State} (h : (do
        let found ← q
        set s
        return found) s₁ = some (found, s')) : s' = s := by
      rw [run_bind] at h
      obtain ⟨_, -, h⟩ := Option.bind_eq_some_iff.mp h
      cases h
      rfl
    rw [Grammar.arrowLikelihood, run_bind, run_get, Option.bind_some, run_bind] at hrun
    obtain ⟨⟨hasWord, s₁⟩, -, hrun⟩ := Option.bind_eq_some_iff.mp hrun
    simp only [run_bind s₁, run_isFresh, run_isAt, Option.bind_some] at hrun
    split_ifs at hrun <;> exact hset hrun

instance arrow : LaysAlone true (Grammar.arrow) := alone_of <| by
  unfold Grammar.arrow
  infer_instance

instance arrowHead : LaysAlone true (Grammar.arrowHead self) := alone_of <| by
  unfold Grammar.arrowHead
  infer_instance

instance arrowBody (isAsync allowsReturnType : Bool) :
    LaysAlone false (Grammar.arrowBody self isAsync allowsReturnType) := alone_of <| by
  unfold Grammar.arrowBody
  infer_instance

instance arrowFunction (allowsReturnType : Bool) :
    LaysAlone false (Grammar.arrowFunction self allowsReturnType) :=
  alone_of <| by
    unfold Grammar.arrowFunction Grammar.arrowNode
    infer_instance

instance arrowFunction? (allowsReturnType : Bool) :
    LaysAlone false (Grammar.arrowFunction? self allowsReturnType) :=
  alone_of <| by
    unfold Grammar.arrowFunction?
    refine bind_still (h := fun found => ?_)
    cases found <;> infer_instance

instance startsAsyncArrow : Stays (Grammar.startsAsyncArrow) := by
  unfold Grammar.startsAsyncArrow
  infer_instance

instance simpleArrow (start : Nat) (parameter : Tree) (isAsync allowsReturnType : Bool) :
    LaysFrom start [parameter]
      (Grammar.simpleArrow self start parameter isAsync allowsReturnType) where
  laid := by
    unfold Grammar.simpleArrow Grammar.arrowNode
    infer_instance

instance startsYield : Stays (Grammar.startsYield) := by
  unfold Grammar.startsYield
  infer_instance

instance yieldExpression : LaysAlone false (Grammar.yieldExpression self) := alone_of <| by
  unfold Grammar.yieldExpression
  infer_instance

instance assignTo (start : Nat) (left : Tree) (operator : Text) (allowsReturnType : Bool) :
    LaysFrom start [left] (Grammar.assignTo self start left operator allowsReturnType) where
  laid := by
    unfold Grammar.assignTo
    split
    · infer_instance
    · next target h =>
      -- With the sign of equality the left is read as a pattern, with another operator as a
      -- place; either way the target stands where the operand did.
      have hreplaces : target.Replaces left := by
        split_ifs at h
        · exact Grammar.hasTargets left target h
        · exact Grammar.replaces_of_toPlace? h
      have htarget (Δ : List (List Tree)) : Picks [target] ([left] :: Δ) Δ :=
        Picks.here.of_replaces hreplaces
      infer_instance

instance assignmentFrom (start : Nat) (left : Tree) (allowsReturnType : Bool) :
    LaysFrom start [left] (Grammar.assignmentFrom self start left allowsReturnType) where
  laid := by
    unfold Grammar.assignmentFrom
    refine bind_still (h := fun tok => ?_)
    split
    -- In front of an arrow a name is a parameter: the leaf that uses it becomes one that
    -- declares it.
    · next w space symbol s parts =>
      have hleaf (Δ : List (List Tree)) : Picks [.node (.binding w .value none) s []]
          ([.node (.reference w space symbol) s parts] :: Δ) Δ :=
        Picks.here.of_replaces (.name trivial trivial)
      infer_instance
    · infer_instance
    · infer_instance

instance assignment (allowsReturnType : Bool) :
    LaysAlone false (Grammar.assignment self allowsReturnType) := alone_of <| by
  unfold Grammar.assignment
  infer_instance

instance expression : LaysAlone false (Grammar.expression self) := alone_of <| by
  unfold Grammar.expression
  infer_instance

/-! ### Markup -/

/-- A name in a tag is read again where a word stands. If no character of the word can stand in such
a name, the name is empty and the word stays where it is. -/
lemma run_markupName {s s' : State} {w : Text} (hs : s.IsOrdered)
    (hrun : Grammar.markupName s = some (w, s')) : s.Leads s' ∧ s.start ≤ s'.lastStop ∧
      (w = [] → ∃ w' e, s'.token = .word w' e) ∧ (w ≠ [] → s.start < s'.lastStop) := by
  obtain ⟨isThere, hat, hthere⟩ : ∃ isThere, Parser.isAtName s = some (isThere, s) ∧
      (isThere = true → ∃ w' e, s.token = .word w' e) := by
    simp only [Parser.isAtName, run_bind, run_get, Option.bind_some]
    cases s.token <;> exact ⟨_, rfl, by simp⟩
  rw [Grammar.markupName, run_bind, hat, Option.bind_some, run_bind, run_require] at hrun
  -- The parser goes on only at a word.
  have hisThere : isThere = true := by
    cases isThere
    · cases hrun
    · rfl
  subst hisThere
  obtain ⟨w', e, hword⟩ := hthere rfl
  set r := s.reload (Lexeme.markupName s.here)
  have hnext : w = s.here.takeWhile (fun c => isNamePart c || c == '-') ∧ s' = r.next := by
    cases hrun
    exact ⟨rfl, rfl⟩
  obtain ⟨rfl, rfl⟩ := hnext
  have hlead := State.leads_next (s := r) hs.last (Nat.le_add_right _ _)
  -- The state was read again as a name and then passed: it leads on, it ends behind the name, an
  -- empty name leaves the word where it is, and any other one is passed.
  refine ⟨⟨hlead.ordered, hlead.last, hlead.start, fun hflawed => ?_⟩, ?_, fun hempty => ?_,
    fun hne => ?_⟩
  · simpa [r, State.reload, State.load, Lexeme.markupName] using hlead.flawed hflawed
  · rw [State.lastStop_next]
    exact Nat.le_add_right _ _
  · refine ⟨w', e, ?_⟩
    -- With nothing taken the text behind the name begins with the word itself.
    have hhere : r.rest = s.here := by
      change s.here.drop (s.here.takeWhile _).length = s.here
      rw [hempty, List.length_nil, List.drop_zero]
    rw [← hs.word w' e hword, ← hhere, State.next_eq]
    rfl
  · rw [State.lastStop_next]
    exact Nat.lt_add_of_pos_right (Nat.pos_of_ne_zero fun h => hne (byteLength_eq_zero_iff.mp h))

instance markupName : LaysAlone true Grammar.markupName where
  laid := {
    leads := fun _ _ _ hs hrun => (run_markupName hs hrun).1
    lays := fun _ _ _ _ _ _ hs hΓ hrun _ =>
      ⟨.nil, fun _ => Nat.le_trans hΓ.le (run_markupName hs hrun).2.1⟩ }

/-- What follows the first name of a tag, which may be used. -/
def tagRest (start : Nat) (isThis : Bool) (first : Text) (head : Tree) :
    Parser (Text × List Tree) := do
  if ← Parser.eat ":" then
    let second ← Grammar.markupName
    return (first ++ [':'] ++ second, [])
  if ← Parser.isAt "." then
    let path ← Parser.repeatWhile (fun (path : Text) => do
      if ← Parser.eat "." then
        let part ← Parser.name
        return some (path ++ ['.'] ++ part)
      else return none) first
    if isThis then return (path, []) else
      let tag ← Parser.node .other start [head]
      return (path, [tag])
  return (first, if Grammar.isReferenceTag first then [head] else [])

instance tagRest_lays (start : Nat) (isThis : Bool) (first : Text) :
    Lays false [.word, .mark start]
      (Parser.node (.reference first .value none) start [] >>= tagRest start isThis first) := by
  unfold tagRest
  infer_instance

/-- An empty name is followed by a word, so that it is no reference. -/
lemma run_tagRest_nil {start : Nat} {s : State} {w : Text} {e isThis : Bool} {head : Tree}
    (h : s.token = .word w e) : tagRest start isThis [] head s = some (([], []), s) := by
  simp [tagRest, h, Grammar.isReferenceTag]

/-- The first name of a tag is a reference only if it is not empty. So the two cases are apart:
with an empty name no tree is read, and any other name is a token passed. -/
instance elementName : LaysAlone false Grammar.elementName := by
  have hrun {s s' : State} {found : Text × List Tree}
      (h : Grammar.elementName s = some (found, s')) : ∃ isThis first s₁,
        Grammar.markupName s = some (first, s₁) ∧
          (Parser.node (.reference first .value none) s.start [] >>= tagRest s.start isThis first)
            s₁ = some (found, s') := by
    rw [Grammar.elementName, run_bind, run_place, Option.bind_some, run_bind, run_isAtWord,
      Option.bind_some, run_bind] at h
    obtain ⟨⟨first, s₁⟩, h₁, h⟩ := Option.bind_eq_some_iff.mp h
    exact ⟨_, first, s₁, h₁, h⟩
  refine ⟨⟨fun s s' found hs h => ?_, fun t k s s' found hwithin hs hΓ h hflawed => ?_⟩⟩
  · obtain ⟨isThis, first, s₁, h₁, h₂⟩ := hrun h
    have hlead := (run_markupName hs h₁).1
    exact hlead.trans ((tagRest_lays s.start isThis first).leads hlead.ordered h₂)
  · obtain ⟨isThis, first, s₁, h₁, h₂⟩ := hrun h
    obtain ⟨hlead, -, hempty, hpass⟩ := run_markupName hs h₁
    -- An empty name is no token passed, so the shelf of `tagRest` does not hold; but then
    -- nothing is read.
    by_cases hfirst : first = []
    · obtain ⟨w, e, hword⟩ := hempty hfirst
      subst hfirst
      rw [run_bind, run_node, Option.bind_some, run_tagRest_nil hword] at h₂
      cases h₂
      exact ⟨.nil, nofun⟩
    · have hrest := tagRest_lays s.start isThis first
      have hboundary := (hwithin (hlead.flawed
        ((hrest.leads hlead.ordered h₂).flawed hflawed))).isBoundary_start
      have hmark : Shelf.Holds t k [.mark s.start] s.lastStop s.start :=
        .cons (.nil hΓ.le : Shelf.Holds t k [] s.lastStop s.start) ⟨rfl, hboundary⟩ hs.last
          (Nat.le_refl _) (Nat.le_refl _)
      exact hrest.lays (Onward.keeps hwithin h₁) hlead.ordered
        (.cons hmark (hpass hfirst) hs.last hlead.last hlead.start) h₂ hflawed

instance embedded : LaysAlone false (Grammar.embedded self) := alone_of <| by
  unfold Grammar.embedded
  infer_instance

instance tagAttribute : LaysAlone false (Grammar.tagAttribute self) := alone_of <| by
  unfold Grammar.tagAttribute
  infer_instance

instance child : LaysAlone false (Grammar.child self) := alone_of <| by
  unfold Grammar.child
  infer_instance

instance isAtEndTag : Stays (Grammar.isAtEndTag) := by
  unfold Grammar.isAtEndTag
  infer_instance

instance children : LaysAlone false (Grammar.children self) := alone_of <| by
  unfold Grammar.children
  infer_instance

instance endTagMark (inMarkup : Bool) :
    LaysAlone true (Grammar.endTagMark inMarkup) := alone_of <| by
  unfold Grammar.endTagMark
  infer_instance

instance element (inMarkup : Bool) :
    LaysAlone false (Grammar.element self inMarkup) := alone_of <| by
  unfold Grammar.element
  infer_instance

/-! ### Declarations -/

instance variableDeclarator (binder : Binder) (isConstant : Bool) :
    LaysAlone false (Grammar.variableDeclarator self binder isConstant) := alone_of <| by
  unfold Grammar.variableDeclarator
  infer_instance

instance variableKind? : Stays (Grammar.variableKind?) := by
  unfold Grammar.variableKind?
  infer_instance

instance variableList : LaysAlone true (Grammar.variableList self) := alone_of <| by
  unfold Grammar.variableList
  infer_instance

instance variableStatement (start : Nat) :
    LaysFrom start [] (Grammar.variableStatement self start) where
  laid := by
    unfold Grammar.variableStatement
    infer_instance

instance interfaceDeclaration (start : Nat) :
    LaysFrom start [] (Grammar.interfaceDeclaration self start) where
  laid := by
    unfold Grammar.interfaceDeclaration
    infer_instance

instance aliasDeclaration (start : Nat) :
    LaysFrom start [] (Grammar.aliasDeclaration self start) where
  laid := by
    unfold Grammar.aliasDeclaration
    infer_instance

/-- The name of a member of an enumeration is passed like that of an export. -/
instance enumMember : LaysAlone false (Grammar.enumMember self) := alone_of <| by
  have h : Lays false [] (do
      let start ← Parser.place
      let declared ← if ← Grammar.isAtExportName then do
          let w ← Grammar.exportName
          pure [← Parser.node (.binding w .value none) start []]
        else do pure (← Grammar.propertyName self).1
      let value ← Grammar.initializer? self
      Parser.node .other start (declared ++ value)) := by infer_instance
  refine of_run h fun s => ?_
  simp only [Grammar.enumMember, run_bind, run_place, run_token, Grammar.run_isAtExportName,
    Option.bind_some]
  cases htoken : s.token <;> simp [Token.isName, Token.name?, htoken]

instance enumDeclaration (start : Nat) :
    LaysFrom start [] (Grammar.enumDeclaration self start) where
  laid := by
    unfold Grammar.enumDeclaration
    infer_instance

/-- Names that were read one behind the other, the last first. -/
structure Names (s : State) (found : List Tree) (s' : State) : Prop where
  leads : s.Leads s'
  within : ∀ ⦃t : Text⦄, s.Within t → s'.Within t
  between : ∀ ⦃t : Text⦄, s.Within t → s'.isFlawed = false → Between t s.start s'.lastStop found ∧
    found.reverse.Pairwise fun p q => p.span.Precedes q.span

/-- One more name behind a dot. -/
lemma Names.next {s s₁ s' : State} {found : List Tree} {x : Tree} (h : Names s found s₁)
    (hrun : Parser.bindingName .both s₁.next = some (x, s')) : Names s (x :: found) s' := by
  have hnext := h.leads.ordered.next
  have hname : LaysAlone false (Parser.bindingName .both) := inferInstance
  have hlead := hname.laid.leads hnext.ordered hrun
  refine ⟨(h.leads.trans hnext).trans hlead, fun _ hs => Onward.keeps (h.within hs).next hrun,
    fun t hs hflawed => ?_⟩
  -- The names found so far end before the dot, and the new name begins behind it.
  obtain ⟨hfound, horder⟩ := h.between hs (hnext.flawed (hlead.flawed hflawed))
  have hx := (alone_between hname (h.within hs).next hnext.ordered hrun hflawed).1
  have hle : s₁.lastStop ≤ s₁.next.start := Nat.le_trans hnext.last hnext.ordered.last
  have hnames := hfound.append hx (Nat.le_trans h.leads.start hnext.start) hle
    (Nat.le_trans hnext.last hlead.last)
  refine ⟨hnames.of_subperm (List.perm_append_singleton x found).symm.subperm, ?_⟩
  rw [List.reverse_cons, List.pairwise_append]
  refine ⟨horder, List.pairwise_singleton _ _, fun p hp q hq => ?_⟩
  rw [List.mem_singleton.mp hq]
  exact Nat.le_trans (hfound.le_stop (List.mem_reverse.mp hp))
    (Nat.le_trans hle (hx.start_le List.mem_cons_self))

/-- The names of a namespace stand one behind the other. -/
lemma names_of_namespaceNames {s s' : State} {found : List Tree} (hs : s.IsOrdered)
    (hrun : Grammar.namespaceNames s = some (found, s')) : Names s found.reverse s' := by
  rw [Grammar.namespaceNames, run_bind] at hrun
  obtain ⟨⟨x, s₁⟩, h₁, hrun⟩ := Option.bind_eq_some_iff.mp hrun
  rw [run_bind] at hrun
  obtain ⟨⟨found', s₂⟩, h₂, hrun⟩ := Option.bind_eq_some_iff.mp hrun
  cases hrun
  have hname : LaysAlone false (Parser.bindingName .both) := inferInstance
  have hfirst : Names s [x] s₁ := ⟨hname.laid.leads hs h₁, fun _ hwithin => Onward.keeps hwithin h₁,
    fun t hwithin hflawed => ⟨(alone_between hname hwithin hs h₁ hflawed).1,
      List.pairwise_singleton _ _⟩⟩
  rw [List.reverse_reverse]
  refine repeatUpTo_keeps (P := fun found s₁ => Names s found s₁) ?_ hfirst h₂
  intro found s₁ o s₂ hnames hstep
  rw [run_bind, run_eat] at hstep
  split_ifs at hstep
  · rw [Option.bind_some, if_pos rfl, run_bind] at hstep
    obtain ⟨⟨y, s₃⟩, h₃, hstep⟩ := Option.bind_eq_some_iff.mp hstep
    cases hstep
    exact hnames.next h₃
  · cases hstep
    exact hnames

/-- The names of a namespace and its body. -/
def namespaceParts : Parser (List Tree) := do
  let declared ← Grammar.namespaceNames
  let body ← Parser.within (fun c => { c with allowsAwait := true }) (Grammar.block self)
  return Grammar.nestedNamespace declared body (← get).lastStop

instance onward_namespaceParts : Onward (namespaceParts self) := by
  unfold namespaceParts
  infer_instance

/-- The names of a namespace are declared inside of each other, up to the end of the body. -/
instance parts : LaysAlone true (namespaceParts self) := by
  have hbody : LaysAlone true
    (Parser.within (fun c => { c with allowsAwait := true }) (Grammar.block self)) := inferInstance
  have hrun {s s' : State} {xs : List Tree} (hs : s.IsOrdered)
      (h : namespaceParts self s = some (xs, s')) : ∃ declared body s₁,
        Names s declared.reverse s₁ ∧ Parser.within (fun c => { c with allowsAwait := true })
          (Grammar.block self) s₁ = some (body, s') ∧
            xs = Grammar.nestedNamespace declared body s'.lastStop := by
    rw [namespaceParts, run_bind] at h
    obtain ⟨⟨declared, s₁⟩, h₁, h⟩ := Option.bind_eq_some_iff.mp h
    rw [run_bind] at h
    obtain ⟨⟨body, s₂⟩, h₂, h⟩ := Option.bind_eq_some_iff.mp h
    cases h
    exact ⟨declared, body, s₁, names_of_namespaceNames hs h₁, h₂, rfl⟩
  -- The names lead up to the body and the body up to the end; each name is laid around what
  -- follows it.
  refine ⟨⟨fun s s' xs hs h => ?_, fun t k s s' xs hwithin hs hΓ h hflawed => ?_⟩⟩
  · obtain ⟨declared, body, s₁, hnames, h₂, rfl⟩ := hrun hs h
    exact hnames.leads.trans (hbody.laid.leads hnames.leads.ordered h₂)
  · obtain ⟨declared, body, s₁, hnames, h₂, rfl⟩ := hrun hs h
    have hord := hnames.leads.ordered
    have hlead := hbody.laid.leads hord h₂
    obtain ⟨hdeclared, horder⟩ := hnames.between hwithin (hlead.flawed hflawed)
    obtain ⟨hlaid, htoken⟩ := alone_between hbody (hnames.within hwithin) hord h₂ hflawed
    have hstop := (Onward.keeps (hnames.within hwithin) h₂ hflawed).isBoundary_lastStop
    have hle := Nat.le_trans hnames.leads.start (htoken rfl)
    rw [List.reverse_reverse] at horder
    refine ⟨(Grammar.between_nestedNamespace
      (hdeclared.of_subperm (List.reverse_perm _).symm.subperm) horder hlaid hnames.leads.start
        hord.last (htoken rfl) hstop).mono hΓ.le (Nat.le_refl _),
      fun _ => Nat.le_trans hΓ.le hle⟩

instance namespaceDeclaration (start : Nat) :
    LaysFrom start [] (Grammar.namespaceDeclaration self start) where
  laid := by
    have h : Lays false [.trees [], .mark start] (do
        Parser.advance
        let parts ← namespaceParts self
        Parser.node .other start parts) := by infer_instance
    refine of_run h fun s => ?_
    simp only [Grammar.namespaceDeclaration, namespaceParts, bind_assoc, LawfulMonad.pure_bind]

instance ambientModule (start : Nat) : LaysFrom start [] (Grammar.ambientModule self start) where
  laid := by
    unfold Grammar.ambientModule
    infer_instance

instance importAlias (start : Nat) (declared : Tree) :
    LaysFrom start [declared] (Grammar.importAlias start declared) where
  laid := by
    unfold Grammar.importAlias
    infer_instance

instance declarationHere (start : Nat) (marks : List Tree) :
    LaysFrom start marks (Grammar.declarationHere self start marks) where
  laid := by
    unfold Grammar.declarationHere
    infer_instance

instance declaration (start : Nat) (marks : List Tree) :
    LaysFrom start marks (Grammar.declaration self start marks) where
  laid := by
    unfold Grammar.declaration
    infer_instance

/-! ### Imports and exports -/

instance isTypeSpecifier : Stays (Grammar.isTypeSpecifier) := by
  unfold Grammar.isTypeSpecifier
  infer_instance

instance moduleName : LaysAlone true (Grammar.moduleName) := alone_of <| by
  unfold Grammar.moduleName
  infer_instance

instance passImportAttributes : LaysAlone false (Grammar.passImportAttributes) := alone_of <| by
  unfold Grammar.passImportAttributes
  infer_instance

instance importSpecifier (binder : Binder) :
    LaysAlone false (Grammar.importSpecifier binder) := alone_of <| by
  unfold Grammar.importSpecifier
  infer_instance

instance namespaceSpecifier (binder : Binder) :
    LaysAlone false (Grammar.namespaceSpecifier binder) := alone_of <| by
  unfold Grammar.namespaceSpecifier
  infer_instance

instance importSpecifiers (binder : Binder) :
    LaysAlone false (Grammar.importSpecifiers binder) := alone_of <| by
  unfold Grammar.importSpecifiers
  infer_instance

instance startsTypeImport : Stays (Grammar.startsTypeImport) := by
  unfold Grammar.startsTypeImport
  infer_instance

instance importSource (start : Nat) (isType : Bool) (specifiers : List Tree) :
    LaysFrom start specifiers (Grammar.importSource start isType specifiers) where
  laid := by
    unfold Grammar.importSource
    infer_instance

instance importDeclaration (start : Nat) : LaysFrom start [] (Grammar.importDeclaration start) where
  laid := by
    unfold Grammar.importDeclaration
    infer_instance

instance exportSpecifier : LaysAlone false (Grammar.exportSpecifier) := alone_of <| by
  unfold Grammar.exportSpecifier
  infer_instance

instance exportSpecifiers : LaysAlone true (Grammar.exportSpecifiers) := alone_of <| by
  unfold Grammar.exportSpecifiers
  infer_instance

instance exportSource (start : Nat) : LaysFrom start [] (Grammar.exportSource start) where
  laid := by
    unfold Grammar.exportSource
    infer_instance

instance exportNames (start : Nat) : LaysFrom start [] (Grammar.exportNames start) where
  laid := by
    unfold Grammar.exportNames
    infer_instance

instance exportAll (start : Nat) : LaysFrom start [] (Grammar.exportAll start) where
  laid := by
    unfold Grammar.exportAll
    infer_instance

instance exportDefault (start : Nat) (marks : List Tree) :
    LaysFrom start marks (Grammar.exportDefault self start marks) where
  laid := by
    unfold Grammar.exportDefault
    infer_instance

instance exportDeclaration (start : Nat) (marks : List Tree) :
    LaysFrom start marks (Grammar.exportDeclaration self start marks) where
  laid := by
    unfold Grammar.exportDeclaration
    infer_instance

/-! ### Statements -/

instance blockStatement : LaysAlone false (Grammar.blockStatement self) := alone_of <| by
  unfold Grammar.blockStatement
  infer_instance

instance parenthesized : LaysAlone false (Grammar.parenthesized self) := alone_of <| by
  unfold Grammar.parenthesized
  infer_instance

instance startsBlockDeclaration : Stays (Grammar.startsBlockDeclaration) := by
  unfold Grammar.startsBlockDeclaration
  infer_instance

instance body : LaysAlone false (Grammar.body self) := alone_of <| by
  unfold Grammar.body
  infer_instance

instance ifStatement (start : Nat) : LaysFrom start [] (Grammar.ifStatement self start) where
  laid := by
    unfold Grammar.ifStatement
    infer_instance

instance switchCase : LaysAlone false (Grammar.switchCase self) := alone_of <| by
  unfold Grammar.switchCase
  infer_instance

instance switchStatement (start : Nat) :
    LaysFrom start [] (Grammar.switchStatement self start) where
  laid := by
    unfold Grammar.switchStatement
    infer_instance

instance catchClause : LaysAlone false (Grammar.catchClause self) := alone_of <| by
  unfold Grammar.catchClause
  infer_instance

instance tryStatement (start : Nat) : LaysFrom start [] (Grammar.tryStatement self start) where
  laid := by
    unfold Grammar.tryStatement
    infer_instance

instance whileStatement (start : Nat) : LaysFrom start [] (Grammar.whileStatement self start) where
  laid := by
    unfold Grammar.whileStatement
    infer_instance

instance doStatement (start : Nat) : LaysFrom start [] (Grammar.doStatement self start) where
  laid := by
    unfold Grammar.doStatement
    infer_instance

/-- The parts of a head that was bound are on the shelf as one item. -/
instance loopParts (head : Grammar.LoopHead) :
    Picks head.parts (Bears.trees head :: Δ) Δ := Picks.here

/-- An empty head has no parts. -/
instance noParts : Picks Grammar.LoopHead.nothing.parts Δ Δ := Picks.nil

/-- A head that declares has the trees that were read for it. -/
instance declaredParts {Δ'' : List (List Tree)} (found : List Tree) (lacksValue : Bool)
    [h : Picks found Δ Δ''] : Picks (Grammar.LoopHead.declared found lacksValue).parts Δ Δ'' := h

/-- A head that is an expression has this one tree. -/
instance expressionParts {Δ'' : List (List Tree)} (e : Tree) [h : Picks [e] Δ Δ''] :
    Picks (Grammar.LoopHead.expression e).parts Δ Δ'' := h

instance loopHead : LaysAlone false (Grammar.loopHead self) := alone_of <| by
  unfold Grammar.loopHead
  infer_instance

instance countedLoop (head : Grammar.LoopHead) :
    LaysOnto true (Bears.trees head) (Grammar.countedLoop self head) where
  laid := by
    unfold Grammar.countedLoop
    cases head <;> infer_instance

/-- What a loop assigns to is what it declares, or the expression read as a pattern. -/
instance target (head : Grammar.LoopHead) : LaysOnto false (Bears.trees head) head.target where
  laid := by
    cases head with
    | nothing => exact failure
    | declared found lacksValue =>
        change Lays false [.trees found] (pure found)
        infer_instance
    | expression e =>
        rw [Grammar.LoopHead.target]
        split
        · next target h =>
          have htarget (Δ : List (List Tree)) : Picks [target] ([e] :: Δ) Δ :=
            Picks.here.of_replaces (Grammar.hasTargets e target h)
          change Lays false [.trees [e]] (pure [target])
          infer_instance
        · exact failure

instance forStatement (start : Nat) : LaysFrom start [] (Grammar.forStatement self start) where
  laid := by
    unfold Grammar.forStatement
    infer_instance

instance isAtStatementEnd : Stays (Grammar.isAtStatementEnd) := by
  unfold Grammar.isAtStatementEnd
  infer_instance

instance returnStatement (start : Nat) :
    LaysFrom start [] (Grammar.returnStatement self start) where
  laid := by
    unfold Grammar.returnStatement
    infer_instance

instance throwStatement (start : Nat) : LaysFrom start [] (Grammar.throwStatement self start) where
  laid := by
    unfold Grammar.throwStatement
    infer_instance

instance jumpStatement (start : Nat) : LaysFrom start [] (Grammar.jumpStatement start) where
  laid := by
    unfold Grammar.jumpStatement
    infer_instance

instance expressionStatement : LaysAlone false (Grammar.expressionStatement self) := alone_of <| by
  unfold Grammar.expressionStatement
  infer_instance

instance decoratedStatement : LaysAlone false (Grammar.decoratedStatement self) := alone_of <| by
  unfold Grammar.decoratedStatement
  infer_instance

/-- Every statement with a word of its own lays out its trees. -/
lemma keyword {start : Nat} {word : String} {p : Parser Tree}
    (h : Grammar.keywordStatement? self start word = some p) : Lays false [.mark start] p := by
  unfold Grammar.keywordStatement? at h
  split at h <;> cases h <;> infer_instance

instance wordStatement (word : String) : LaysAlone false (Grammar.wordStatement self word) :=
  alone_of <| by
    unfold Grammar.wordStatement
    refine bind_place (h := fun start => ?_)
    split
    · next h => exact keyword self h
    · infer_instance

instance statement : LaysAlone false (Grammar.statement self) := alone_of <| by
  unfold Grammar.statement
  infer_instance

/-! ### The grammar -/

/-- What can be nested lays out its trees if what is nested in it does. -/
instance rule (goal : Goal) : LaysAlone false (Script.rule self goal) := by
  cases goal <;> (unfold Script.rule; infer_instance)

/-- **The grammar lays out its trees**, by induction on the depth of nesting. -/
instance grammar (n : Nat) (goal : Goal) : LaysAlone false (Script.grammar n goal) := by
  induction n generalizing goal with
  | zero => exact ⟨failure⟩
  | succ n ih => exact rule (Script.grammar n) goal

end Lays

end ComponentMigration.Script
