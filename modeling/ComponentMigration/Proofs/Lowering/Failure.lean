import ComponentMigration.Proofs.Lowering.Acceptance
import ComponentMigration.Proofs.Markup.Origin

/-!
How lowering fails.

* **Reports.** Every failure of lowering is a report about a directive or a node of the forest:
  it has the location and the source of that directive or node. `Reports P n` says that the
  reports about the node `n` satisfy `P`; that a loop has no binding is a case of its own.
* **Steps.** Each step of lowering fails only with reports about the directives and the nodes
  it looks at.
* **Main statements.** `root_failsOnly_of_reports`: lowering a forest fails only with reports
  about its nodes. `root_failsOnly`: if all loops of a forest have bindings, lowering never
  reports a malformed `v-for`.
-/

namespace ComponentMigration.Lowering

open Markup

variable {P : Diagnostic → Prop}

/-- The reports about a directive satisfy `P`, that a loop has no binding apart. -/
def DirectiveReports (P : Diagnostic → Prop) (d : Directive) : Prop :=
  ∀ cause hints, cause.code ≠ Code.malformedFor → P ⟨cause, [], d.location, some d.source, hints⟩

/-- The reports about an element satisfy `P`. -/
structure ElementReports (P : Diagnostic → Prop) (e : Element) : Prop where
  directives : ∀ d ∈ e.directives, DirectiveReports P d
  /-- A loop has a binding, or that it has none may be reported. -/
  loop : ∀ d, e.loop? = some d → d.binding.isSome = true ∨ P (d.diagnose .missingForBinding)

/-- The reports about a node satisfy `P`. -/
structure Reports (P : Diagnostic → Prop) (n : Node) : Prop where
  own : ∀ cause, cause.code ≠ Code.malformedFor → P (.atSource cause n.location n.source)
  element : ∀ e children, n = .element e children → ElementReports P e

namespace DirectiveReports

variable {d : Directive}

/-- A failure that is a report about a directive. -/
lemma error {α : Type} (h : DirectiveReports P d) {cause : Cause}
    (hcode : cause.code ≠ Code.malformedFor) :
    FailsOnly P (.error (d.diagnose cause) : Except Diagnostic α) :=
  .error (h cause [] hcode)

/-- A failure that is a report about a directive with a hint. -/
lemma error_withHint {α : Type} (h : DirectiveReports P d) {cause : Cause} {hint : Text}
    (hcode : cause.code ≠ Code.malformedFor) :
    FailsOnly P (.error ((d.diagnose cause).withHint hint) : Except Diagnostic α) :=
  .error (h cause [hint] hcode)

lemma snippetOf (h : DirectiveReports P d) (text : Text) : FailsOnly P (d.snippetOf text) := by
  have hcode : Code.invalidExpression ≠ Code.malformedFor := by decide
  exact .mapError fun _ => h _ [] hcode

lemma snippet (h : DirectiveReports P d) : FailsOnly P d.snippet := h.snippetOf _

lemma ofBinding (h : DirectiveReports P d) : FailsOnly P (Role.ofBinding d) := by
  have hunknown : Code.unknownDirective ≠ Code.malformedFor := by decide
  rw [Role.ofBinding]
  split_ifs
  · have hcode : Code.modifiers ≠ Code.malformedFor := by decide
    exact h.error hcode
  · exact h.error (by decide)
  · split
    · exact h.error (by decide)
    · split_ifs
      · exact h.error (by decide)
      · exact .ok _
  · split
    · exact h.error (by decide)
    · exact .ok _
  · exact .ok _
  · exact .ok _
  · exact h.error_withHint hunknown

end DirectiveReports

/-! ### Properties -/

/-- The directive of a role. -/
def directiveOf? : Role → Option Directive
  | .plain _ => none
  | .bind _ d | .listen _ d | .model d | .show d | .control _ d => some d

/-- A property and its role have the same directive. -/
lemma directiveOf?_of_ofProperty {p : Property} {r : Role} (h : Role.ofProperty p = .ok r) :
    directiveOf? r = p.directive? := by
  cases p with
  | plain a =>
      cases h
      rfl
  | directive d =>
      rw [Role.ofProperty] at h
      split at h
      · cases h
        rfl
      · rw [Role.ofBinding] at h
        split_ifs at h
        · split at h
          · cases h
          · split_ifs at h
            cases h
            rfl
        · split at h
          · cases h
          · cases h
            rfl
        · cases h
          rfl
        · cases h
          rfl

lemma directiveOf?_of_conditional? {r : Role} {d : Directive} (h : r.conditional? = some d) :
    directiveOf? r = some d := by
  cases r with
  | control c d' =>
      rw [Role.conditional?] at h
      split_ifs at h
      exact h
  | _ => cases h

/-- The directives of the roles are those of the properties. -/
lemma filterMap_directiveOf? {ps : List Property} {rs : List Role}
    (h : List.Forall₂ (fun p r => Role.ofProperty p = .ok r) ps rs) :
    rs.filterMap directiveOf? = ps.filterMap Property.directive? := by
  induction h with
  | nil => rfl
  | cons hp _ ih => rw [List.filterMap_cons, List.filterMap_cons, directiveOf?_of_ofProperty hp, ih]

lemma ofProperties_failsOnly {ps : List Property}
    (h : ∀ d ∈ ps.filterMap Property.directive?, DirectiveReports P d) :
    FailsOnly P (Role.ofProperties ps) := by
  have hproperty : ∀ p ∈ ps, FailsOnly P (Role.ofProperty p) := by
    intro p hp
    cases p with
    | plain a => exact .ok _
    | directive d =>
        rw [Role.ofProperty]
        split
        · exact .ok _
        · exact (h d (List.mem_filterMap.mpr ⟨_, hp, rfl⟩)).ofBinding
  refine (FailsOnly.mapM hproperty).bind fun roles hroles => ?_
  split
  · next first second others hrivals =>
      have hmem : second ∈ roles.filterMap Role.conditional? := by simp [hrivals]
      obtain ⟨r, hr, hsecond⟩ := List.mem_filterMap.mp hmem
      have hcode : Code.orphanBranch ≠ Code.malformedFor := by decide
      refine DirectiveReports.error (h second ?_) hcode
      rw [← filterMap_directiveOf? (mapM_eq_ok.mp hroles)]
      exact List.mem_filterMap.mpr ⟨r, hr, directiveOf?_of_conditional? hsecond⟩
  · exact .ok _

lemma propertiesOf_failsOnly {r : Role} (h : ∀ d, directiveOf? r = some d → DirectiveReports P d) :
    FailsOnly P (propertiesOf r) := by
  cases r with
  | plain a => exact .ok _
  | bind argument d => exact ((h d rfl).snippetOf _).bind fun _ _ => .pure _
  | listen event d => exact (h d rfl).snippet.bind fun _ _ => .pure _
  | model d =>
      exact (h d rfl).snippet.bind fun _ _ => ((h d rfl).snippetOf _).bind fun _ _ => .pure _
  | «show» d => exact .ok _
  | control c d => exact .ok _

lemma properties_failsOnly {e : Element} (h : ∀ d ∈ e.directives, DirectiveReports P d) :
    FailsOnly P (properties e) := by
  refine (ofProperties_failsOnly h).bind fun roles hroles => ?_
  refine FailsOnly.bind (.mapM fun r hr => propertiesOf_failsOnly fun d hd => h d ?_)
    fun _ _ => .pure _
  rw [Element.directives, ← filterMap_directiveOf? (Role.forall₂_of_ofProperties hroles)]
  exact List.mem_filterMap.mpr ⟨r, hr, hd⟩

/-! ### Loops and chains -/

/-- A loop fails as its own directive or as its body. -/
lemma loop_failsOnly {d : Directive} {body : Except Diagnostic Jsx.Node}
    (hd : DirectiveReports P d)
    (hbinding : d.binding.isSome = true ∨ P (d.diagnose .missingForBinding))
    (hbody : FailsOnly P body) : FailsOnly P (loop d body) := by
  have hobject : Code.objectIteration ≠ Code.malformedFor := by decide
  have hrange : Code.rangeIteration ≠ Code.malformedFor := by decide
  cases hb : d.binding with
  | none =>
      rw [loop, hb]
      exact .error (hbinding.resolve_left (by simp [hb]))
  | some b =>
      have hsource : FailsOnly P (loopSource d b) := by
        refine (hd.snippetOf _).bind fun source _ => ?_
        split_ifs
        · exact hd.error_withHint hrange
        · exact .pure _
      rw [loop, hb]
      dsimp only
      split_ifs
      · exact hd.error_withHint hobject
      · exact hsource.bind fun _ _ => hbody.bind fun _ _ => .pure _

/-- The directive of a branch and what its element is lowered to fail only with `P`. -/
def BranchReports (P : Diagnostic → Prop) (b : Branch) : Prop :=
  DirectiveReports P b.directive ∧ FailsOnly P b.node

lemma choice_failsOnly {first : Branch} {others : List Branch}
    (h : ∀ b ∈ first :: others, BranchReports P b) : FailsOnly P (choice first others) := by
  induction others generalizing first with
  | nil => exact (h first (by simp)).2.bind fun _ _ => .pure _
  | cons next others ih =>
      obtain ⟨hfirst, hothers⟩ := List.forall_mem_cons.mp h
      exact (ih hothers).bind fun _ _ => hfirst.1.snippet.bind fun _ _ =>
        hfirst.2.bind fun _ _ => .pure _

lemma chain_failsOnly {first : Branch} {others : List Branch}
    (h : ∀ b ∈ first :: others, BranchReports P b) : FailsOnly P (chain first others) := by
  cases others with
  | nil =>
      obtain ⟨hdirective, hnode⟩ := h first (by simp)
      exact hdirective.snippet.bind fun _ _ => hnode.bind fun _ _ => .pure _
  | cons next others => exact (choice_failsOnly h).bind fun _ _ => .pure _

/-- The reports about the node of a sibling satisfy `P`, and so does its own failure. -/
def SiblingReports (P : Diagnostic → Prop) (s : Sibling) : Prop :=
  Reports P s.1 ∧ FailsOnly P s.2

/-- The directives of a node are those of its element. -/
lemma Reports.directive {n : Node} (h : Reports P n) {d : Directive} (hd : d ∈ n.directives) :
    DirectiveReports P d := by
  cases n with
  | element e children => exact (h.element e children rfl).directives d hd
  | _ => cases hd

/-- A branch fails as its sibling. -/
lemma SiblingReports.branch {s : Sibling} {b : Branch} (h : SiblingReports P s)
    (hb : IsBranchOf s b) : BranchReports P b :=
  ⟨h.1.directive (List.mem_of_find?_eq_some hb.1), hb.2 ▸ h.2⟩

lemma mem_directives_of_conditional? {n : Node} {c : Control} {d : Directive}
    (h : conditional? n = some (c, d)) : d ∈ n.directives := by
  rw [conditional?_eq, Option.bind_eq_some_iff] at h
  obtain ⟨d', hd, h⟩ := h
  obtain ⟨c', -, heq⟩ := Option.map_eq_some_iff.mp h
  cases heq
  exact List.mem_of_find?_eq_some hd

/-- Siblings that are joined fail as one of them. -/
lemma assemble_failsOnly {ss : List Sibling} (h : ∀ s ∈ ss, SiblingReports P s) :
    FailsOnly P (assemble ss) := by
  have horphan : Code.orphanBranch ≠ Code.malformedFor := by decide
  induction ss using chainTail_ind with
  | nil =>
      rw [assemble]
      exact .ok _
  | cons s rest ih ih' =>
      obtain ⟨hs, hrest⟩ := List.forall_mem_cons.mp h
      have hbehind : FailsOnly P (assemble (branches rest).2) := by
        rw [(branches_spec rest).2]
        exact ih' fun t ht => hrest t ((chainTail_snd_suffix rest).subset ht)
      rw [assemble_cons]
      split
      · exact hs.2.bind fun _ _ => (ih hrest).bind fun _ _ => .pure _
      · next d hd =>
          refine FailsOnly.bind (chain_failsOnly ?_) fun _ _ => hbehind.bind fun _ _ => .pure _
          have hfirst : BranchReports P ⟨d, s.2⟩ :=
            ⟨hs.1.directive (mem_directives_of_conditional? hd), hs.2⟩
          exact List.forall_mem_cons.mpr
            ⟨hfirst, forall_mem_branches fun t ht b hb => (hrest t ht).branch hb⟩
      · exact .error (hs.1.own _ horphan)

/-! ### Forests -/

lemma element_failsOnly {e : Element} {children : List Sibling} (he : ElementReports P e)
    (h : FailsOnly P (assemble children)) : FailsOnly P (element e children) := by
  have hbody : FailsOnly P (body e children) :=
    (properties_failsOnly he.directives).bind fun _ _ => h.bind fun _ _ => .pure _
  rw [element]
  split
  · next d hd =>
      have hmem : d ∈ e.directives := by
        rw [Element.loop?, Element.findDirective_eq] at hd
        exact List.mem_of_find?_eq_some hd
      exact loop_failsOnly (he.directives d hmem) (he.loop d hd) hbody
  · exact hbody

/-- A node fails only with reports about the nodes in it. -/
lemma node_failsOnly (n : Node) (hn : ∀ m, Occurs m [n] → Reports P m) : FailsOnly P (node n) := by
  induction n using Node.ind with
  | element e children ih =>
      rw [node]
      have he := (hn _ (.member (by simp))).element e children rfl
      refine element_failsOnly he (assemble_failsOnly ?_)
      rw [siblings_eq_map, List.forall_mem_map]
      intro c hc
      have hc' : ∀ m, Occurs m [c] → Reports P m := fun m hm =>
        hn m (.child List.mem_cons_self (hm.mono fun x hx => List.mem_singleton.mp hx ▸ hc))
      exact ⟨hc' c (.member (by simp)), ih c hc hc'⟩
  | text l => exact .ok _
  | comment l => exact .ok _
  | interpolation l =>
      have hcode : Code.unsupportedNode ≠ Code.malformedFor := by decide
      exact .error ((hn (.interpolation l) (.member (by simp))).own _ hcode)

/-- Lowering a forest fails only with reports about the nodes in it. -/
lemma root_failsOnly_of_reports {nodes : List Node} (h : ∀ n, Occurs n nodes → Reports P n) :
    FailsOnly P (root nodes) := by
  refine FailsOnly.bind (assemble_failsOnly ?_) fun outs _ => ?_
  · rw [siblings_eq_map, List.forall_mem_map]
    intro n hn
    have hn' : ∀ m, Occurs m [n] → Reports P m := fun m hm =>
      h m (hm.mono fun x hx => List.mem_singleton.mp hx ▸ hn)
    exact ⟨hn' n (.member (by simp)), node_failsOnly n hn'⟩
  · split
    · exact .pure _
    · exact .pure _

/-! ### Malformed loops -/

/-- A diagnostic that does not report a malformed `v-for`. -/
def IsNotMalformed (d : Diagnostic) : Prop := d.cause.code ≠ Code.malformedFor

/-- Every loop has a binding. -/
def HasBindings (e : Element) : Prop := ∀ d, e.loop? = some d → d.binding.isSome = true

/-- **No malformed loop**: where every loop has a binding, lowering does not report a malformed
`v-for`. -/
theorem root_failsOnly {nodes : List Node}
    (h : ∀ e children, Occurs (.element e children) nodes → HasBindings e) :
    FailsOnly IsNotMalformed (root nodes) := by
  refine root_failsOnly_of_reports fun n hn => ⟨fun _ hcode => hcode, ?_⟩
  rintro e children rfl
  exact ⟨fun _ _ _ _ hcode => hcode, fun d hd => .inl (h e children hn d hd)⟩

end ComponentMigration.Lowering
