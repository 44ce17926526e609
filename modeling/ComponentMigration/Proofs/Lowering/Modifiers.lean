import ComponentMigration.Proofs.Lowering.Outcome
import ComponentMigration.Proofs.Markup.Origin

/-!
Modifiers and dynamic arguments of directives.

* **Refused.** A directive that becomes properties has neither modifiers nor a dynamic argument
  once its markup is lowered: `ofBinding_eq_ok`, and at every depth `isUnmodified_of_root`.
* **Ignored.** A directive that controls its element passes with them, and then nothing of the
  output depends on them. `Node.stripped` takes them away everywhere, and `root_stripped` says
  that the outcome stays, a failure included.
* **Main statement.** `root_modifiers` joins both; `not_root_unmodified` is a `v-if` with a
  modifier that is lowered.
-/

namespace ComponentMigration

/-! ### Directives -/

namespace Markup

/-- A directive without modifiers, whose argument is a name if it has one. -/
structure Directive.IsUnmodified (d : Directive) : Prop where
  modifiers : d.modifiers = []
  isStatic : d.isDynamic = false

/-- A directive that controls its element. -/
def Directive.Controls (d : Directive) : Prop := (Control.ofName? d.name).isSome = true

instance : DecidablePred Directive.Controls := fun d =>
  inferInstanceAs (Decidable ((Control.ofName? d.name).isSome = true))

/-- The directive, without its argument and its modifiers if it controls its element. -/
def Directive.stripped (d : Directive) : Directive :=
  if d.Controls then { d with argument := none, isDynamic := false, modifiers := [] } else d

section

variable (d : Directive)

/-- A directive keeps its name. -/
@[simp] lemma Directive.stripped_name : d.stripped.name = d.name := by
  rw [stripped]
  split_ifs <;> rfl

/-- A directive keeps its expression. -/
@[simp] lemma Directive.stripped_expression : d.stripped.expression = d.expression := by
  rw [stripped]
  split_ifs <;> rfl

/-- What a directive binds is told by its name. -/
@[simp] lemma Directive.stripped_binding : d.stripped.binding = d.binding := by
  rw [stripped]
  split_ifs <;> rfl

@[simp] lemma Directive.diagnose_stripped (cause : Cause) :
    d.stripped.diagnose cause = d.diagnose cause := by
  rw [stripped]
  split_ifs <;> rfl

/-- Only directives that control their element are stripped. -/
lemma Directive.stripped_of_not_controls (h : ¬ d.Controls) : d.stripped = d := if_neg h

end

/-- The property with its directive stripped. -/
def Property.stripped : Property → Property
  | .plain a => .plain a
  | .directive d => .directive d.stripped

/-- The element with its directives stripped. -/
def Element.stripped (e : Element) : Element :=
  { e with properties := e.properties.map Property.stripped }

mutual

/-- The node with the directives of all its elements stripped. -/
def Node.stripped : Node → Node
  | .element e children => .element e.stripped (Node.strippedAll children)
  | .text l => .text l
  | .comment l => .comment l
  | .interpolation l => .interpolation l

/-- The nodes with the directives of all their elements stripped. -/
def Node.strippedAll : List Node → List Node
  | [] => []
  | n :: ns => n.stripped :: Node.strippedAll ns

end

/-- The nodes of a list are stripped one by one. -/
lemma Node.strippedAll_eq_map (ns : List Node) : Node.strippedAll ns = ns.map Node.stripped := by
  induction ns with
  | nil => rfl
  | cons n ns ih => rw [Node.strippedAll, ih, List.map_cons]

@[simp] lemma Node.stripped_element (e : Element) (children : List Node) :
    (Node.element e children).stripped = .element e.stripped (children.map Node.stripped) := by
  rw [Node.stripped, Node.strippedAll_eq_map]

@[simp] lemma Node.location_stripped (n : Node) : n.stripped.location = n.location := by
  cases n <;> rfl

@[simp] lemma Node.source_stripped (n : Node) : n.stripped.source = n.source := by
  cases n <;> rfl

/-- The directives of a stripped element are its directives, stripped. -/
lemma Element.directives_stripped (e : Element) :
    e.stripped.directives = e.directives.map Directive.stripped := by
  rw [directives, directives, stripped, List.filterMap_map, List.map_filterMap]
  refine List.filterMap_congr fun p _ => ?_
  cases p <;> rfl

/-- The first directive with one of the names is the same one, stripped. -/
lemma Element.findDirective_stripped (e : Element) (names : List Text) :
    e.stripped.findDirective names = (e.findDirective names).map Directive.stripped := by
  rw [findDirective_eq, findDirective_eq, directives_stripped, List.find?_map]
  simp only [Function.comp_def, Directive.stripped_name]

/-! ### Roles -/

/-- The role with its directive stripped if it controls its element. -/
def Role.stripped : Role → Role
  | .control c d => .control c d.stripped
  | r => r

/-- A directive that does not control its element has neither modifiers nor a dynamic argument
if it has a role. -/
lemma Role.ofBinding_eq_ok {d : Directive} {r : Role} (h : Role.ofBinding d = .ok r) :
    d.IsUnmodified ∧ r.stripped = r := by
  rw [ofBinding] at h
  split_ifs at h with hm hd
  -- Modifiers and a dynamic argument were ruled out by the two tests in front.
  all_goals have hd : d.IsUnmodified := ⟨not_not.mp hm, eq_false_of_ne_true hd⟩
  · split at h
    · cases h
    · split_ifs at h
      cases h
      exact ⟨hd, rfl⟩
  · split at h
    · cases h
    · cases h
      exact ⟨hd, rfl⟩
  · cases h
    exact ⟨hd, rfl⟩
  · cases h
    exact ⟨hd, rfl⟩

/-- A directive that has a role is without modifiers and dynamic argument, or controls its
element. -/
lemma Role.isUnmodified_or_controls {d : Directive} {r : Role}
    (h : Role.ofProperty (.directive d) = .ok r) : d.IsUnmodified ∨ d.Controls := by
  rw [ofProperty] at h
  split at h
  · next c hc => exact .inr (Option.isSome_iff_exists.mpr ⟨c, hc⟩)
  · exact .inl (ofBinding_eq_ok h).1

/-- A stripped property has the stripped role, or fails as before. -/
lemma Role.ofProperty_stripped (p : Property) :
    Role.ofProperty p.stripped = (Role.ofProperty p).map Role.stripped := by
  cases p with
  | plain a => rfl
  | directive d =>
      rw [Property.stripped, ofProperty, ofProperty, Directive.stripped_name]
      cases hc : Control.ofName? d.name with
      -- A directive of control flow is stripped and stays in its role; any other one is not
      -- changed, and passes only without modifiers.
      | some c => rfl
      | none =>
          have hd : d.stripped = d := d.stripped_of_not_controls (by simp [Directive.Controls, hc])
          dsimp only
          rw [hd]
          cases hr : ofBinding d with
          | error f => rfl
          | ok r => rw [Except.map, (ofBinding_eq_ok hr).2]

/-- A role is a branch of a chain whether it is stripped or not. -/
lemma Role.conditional?_stripped (r : Role) :
    r.stripped.conditional? = r.conditional?.map Directive.stripped := by
  cases r with
  | control c d =>
      cases hc : c.isConditional <;> simp [stripped, conditional?, hc]
  | _ => rfl

/-- The roles of all properties are stripped with them. -/
lemma Role.mapM_ofProperty_stripped (ps : List Property) :
    (ps.map Property.stripped).mapM Role.ofProperty
      = (ps.mapM Role.ofProperty).map (List.map Role.stripped) := by
  induction ps with
  | nil => rfl
  | cons p ps ih =>
      rw [List.map_cons, List.mapM_cons, List.mapM_cons, ofProperty_stripped, ih]
      cases ofProperty p with
      | error f => rfl
      | ok r => cases ps.mapM ofProperty <;> rfl

/-- Stripped properties have the stripped roles, or fail as before. -/
lemma Role.ofProperties_stripped (ps : List Property) :
    Role.ofProperties (ps.map Property.stripped)
      = (Role.ofProperties ps).map (List.map Role.stripped) := by
  rw [ofProperties, ofProperties, mapM_ofProperty_stripped]
  cases ps.mapM ofProperty with
  | error f => rfl
  | ok rs =>
      have hconditional : (rs.map stripped).filterMap conditional?
          = (rs.filterMap conditional?).map Directive.stripped := by
        rw [List.filterMap_map, List.map_filterMap]
        exact List.filterMap_congr fun r _ => r.conditional?_stripped
      rw [ok_bind, Except.map, ok_bind, hconditional]
      -- With two branches the roles are refused, and the diagnostic names both of them.
      rcases rs.filterMap conditional? with _ | ⟨first, _ | ⟨second, others⟩⟩
      · rfl
      · rfl
      · simp [Except.map]

end Markup

namespace Lowering

open Markup

/-! ### Properties -/

/-- Snippets do not depend on modifiers. -/
lemma snippetOf_stripped (d : Directive) (text : Text) :
    d.stripped.snippetOf text = d.snippetOf text := by
  rw [Directive.snippetOf, Directive.snippetOf]
  simp only [Directive.diagnose_stripped]

lemma snippet_stripped (d : Directive) : d.stripped.snippet = d.snippet := by
  rw [Directive.snippet, Directive.snippet, snippetOf_stripped, Directive.stripped_expression]

/-- A controlling directive has no properties, stripped or not. -/
lemma propertiesOf_stripped (r : Role) : propertiesOf r.stripped = propertiesOf r := by
  cases r <;> rfl

/-- What roles become does not depend on modifiers. -/
lemma mapM_propertiesOf_stripped (rs : List Role) :
    (rs.map Role.stripped).mapM propertiesOf = rs.mapM propertiesOf := by
  induction rs with
  | nil => rfl
  | cons r rs ih => rw [List.map_cons, List.mapM_cons, List.mapM_cons, ih, propertiesOf_stripped]

/-- What the properties of an element become does not depend on modifiers. -/
lemma properties_stripped (e : Element) : properties e.stripped = properties e := by
  rw [properties, properties, Element.stripped, Role.ofProperties_stripped]
  cases Role.ofProperties e.properties with
  | error f => rfl
  | ok rs =>
      change (do
        let found ← (rs.map Role.stripped).mapM propertiesOf
        return found.flatten) = _
      rw [mapM_propertiesOf_stripped]
      rfl

/-! ### Chains -/

/-- The branch with its directive stripped. -/
def Branch.stripped (b : Branch) : Branch := { b with directive := b.directive.stripped }

/-- The sibling with its node stripped, lowered to the same. -/
def Sibling.stripped (s : Sibling) : Sibling := (s.1.stripped, s.2)

/-- Whether an element continues a chain is told by the name of its directive. -/
lemma continuation?_stripped (e : Element) :
    e.stripped.continuation? = e.continuation?.map fun (c, d) => (c, d.stripped) := by
  rw [Element.continuation?, Element.continuation?, e.findDirective_stripped]
  cases e.findDirective ["else-if", "else"] with
  | none => rfl
  | some d => simp [Option.map_map, Function.comp_def]

/-- Whether a node is a branch is told by the name of its directive. -/
lemma conditional?_stripped (n : Node) :
    conditional? n.stripped = (conditional? n).map fun (c, d) => (c, d.stripped) := by
  cases n with
  | element e children =>
      rw [Node.stripped_element, conditional?, conditional?, Element.conditional?,
        Element.conditional?, e.findDirective_stripped]
      cases e.findDirective ["if", "else-if", "else"] with
      | none => rfl
      | some d => simp [Option.map_map, Function.comp_def]
  | text l => rfl
  | comment l => rfl
  | interpolation l => rfl

/-- The next branch of a chain is found at the same place. -/
lemma nextBranch?_stripped (ss : List Sibling) :
    nextBranch? (ss.map Sibling.stripped)
      = (nextBranch? ss).map fun (b, rest) => (b.stripped, rest.map Sibling.stripped) := by
  induction ss with
  | nil => rfl
  | cons s ss ih =>
      obtain ⟨n, r⟩ := s
      cases n with
      | element e children =>
          rw [List.map_cons, Sibling.stripped, Node.stripped_element, nextBranch?, nextBranch?,
            continuation?_stripped, Option.map_map, Option.map_map]
          rfl
      | text l =>
          rw [List.map_cons, Sibling.stripped, Node.stripped, nextBranch?, nextBranch?]
          split_ifs
          · exact ih
          · rfl
      | comment l =>
          rw [List.map_cons, Sibling.stripped, Node.stripped, nextBranch?, nextBranch?]
          exact ih
      | interpolation l => rfl

/-- A chain has the same branches, stripped. -/
lemma branches_stripped (ss : List Sibling) :
    branches (ss.map Sibling.stripped)
      = ((branches ss).1.map Branch.stripped, (branches ss).2.map Sibling.stripped) := by
  induction h : ss.length using Nat.strongRecOn generalizing ss with
  | _ n ih =>
      have hnext := nextBranch?_stripped ss
      cases hb : nextBranch? ss with
      | none =>
          rw [hb] at hnext
          rw [branches_of_nextBranch?_none hnext, branches_of_nextBranch?_none hb]
          rfl
      | some found =>
          obtain ⟨b, rest⟩ := found
          have hlt := nextBranch?_length hb
          rw [hb] at hnext
          rw [branches_of_nextBranch? hnext, branches_of_nextBranch? hb,
            ih rest.length (by omega) rest rfl]
          rfl

/-- The expression of a chain does not depend on modifiers. -/
lemma choice_stripped (b : Branch) (bs : List Branch) :
    choice b.stripped (bs.map Branch.stripped) = choice b bs := by
  induction bs generalizing b with
  | nil => rfl
  | cons next others ih =>
      rw [List.map_cons, choice, choice, ih, Branch.stripped, snippet_stripped]

lemma chain_stripped (b : Branch) (bs : List Branch) :
    chain b.stripped (bs.map Branch.stripped) = chain b bs := by
  cases bs with
  | nil => rw [List.map_nil, chain, chain, Branch.stripped, snippet_stripped]
  | cons next others =>
      have h := choice_stripped b (next :: others)
      rw [List.map_cons] at h ⊢
      rw [chain, chain, h]

/-- Stripped siblings are joined as before. -/
lemma assemble_stripped (ss : List Sibling) :
    assemble (ss.map Sibling.stripped) = assemble ss := by
  induction h : ss.length using Nat.strongRecOn generalizing ss with
  | _ n ih =>
      cases ss with
      | nil => rfl
      | cons s rest =>
          rw [List.length_cons] at h
          have hrest := ih rest.length (by omega) rest rfl
          have hbehind := ih _ (by have := branches_length rest; omega) (branches rest).2 rfl
          have hconditional : conditional? s.stripped.1
              = (conditional? s.1).map fun (c, d) => (c, d.stripped) := conditional?_stripped s.1
          rw [List.map_cons, assemble_cons, assemble_cons, hconditional, branches_stripped, hrest,
            hbehind]
          cases conditional? s.1 with
          | none => rfl
          | some found =>
              obtain ⟨c, d⟩ := found
              have hchain := chain_stripped ⟨d, s.2⟩ (branches rest).1
              cases c with
              | when =>
                  change (do
                    let first ← chain (Branch.stripped ⟨d, s.2⟩) ((branches rest).1.map _)
                    _) = _
                  rw [hchain]
              | _ => simp [Sibling.stripped]

/-! ### Nodes -/

/-- A stripped element is lowered as before. -/
lemma element_stripped (e : Element) (ss : List Sibling) :
    element e.stripped (ss.map Sibling.stripped) = element e ss := by
  have hbody : body e.stripped (ss.map Sibling.stripped) = body e ss := by
    rw [body, body, properties_stripped, assemble_stripped]
    rfl
  have hloop : e.stripped.loop? = e.loop?.map Directive.stripped := e.findDirective_stripped _
  rw [element, element, hloop, hbody]
  cases e.loop? with
  | none => rfl
  | some d =>
      change loop d.stripped (body e ss) = loop d (body e ss)
      simp only [loop, loopSource, Directive.stripped_binding, Directive.diagnose_stripped,
        snippetOf_stripped]

lemma siblings_stripped {ns : List Node} (h : ∀ n ∈ ns, node n.stripped = node n) :
    siblings (ns.map Node.stripped) = (siblings ns).map Sibling.stripped := by
  rw [siblings_eq_map, siblings_eq_map, List.map_map, List.map_map]
  refine List.map_congr_left fun n hn => ?_
  rw [Function.comp_apply, h n hn]
  rfl

/-- A stripped node is lowered as before. -/
lemma node_stripped (n : Node) : node n.stripped = node n := by
  induction n using Node.ind with
  | element e children ih =>
      rw [Node.stripped_element, node, node, siblings_stripped ih, element_stripped]
  | text l => rfl
  | comment l => rfl
  | interpolation l => rfl

/-- Arguments and modifiers of controlling directives are not looked at. -/
lemma root_stripped (nodes : List Node) : root (nodes.map Node.stripped) = root nodes := by
  rw [root, root, siblings_stripped fun n _ => node_stripped n, assemble_stripped]

/-! ### Accepted markup -/

/-- In lowered markup every directive, at any depth, is without modifiers and dynamic argument
or controls its element. -/
lemma isUnmodified_of_root {nodes children : List Node} {e : Element} {out : Jsx.Node}
    {d : Directive} (h : root nodes = .ok out) (he : Occurs (.element e children) nodes)
    (hd : .directive d ∈ e.properties) : d.IsUnmodified ∨ d.Controls := by
  obtain ⟨outs, houts, -⟩ := root_eq_ok.mp h
  have haccepted : IsAccepted nodes :=
    (succeeds_assemble_siblings_iff fun n _ => succeeds_node_iff n).mp ⟨outs, houts⟩
  clear h houts
  induction he with
  | member hmem =>
      obtain ⟨before, after, heq⟩ := List.append_of_mem hmem
      obtain ⟨here, -⟩ := haccepted
      have hroles := ((here before _ after heq).element e children rfl).roles
      rw [Role.ofProperties, succeeds_bind_iff] at hroles
      obtain ⟨roles, hroles, -⟩ := hroles
      obtain ⟨r, hr⟩ := succeeds_mapM_iff.mp ⟨roles, hroles⟩ _ hd
      exact Role.isUnmodified_or_controls hr
  | child hmem _ ih =>
      obtain ⟨-, inside⟩ := haccepted
      exact ih (inside _ _ hmem)

/-- **Modifiers and dynamic arguments are refused or ignored**: in lowered markup only directives
that control their elements have them, and the output is that of the markup without them. -/
theorem root_modifiers {nodes : List Node} {out : Jsx.Node} (h : root nodes = .ok out) :
    (∀ e children, Occurs (.element e children) nodes →
        ∀ d, .directive d ∈ e.properties → d.IsUnmodified ∨ d.Controls) ∧
      root (nodes.map Node.stripped) = .ok out := by
  refine ⟨fun e children he d hd => isUnmodified_of_root h he hd, ?_⟩
  rw [root_stripped, h]

/-- A branch with a modifier, and a binding inside of it. -/
def lazyText : Text := "<p v-if.lazy=\"ok\"><b :id=\"n\" /></p>"

/-- The directive of the branch. -/
def lazyBranch : Directive :=
  ⟨"if", none, false, some "ok", ["lazy"], none, ⟨1, 4⟩, "v-if.lazy=\"ok\""⟩

/-- The branch. -/
def lazyHead : Element := ⟨"p", .ordinary, [.directive lazyBranch], ⟨1, 1⟩, lazyText⟩

/-- The binding in the branch. -/
def boundId : Directive := ⟨"bind", some "id", false, some "n", [], none, ⟨1, 22⟩, ":id=\"n\""⟩

/-- The element in the branch. -/
def boundChild : Element := ⟨"b", .ordinary, [.directive boundId], ⟨1, 19⟩, "<b :id=\"n\" />"⟩

/-- All nodes of the text. -/
def lazyNodes : List Node := [.element lazyHead [.element boundChild []]]

theorem root_modifiers_lazy :
    ∃ out, root lazyNodes = .ok out ∧ Occurs (.element boundChild []) lazyNodes ∧
      (boundId.IsUnmodified ∨ boundId.Controls) ∧ root (lazyNodes.map Node.stripped) = .ok out := by
  obtain ⟨out, h⟩ : Succeeds (root lazyNodes) := by decide +kernel
  have hoccurs : Occurs (.element boundChild []) lazyNodes := .child (.head _) (.member (.head _))
  obtain ⟨hdirectives, hstripped⟩ := root_modifiers h
  exact ⟨out, h, hoccurs, hdirectives boundChild [] hoccurs boundId (.head _), hstripped⟩

/-- A `v-if` with a modifier is lowered. -/
theorem not_root_unmodified :
    parse lazyText = .ok lazyNodes ∧ Succeeds (root lazyNodes) ∧
      ∃ e children d, Occurs (.element e children) lazyNodes ∧ .directive d ∈ e.properties ∧
        ¬ d.IsUnmodified := by
  refine ⟨by with_unfolding_all rfl, by decide +kernel, lazyHead, _, lazyBranch,
    .member (.head _), .head _, fun h => ?_⟩
  exact absurd h.modifiers (by decide)

end Lowering

end ComponentMigration
