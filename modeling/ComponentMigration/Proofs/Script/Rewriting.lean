import ComponentMigration.Proofs.Patch
import ComponentMigration.Proofs.Script.Layout
import ComponentMigration.Script.StateHook
import Mathlib.Data.List.Perm.Basic

/-!
What a pass makes of a tree.

* **The rewriting.** `Tree.hooked` is the text that takes the place of a node, by recursion
  on the tree: a node is printed with its parts rewritten, but for the declarations and the
  uses of state variables.
* **The edits.** `Tree.recorded` are the edits that the pass records for a node. The four
  ways of handling a node, `Tree.IsHandled`, split both: `recorded_assigned`,
  `recorded_read`, `recorded_declared` and `recorded_other`.
* **Main statement.** `Tree.rewritten`: what holds of a span with its edits and its text, and
  is kept by every way of rewriting, holds of every node with its recorded edits and its
  rewriting.
-/

namespace ComponentMigration.Script

/-! ### The rewriting -/

/-- The edit that puts a text in the place of a span. -/
def Span.edit (s : Span) (text : Text) : Edit := ⟨s.start, s.stop, text⟩

/-- A span of the source, with some spans inside of it replaced. -/
def Span.printed (source : Text) (s : Span) (inner : List Edit) : Text :=
  filled source s.start s.stop (inner.mergeSort Edit.le)

/-- What a pass goes by: the function that makes state variables, the variables it made,
and the hook that takes its place. -/
structure Pass where
  source : Text
  primitive : Symbol
  states : List StateVariable
  hook : Text

/-- What takes the place of the name where a state variable is declared. -/
def StateVariable.pair (v : StateVariable) : Text := '[' :: v.name ++ ", " ++ v.setter ++ [']']

variable (r : Pass)

mutual

/-- The rewriting of a node. An assignment to a state is a call of the setter with the
rewriting of its value. A read of a state ends with its object. A declarator of a state
variable has its name and its callee replaced. Any other node is printed with its parts
rewritten. The source of an assignment behind its value stays as it is, and so does that of a
read in front of its object: the spans of the tree say what that is. -/
def Tree.hooked : Tree → Text
  | .node (.assignment operator) s [target, value] =>
      match stateOf? r.states target with
      | some v =>
          setterStart v operator ++ value.hooked ++ setterEnd operator ++
            r.source.cut value.span.stop s.stop
      | none =>
          s.printed r.source [target.span.edit target.hooked, value.span.edit value.hooked]
  | .node f s ps =>
      match stateOf? r.states (.node f s ps),
        StateVariable.ofDeclarator? r.primitive (.node f s ps), ps with
      | some _, _, object :: _ => r.source.cut s.start object.span.stop
      | _, some v, [.node _ s₁ (name :: others), .node _ s₂ (callee :: operands)] =>
          s.printed r.source [
            s₁.edit (s₁.printed r.source (name.span.edit v.pair :: hookedAll others)),
            s₂.edit (s₂.printed r.source (callee.span.edit r.hook :: hookedAll operands))]
      | _, _, ps => s.printed r.source (hookedAll ps)

/-- Trees with their rewritings in their places. -/
def hookedAll : List Tree → List Edit
  | [] => []
  | t :: ts => t.span.edit t.hooked :: hookedAll ts

end

/-- The edits that a pass records for a tree. -/
def Tree.recorded (t : Tree) : List Edit :=
  (t.stateVariables r.primitive).flatMap (·.edits r.hook) ++ t.useEdits r.states

/-! ### Handling a node -/

/-- The ways a pass handles a node. -/
inductive Tree.IsHandled : Tree → Prop
  /-- An assignment to a state. -/
  | assigned {v : StateVariable} {operator : Text} {s : Span} {target value : Tree}
      (h : stateOf? r.states target = some v) :
      IsHandled (.node (.assignment operator) s [target, value])
  /-- A read of a state. -/
  | read {v : StateVariable} {f : Form} {s : Span} {object : Tree}
      (h : stateOf? r.states (.node f s [object]) = some v) :
      IsHandled (.node f s [object])
  /-- A declaration of a state variable. -/
  | declared {name word : Text} {binder : Binder} {space : Space} {symbol : Symbol}
      {s s₁ s₂ nameSpan calleeSpan : Span} {others operands : List Tree} :
      IsHandled (.node .declarator s [
        .node .target s₁ (.node (.binding name binder (some symbol)) nameSpan [] :: others),
        .node .call s₂
          (.node (.reference word space (some r.primitive)) calleeSpan [] :: operands)])
  /-- Anything else. -/
  | other {f : Form} {s : Span} {ps : List Tree}
      (hassigned : ∀ operator target value, f = .assignment operator → ps = [target, value] →
        stateOf? r.states target = none)
      (hread : stateOf? r.states (.node f s ps) = none)
      (hdeclared : StateVariable.ofDeclarator? r.primitive (.node f s ps) = none) :
      IsHandled (.node f s ps)

/-- What a state is read from. -/
lemma stateOf?_eq_some {states : List StateVariable} {t : Tree} {v : StateVariable}
    (h : stateOf? states t = some v) : ∃ s name space symbol nameSpan,
      t = .node (.member stateProperty) s
        [.node (.reference name space (some symbol)) nameSpan []] := by
  unfold stateOf? at h
  split at h
  · split_ifs at h with hp
    exact ⟨_, _, _, _, _, by rw [hp]⟩
  · cases h

/-- What a state variable is declared by. -/
lemma ofDeclarator?_eq_some {primitive : Symbol} {t : Tree} {v : StateVariable}
    (h : StateVariable.ofDeclarator? primitive t = some v) :
    ∃ name word binder space symbol s s₁ s₂ nameSpan calleeSpan others operands,
      t = .node .declarator s [
        .node .target s₁ (.node (.binding name binder (some symbol)) nameSpan [] :: others),
        .node .call s₂ (.node (.reference word space (some primitive)) calleeSpan [] :: operands)]
      ∧ v = ⟨symbol, name, nameSpan, calleeSpan⟩ := by
  unfold StateVariable.ofDeclarator? at h
  split at h
  · split_ifs at h with hp
    cases h
    subst hp
    exact ⟨_, _, _, _, _, _, _, _, _, _, _, _, rfl, rfl⟩
  · cases h

/-- Every node is handled in one of the ways. -/
lemma Tree.isHandled (t : Tree) : t.IsHandled r := by
  obtain ⟨f, s, ps⟩ := t
  by_cases hassigned : ∃ operator target value v, f = .assignment operator ∧ ps = [target, value] ∧
      stateOf? r.states target = some v
  · obtain ⟨operator, target, value, v, rfl, rfl, h⟩ := hassigned
    exact .assigned h
  · cases hread : stateOf? r.states (.node f s ps) with
    | some v =>
        obtain ⟨s', name, space, symbol, nameSpan, h⟩ := stateOf?_eq_some hread
        cases h
        exact .read hread
    | none =>
        cases hdeclared : StateVariable.ofDeclarator? r.primitive (.node f s ps) with
        | some v =>
            obtain ⟨_, _, _, _, _, _, _, _, _, _, _, _, h, -⟩ := ofDeclarator?_eq_some hdeclared
            rw [h]
            exact .declared
        | none =>
            refine .other (fun operator target value hf hps => ?_) hread hdeclared
            by_contra hne
            obtain ⟨v, hv⟩ := Option.ne_none_iff_exists'.mp hne
            exact hassigned ⟨operator, target, value, v, hf, hps, hv⟩

/-! ### Texts -/

section Texts

variable {r : Pass} {v : StateVariable} {f : Form} {s : Span}

/-- An assignment to a state becomes a call of its setter. -/
lemma Tree.hooked_assigned {operator : Text} {target value : Tree}
    (h : stateOf? r.states target = some v) :
    (Tree.node (.assignment operator) s [target, value]).hooked r
      = setterStart v operator ++ value.hooked r ++ setterEnd operator ++
          r.source.cut value.span.stop s.stop := by
  rw [hooked, h]

/-- A read of a state becomes its name. -/
lemma Tree.hooked_read {object : Tree} (h : stateOf? r.states (.node f s [object]) = some v) :
    (Tree.node f s [object]).hooked r = r.source.cut s.start object.span.stop := by
  rw [hooked.eq_def]
  split
  · next heq => cases heq
  · next heq =>
      cases heq
      rw [h]

/-- A declaration of a state variable gets its pair and the hook. -/
lemma Tree.hooked_declared {name word : Text} {binder : Binder} {space : Space} {symbol : Symbol}
    {s₁ s₂ nameSpan calleeSpan : Span} {others operands : List Tree} :
    (Tree.node .declarator s [
        .node .target s₁ (.node (.binding name binder (some symbol)) nameSpan [] :: others),
        .node .call s₂
          (.node (.reference word space (some r.primitive)) calleeSpan [] :: operands)]).hooked r
      = s.printed r.source [
          s₁.edit (s₁.printed r.source
            (nameSpan.edit (StateVariable.pair ⟨symbol, name, nameSpan, calleeSpan⟩) ::
              hookedAll r others)),
          s₂.edit (s₂.printed r.source (calleeSpan.edit r.hook :: hookedAll r operands))] := by
  rw [hooked.eq_def]
  simp only [stateOf?, StateVariable.ofDeclarator?, if_true]
  rfl

/-- Anything else keeps what stands around its parts. -/
lemma Tree.hooked_other {ps : List Tree}
    (hassigned : ∀ operator target value, f = .assignment operator → ps = [target, value] →
      stateOf? r.states target = none)
    (hread : stateOf? r.states (.node f s ps) = none)
    (hdeclared : StateVariable.ofDeclarator? r.primitive (.node f s ps) = none) :
    (Tree.node f s ps).hooked r = s.printed r.source (hookedAll r ps) := by
  rw [hooked.eq_def]
  split
  · next heq =>
      cases heq
      rw [hassigned _ _ _ rfl rfl]
      rfl
  · next heq =>
      cases heq
      rw [hread, hdeclared]

end Texts

/-! ### Edits -/

section Edits

variable {r : Pass} {v : StateVariable} {f : Form} {s : Span}

/-- The edits of nodes in a row, one for each. -/
lemma hookedAll_eq_map (ts : List Tree) :
    hookedAll r ts = ts.map fun t => t.span.edit (t.hooked r) := by
  induction ts with
  | nil => rfl
  | cons t ts ih => rw [hookedAll, ih, List.map_cons]

/-- The state variables of nodes in a row are those of each. -/
lemma stateVariablesOf_eq_flatMap (primitive : Symbol) (ts : List Tree) :
    stateVariablesOf primitive ts = ts.flatMap (Tree.stateVariables primitive) := by
  induction ts with
  | nil => rfl
  | cons t ts ih => rw [stateVariablesOf, ih, List.flatMap_cons]

/-- The edits of uses in a row are those of each. -/
lemma useEditsOf_eq_flatMap (states : List StateVariable) (ts : List Tree) :
    useEditsOf states ts = ts.flatMap (Tree.useEdits states) := by
  induction ts with
  | nil => rfl
  | cons t ts ih => rw [useEditsOf, ih, List.flatMap_cons]

/-- The edits of several trees are those of each of them. -/
lemma recorded_perm_flatMap (ts : List Tree) :
    ((stateVariablesOf r.primitive ts).flatMap (·.edits r.hook) ++ useEditsOf r.states ts).Perm
      (ts.flatMap (Tree.recorded r)) := by
  rw [stateVariablesOf_eq_flatMap, useEditsOf_eq_flatMap, List.flatMap_assoc]
  exact List.flatMap_append_perm ts _ _

/-- The edits of the uses in a node that is neither an assignment nor a read. -/
lemma Tree.useEdits_other {states : List StateVariable} {ps : List Tree}
    (hassigned : ∀ operator target value, f = .assignment operator → ps = [target, value] →
      stateOf? states target = none)
    (hread : stateOf? states (.node f s ps) = none) :
    (Tree.node f s ps).useEdits states = useEditsOf states ps := by
  rw [useEdits.eq_def]
  split
  · next heq =>
      cases heq
      rw [hassigned _ _ _ rfl rfl, useEditsOf, useEditsOf, useEditsOf, List.append_nil]
  · next heq =>
      cases heq
      rw [hread]

/-- A node that is not handled in a way of its own has the edits of its parts. -/
lemma Tree.recorded_other {ps : List Tree}
    (hassigned : ∀ operator target value, f = .assignment operator → ps = [target, value] →
      stateOf? r.states target = none)
    (hread : stateOf? r.states (.node f s ps) = none)
    (hdeclared : StateVariable.ofDeclarator? r.primitive (.node f s ps) = none) :
    ((Tree.node f s ps).recorded r).Perm (ps.flatMap (Tree.recorded r)) := by
  rw [recorded, useEdits_other hassigned hread, stateVariables, hdeclared]
  exact recorded_perm_flatMap ps

/-- A target or a call has the edits of what is behind the name that it begins with. -/
lemma Tree.recorded_named {ps : List Tree} {f' : Form} {s' : Span}
    (hf : f = .target ∧ (∃ name binder symbol, f' = .binding name binder symbol) ∨
      f = .call ∧ ∃ name space symbol, f' = .reference name space symbol) :
    ((Tree.node f s (.node f' s' [] :: ps)).recorded r).Perm (ps.flatMap (Tree.recorded r)) := by
  have hleaf : (Tree.node f' s' []).recorded r = [] := by
    rcases hf with ⟨-, name, binder, symbol, rfl⟩ | ⟨-, name, space, symbol, rfl⟩ <;> rfl
  have hothers : (Tree.node f s (.node f' s' [] :: ps)).recorded r |>.Perm
      ((.node f' s' [] :: ps).flatMap (Tree.recorded r)) := by
    refine recorded_other (fun operator target value hf' => ?_) ?_ ?_ <;>
      rcases hf with ⟨rfl, -⟩ | ⟨rfl, -⟩
    · cases hf'
    · cases hf'
    all_goals rfl
  rwa [List.flatMap_cons, hleaf, List.nil_append] at hothers

/-- A read of a state has one edit. -/
lemma Tree.recorded_read {object : Tree} (h : stateOf? r.states (.node f s [object]) = some v) :
    (Tree.node f s [object]).recorded r = [⟨object.span.stop, s.stop, []⟩] := by
  obtain ⟨s', name, space, symbol, nameSpan, heq⟩ := stateOf?_eq_some h
  cases heq
  rw [recorded, useEdits.eq_def]
  dsimp only
  rw [h]
  rfl

/-- An assignment to a state has two edits of its own. -/
lemma Tree.recorded_assigned {operator : Text} {target value : Tree}
    (h : stateOf? r.states target = some v) :
    ((Tree.node (.assignment operator) s [target, value]).recorded r).Perm
      (assignmentEdits v operator s value.span ++ value.recorded r) := by
  obtain ⟨s', name, space, symbol, nameSpan, rfl⟩ := stateOf?_eq_some h
  have hvariables : (Tree.node (.assignment operator) s
        [.node (.member stateProperty) s' [.node (.reference name space (some symbol)) nameSpan []],
          value]).stateVariables r.primitive = value.stateVariables r.primitive := by
    simp [stateVariables, stateVariablesOf, StateVariable.ofDeclarator?]
  rw [recorded, hvariables, useEdits, h, recorded, ← List.append_assoc, ← List.append_assoc]
  exact List.perm_append_comm.append_right _

/-- A declarator of a state variable has two edits of its own. -/
lemma Tree.recorded_declared {name word : Text} {binder : Binder} {space : Space}
    {symbol : Symbol} {s₁ s₂ nameSpan calleeSpan : Span} {others operands : List Tree} :
    ((Tree.node .declarator s [
        .node .target s₁ (.node (.binding name binder (some symbol)) nameSpan [] :: others),
        .node .call s₂
          (.node (.reference word space (some r.primitive)) calleeSpan [] :: operands)]).recorded
      r).Perm
      (nameSpan.edit (StateVariable.pair ⟨symbol, name, nameSpan, calleeSpan⟩) ::
        others.flatMap (Tree.recorded r) ++
          calleeSpan.edit r.hook :: operands.flatMap (Tree.recorded r)) := by
  set target : Tree :=
    .node .target s₁ (.node (.binding name binder (some symbol)) nameSpan [] :: others)
  set call : Tree := .node .call s₂
    (.node (.reference word space (some r.primitive)) calleeSpan [] :: operands)
  have htarget : (target.recorded r).Perm (others.flatMap (Tree.recorded r)) :=
    recorded_named (.inl ⟨rfl, _, _, _, rfl⟩)
  have hcall : (call.recorded r).Perm (operands.flatMap (Tree.recorded r)) :=
    recorded_named (.inr ⟨rfl, _, _, _, rfl⟩)
  -- The declarator itself adds its two edits, and records nothing else.
  have hown : (Tree.node .declarator s [target, call]).recorded r =
      StateVariable.edits ⟨symbol, name, nameSpan, calleeSpan⟩ r.hook ++
        ((stateVariablesOf r.primitive [target, call]).flatMap (·.edits r.hook) ++
          useEditsOf r.states [target, call]) := by
    rw [recorded, stateVariables, useEdits_other (fun _ _ _ hf => by cases hf) rfl,
      StateVariable.ofDeclarator?, if_pos rfl, Option.toList_some, List.flatMap_append,
      List.append_assoc, List.flatMap_singleton]
  have hparts : ((stateVariablesOf r.primitive [target, call]).flatMap (·.edits r.hook) ++
      useEditsOf r.states [target, call]).Perm
        (others.flatMap (Tree.recorded r) ++ operands.flatMap (Tree.recorded r)) := by
    refine (recorded_perm_flatMap [target, call]).trans ?_
    rw [List.flatMap_cons, List.flatMap_singleton]
    exact htarget.append hcall
  have hmiddle : (calleeSpan.edit r.hook :: (others.flatMap (Tree.recorded r) ++
      operands.flatMap (Tree.recorded r))).Perm
        (others.flatMap (Tree.recorded r) ++
          calleeSpan.edit r.hook :: operands.flatMap (Tree.recorded r)) := List.perm_middle.symm
  rw [hown]
  exact (hparts.append_left _).trans (hmiddle.cons _)

end Edits

/-! ### Blocks -/

/-- A span with the edits inside of it and the text that takes its place. -/
structure Block where
  span : Span
  edits : List Edit
  text : Text

/-- The edit that puts the text of a block in its place. -/
def Block.edit (b : Block) : Edit := b.span.edit b.text

/-- A span of blocks, printed with the text of each in its place. -/
def Span.around (source : Text) (s : Span) (bs : List Block) : Block :=
  ⟨s, bs.flatMap (·.edits), s.printed source (bs.map Block.edit)⟩

/-- A property of blocks that every way of rewriting keeps, provided `Q` holds of the spans
of nodes, `N` of those of names, and `F` relates the target of an assignment to its value. -/
structure Pass.Keeps (r : Pass) (Q : Span → Prop) (F : Span → Span → Prop) (N : Span → Prop)
    (P : Block → Prop) : Prop where
  perm : ∀ {s es es' text}, List.Perm es es' → P ⟨s, es, text⟩ → P ⟨s, es', text⟩
  replaced : ∀ {s} text, Q s → N s → P ⟨s, [s.edit text], text⟩
  read : ∀ {s o : Span}, Q s → Q o → N o → o.Inside s →
    P ⟨s, [⟨o.stop, s.stop, []⟩], r.source.cut s.start o.stop⟩
  assigned : ∀ {s t o : Span} {b : Block} v operator, Q s → N o → o.Inside t → t.Inside s →
    F t b.span → Q b.span → b.span.Inside s → P b →
    P ⟨s, assignmentEdits v operator s b.span ++ b.edits,
      setterStart v operator ++ b.text ++ setterEnd operator ++ r.source.cut b.span.stop s.stop⟩
  around : ∀ {s} bs, Q s → (∀ b ∈ bs, Q b.span ∧ b.span.Inside s ∧ P b) →
    bs.Pairwise (fun b c => b.span.IsApart c.span) → P (s.around r.source bs)

/-- The recorded edits of a tree and its rewriting. -/
def Tree.block (t : Tree) : Block := ⟨t.span, t.recorded r, t.hooked r⟩

variable {r : Pass} {Q N : Span → Prop} {F : Span → Span → Prop} {P : Block → Prop}

namespace Pass.Keeps

/-- The property holds of a node that is printed with its parts rewritten. -/
lemma around_parts (h : r.Keeps Q F N P) {s : Span} {ps : List Tree} (hs : Q s)
    (hholds : s.Holds ps) (hps : ∀ p ∈ ps, Q p.span ∧ P (p.block r)) :
    P ⟨s, ps.flatMap (Tree.recorded r), s.printed r.source (hookedAll r ps)⟩ := by
  have hb := h.around (ps.map (Tree.block r)) hs ?_ ?_
  · rw [Span.around, List.flatMap_map, List.map_map] at hb
    rw [hookedAll_eq_map]
    exact hb
  · rw [List.forall_mem_map]
    exact fun p hp => ⟨(hps p hp).1, hholds.inside p hp, (hps p hp).2⟩
  · rw [List.pairwise_map]
    exact hholds.apart

/-- The property holds of a node that is printed with its first part replaced and the others
rewritten. -/
lemma around_named (h : r.Keeps Q F N P) {s : Span} {name : Tree} {ps : List Tree} (text : Text)
    (hs : Q s) (hholds : s.Holds (name :: ps)) (hname : Q name.span ∧ N name.span)
    (hps : ∀ p ∈ ps, Q p.span ∧ P (p.block r)) :
    P ⟨s, name.span.edit text :: ps.flatMap (Tree.recorded r),
      s.printed r.source (name.span.edit text :: hookedAll r ps)⟩ := by
  have hb := h.around (⟨name.span, [name.span.edit text], text⟩ :: ps.map (Tree.block r)) hs ?_ ?_
  · rw [Span.around, List.flatMap_cons, List.flatMap_map, List.map_cons, List.map_map] at hb
    rw [hookedAll_eq_map]
    exact hb
  · rw [List.forall_mem_cons, List.forall_mem_map]
    exact ⟨⟨hname.1, hholds.inside name (by simp), h.replaced text hname.1 hname.2⟩,
      fun p hp => ⟨(hps p hp).1, hholds.inside p (by simp [hp]), (hps p hp).2⟩⟩
  · rw [List.pairwise_cons, List.forall_mem_map, List.pairwise_map]
    exact List.pairwise_cons.mp hholds.apart

/-- The property holds of a declarator of a state variable. -/
lemma declared (h : r.Keeps Q F N P) {s s₁ s₂ : Span} {f₁ f₂ : Form} {name callee : Tree}
    {others operands : List Tree} (text text' : Text) (hs : Q s)
    (hholds : s.Holds [.node f₁ s₁ (name :: others), .node f₂ s₂ (callee :: operands)])
    (h₁ : (Tree.node f₁ s₁ (name :: others)).IsLaidOut Q)
    (h₂ : (Tree.node f₂ s₂ (callee :: operands)).IsLaidOut Q)
    (hname : N name.span) (hcallee : N callee.span)
    (hin₁ : ∀ n ∈ (Tree.node f₁ s₁ (name :: others)).nodes, P (n.block r))
    (hin₂ : ∀ n ∈ (Tree.node f₂ s₂ (callee :: operands)).nodes, P (n.block r)) :
    P ⟨s, name.span.edit text :: others.flatMap (Tree.recorded r) ++
        callee.span.edit text' :: operands.flatMap (Tree.recorded r),
      s.printed r.source [
        s₁.edit (s₁.printed r.source (name.span.edit text :: hookedAll r others)),
        s₂.edit (s₂.printed r.source (callee.span.edit text' :: hookedAll r operands))]⟩ := by
  rw [Tree.isLaidOut_node_iff, List.forall_mem_cons] at h₁ h₂
  -- The target and the call are rewritten around their names, and then the declarator around
  -- both.
  have hb₁ := h.around_named text h₁.1.1 h₁.1.2 ⟨h₁.2.1.span, hname⟩
    fun p hp => ⟨(h₁.2.2 p hp).span,
      hin₁ p (Tree.mem_nodes_of_mem_parts (List.mem_cons_of_mem name hp))⟩
  have hb₂ := h.around_named text' h₂.1.1 h₂.1.2 ⟨h₂.2.1.span, hcallee⟩
    fun p hp => ⟨(h₂.2.2 p hp).span,
      hin₂ p (Tree.mem_nodes_of_mem_parts (List.mem_cons_of_mem callee hp))⟩
  have hinside := hholds.inside
  rw [List.forall_mem_cons, List.forall_mem_singleton] at hinside
  have hb := h.around [_, _] hs (List.forall_mem_cons.mpr
    ⟨⟨h₁.1.1, hinside.1, hb₁⟩, List.forall_mem_singleton.mpr ⟨h₂.1.1, hinside.2, hb₂⟩⟩) ?_
  · rw [Span.around, List.flatMap_cons, List.flatMap_singleton] at hb
    exact hb
  · have hapart := hholds.apart
    rw [List.pairwise_pair] at hapart ⊢
    exact hapart

/-- The property holds of a node if it holds of all that is inside of it. -/
lemma block (h : r.Keeps Q F N P) {t : Tree} (ht : t.IsLaidOut Q)
    (horderly : ∀ n ∈ t.nodes, n.IsOrderly F N)
    (hin : ∀ p ∈ t.parts, ∀ n ∈ p.nodes, P (n.block r)) : P (t.block r) := by
  -- The parts are rewritten already; the case says what is done to the node itself.
  have hself : ∀ p ∈ t.parts, P (p.block r) := fun p hp => hin p hp p p.mem_nodes_self
  cases t.isHandled r with
  | @assigned v operator s target value hstate =>
      obtain ⟨s', name, space, symbol, nameSpan, rfl⟩ := stateOf?_eq_some hstate
      rw [Tree.isLaidOut_node_iff, List.forall_mem_cons, List.forall_mem_singleton] at ht
      obtain ⟨⟨hs, hholds⟩, htarget, hvalue⟩ := ht
      have hobject := ((Tree.isLaidOut_node_iff _ _ _).mp htarget).1.2.inside _ List.mem_cons_self
      have hname := (horderly (.node (.reference name space (some symbol)) nameSpan [])
        (by simp [Tree.nodes, nodesOf])).name trivial
      have hb := h.assigned (b := value.block r) v operator hs hname hobject
        (hholds.inside _ List.mem_cons_self) (horderly _ (Tree.mem_nodes_self _)).assigns
        hvalue.span (hholds.inside value (by simp)) (hself value (by simp [Tree.parts]))
      rw [Tree.block, Tree.hooked_assigned hstate]
      exact h.perm (Tree.recorded_assigned hstate).symm hb
  | @read v f s object hstate =>
      obtain ⟨s', name, space, symbol, nameSpan, heq⟩ := stateOf?_eq_some hstate
      cases heq
      rw [Tree.isLaidOut_node_iff, List.forall_mem_singleton] at ht
      have hname := (horderly (.node (.reference name space (some symbol)) nameSpan [])
        (by simp [Tree.nodes, nodesOf])).name trivial
      have hb := h.read ht.1.1 ht.2.span hname (ht.1.2.inside _ (by simp))
      rw [Tree.block, Tree.recorded_read hstate, Tree.hooked_read hstate]
      exact hb
  | @declared name word binder space symbol s s₁ s₂ nameSpan calleeSpan others operands =>
      rw [Tree.isLaidOut_node_iff, List.forall_mem_cons, List.forall_mem_singleton] at ht
      rw [Tree.parts, List.forall_mem_cons, List.forall_mem_singleton] at hin
      have hname := (horderly (.node (.binding name binder (some symbol)) nameSpan [])
        (by simp [Tree.nodes, nodesOf])).name trivial
      have hcallee := (horderly (.node (.reference word space (some r.primitive)) calleeSpan [])
        (by simp [Tree.nodes, nodesOf])).name trivial
      have hb := h.declared (StateVariable.pair ⟨symbol, name, nameSpan, calleeSpan⟩) r.hook
        ht.1.1 ht.1.2 ht.2.1 ht.2.2 hname hcallee hin.1 hin.2
      rw [Tree.block, Tree.hooked_declared]
      exact h.perm Tree.recorded_declared.symm hb
  | @other f s ps hassigned hread hdeclared =>
      rw [Tree.isLaidOut_node_iff] at ht
      have hb := h.around_parts ht.1.1 ht.1.2 fun p hp => ⟨(ht.2 p hp).span, hself p hp⟩
      rw [Tree.block, Tree.hooked_other hassigned hread hdeclared]
      exact h.perm (Tree.recorded_other hassigned hread hdeclared).symm hb

end Pass.Keeps

/-- **The rewriting of a tree**: a property that every way of rewriting keeps holds of the
span of every node with its recorded edits and its rewriting. -/
theorem Tree.rewritten (h : r.Keeps Q F N P) (t : Tree) (ht : t.IsLaidOut Q)
    (horderly : ∀ n ∈ t.nodes, n.IsOrderly F N) : ∀ n ∈ t.nodes, P (n.block r) := by
  induction t using Tree.ind with
  | h f s ps ih =>
      have hparts := ((isLaidOut_node_iff f s ps).mp ht).2
      have hnodes := horderly
      rw [nodes, List.forall_mem_cons, nodesOf_eq_flatMap, List.forall_mem_flatMap] at hnodes
      rw [nodes, List.forall_mem_cons, nodesOf_eq_flatMap, List.forall_mem_flatMap]
      have hin : ∀ p ∈ ps, ∀ n ∈ p.nodes, P (n.block r) := fun p hp =>
        ih p hp (hparts p hp) (hnodes.2 p hp)
      exact ⟨h.block ht horderly hin, hin⟩

end ComponentMigration.Script
