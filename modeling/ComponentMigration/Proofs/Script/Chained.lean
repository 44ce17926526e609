import ComponentMigration.Proofs.Script.Writes

/-!
Which chained assignment is reported.

* **Writes.** `IsStateOf` is the access to a state variable by its property, `IsWrite` an
  assignment to one, and `Chains` a write whose value is, without its parentheses, a write.
  They say what the pass looks for without the tests that it makes.
* **Order.** The nodes of a script are listed in the order in which they are visited, each in
  front of what is inside it. `chainedIn?_eq`: the pass finds the first of them that chains.
* **Main statement.** `hookStates_chains`: a script with state variables is refused exactly if
  some node of it chains. The first one is reported with its place and its text, and nothing is
  asked to be imported.
-/

namespace ComponentMigration.Script

variable {states : List StateVariable}

/-! ### Writes -/

/-- The access to the state of one of some variables. -/
inductive IsStateOf (states : List StateVariable) : Tree → Prop
  | access {v : StateVariable} (hv : v ∈ states) (name : Text) (space : Space) (s s' : Span) :
      IsStateOf states
        (.node (.member stateProperty) s [.node (.reference name space (some v.symbol)) s' []])

/-- An assignment to the state of one of some variables, by any operator. -/
inductive IsWrite (states : List StateVariable) : Tree → Prop
  | assignment {target : Tree} (htarget : IsStateOf states target) (operator : Text) (s : Span)
      (value : Tree) : IsWrite states (.node (.assignment operator) s [target, value])

/-- A write whose value is, without parentheses around it, a write. -/
inductive Chains (states : List StateVariable) : Tree → Prop
  | outer {target value : Tree} (htarget : IsStateOf states target)
      (hvalue : IsWrite states value.withoutParentheses) (operator : Text) (s : Span) :
      Chains states (.node (.assignment operator) s [target, value])

lemma isSome_stateOf?_iff {t : Tree} : (stateOf? states t).isSome = true ↔ IsStateOf states t := by
  constructor
  · intro h
    obtain ⟨v, hv⟩ := Option.isSome_iff_exists.mp h
    obtain ⟨s, name, space, symbol, s', rfl⟩ := stateOf?_eq_some hv
    rw [stateOf?, if_pos rfl] at hv
    obtain rfl : v.symbol = symbol := by simpa using List.find?_some hv
    exact .access (List.mem_of_find?_eq_some hv) name space s s'
  · rintro ⟨hv, name, space, s, s'⟩
    rw [stateOf?, if_pos rfl, List.find?_isSome]
    exact ⟨_, hv, beq_self_eq_true _⟩

lemma isStateAssignment_iff {t : Tree} :
    isStateAssignment states t = true ↔ IsWrite states t.withoutParentheses := by
  rw [isStateAssignment]
  split
  · next operator s target value heq =>
    rw [heq, isSome_stateOf?_iff]
    constructor
    · exact fun h => .assignment h operator s value
    · rintro ⟨h⟩
      exact h
  · next hother =>
    refine iff_of_false Bool.false_ne_true fun h => ?_
    generalize t.withoutParentheses = u at h hother
    obtain ⟨-, operator, s, value⟩ := h
    exact hother _ _ _ _ rfl

lemma isChained_iff_chains {n : Tree} : n.IsChained states ↔ Chains states n := by
  unfold Tree.IsChained
  split
  · next operator s target value =>
    rw [isSome_stateOf?_iff, isStateAssignment_iff]
    constructor
    · exact fun h => .outer h.1 h.2 operator s
    · rintro ⟨htarget, hvalue⟩
      exact ⟨htarget, hvalue⟩
  · next hother =>
    refine iff_of_false id fun h => ?_
    obtain ⟨-, -, operator, s⟩ := h
    exact hother _ _ _ _ rfl

lemma isChained_eq_true_iff {n : Tree} : n.isChained states = true ↔ Chains states n :=
  Tree.isChained_iff.trans isChained_iff_chains

/-! ### The first chain -/

/-- Without a chain in a tree none is found in it. -/
lemma find?_nodes_eq_none {t : Tree} (h : (stateOf? states t).isSome = true) :
    t.nodes.find? (Tree.isChained states) = none :=
  List.find?_eq_none.mpr fun _ hn hchained =>
    not_isChained_of_stateOf? h hn (Tree.isChained_iff.mp hchained)

/-- In several trees the first chain is that of the first tree with one. -/
lemma chainedIn?_eq_of_forall {ts : List Tree}
    (h : ∀ t ∈ ts, t.chained? states = (t.nodes.find? (Tree.isChained states)).map Tree.span) :
    chainedIn? states ts = ((nodesOf ts).find? (Tree.isChained states)).map Tree.span := by
  induction ts with
  | nil => rfl
  | cons t ts ih =>
      rw [List.forall_mem_cons] at h
      rw [chainedIn?, nodesOf, List.find?_append, h.1, ih h.2]
      cases t.nodes.find? (Tree.isChained states) <;> rfl

/-- What is found in a tree is the first of its nodes that chains. -/
lemma Tree.chained?_eq (t : Tree) :
    t.chained? states = (t.nodes.find? (Tree.isChained states)).map Tree.span := by
  induction t using Tree.ind with
  | h f s ps ih =>
      have hparts := chainedIn?_eq_of_forall ih
      rw [nodes, List.find?_cons, chained?.eq_def]
      split
      · next operator _ target value heq =>
          cases heq
          rw [isChained]
          have hvalue := ih value (by simp)
          simp only [nodesOf, List.append_nil, List.find?_append] at hparts ⊢
          cases hstate : stateOf? states target with
          | some v =>
              have htarget := find?_nodes_eq_none (t := target) (by rw [hstate]; rfl)
              rw [htarget, Option.isSome_some, Bool.true_and, Option.none_or]
              cases isStateAssignment states value
              · exact hvalue
              · rfl
          | none =>
              rw [Option.isSome_none, Bool.false_and, ih target (by simp), hvalue]
              cases target.nodes.find? (Tree.isChained states) <;> rfl
      · next hother heq =>
          cases heq
          have hself : (Tree.node f s ps).isChained states = false := by
            unfold isChained
            split
            · next heq =>
                cases heq
                exact absurd rfl (hother _ _ _ rfl)
            · rfl
          rw [hself]
          split_ifs with hread
          · have hnone := find?_nodes_eq_none hread
            rw [nodes, List.find?_cons, hself] at hnone
            rw [hnone]
            rfl
          · exact hparts

/-- What is found in several trees is the first of their nodes that chains. -/
lemma chainedIn?_eq (ts : List Tree) :
    chainedIn? states ts = ((nodesOf ts).find? (Tree.isChained states)).map Tree.span :=
  chainedIn?_eq_of_forall fun t _ => t.chained?_eq

/-! ### The pass -/

namespace Program

variable {source : Text} {p : Program} {o : Options} (progress : Progress) {i : ImportedName}

/-- What becomes of a script with state variables. -/
lemma hookStates_eq (hp : p.IsLaidOut (Span.Fits source))
    (himport : p.findImported o.sourceModule o.primitive = .ok (some i))
    (hne : stateVariablesOf i.symbol p.body ≠ []) :
    ∃ patch hooked, p.hookStates source o progress =
      match (nodesOf p.body).find? (Tree.isChained (stateVariablesOf i.symbol p.body)) with
      | some n => (⟨patch, progress.requests⟩, .error (chainFailure source o n.span))
      | none => (⟨patch, progress.requests.require o.targetModule o.hook⟩, .ok hooked) := by
  have hstates : p.stateVariables o = .ok (stateVariablesOf i.symbol p.body) :=
    stateVariables_eq_ok_iff.mpr ⟨some i, himport, rfl⟩
  obtain ⟨hooked, hhooked⟩ := succeeds_report_of_stateVariables hp hstates
  have hchained : chainedIn? (stateVariablesOf i.symbol p.body) p.body = _ := chainedIn?_eq p.body
  refine ⟨⟨progress.patch.edits ++ p.stateEdits (stateVariablesOf i.symbol p.body) o.hook⟩,
    hooked, ?_⟩
  rw [hookStates, hstates]
  generalize stateVariablesOf i.symbol p.body = states at *
  obtain ⟨v, vs, rfl⟩ := List.exists_cons_of_ne_nil hne
  dsimp only
  rw [hhooked, hchained]
  cases (nodesOf p.body).find? (Tree.isChained (v :: vs)) <;> rfl

/-- **Which chained assignment is refused.** A program that is laid out in a source, and has state
variables, is refused exactly if a node of it is a write whose value is a write. The first such
node in the order of the visit is reported with its own place and its own text. -/
theorem hookStates_refuses (hp : p.IsLaidOut (Span.Fits source))
    (himport : p.findImported o.sourceModule o.primitive = .ok (some i))
    (hne : stateVariablesOf i.symbol p.body ≠ []) :
    (¬ Succeeds (p.hookStates source o progress).2 ↔
        ∃ n ∈ nodesOf p.body, Chains (stateVariablesOf i.symbol p.body) n) ∧
      (∀ front n behind, nodesOf p.body = front ++ n :: behind →
        (∀ m ∈ front, ¬ Chains (stateVariablesOf i.symbol p.body) m) →
          Chains (stateVariablesOf i.symbol p.body) n →
            (p.hookStates source o progress).1.requests = progress.requests ∧
              ∃ d, (p.hookStates source o progress).2 = .error (.diagnosed d) ∧
                d.cause.code = Code.chainedAssignment ∧ d.file = o.filePath ∧
                  Location.ofOffset? source n.span.start = some d.location ∧
                    d.context = some (source.cut n.span.start n.span.stop)) ∧
      ((∀ n ∈ nodesOf p.body, ¬ Chains (stateVariablesOf i.symbol p.body) n) →
        (p.hookStates source o progress).1.requests
          = progress.requests.require o.targetModule o.hook) := by
  obtain ⟨patch, hooked, hrun⟩ := hookStates_eq progress hp himport hne
  generalize stateVariablesOf i.symbol p.body = states at hrun ⊢
  rw [hrun]
  refine ⟨?_, fun front n behind hnodes hfront hn => ?_, fun hnone => ?_⟩
  · cases hfind : (nodesOf p.body).find? (Tree.isChained states) with
    | some n =>
        refine iff_of_true (not_succeeds_error _) ⟨n, List.mem_of_find?_eq_some hfind, ?_⟩
        exact isChained_eq_true_iff.mp (List.find?_some hfind)
    | none =>
        refine iff_of_false (not_not_intro (succeeds_ok hooked)) ?_
        rintro ⟨n, hn, hchain⟩
        exact List.find?_eq_none.mp hfind n hn (isChained_eq_true_iff.mpr hchain)
  · have hfind : (nodesOf p.body).find? (Tree.isChained states) = some n := by
      rw [hnodes, List.find?_eq_some_iff_append]
      refine ⟨isChained_eq_true_iff.mpr hn, front, behind, rfl, fun m hm => ?_⟩
      rw [Bool.not_eq_true', ← Bool.not_eq_true]
      exact fun h => hfront m hm (isChained_eq_true_iff.mp h)
    have hfits : n.span.Fits source :=
      (hp.of_mem_nodes (by rw [hnodes]; simp)).span
    obtain ⟨location, hlocation⟩ := exists_location hfits.start
    rw [hfind]
    refine ⟨rfl, ⟨.chainedAssignment, o.filePath, location,
      some (source.cut n.span.start n.span.stop), [chainHint]⟩, congrArg Except.error ?_, rfl, rfl,
      hlocation, rfl⟩
    rw [chainFailure, hlocation, Text.slice?_eq_cut hfits.start hfits.stop hfits.le]
  · have hfind : (nodesOf p.body).find? (Tree.isChained states) = none :=
      List.find?_eq_none.mpr fun n hn h => hnone n hn (isChained_eq_true_iff.mp h)
    rw [hfind]

/-- **Which chained assignment is reported.** A script with state variables is refused exactly if
a node of it, at any depth, is a write whose value is a write. The first such node in the order of
the visit is reported with its own place and its own text, and the hook is not asked for; without
one it is. -/
theorem hookStates_chains (hp : parse? source = some p)
    (himport : p.resolve.findImported o.sourceModule o.primitive = .ok (some i))
    (hne : stateVariablesOf i.symbol p.resolve.body ≠ []) :
    (¬ Succeeds (p.resolve.hookStates source o progress).2 ↔
        ∃ n ∈ nodesOf p.resolve.body, Chains (stateVariablesOf i.symbol p.resolve.body) n) ∧
      (∀ front n behind, nodesOf p.resolve.body = front ++ n :: behind →
        (∀ m ∈ front, ¬ Chains (stateVariablesOf i.symbol p.resolve.body) m) →
          Chains (stateVariablesOf i.symbol p.resolve.body) n →
            (p.resolve.hookStates source o progress).1.requests = progress.requests ∧
              ∃ d, (p.resolve.hookStates source o progress).2 = .error (.diagnosed d) ∧
                d.cause.code = Code.chainedAssignment ∧ d.file = o.filePath ∧
                  Location.ofOffset? source n.span.start = some d.location ∧
                    d.context = some (source.cut n.span.start n.span.stop)) ∧
      ((∀ n ∈ nodesOf p.resolve.body, ¬ Chains (stateVariablesOf i.symbol p.resolve.body) n) →
        (p.resolve.hookStates source o progress).1.requests
          = progress.requests.require o.targetModule o.hook) :=
  hookStates_refuses progress (isLaidOut_resolve_of_parse? hp) himport hne

/-- A script with a chain in a loop in a function in markup, and one behind it. -/
def chainInMarkupText : Text :=
  "import {ref} from 'vue';const a=ref(0);let b=ref(0),n;n=b.value=1;const f=()=>\n"
    ++ "<p x={()=>{for(;;)a.value+=((b.value=2))}}/>;b.value=a.value=3"

/-- What makes its state variables. -/
def chainInMarkupImport : ImportedName := ⟨8, "ref"⟩

/-- The chain in the markup is reported. -/
theorem hookStates_chains_inMarkup : ∃ p, Program.parse? chainInMarkupText = some p ∧
    p.resolve.findImported "vue" "ref" = .ok (some chainInMarkupImport) ∧
      stateVariablesOf chainInMarkupImport.symbol p.resolve.body ≠ [] ∧
        (p.resolve.hookStates chainInMarkupText {} {}).1.requests = {} ∧
          ∃ d, (p.resolve.hookStates chainInMarkupText {} {}).2 = .error (.diagnosed d) ∧
            d.location = ⟨2, 19⟩ ∧ d.context = some "a.value+=((b.value=2))".toList := by
  obtain ⟨p, hp, himport, hne, n, hfind, hspan⟩ :
      ∃ p ∈ Program.parse? chainInMarkupText,
        p.resolve.findImported "vue" "ref" = .ok (some chainInMarkupImport) ∧
          stateVariablesOf chainInMarkupImport.symbol p.resolve.body ≠ [] ∧
            ∃ n ∈ (nodesOf p.resolve.body).find? (Tree.isChained
              (stateVariablesOf chainInMarkupImport.symbol p.resolve.body)),
                n.span = ⟨97, 119⟩ := by
    decide +kernel
  obtain ⟨hchained, front, behind, hnodes, hfront⟩ := List.find?_eq_some_iff_append.mp hfind
  obtain ⟨hrequests, d, herror, -, -, hlocation, hcontext⟩ :=
    (hookStates_chains (o := {}) {} hp himport hne).2.1 front n behind hnodes
      (fun m hm h => by simpa [isChained_eq_true_iff.mpr h] using hfront m hm)
      (isChained_eq_true_iff.mp hchained)
  have hplace : Location.ofOffset? chainInMarkupText 97 = some ⟨2, 19⟩ := by decide +kernel
  rw [hspan] at hlocation hcontext
  refine ⟨p, hp, himport, hne, hrequests, d, herror, ?_, ?_⟩
  · exact Option.some.inj (hlocation.symm.trans hplace)
  · rw [hcontext]
    decide +kernel

end Program

end ComponentMigration.Script
