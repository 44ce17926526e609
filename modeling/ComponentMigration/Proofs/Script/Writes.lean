import ComponentMigration.Proofs.Migration

/-!
Who takes the value of a state write.

* **Taking.** A node `TakesWrite` if the value of an assignment or of a declarator is, without
  its parentheses, an assignment to a state variable. The setter that it becomes has no value.
* **Chains.** It `IsChained` if it is itself an assignment to a state variable.
  `chainedIn?_isSome_iff`: these are the nodes, at any depth, that the pass looks for.
* **Main statement.** `Program.migrate_refuses`: a program with a chained node is refused for it,
  and one without is migrated. For scripts that is `migrateScript_writes`. Other takers are not
  looked for: `not_migrateScript_takes`.
-/

namespace ComponentMigration

namespace Script

variable {states : List StateVariable}

/-! ### Taking a value -/

/-- The value that an assignment or a declarator takes. -/
def Tree.taken? : Tree → Option Tree
  | .node (.assignment _) _ [_, value] => some value
  | .node .declarator _ [_, value] => some value
  | _ => none

/-- A node takes the value of an assignment to a state variable. -/
def Tree.TakesWrite (states : List StateVariable) (n : Tree) : Prop :=
  n.taken?.any (isStateAssignment states) = true

instance : DecidablePred (Tree.TakesWrite states) := fun n =>
  inferInstanceAs (Decidable (n.taken?.any (isStateAssignment states) = true))

/-- An assignment to a state variable takes the value of another one. -/
def Tree.IsChained (states : List StateVariable) : Tree → Prop
  | .node (.assignment _) _ [target, value] =>
      (stateOf? states target).isSome = true ∧ isStateAssignment states value = true
  | _ => False

/-- Whether an assignment to a state variable takes the value of another one. -/
def Tree.isChained (states : List StateVariable) : Tree → Bool
  | .node (.assignment _) _ [target, value] =>
      (stateOf? states target).isSome && isStateAssignment states value
  | _ => false

lemma Tree.isChained_iff {n : Tree} : n.isChained states = true ↔ n.IsChained states := by
  unfold isChained IsChained
  split
  · exact Bool.and_eq_true_iff
  · exact iff_of_false Bool.false_ne_true id

instance : DecidablePred (Tree.IsChained states) := fun n =>
  decidable_of_iff (n.isChained states = true) Tree.isChained_iff

/-! ### Finding chains -/

/-- There is nothing chained in a read of a state. -/
lemma not_isChained_of_stateOf? {t n : Tree} (h : (stateOf? states t).isSome = true)
    (hn : n ∈ t.nodes) : ¬ n.IsChained states := by
  obtain ⟨v, hv⟩ := Option.isSome_iff_exists.mp h
  obtain ⟨s, name, space, symbol, nameSpan, rfl⟩ := stateOf?_eq_some hv
  simp only [Tree.nodes, nodesOf, List.append_nil, List.mem_cons, List.not_mem_nil,
    or_false] at hn
  rcases hn with rfl | rfl <;> exact id

/-- A chain is found in several trees if it is found in one of them. -/
lemma chainedIn?_isSome_iff_exists (ts : List Tree) :
    (chainedIn? states ts).isSome = true ↔ ∃ t ∈ ts, (t.chained? states).isSome = true := by
  induction ts with
  | nil => simp [chainedIn?]
  | cons t ts ih => rw [chainedIn?, Option.isSome_or, Bool.or_eq_true, ih, List.exists_mem_cons_iff]

/-- A chain is found in a tree if one of its nodes is chained. -/
lemma Tree.chained?_isSome_iff (t : Tree) :
    (t.chained? states).isSome = true ↔ ∃ n ∈ t.nodes, n.IsChained states := by
  induction t using Tree.ind with
  | h f s ps ih =>
      have hparts : (∃ n ∈ nodesOf ps, n.IsChained states)
          ↔ ∃ t ∈ ps, (t.chained? states).isSome = true := by
        simp only [nodesOf_eq_flatMap, List.mem_flatMap]
        constructor
        · rintro ⟨n, ⟨t, ht, hn⟩, hchained⟩
          exact ⟨t, ht, (ih t ht).mpr ⟨n, hn, hchained⟩⟩
        · rintro ⟨t, ht, h⟩
          obtain ⟨n, hn, hchained⟩ := (ih t ht).mp h
          exact ⟨n, ⟨t, ht, hn⟩, hchained⟩
      rw [nodes, List.exists_mem_cons_iff, hparts, chained?.eq_def]
      split
      · next operator _ target value heq =>
          cases heq
          rw [List.exists_mem_cons_iff, List.exists_mem_cons_iff]
          cases hstate : stateOf? states target with
          | some v =>
              have htarget : ¬ (target.chained? states).isSome = true := fun h => by
                obtain ⟨n, hn, hchained⟩ := (ih target List.mem_cons_self).mp h
                exact not_isChained_of_stateOf? (by simp [hstate]) hn hchained
              cases hvalue : isStateAssignment states value <;>
                simp [IsChained, hstate, hvalue, htarget]
          | none => simp [IsChained, hstate]
      · next hother heq =>
          cases heq
          have hself : ¬ (Tree.node f s ps).IsChained states := by
            unfold IsChained
            split
            · next heq =>
                cases heq
                exact fun _ => hother _ _ _ rfl rfl
            · exact id
          split_ifs with hread
          · refine iff_of_false (by simp) ?_
            rintro (h | h)
            · exact hself h
            · obtain ⟨n, hn, hchained⟩ := hparts.mpr h
              refine not_isChained_of_stateOf? hread ?_ hchained
              rw [nodes]
              exact List.mem_cons_of_mem _ hn
          · rw [chainedIn?_isSome_iff_exists]
            exact (or_iff_right hself).symm

/-- A chain is found in several trees if one of their nodes is chained. -/
lemma chainedIn?_isSome_iff (ts : List Tree) :
    (chainedIn? states ts).isSome = true ↔ ∃ n ∈ nodesOf ts, n.IsChained states := by
  rw [chainedIn?_isSome_iff_exists]
  simp only [Tree.chained?_isSome_iff, nodesOf_eq_flatMap, List.mem_flatMap]
  constructor
  · rintro ⟨t, ht, n, hn, hchained⟩
    exact ⟨n, ⟨t, ht, hn⟩, hchained⟩
  · rintro ⟨n, ⟨t, ht, hn⟩, hchained⟩
    exact ⟨t, ht, n, hn, hchained⟩

/-! ### Moving to hooks -/

variable {source : Text} {p : Program} {o : Options}

/-- Without state variables nothing is chained. -/
lemma not_isChained_nil (n : Tree) : ¬ n.IsChained [] := by
  intro h
  unfold Tree.IsChained at h
  split at h
  · obtain ⟨v, hv⟩ := Option.isSome_iff_exists.mp h.1
    obtain ⟨_, _, _, _, _, rfl⟩ := stateOf?_eq_some hv
    simp [stateOf?] at hv
  · exact h

/-- What becomes of state variables: a chain is looked for, and each is reported. -/
lemma Program.hookStates_snd (hstates : p.stateVariables o = .ok states) (hne : states ≠ []) :
    (p.hookStates source o {}).2 =
      match chainedIn? states p.body, states.mapM (·.report source) with
      | some s, .ok _ => .error (chainFailure source o s)
      | none, .ok hooked => .ok hooked
      | _, .error f => .error f := by
  rw [hookStates, hstates]
  cases states with
  | nil => exact absurd rfl hne
  | cons v vs =>
      dsimp only
      cases chainedIn? (v :: vs) p.body <;> cases (v :: vs).mapM (·.report source) <;> rfl

/-- With a chained node nothing is moved to hooks. -/
lemma Program.not_succeeds_hookStates (hstates : p.stateVariables o = .ok states) {n : Tree}
    (hn : n ∈ nodesOf p.body) (hchained : n.IsChained states) :
    ¬ Succeeds (p.hookStates source o {}).2 := by
  obtain ⟨s, hs⟩ := Option.isSome_iff_exists.mp ((chainedIn?_isSome_iff _).mpr ⟨n, hn, hchained⟩)
  have hne : states ≠ [] := by
    rintro rfl
    exact not_isChained_nil n hchained
  rw [hookStates_snd hstates hne, hs]
  cases states.mapM (·.report source) <;> simp

/-- Where the spans fit the source, every state variable is reported. -/
lemma Program.succeeds_report_of_stateVariables (hp : p.IsLaidOut (Span.Fits source))
    (hstates : p.stateVariables o = .ok states) : Succeeds (states.mapM (·.report source)) := by
  obtain ⟨found, -, rfl⟩ := stateVariables_eq_ok_iff.mp hstates
  cases found with
  | none => exact ⟨[], rfl⟩
  | some i => exact succeeds_report (o := o) hp i.symbol

/-- Where the spans fit the source, a chained node is refused at its place. -/
lemma Program.hookStates_of_isChained (hp : p.IsLaidOut (Span.Fits source))
    (hstates : p.stateVariables o = .ok states) {n : Tree} (hn : n ∈ nodesOf p.body)
    (hchained : n.IsChained states) :
    ∃ location context, (p.hookStates source o {}).2 = .error (.diagnosed
      ⟨.chainedAssignment, o.filePath, location, some context, [chainHint]⟩) := by
  obtain ⟨s, hs⟩ := Option.isSome_iff_exists.mp ((chainedIn?_isSome_iff _).mpr ⟨n, hn, hchained⟩)
  have hne : states ≠ [] := by
    rintro rfl
    exact not_isChained_nil n hchained
  obtain ⟨hooked, hhooked⟩ := succeeds_report_of_stateVariables hp hstates
  obtain ⟨t, ht, hs'⟩ := chainedIn?_eq_some hs
  obtain ⟨location, hfailure⟩ :=
    chainFailure_eq (o := o) (Tree.span_of_chained? (hp.statements t ht) hs')
  refine ⟨location, source.cut s.start s.stop, ?_⟩
  rw [hookStates_snd hstates hne, hs, hhooked, ← hfailure]

/-- Where the spans fit the source and nothing is chained, all state variables are moved. -/
lemma Program.succeeds_hookStates (hp : p.IsLaidOut (Span.Fits source))
    (hstates : p.stateVariables o = .ok states)
    (hnone : ∀ n ∈ nodesOf p.body, ¬ n.IsChained states) :
    Succeeds (p.hookStates source o {}).2 := by
  by_cases hne : states = []
  · subst hne
    rw [hookStates, hstates]
    exact succeeds_ok _
  · have hchain : chainedIn? states p.body = none := by
      by_contra h
      obtain ⟨n, hn, hchained⟩ :=
        (chainedIn?_isSome_iff _).mp (Option.isSome_iff_ne_none.mpr h)
      exact hnone n hn hchained
    obtain ⟨hooked, hhooked⟩ := succeeds_report_of_stateVariables hp hstates
    rw [hookStates_snd hstates hne, hchain, hhooked]
    exact succeeds_ok hooked

end Script

/-! ### Migrating -/

open Script (Program Span StateVariable)

variable {source : Text} {p : Program} {o : Options} {states : List StateVariable}

/-- A program is migrated if nothing in it is chained. -/
lemma Script.Program.succeeds_migrate (hp : p.IsLaidOut (Span.Fits source))
    (hstates : p.stateVariables o = .ok states)
    (hnone : ∀ n ∈ Script.nodesOf p.body, ¬ n.IsChained states) :
    Succeeds (p.migrate source o) := by
  obtain ⟨hooked, hhooked⟩ := succeeds_hookStates hp hstates hnone
  obtain ⟨code, hcode⟩ := succeeds_apply (o := o) hp
  rw [migrate_eq, hhooked, hcode]
  exact succeeds_ok _

/-- **A program is refused exactly for its chained nodes.** That holds of every program that is laid
out in a source, whatever it was read by. -/
theorem Script.Program.migrate_refuses (hp : p.IsLaidOut (Span.Fits source))
    (hstates : p.stateVariables o = .ok states) :
    (Succeeds (p.migrate source o) ↔ ∀ n ∈ Script.nodesOf p.body, ¬ n.IsChained states) ∧
      (¬ Succeeds (p.migrate source o) →
        ∃ location context, p.migrate source o = .error (.diagnosed
          ⟨.chainedAssignment, o.filePath, location, some context, [Script.chainHint]⟩)) := by
  have hrefused : ∀ n ∈ Script.nodesOf p.body, n.IsChained states →
      ∃ location context, p.migrate source o = .error (.diagnosed
        ⟨.chainedAssignment, o.filePath, location, some context, [Script.chainHint]⟩) := by
    intro n hn hchained
    obtain ⟨location, context, herror⟩ := hookStates_of_isChained hp hstates hn hchained
    refine ⟨location, context, ?_⟩
    rw [migrate_eq, herror]
    rfl
  refine ⟨⟨?_, succeeds_migrate hp hstates⟩, fun h => ?_⟩
  · rintro ⟨m, hm⟩ n hn hchained
    obtain ⟨location, context, herror⟩ := hrefused n hn hchained
    cases hm.symm.trans herror
  · by_contra hother
    exact h (succeeds_migrate hp hstates fun n hn hchained => hother (hrefused n hn hchained))

/-- A script is migrated if it is a program that is. -/
lemma succeeds_migrateScript_iff (hp : Program.parse? source = some p) :
    Succeeds (migrateScript source o) ↔ Succeeds (p.resolve.migrate source o) := by
  constructor
  · rintro ⟨m, hm⟩
    obtain ⟨q, hq, hm⟩ := migrateScript_eq_ok_iff.mp hm
    cases hp.symm.trans hq
    exact ⟨m, hm⟩
  · rintro ⟨m, hm⟩
    exact ⟨m, migrateScript_eq_ok_iff.mpr ⟨p, hp, hm⟩⟩

/-- **The value of a state write is never the value of another.** A script in which it is has no
migration, and that is what is reported. A script without such a node is migrated. -/
theorem migrateScript_writes (hp : Program.parse? source = some p)
    (hstates : p.resolve.stateVariables o = .ok states) :
    (Succeeds (migrateScript source o) →
        ∀ n ∈ Script.nodesOf p.resolve.body, ¬ n.IsChained states) ∧
      (Succeeds (migrateScript source o) ∨
        (∃ n ∈ Script.nodesOf p.resolve.body, n.IsChained states) ∧
          ∃ location context, migrateScript source o = .error (.diagnosed
            ⟨.chainedAssignment, o.filePath, location, some context, [Script.chainHint]⟩)) := by
  have hresolved := Program.isLaidOut_resolve_of_parse? hp
  obtain ⟨haccepted, hrefused⟩ := Program.migrate_refuses hresolved hstates
  rw [succeeds_migrateScript_iff hp]
  refine ⟨haccepted.mp, ?_⟩
  by_cases hsucceeds : Succeeds (p.resolve.migrate source o)
  · exact .inl hsucceeds
  · obtain ⟨location, context, hmigrate⟩ := hrefused hsucceeds
    rw [haccepted] at hsucceeds
    push Not at hsucceeds
    refine .inr ⟨hsucceeds, location, context,
      migrateScript_eq_error_iff.mpr (.inr ⟨p, _, hp, hmigrate, ?_⟩)⟩
    rw [Failure.inFile, Diagnostic.inFile]
    split_ifs <;> rfl

/-- A chained assignment whose value stands in parentheses. -/
def chainedText : Text :=
  "import {ref} from 'vue';const a=ref(0);const b=ref(0);a.value=(b.value=1)"

/-- The state variables of the chained assignment. -/
def chainedStates : List StateVariable := [
  ⟨30, "a", ⟨30, 31⟩, ⟨32, 35⟩⟩, ⟨45, "b", ⟨45, 46⟩, ⟨47, 50⟩⟩]

/-- The chained assignment is refused. -/
theorem migrateScript_writes_chained :
    ∃ p, Program.parse? chainedText = some p ∧
      p.resolve.stateVariables {} = .ok chainedStates ∧
        (∃ n ∈ Script.nodesOf p.resolve.body, n.IsChained chainedStates) ∧
          ∃ location context, migrateScript chainedText {} = .error (.diagnosed
            ⟨.chainedAssignment, [], location, some context, [Script.chainHint]⟩) := by
  obtain ⟨p, hp, hstates, n, hn, hchained⟩ :
      ∃ p ∈ Program.parse? chainedText, p.resolve.stateVariables {} = .ok chainedStates ∧
        ∃ n ∈ Script.nodesOf p.resolve.body, n.IsChained chainedStates := by
    decide +kernel
  obtain ⟨haccepted, houtcome⟩ := migrateScript_writes hp hstates
  refine ⟨p, hp, hstates, ⟨n, hn, hchained⟩, ?_⟩
  rcases houtcome with h | h
  · exact absurd hchained (haccepted h n hn)
  · exact h.2

/-- An assignment to another variable and a declarator that take the value of a write. -/
def takenText : Text :=
  "import {ref} from 'vue';const a=ref(0);let n;n=a.value=1;const b=(a.value+=2)"

/-- The state variable that is written. -/
def takenStates : List StateVariable := [⟨30, "a", ⟨30, 31⟩, ⟨32, 35⟩⟩]

/-- A script is migrated although another assignment and a declarator take the values of
writes. -/
theorem not_migrateScript_takes :
    Succeeds (migrateScript takenText {}) ∧
      ∃ p, Program.parse? takenText = some p ∧ p.resolve.stateVariables {} = .ok takenStates ∧
        (∃ n ∈ Script.nodesOf p.resolve.body,
          n.form = .assignment ['='] ∧ n.TakesWrite takenStates) ∧
        ∃ n ∈ Script.nodesOf p.resolve.body, n.form = .declarator ∧ n.TakesWrite takenStates := by
  obtain ⟨p, hp, hstates, hnone, htaken⟩ :
      ∃ p ∈ Program.parse? takenText, p.resolve.stateVariables {} = .ok takenStates ∧
        (∀ n ∈ Script.nodesOf p.resolve.body, ¬ n.IsChained takenStates) ∧
          (∃ n ∈ Script.nodesOf p.resolve.body,
            n.form = .assignment ['='] ∧ n.TakesWrite takenStates) ∧
          ∃ n ∈ Script.nodesOf p.resolve.body,
            n.form = .declarator ∧ n.TakesWrite takenStates := by
    decide +kernel
  have hsucceeds := Program.succeeds_migrate (Program.isLaidOut_resolve_of_parse? hp) hstates hnone
  exact ⟨(succeeds_migrateScript_iff hp).mpr hsucceeds, p, hp, hstates, htaken⟩

end ComponentMigration
