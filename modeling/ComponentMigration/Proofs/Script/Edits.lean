import ComponentMigration.Migration
import ComponentMigration.Proofs.Script.Imports
import ComponentMigration.Proofs.Success

/-!
The edits of a migration do not overlap.

* **Blocks.** The edits of a block that `IsSound` are inside of its span, fit the source and
  are apart. Every way of rewriting keeps that (`keeps_isSound`), so it holds of every piece
  of a script.
* **Outcomes.** `hookStates_outcome` lists the ways in which moving the state variables to
  hooks can end, with all that is recorded on each of them.
* **Patches.** `recordedPatch` has the edits of the state variables, of their uses and of
  the import of the hook. `recordedPatch_isSound`: all of them fit and are apart.
-/

namespace ComponentMigration

/-- Edits that fit the source, no two of which overlap. -/
structure AreSound (source : Text) (es : List Edit) : Prop where
  fits : ∀ e ∈ es, e.Fits source
  apart : es.Pairwise Edit.IsApart

namespace AreSound

variable {source : Text} {es es' : List Edit}

lemma nil (source : Text) : AreSound source [] := ⟨by simp, .nil⟩

lemma of_perm (h : AreSound source es) (hperm : es.Perm es') : AreSound source es' :=
  ⟨fun e he => h.fits e (hperm.mem_iff.mpr he),
    (hperm.pairwise_iff fun h => Edit.IsApart.symm h).mp h.apart⟩

lemma of_sublist (h : AreSound source es) (hsub : es'.Sublist es) : AreSound source es' :=
  ⟨fun e he => h.fits e (hsub.subset he), h.apart.sublist hsub⟩

end AreSound

namespace Script

/-! ### Blocks -/

/-- The edits of a block are inside of its span, fit the source and are apart. -/
structure Block.IsSound (source : Text) (b : Block) : Prop where
  start : ∀ e ∈ b.edits, b.span.start ≤ e.start
  stop : ∀ e ∈ b.edits, e.stop ≤ b.span.stop
  sound : AreSound source b.edits

variable {source : Text} {r : Pass} {p : Program}

lemma Span.Fits.edit {s : Span} (h : s.Fits source) (text : Text) : (s.edit text).Fits source :=
  ⟨h.le, h.start, h.stop⟩

/-- What is inside of spans that are apart is apart. -/
lemma isApart_of_blocks {b c : Block} (hb : b.IsSound source) (hc : c.IsSound source)
    (h : b.span.IsApart c.span) : ∀ e ∈ b.edits, ∀ f ∈ c.edits, e.IsApart f := by
  intro e he f hf
  exact h.imp (fun h => Nat.le_trans (Nat.le_trans (hb.stop e he) h) (hc.start f hf))
    fun h => Nat.le_trans (Nat.le_trans (hc.stop f hf) h) (hb.start e he)

/-- The edits of blocks that are apart are sound together. -/
lemma areSound_flatMap {bs : List Block} (hbs : ∀ b ∈ bs, b.IsSound source)
    (h : bs.Pairwise fun b c => b.span.IsApart c.span) :
    AreSound source (bs.flatMap (·.edits)) := by
  refine ⟨fun e he => ?_, List.pairwise_flatMap.mpr ⟨fun b hb => (hbs b hb).sound.apart, ?_⟩⟩
  · obtain ⟨b, hb, he⟩ := List.mem_flatMap.mp he
    exact (hbs b hb).sound.fits e he
  · exact h.imp_of_mem fun hb hc h => isApart_of_blocks (hbs _ hb) (hbs _ hc) h

/-- Every way of rewriting keeps edits sound. -/
lemma keeps_isSound (r : Pass) (F : Span → Span → Prop) (N : Span → Prop) :
    r.Keeps (Span.Fits r.source) F N (Block.IsSound r.source) where
  perm := by
    intro s es es' text hperm h
    exact ⟨fun e he => h.start e (hperm.mem_iff.mpr he),
      fun e he => h.stop e (hperm.mem_iff.mpr he), h.sound.of_perm hperm⟩
  replaced := by
    intro s text hs _
    refine ⟨?_, ?_, ?_, List.pairwise_singleton _ _⟩
    · exact List.forall_mem_singleton.mpr (Nat.le_refl _)
    · exact List.forall_mem_singleton.mpr (Nat.le_refl _)
    · exact List.forall_mem_singleton.mpr (hs.edit text)
  read := by
    intro s o hs ho _ hinside
    refine ⟨?_, ?_, ?_, List.pairwise_singleton _ _⟩
    · exact List.forall_mem_singleton.mpr (Nat.le_trans hinside.start ho.le)
    · exact List.forall_mem_singleton.mpr (Nat.le_refl _)
    · exact List.forall_mem_singleton.mpr ⟨hinside.stop, ho.stop, hs.stop⟩
  assigned := by
    intro s _ _ b v operator hs _ _ _ _ hb hinside h
    refine ⟨?_, ?_, ?_, ?_⟩
    · rw [assignmentEdits, List.forall_mem_append, List.forall_mem_cons, List.forall_mem_singleton]
      exact ⟨⟨Nat.le_refl _, Nat.le_trans hinside.start hb.le⟩,
        fun e he => Nat.le_trans hinside.start (h.start e he)⟩
    · rw [assignmentEdits, List.forall_mem_append, List.forall_mem_cons, List.forall_mem_singleton]
      exact ⟨⟨Nat.le_trans hb.le hinside.stop, hinside.stop⟩,
        fun e he => Nat.le_trans (h.stop e he) hinside.stop⟩
    · rw [assignmentEdits, List.forall_mem_append, List.forall_mem_cons, List.forall_mem_singleton]
      exact ⟨⟨⟨hinside.start, hs.start, hb.start⟩, ⟨Nat.le_refl _, hb.stop, hb.stop⟩⟩, h.sound.fits⟩
    · -- what stands in front of the value, what stands behind it, and what is inside of it
      rw [assignmentEdits, List.pairwise_append, List.pairwise_pair]
      refine ⟨.inl hb.le, h.sound.apart, ?_⟩
      rw [List.forall_mem_cons, List.forall_mem_singleton]
      exact ⟨fun e he => .inl (h.start e he), fun e he => .inr (h.stop e he)⟩
  around := by
    intro s bs hs hbs hapart
    refine ⟨fun e he => ?_, fun e he => ?_, areSound_flatMap (fun b hb => (hbs b hb).2.2) hapart⟩
    all_goals
      obtain ⟨b, hb, he⟩ := List.mem_flatMap.mp he
      obtain ⟨-, hinside, hsound⟩ := hbs b hb
    · exact Nat.le_trans hinside.start (hsound.start e he)
    · exact Nat.le_trans (hsound.stop e he) hinside.stop

/-! ### State variables -/

/-- The state variables of a tree are declared by its nodes. -/
lemma Tree.stateVariables_eq_filterMap (primitive : Symbol) (t : Tree) :
    t.stateVariables primitive = t.nodes.filterMap (StateVariable.ofDeclarator? primitive) := by
  induction t using Tree.ind with
  | h f s ps ih =>
      have hparts : stateVariablesOf primitive ps
          = (nodesOf ps).filterMap (StateVariable.ofDeclarator? primitive) := by
        rw [stateVariablesOf_eq_flatMap, nodesOf_eq_flatMap, List.filterMap_flatMap]
        exact List.flatMap_congr ih
      rw [stateVariables, nodes, List.filterMap_cons, hparts]
      cases StateVariable.ofDeclarator? primitive (.node f s ps) <;> rfl

lemma stateVariablesOf_eq_filterMap (primitive : Symbol) (ts : List Tree) :
    stateVariablesOf primitive ts
      = (nodesOf ts).filterMap (StateVariable.ofDeclarator? primitive) := by
  rw [stateVariablesOf_eq_flatMap, nodesOf_eq_flatMap, List.filterMap_flatMap]
  exact List.flatMap_congr fun t _ => t.stateVariables_eq_filterMap primitive

/-- The name of a state variable has a span as it should be. -/
lemma nameSpan_of_mem_stateVariablesOf {Q : Span → Prop} (hp : p.IsLaidOut Q)
    {primitive : Symbol} {v : StateVariable} (hv : v ∈ stateVariablesOf primitive p.body) :
    Q v.nameSpan := by
  rw [stateVariablesOf_eq_filterMap, List.mem_filterMap] at hv
  obtain ⟨n, hn, hv⟩ := hv
  obtain ⟨_, _, _, _, _, _, _, _, _, _, _, _, rfl, rfl⟩ := ofDeclarator?_eq_some hv
  have hdeclarator := (Tree.isLaidOut_node_iff _ _ _).mp (hp.of_mem_nodes hn)
  have htarget := (Tree.isLaidOut_node_iff _ _ _).mp (hdeclarator.2 _ List.mem_cons_self)
  exact (htarget.2 _ List.mem_cons_self).span

/-! ### Chained assignments -/

/-- A chained assignment of several trees is one of them. -/
lemma chainedIn?_eq_some {states : List StateVariable} {ts : List Tree} {s : Span}
    (h : chainedIn? states ts = some s) : ∃ t ∈ ts, t.chained? states = some s := by
  induction ts with
  | nil => cases h
  | cons t ts ih =>
      rw [chainedIn?, Option.or_eq_some_iff] at h
      rcases h with h | ⟨-, h⟩
      · exact ⟨t, List.mem_cons_self, h⟩
      · obtain ⟨t', ht', h⟩ := ih h
        exact ⟨t', List.mem_cons_of_mem t ht', h⟩

/-- A chained assignment is the node itself or inside of one of its parts. -/
lemma Tree.chained?_node {states : List StateVariable} {f : Form} {s s' : Span} {ps : List Tree}
    (h : (Tree.node f s ps).chained? states = some s') :
    s = s' ∨ ∃ p ∈ ps, p.chained? states = some s' := by
  rw [chained?.eq_def] at h
  split at h
  · next target value heq =>
      cases heq
      split at h
      · split_ifs at h
        · cases h
          exact .inl rfl
        · exact .inr ⟨value, by simp, h⟩
      · rw [Option.or_eq_some_iff] at h
        rcases h with h | ⟨-, h⟩
        · exact .inr ⟨target, by simp, h⟩
        · exact .inr ⟨value, by simp, h⟩
  · next heq =>
      cases heq
      split_ifs at h
      exact .inr (chainedIn?_eq_some h)

/-- A chained assignment has a span as it should be. -/
lemma Tree.span_of_chained? {Q : Span → Prop} {states : List StateVariable} {t : Tree} {s : Span}
    (ht : t.IsLaidOut Q) (h : t.chained? states = some s) : Q s := by
  induction t using Tree.ind with
  | h f s' ps ih =>
      rw [isLaidOut_node_iff] at ht
      rcases chained?_node h with rfl | ⟨p, hp, h⟩
      · exact ht.1.1
      · exact ih p hp (ht.2 p hp) h

/-! ### The pass -/

/-- The pass over a script, given the function that makes state variables. -/
def Program.pass (p : Program) (source : Text) (o : Options) (primitive : Symbol) : Pass :=
  ⟨source, primitive, stateVariablesOf primitive p.body, o.hook⟩

/-- The patch that a migration records. -/
def Program.recordedPatch (p : Program) (source : Text) (o : Options) : Patch :=
  ((p.hookStates source o {}).1.requests.apply p (p.hookStates source o {}).1.patch).1

/-- A migration applies the patch that it records. -/
lemma Program.migrate_eq (p : Program) (source : Text) (o : Options) :
    p.migrate source o = (do
      let states ← (p.hookStates source o {}).2
      let code ← (p.recordedPatch source o).apply source
      return ⟨code, states, ((p.hookStates source o {}).1.requests.apply p
        (p.hookStates source o {}).1.patch).2⟩) := rfl

/-- A migration has the reports, the imports and the code of what is recorded. -/
lemma Program.migrate_eq_ok_iff {source : Text} {o : Options} {m : Migration} :
    p.migrate source o = .ok m ↔
      (p.hookStates source o {}).2 = .ok m.states ∧
        (p.recordedPatch source o).apply source = .ok m.code ∧
          ((p.hookStates source o {}).1.requests.apply p
            (p.hookStates source o {}).1.patch).2 = m.imports := by
  rw [migrate_eq, bind_eq_ok]
  simp only [bind_eq_ok]
  constructor
  · rintro ⟨states, hstates, code, hcode, hm⟩
    cases hm
    exact ⟨hstates, hcode, rfl⟩
  · rintro ⟨hstates, hcode, himports⟩
    refine ⟨m.states, hstates, m.code, hcode, ?_⟩
    rw [himports]
    rfl

/-- The state variables of a script are those that the imported function makes. -/
lemma Program.stateVariables_eq_ok_iff {o : Options} {states : List StateVariable} :
    p.stateVariables o = .ok states ↔
      ∃ found, p.findImported o.sourceModule o.primitive = .ok found ∧
        states = (found.elim [] fun i => stateVariablesOf i.symbol p.body) := by
  rw [stateVariables, bind_eq_ok]
  refine exists_congr fun found => and_congr_right fun _ => ?_
  cases found with
  | none => exact ⟨fun h => by cases h; rfl, fun h => by rw [h]; rfl⟩
  | some i => exact ⟨fun h => by cases h; rfl, fun h => by rw [h]; rfl⟩

/-- The ways in which moving the state variables to hooks can end. -/
inductive Program.Outcome (p : Program) (source : Text) (o : Options) :
    Progress × Except Failure (List HookedState) → Prop
  /-- What is imported cannot be told. -/
  | refused {d : Diagnostic} (h : p.findImported o.sourceModule o.primitive = .error d) :
      Outcome p source o ({}, .error (.diagnosed d))
  /-- There are no state variables. -/
  | untouched (h : p.stateVariables o = .ok []) : Outcome p source o ({}, .ok [])
  /-- The value of an assignment to a state is used. -/
  | chained {primitive : Symbol} {s : Span}
      (h : chainedIn? (p.pass source o primitive).states p.body = some s) :
      Outcome p source o (⟨⟨p.stateEdits (p.pass source o primitive).states o.hook⟩, {}⟩,
        .error (chainFailure source o s))
  /-- A state variable has no place. -/
  | misplaced {primitive : Symbol} {f : Failure}
      (h : (p.pass source o primitive).states.mapM (·.report source) = .error f) :
      Outcome p source o (⟨⟨p.stateEdits (p.pass source o primitive).states o.hook⟩, {}⟩, .error f)
  /-- All state variables are moved. -/
  | hooked {i : ImportedName} {hooked : List HookedState}
      (hfound : p.findImported o.sourceModule o.primitive = .ok (some i))
      (hne : (p.pass source o i.symbol).states ≠ [])
      (h : (p.pass source o i.symbol).states.mapM (·.report source) = .ok hooked) :
      Outcome p source o (⟨⟨p.stateEdits (p.pass source o i.symbol).states o.hook⟩,
        ({} : Requests).require o.targetModule o.hook⟩, .ok hooked)

/-- Moving the state variables to hooks ends in one of the ways. -/
lemma Program.hookStates_outcome (p : Program) (source : Text) (o : Options) :
    p.Outcome source o (p.hookStates source o {}) := by
  rw [hookStates]
  cases hstates : p.stateVariables o with
  | error d =>
      refine .refused ?_
      rw [stateVariables] at hstates
      cases hfound : p.findImported o.sourceModule o.primitive with
      | error d' =>
          rw [hfound] at hstates
          cases hstates
          rfl
      | ok found =>
          rw [hfound] at hstates
          cases found <;> cases hstates
  | ok states =>
      by_cases hne : states = []
      · subst hne
        exact .untouched hstates
      · obtain ⟨found, hfound, heq⟩ := stateVariables_eq_ok_iff.mp hstates
        cases found with
        | none => exact absurd heq hne
        | some i =>
            have hpass : states = (p.pass source o i.symbol).states := heq
            subst hpass
            split
            · next h => cases h
            · next h => exact absurd (Except.ok.inj h) hne
            · next _ states hempty h =>
                cases h
                split
                · next h _ => exact .chained h
                · next h => exact .hooked hfound hne h
                · next h => exact .misplaced h

/-! ### Soundness -/

/-- What is inside of the pieces of a script is sound, with an insertion where imports
are added. -/
lemma Program.areSound_insert (hp : p.IsLaidOut (Span.Fits r.source))
    {position : Nat} (hposition : p.TakesImports position) (text : Text) :
    AreSound r.source (p.pieces.flatMap (Tree.recorded r) ++ [⟨position, position, text⟩]) := by
  have hblocks : ∀ q ∈ p.pieces, (q.block r).IsSound r.source := fun q hq =>
    q.rewritten (keeps_isSound r (fun _ _ => True) fun _ => True) (isLaidOut_of_mem_pieces hp hq)
      (fun n _ => n.isOrderly_true) q q.mem_nodes_self
  have hsound : AreSound r.source (p.pieces.flatMap (Tree.recorded r)) := by
    have h : AreSound r.source ((p.pieces.map (Tree.block r)).flatMap (·.edits)) := by
      refine areSound_flatMap ?_ ?_
      · rwa [List.forall_mem_map]
      · rw [List.pairwise_map]
        exact pieces_apart hp
    rwa [List.flatMap_map] at h
  have hboundary := hposition.isBoundary hp fun _ h => h
  refine ⟨?_, ?_⟩
  · rw [List.forall_mem_append, List.forall_mem_singleton]
    exact ⟨hsound.fits, ⟨Nat.le_refl _, hboundary, hboundary⟩⟩
  · rw [List.pairwise_append]
    refine ⟨hsound.apart, List.pairwise_singleton _ _, fun e he f hf => ?_⟩
    rw [List.mem_singleton.mp hf]
    obtain ⟨q, hq, he⟩ := List.mem_flatMap.mp he
    exact (hposition.apart hp (fun _ h => h) hq).imp
      (fun h => Nat.le_trans ((hblocks q hq).stop e he) h)
      fun h => Nat.le_trans h ((hblocks q hq).start e he)

/-- The edits of a pass are sound, with the import of a hook or without. -/
lemma Program.areSound_pass {o : Options} (hp : p.IsLaidOut (Span.Fits source))
    (primitive : Symbol) (module name : Text) :
    AreSound source (p.stateEdits (p.pass source o primitive).states o.hook ++
      p.importInsertion module name) := by
  have h := areSound_insert (r := p.pass source o primitive) hp
    (p.importEdit_takesImports module [name]) (p.importEdit module [name]).2
  have hperm : (p.stateEdits (p.pass source o primitive).states o.hook).Perm
      (p.pieces.flatMap (Tree.recorded (p.pass source o primitive))) :=
    stateEdits_perm (r := p.pass source o primitive) rfl
  refine (h.of_sublist (List.Sublist.append (List.Sublist.refl _) ?_)).of_perm
    (hperm.symm.append_right _)
  rw [importInsertion]
  split_ifs
  · exact List.nil_sublist _
  · exact List.Sublist.refl _

/-- **Recorded edits are sound**: for every program that is laid out in a source, whatever it was
read by, all edits fit the source and no two of them overlap. -/
theorem Program.recordedPatch_isSound {o : Options} (hp : p.IsLaidOut (Span.Fits source)) :
    AreSound source (p.recordedPatch source o).edits := by
  have houtcome := p.hookStates_outcome source o
  rw [recordedPatch]
  generalize p.hookStates source o {} = outcome at houtcome
  cases houtcome with
  | refused h => exact AreSound.nil source
  | untouched h => exact AreSound.nil source
  | @chained primitive s h =>
      exact (areSound_pass hp primitive o.targetModule o.hook).of_sublist
        (List.sublist_append_left _ _)
  | @misplaced primitive f h =>
      exact (areSound_pass hp primitive o.targetModule o.hook).of_sublist
        (List.sublist_append_left _ _)
  | @hooked i hooked hfound hne h =>
      dsimp only
      rw [Requests.apply_require]
      exact areSound_pass hp i.symbol o.targetModule o.hook

end Script

end ComponentMigration
