import ComponentMigration.Proofs.Markup.Chain
import ComponentMigration.Proofs.Text.Blank

/-!
Which markup is lowered.

* **The rule.** `IsAccepted` says of a forest, at every depth, what lowering asks of it:
  of a node in its place among its siblings (`AcceptsAt`), and of an element by itself
  (`AcceptsElement`).
* **Chains.** `IsReached` is what allows a continuing branch, and `NeedsCondition` tells
  which branches have a condition that is read. `succeeds_assemble_iff` joins siblings
  exactly if both are in order.
* **Main statement.** `succeeds_root_iff`: lowering succeeds exactly on accepted forests.
-/

namespace ComponentMigration.Lowering

open Markup

/-! ### The rule -/

/-- A text that begins with an expression. -/
def IsExpression (text : Text) : Prop := Succeeds (Snippet.read text)

/-- A sibling with `v-if` stands before, and only gaps and continuing branches since. -/
def IsReached (before : List Node) : Prop :=
  ∃ earlier head between, before = earlier ++ head :: between ∧ head.Carries openingNames ∧
    ∀ m ∈ between, m.IsGap ∨ m.Carries continuingNames

/-- Only gaps stand before the next continuing branch. -/
def HasNext (after : List Node) : Prop :=
  ∃ gaps next rest, after = gaps ++ next :: rest ∧ (∀ m ∈ gaps, m.IsGap) ∧
    next.Carries continuingNames

/-- A branch that is not the last of its chain, or a lone `v-if`. -/
def NeedsCondition (n : Node) (after : List Node) : Prop :=
  n.Carries branchNames ∧ HasNext after ∨ n.Carries openingNames ∧ ¬ HasNext after

/-- The condition of a branch is an expression; a missing one counts as empty. -/
def HasCondition (n : Node) : Prop :=
  ∀ d, n.branch? = some d → IsExpression (d.expression.getD [])

/-- What a model binds, and the assignment to it. -/
def AcceptsModel (d : Directive) : Prop :=
  let value := d.expression.getD []
  IsExpression value ∧
    IsExpression (Text.trim value ++ " = " ++ modelParameter (modelName d) (Text.trim value))

/-- A loop over at most a value and a key, whose source is an expression and no number. -/
def AcceptsLoop (d : Directive) : Prop :=
  ∃ b, d.binding = some b ∧ b.index = none ∧ IsExpression b.source ∧ isNumber b.source = false

/-- The value of a directive that becomes a property is an expression. -/
structure AcceptsValue (d : Directive) : Prop where
  bind : d.name = "bind".toList → ∀ argument, d.argument = some argument →
    IsExpression (d.expression.getD (Naming.camelize argument))
  listen : d.name = "on".toList → IsExpression (d.expression.getD [])
  model : d.name = "model".toList → AcceptsModel d

/-- What is asked of an element by itself. -/
structure AcceptsElement (e : Element) : Prop where
  roles : Succeeds (Role.ofProperties e.properties)
  loop : ∀ d, e.loop? = some d → AcceptsLoop d
  values : ∀ d ∈ e.directives, AcceptsValue d

/-- What is asked of a node between its siblings. -/
structure AcceptsAt (before : List Node) (n : Node) (after : List Node) : Prop where
  translated : ∀ l, n ≠ .interpolation l
  element : ∀ e children, n = .element e children → AcceptsElement e
  reached : n.Carries continuingNames → IsReached before
  condition : NeedsCondition n after → HasCondition n

/-- What is asked of siblings, and of all that is inside them. -/
inductive IsAccepted : List Node → Prop
  | intro {nodes : List Node}
      (here : ∀ before n after, nodes = before ++ n :: after → AcceptsAt before n after)
      (inside : ∀ e children, .element e children ∈ nodes → IsAccepted children) :
      IsAccepted nodes

/-! ### Reached branches -/

/-- With no sibling in front no chain is open. -/
lemma isReached_nil : ¬ IsReached [] := by
  rintro ⟨earlier, head, between, h, -⟩
  simp at h

/-- One sibling more opens a chain, or keeps an open one open, or ends it. -/
lemma isReached_append_singleton (before : List Node) (n : Node) :
    IsReached (before ++ [n]) ↔
      n.Carries openingNames ∨ (n.IsGap ∨ n.Carries continuingNames) ∧ IsReached before := by
  constructor
  · rintro ⟨earlier, head, between, h, hhead, hbetween⟩
    -- The last sibling is the head of the chain, or one between the head and the place.
    rcases List.eq_nil_or_concat between with rfl | ⟨between, m, rfl⟩
    · obtain ⟨-, hn⟩ := List.append_inj' h rfl
      cases hn
      exact .inl hhead
    · have h' : before ++ [n] = (earlier ++ head :: between) ++ [m] := by simpa using h
      obtain ⟨rfl, hn⟩ := List.append_inj' h' rfl
      cases hn
      exact .inr ⟨hbetween n (by simp),
        earlier, head, between, rfl, hhead, fun m hm => hbetween m (by simp [hm])⟩
  · rintro (h | ⟨h, earlier, head, between, rfl, hhead, hbetween⟩)
    · exact ⟨before, n, [], rfl, h, by simp⟩
    · refine ⟨earlier, head, between ++ [n], by simp, hhead, fun m hm => ?_⟩
      rcases List.mem_append.mp hm with hm | hm
      · exact hbetween m hm
      · rw [List.mem_singleton.mp hm]
        exact h

/-- With no sibling behind there is no next branch. -/
lemma hasNext_nil : ¬ HasNext [] := by
  rintro ⟨gaps, next, rest, h, -⟩
  simp at h

/-- The next branch is the next sibling, or behind a gap. -/
lemma hasNext_cons (n : Node) (ns : List Node) :
    HasNext (n :: ns) ↔ n.Carries continuingNames ∨ n.IsGap ∧ HasNext ns := by
  constructor
  · rintro ⟨gaps, next, rest, h, hgaps, hnext⟩
    cases gaps with
    | nil =>
        cases h
        exact .inl hnext
    | cons g gaps =>
        cases h
        exact .inr ⟨hgaps n (by simp), gaps, next, rest, rfl, fun m hm => hgaps m (by simp [hm]),
          hnext⟩
  · rintro (h | ⟨h, gaps, next, rest, rfl, hgaps, hnext⟩)
    · exact ⟨[], n, ns, rfl, by simp, h⟩
    · exact ⟨n :: gaps, next, rest, rfl, by simpa [h] using hgaps, hnext⟩

/-- Another branch follows exactly if the tail of the chain is not empty. -/
lemma hasNext_iff_chainTail (ss : List Sibling) :
    HasNext (ss.map (·.1)) ↔ (chainTail ss).1 ≠ [] := by
  induction ss with
  | nil => simp [chainTail, hasNext_nil]
  | cons s rest ih =>
      rw [List.map_cons, hasNext_cons, ih, chainTail]
      split_ifs with hc hg
      · simp [hc]
      · simp [hc, hg]
      · simp [hc, hg]

/-! ### Siblings -/

/-- Chains are in order, given whether one is open in front of the siblings. -/
def Linked (isOpen : Prop) : List Node → Prop
  | [] => True
  | n :: ns =>
      (n.Carries continuingNames → isOpen) ∧ (NeedsCondition n ns → HasCondition n) ∧
        Linked (n.Carries openingNames ∨ (n.IsGap ∨ n.Carries continuingNames) ∧ isOpen) ns

/-- Chains are in order if they are at every place. -/
lemma linked_iff (before ns : List Node) :
    Linked (IsReached before) ns ↔ ∀ earlier n after, ns = earlier ++ n :: after →
      (n.Carries continuingNames → IsReached (before ++ earlier)) ∧
        (NeedsCondition n after → HasCondition n) := by
  induction ns generalizing before with
  | nil => simp [Linked]
  | cons n ns ih =>
      rw [Linked, ← isReached_append_singleton, ih]
      constructor
      -- The siblings in front move from the list to what is in front of it.
      · rintro ⟨hr, hc, h⟩ earlier m after heq
        cases earlier with
        | nil =>
            cases heq
            rw [List.append_nil]
            exact ⟨hr, hc⟩
        | cons e earlier =>
            cases heq
            have h' := h earlier m after rfl
            rwa [List.append_assoc] at h'
      · intro h
        refine ⟨by simpa using (h [] n ns rfl).1, (h [] n ns rfl).2, ?_⟩
        rintro earlier m after rfl
        have h' := h (n :: earlier) m after rfl
        rwa [← List.singleton_append, ← List.append_assoc] at h'

/-- A continuing branch has its condition read if another follows. -/
lemma needsCondition_of_continuing {n : Node} (after : List Node) (h : n.Carries continuingNames)
    (h' : ¬ n.Carries openingNames) : NeedsCondition n after ↔ HasNext after := by
  simp [NeedsCondition, n.carries_branchNames_iff, h, h']

/-- The condition of a `v-if` is always read. -/
lemma needsCondition_of_opening {n : Node} (after : List Node) (h : n.Carries openingNames) :
    NeedsCondition n after := by
  simp [NeedsCondition, n.carries_branchNames_iff, h, em]

/-- A node that is no branch has no condition. -/
lemma not_needsCondition {n : Node} (after : List Node) (h : ¬ n.Carries branchNames) :
    ¬ NeedsCondition n after := by
  rw [n.carries_branchNames_iff, not_or] at h
  simp [NeedsCondition, n.carries_branchNames_iff, h]

/-- A node that is no branch leaves a chain open if it is a gap. -/
lemma linked_cons_of_not_branch {n : Node} (ns : List Node) (isOpen : Prop)
    (h : ¬ n.Carries branchNames) : Linked isOpen (n :: ns) ↔ Linked (n.IsGap ∧ isOpen) ns := by
  have hcondition := not_needsCondition ns h
  rw [n.carries_branchNames_iff, not_or] at h
  simp [Linked, hcondition, h]

/-- A `v-if` opens a chain, and its condition is read. -/
lemma linked_cons_of_opening {n : Node} (ns : List Node) (isOpen : Prop)
    (ho : n.Carries openingNames) (hc : ¬ n.Carries continuingNames) :
    Linked isOpen (n :: ns) ↔ HasCondition n ∧ Linked True ns := by
  simp [Linked, ho, hc, needsCondition_of_opening]

/-- All but the last of a list with one more in front. -/
lemma forall_mem_dropLast_cons {α : Type} {P : α → Prop} (a : α) (l : List α) :
    (∀ x ∈ (a :: l).dropLast, P x) ↔ (l ≠ [] → P a) ∧ ∀ x ∈ l.dropLast, P x := by
  cases l with
  | nil => simp
  | cons b l => simp

variable {ss : List Sibling}

/-- Siblings behind an open chain are in order if the chain goes on in order and what is
behind it is in order. -/
lemma linked_chainTail (hone : ∀ s ∈ ss, s.1.HasOneBranch)
    (hgap : ∀ s ∈ ss, s.1.IsGap → Succeeds s.2) :
    ((∀ s ∈ ss, Succeeds s.2) ∧ Linked True (ss.map (·.1))) ↔
      ((∀ s ∈ (chainTail ss).1, Succeeds s.2) ∧
          ∀ s ∈ (chainTail ss).1.dropLast, HasCondition s.1) ∧
        (∀ s ∈ (chainTail ss).2, Succeeds s.2) ∧ Linked True ((chainTail ss).2.map (·.1)) := by
  induction ss with
  | nil => simp [chainTail]
  | cons s rest ih =>
      have ih' := ih (fun t ht => hone t (by simp [ht])) fun t ht => hgap t (by simp [ht])
      rw [List.map_cons, chainTail]
      split_ifs with hc hg
      -- A branch that continues: the chain goes on with it, so it needs a condition if another
      -- one follows.
      · have hopen : ¬ s.1.Carries openingNames := (hone s (by simp)).not_opening hc
        have hlink : Linked True (s.1 :: rest.map (·.1)) ↔
            ((chainTail rest).1 ≠ [] → HasCondition s.1) ∧ Linked True (rest.map (·.1)) := by
          simp [Linked, hc, needsCondition_of_continuing _ hc hopen, hasNext_iff_chainTail]
        rw [hlink, List.forall_mem_cons, List.forall_mem_cons, forall_mem_dropLast_cons]
        constructor
        · rintro ⟨⟨h1, h2⟩, h3, h4⟩
          obtain ⟨⟨h5, h6⟩, h7⟩ := ih'.mp ⟨h2, h4⟩
          exact ⟨⟨⟨h1, h5⟩, h3, h6⟩, h7⟩
        · rintro ⟨⟨⟨h1, h5⟩, h3, h6⟩, h7⟩
          obtain ⟨h2, h4⟩ := ih'.mpr ⟨⟨h5, h6⟩, h7⟩
          exact ⟨⟨h1, h2⟩, h3, h4⟩
      -- A gap is left out, and asks for nothing.
      · have hlink : Linked True (s.1 :: rest.map (·.1)) ↔ Linked True (rest.map (·.1)) := by
          have hb : ¬ s.1.Carries branchNames := hg.1.not_carries _
          simp [Linked, hg.1, not_needsCondition _ hb]
        rw [hlink, List.forall_mem_cons, and_assoc, and_iff_right (hgap s (by simp) hg.1)]
        exact ih'
      · simp

/-! ### Chains -/

/-- A directive has a value that is read if its text is an expression. -/
lemma succeeds_snippet_iff (d : Directive) :
    Succeeds d.snippet ↔ IsExpression (d.expression.getD []) := by
  simp only [Succeeds, Directive.snippet, Directive.snippetOf, mapError_eq_ok, IsExpression]

/-- Of a chain with more than one branch all are lowered, and all conditions but the last
are read. -/
lemma succeeds_choice_iff (first : Branch) (others : List Branch) :
    Succeeds (choice first others) ↔
      (∀ b ∈ first :: others, Succeeds b.node) ∧
        ∀ b ∈ (first :: others).dropLast, Succeeds b.directive.snippet := by
  induction others generalizing first with
  | nil =>
      rw [choice, succeeds_bind_of_forall fun _ => succeeds_pure _]
      simp
  | cons next others ih =>
      rw [List.forall_mem_cons, forall_mem_dropLast_cons, choice,
        succeeds_bind_and fun _ => succeeds_bind_and fun _ =>
          succeeds_bind_of_forall fun _ => succeeds_pure _, ih]
      constructor
      · rintro ⟨⟨h1, h2⟩, h3, h4⟩
        exact ⟨⟨h4, h1⟩, fun _ => h3, h2⟩
      · rintro ⟨⟨h4, h1⟩, h3, h2⟩
        exact ⟨⟨h1, h2⟩, h3 (by simp), h4⟩

/-- Of a chain all branches are lowered, and all conditions are read but the last of
several. -/
lemma succeeds_chain_iff (first : Branch) (others : List Branch) :
    Succeeds (chain first others) ↔
      Succeeds first.node ∧ Succeeds first.directive.snippet ∧
        (∀ b ∈ others, Succeeds b.node) ∧
          ∀ b ∈ others.dropLast, Succeeds b.directive.snippet := by
  cases others with
  | nil =>
      rw [chain, succeeds_bind_and fun _ => succeeds_bind_of_forall fun _ => succeeds_pure _]
      simp [and_comm]
  | cons next others =>
      rw [chain, succeeds_bind_of_forall fun _ => succeeds_pure _, succeeds_choice_iff,
        List.forall_mem_cons, forall_mem_dropLast_cons]
      simp only [ne_eq, reduceCtorEq, not_false_eq_true, true_implies]
      exact ⟨fun ⟨⟨h1, h2⟩, h3, h4⟩ => ⟨h1, h3, h2, h4⟩,
        fun ⟨h1, h3, h2, h4⟩ => ⟨⟨h1, h2⟩, h3, h4⟩⟩

/-- The branches that lowering found are lowered if the siblings are. -/
lemma succeeds_branches_iff {members : List Sibling} {bs : List Branch}
    (h : List.Forall₂ IsBranchOf members bs) :
    (∀ b ∈ bs, Succeeds b.node) ↔ ∀ s ∈ members, Succeeds s.2 := by
  induction h with
  | nil => simp
  | cons hb _ ih => rw [List.forall_mem_cons, List.forall_mem_cons, ih, hb.2]

/-- The conditions of the branches that lowering found are those of the siblings. -/
lemma succeeds_conditions_iff {members : List Sibling} {bs : List Branch}
    (h : List.Forall₂ IsBranchOf members bs) (hone : ∀ s ∈ members, s.1.HasOneBranch) :
    (∀ b ∈ bs.dropLast, Succeeds b.directive.snippet) ↔
      ∀ s ∈ members.dropLast, HasCondition s.1 := by
  induction h with
  | nil => simp
  | @cons s b members bs hb hbs ih =>
      rw [List.forall_mem_cons] at hone
      have hbranch := hone.1.branch?_of_continuing? hb.1
      have hcond : Succeeds b.directive.snippet ↔ HasCondition s.1 := by
        rw [succeeds_snippet_iff, HasCondition, hbranch]
        simp
      have hnil : bs ≠ [] ↔ members ≠ [] := by
        cases hbs <;> simp
      rw [forall_mem_dropLast_cons, forall_mem_dropLast_cons, ih hone.2, hcond, hnil]

/-! ### Joined siblings -/

/-- Siblings are assembled by what stands first. -/
lemma assemble_cons (s : Sibling) (rest : List Sibling) :
    assemble (s :: rest) = match conditional? s.1 with
      | none => do
          let first ← s.2
          let others ← assemble rest
          return first :: others
      | some (.when, d) => do
          let first ← chain ⟨d, s.2⟩ (branches rest).1
          let others ← assemble (branches rest).2
          return first :: others
      | some (_, d) => .error (.atSource (.orphanBranch d.name) s.1.location s.1.source) := by
  obtain ⟨n, r⟩ := s
  exact assemble.eq_def ((n, r) :: rest)

/-- Behind a sibling that is no branch the others are joined. -/
lemma succeeds_assemble_of_none {s : Sibling} {rest : List Sibling}
    (h : conditional? s.1 = none) :
    Succeeds (assemble (s :: rest)) ↔ Succeeds s.2 ∧ Succeeds (assemble rest) := by
  rw [assemble_cons, h]
  exact succeeds_bind_and fun _ => succeeds_bind_of_forall fun _ => succeeds_pure _

/-- Behind a `v-if` its chain is joined, and then what is behind the chain. -/
lemma succeeds_assemble_of_when {s : Sibling} {rest : List Sibling} {d : Directive}
    (h : conditional? s.1 = some (.when, d)) :
    Succeeds (assemble (s :: rest)) ↔
      (Succeeds s.2 ∧ Succeeds d.snippet ∧ (∀ t ∈ (chainTail rest).1, Succeeds t.2) ∧
        ∀ b ∈ (branches rest).1.dropLast, Succeeds b.directive.snippet) ∧
      Succeeds (assemble (chainTail rest).2) := by
  obtain ⟨hbs, hbehind⟩ := branches_spec rest
  rw [assemble_cons, h]
  dsimp only
  rw [succeeds_bind_and fun _ => succeeds_bind_of_forall fun _ => succeeds_pure _,
    succeeds_chain_iff, hbehind, succeeds_branches_iff hbs]

/-- Nothing is joined behind a branch that continues no chain. -/
lemma not_succeeds_assemble {s : Sibling} {c : Control} {d : Directive} (rest : List Sibling)
    (h : conditional? s.1 = some (c, d)) (hc : c ≠ .when) : ¬ Succeeds (assemble (s :: rest)) := by
  rw [assemble_cons, h]
  cases c with
  | when => exact absurd rfl hc
  | elseWhen => exact not_succeeds_error _
  | otherwise => exact not_succeeds_error _
  | each => exact not_succeeds_error _

/-- Siblings that are joined are lowered, but for the gaps, which are not looked at. -/
lemma succeeds_of_assemble (h : Succeeds (assemble ss)) :
    ∀ s ∈ ss, s.1.IsGap ∨ Succeeds s.2 := by
  induction ss using chainTail_ind with
  | nil => simp
  | cons s rest ih ih' =>
      cases hs : conditional? s.1 with
      | none =>
          rw [succeeds_assemble_of_none hs] at h
          exact List.forall_mem_cons.mpr ⟨.inr h.1, ih h.2⟩
      | some branch =>
          obtain ⟨c, d⟩ := branch
          -- A chain that is open takes its branches with it; a branch that continues has no
          -- chain to be in.
          by_cases hc : c = .when
          · subst hc
            rw [succeeds_assemble_of_when hs] at h
            refine List.forall_mem_cons.mpr ⟨.inr h.1.1, fun t ht => ?_⟩
            rcases mem_chainTail_or ht with ht | ht | ht
            · exact .inr (h.1.2.2.1 t ht)
            · exact ih' h.2 t ht
            · exact .inl ht
          · exact absurd h (not_succeeds_assemble rest hs hc)

/-- A chain and what is behind it are joined exactly if all are lowered and in order,
provided that holds of what is behind it. -/
lemma succeeds_assemble_chain_iff {s : Sibling} {rest : List Sibling} {d : Directive}
    (hone : ∀ t ∈ rest, t.1.HasOneBranch) (hgap : ∀ t ∈ rest, t.1.IsGap → Succeeds t.2)
    (hs : conditional? s.1 = some (.when, d)) (hd : s.1.branch? = some d)
    (hbehind : Succeeds (assemble (chainTail rest).2) ↔
      (∀ t ∈ (chainTail rest).2, Succeeds t.2) ∧ Linked True ((chainTail rest).2.map (·.1))) :
    Succeeds (assemble (s :: rest)) ↔
      (Succeeds s.2 ∧ ∀ t ∈ rest, Succeeds t.2) ∧
        HasCondition s.1 ∧ Linked True (rest.map (·.1)) := by
  have hmembers : ∀ t ∈ (chainTail rest).1, t.1.HasOneBranch := fun t ht =>
    hone t ((chainTail_fst_sublist rest).subset ht)
  have hcondition : Succeeds d.snippet ↔ HasCondition s.1 := by
    rw [succeeds_snippet_iff, HasCondition, hd]
    simp
  -- The branches are linked to each other, and what is behind them is linked by itself.
  have hlink := linked_chainTail hone hgap
  rw [succeeds_assemble_of_when hs, hbehind, hcondition,
    succeeds_conditions_iff (branches_spec rest).1 hmembers]
  constructor
  · rintro ⟨⟨hs, hcondition, hchain⟩, hrest⟩
    obtain ⟨hrest, hlinked⟩ := hlink.mpr ⟨hchain, hrest⟩
    exact ⟨⟨hs, hrest⟩, hcondition, hlinked⟩
  · rintro ⟨⟨hs, hrest⟩, hcondition, hlinked⟩
    obtain ⟨hchain, hrest⟩ := hlink.mp ⟨hrest, hlinked⟩
    exact ⟨⟨hs, hcondition, hchain⟩, hrest⟩

/-- Siblings are joined exactly if all are lowered and their chains are in order; no chain
is open in front of them that they would continue. -/
lemma succeeds_assemble_iff (hone : ∀ s ∈ ss, s.1.HasOneBranch)
    (hgap : ∀ s ∈ ss, s.1.IsGap → Succeeds s.2) (isOpen : Prop)
    (hopen : isOpen → ¬ HasNext (ss.map (·.1))) :
    Succeeds (assemble ss) ↔ (∀ s ∈ ss, Succeeds s.2) ∧ Linked isOpen (ss.map (·.1)) := by
  induction ss using chainTail_ind generalizing isOpen with
  | nil => simp [assemble, Linked]
  | cons s rest ih ih' =>
      rw [List.forall_mem_cons] at hone hgap
      rw [List.map_cons] at hopen ⊢
      rw [List.forall_mem_cons]
      -- The first sibling is no branch, opens a chain, or continues one.
      rcases hone.1.cases with ⟨hs, hb⟩ | ⟨d, hs, hd, ho, hn⟩ | ⟨c, d, hs, hc, hn, -⟩
      · have hrest := ih hone.2 hgap.2 (s.1.IsGap ∧ isOpen) fun h hnext =>
          hopen h.2 ((hasNext_cons _ _).mpr (.inr ⟨h.1, hnext⟩))
        rw [succeeds_assemble_of_none hs, hrest, linked_cons_of_not_branch _ _ hb, and_assoc]
      · have hsuffix := chainTail_snd_suffix rest
        -- Behind a chain no further branch can be, for the chain took all of them.
        have hbehind := ih' (fun t ht => hone.2 t (hsuffix.subset ht))
          (fun t ht => hgap.2 t (hsuffix.subset ht)) True
          fun _ h => (hasNext_iff_chainTail _).mp h (chainTail_chainTail_snd rest)
        rw [succeeds_assemble_chain_iff hone.2 hgap.2 hs hd hbehind,
          linked_cons_of_opening _ _ ho hn]
      -- A branch that continues was not taken by a chain in front, so no chain is open here.
      · have hclosed : ¬ isOpen := fun h => hopen h ((hasNext_cons _ _).mpr (.inl hn))
        exact iff_of_false (not_succeeds_assemble rest hs hc) fun h => hclosed (h.2.1 hn)

/-! ### Values -/

/-- A text is read as the value of a directive if it is an expression. -/
lemma succeeds_snippetOf_iff (d : Directive) (text : Text) :
    Succeeds (d.snippetOf text) ↔ IsExpression text := by
  simp only [Succeeds, Directive.snippetOf, mapError_eq_ok, IsExpression]

/-- The text of a snippet is what was read, without the blanks around it. -/
lemma code_of_read {text : Text} {s : Snippet} (h : Snippet.read text = .ok s) :
    s.code = Text.trim text := by
  rw [Snippet.read] at h
  split_ifs at h
  split at h
  · cases h
    rfl
  · cases h

/-- What goes on from the text of a snippet goes on from the trimmed text. -/
lemma succeeds_snippetOf_bind {α : Type} (d : Directive) {text : Text}
    {f : Snippet → Except Diagnostic α} {p : Prop}
    (hf : ∀ s : Snippet, s.code = Text.trim text → (Succeeds (f s) ↔ p)) :
    Succeeds (d.snippetOf text >>= f) ↔ IsExpression text ∧ p := by
  rw [succeeds_bind_iff]
  simp only [Directive.snippetOf, mapError_eq_ok]
  constructor
  · rintro ⟨s, hs, h⟩
    exact ⟨⟨s, hs⟩, (hf s (code_of_read hs)).mp h⟩
  · rintro ⟨⟨s, hs⟩, h⟩
    exact ⟨s, hs, (hf s (code_of_read hs)).mpr h⟩

/-- The properties of a model are lowered if its target can be assigned. -/
lemma succeeds_modelProperties_iff (d : Directive) :
    Succeeds (modelProperties d) ↔ AcceptsModel d := by
  refine succeeds_snippetOf_bind d fun s hs => ?_
  rw [succeeds_bind_of_forall fun _ => succeeds_pure _, succeeds_snippetOf_iff, hs]

/-- A number is one with or without the blanks around it. -/
lemma isNumber_trim (text : Text) : isNumber (Text.trim text) = isNumber text := by
  rw [isNumber, isNumber, Text.trim_trim]

/-- What a loop goes through is an expression, and no number. -/
lemma succeeds_loopSource_iff (d : Directive) (b : ForBinding) :
    Succeeds (loopSource d b) ↔ IsExpression b.source ∧ isNumber b.source = false := by
  refine succeeds_snippetOf_bind d fun s hs => ?_
  rw [hs, isNumber_trim]
  split_ifs with h <;> simp [h]

/-- A loop is lowered if its head and its body are. -/
lemma succeeds_loop_iff (d : Directive) (body : Except Diagnostic Jsx.Node) :
    Succeeds (loop d body) ↔ AcceptsLoop d ∧ Succeeds body := by
  rw [loop, AcceptsLoop]
  cases hb : d.binding with
  | none => simp
  | some b =>
      cases hi : b.index with
      | some index => simp [hi]
      | none =>
          dsimp only
          rw [hi, Option.isSome_none, if_neg (by decide),
            succeeds_bind_and fun _ => succeeds_bind_of_forall fun _ => succeeds_pure _,
            succeeds_loopSource_iff]
          simp [hi]

/-- Only bindings, listeners and models have a value that is checked. -/
lemma acceptsValue_of_other {d : Directive} (hb : d.name ≠ "bind".toList)
    (ho : d.name ≠ "on".toList) (hm : d.name ≠ "model".toList) : AcceptsValue d :=
  ⟨fun h => absurd h hb, fun h => absurd h ho, fun h => absurd h hm⟩

/-- Whether a binding, a listener or a model becomes properties depends on its value
alone. -/
lemma succeeds_propertiesOf_of_ofBinding {d : Directive} {r : Role}
    (h : Role.ofBinding d = .ok r) : Succeeds (propertiesOf r) ↔ AcceptsValue d := by
  have hne : ∀ {a b : Text}, a ≠ b → d.name = a → d.name ≠ b := fun hab ha hb =>
    hab (ha.symm.trans hb)
  -- The names of the bindings are different, so only the clause for the given one has something
  -- to say.
  rw [Role.ofBinding] at h
  split_ifs at h with _ _ hb ho hm hs
  · split at h
    · cases h
    · next argument ha =>
        split_ifs at h
        cases h
        rw [propertiesOf, succeeds_bind_of_forall fun _ => succeeds_pure _,
          succeeds_snippetOf_iff]
        refine ⟨fun he => ⟨fun _ _ h => ?_, fun h => absurd h (hne (by decide) hb),
          fun h => absurd h (hne (by decide) hb)⟩, fun hv => hv.bind hb argument ha⟩
        rw [ha] at h
        cases h
        exact he
  · split at h
    · cases h
    · cases h
      rw [propertiesOf, succeeds_bind_of_forall fun _ => succeeds_pure _, succeeds_snippet_iff]
      exact ⟨fun he => ⟨fun h => absurd h hb, fun _ => he, fun h => absurd h (hne (by decide) ho)⟩,
        fun hv => hv.listen ho⟩
  · cases h
    rw [propertiesOf, succeeds_modelProperties_iff]
    exact ⟨fun he => ⟨fun h => absurd h hb, fun h => absurd h ho, fun _ => he⟩,
      fun hv => hv.model hm⟩
  · cases h
    exact iff_of_true (succeeds_ok _) (acceptsValue_of_other hb ho hm)

/-- Whether a role becomes properties depends on the value of its directive alone. -/
lemma succeeds_propertiesOf_iff {p : Property} {r : Role} (h : Role.ofProperty p = .ok r) :
    Succeeds (propertiesOf r) ↔ ∀ d, p.directive? = some d → AcceptsValue d := by
  cases p with
  | plain a =>
      cases h
      exact iff_of_true (succeeds_ok _) (by simp [Property.directive?])
  | directive d =>
      simp only [Property.directive?, Option.some.injEq, forall_eq']
      rw [Role.ofProperty] at h
      split at h
      · next c hc =>
          cases h
          -- The directives of control flow are none of the three bindings.
          refine iff_of_true (succeeds_ok _) (acceptsValue_of_other ?_ ?_ ?_)
          all_goals
            intro hn
            rw [hn] at hc
            revert hc
            cases c <;> decide
      · exact succeeds_propertiesOf_of_ofBinding h

/-- The roles of all properties are lowered if the values of all directives are read. -/
lemma succeeds_mapM_propertiesOf_iff {ps : List Property} {rs : List Role}
    (h : List.Forall₂ (fun p r => Role.ofProperty p = .ok r) ps rs) :
    Succeeds (rs.mapM propertiesOf) ↔ ∀ d ∈ ps.filterMap Property.directive?, AcceptsValue d := by
  rw [succeeds_mapM_iff]
  induction h with
  | nil => simp
  | @cons p r ps rs hp _ ih =>
      rw [List.forall_mem_cons, succeeds_propertiesOf_iff hp, ih, List.filterMap_cons]
      cases p.directive? <;> simp

/-- The properties of an element are lowered if their roles are known and their values
are expressions. -/
lemma succeeds_properties_iff (e : Element) :
    Succeeds (properties e) ↔
      Succeeds (Role.ofProperties e.properties) ∧ ∀ d ∈ e.directives, AcceptsValue d := by
  have hroles : ∀ {roles}, Role.ofProperties e.properties = .ok roles →
      (Succeeds (roles.mapM propertiesOf) ↔ ∀ d ∈ e.directives, AcceptsValue d) :=
    fun h => succeeds_mapM_propertiesOf_iff (Role.forall₂_of_ofProperties h)
  rw [properties, succeeds_bind_iff]
  constructor
  · rintro ⟨roles, h, hp⟩
    rw [succeeds_bind_of_forall fun _ => succeeds_pure _] at hp
    exact ⟨⟨roles, h⟩, (hroles h).mp hp⟩
  · rintro ⟨⟨roles, h⟩, hv⟩
    refine ⟨roles, h, ?_⟩
    rw [succeeds_bind_of_forall fun _ => succeeds_pure _]
    exact (hroles h).mpr hv

/-! ### Elements -/

/-- The body of an element is lowered if its properties have roles that are lowered, and its
children are. -/
lemma succeeds_body_iff (e : Element) (children : List Sibling) :
    Succeeds (body e children) ↔ (Succeeds (Role.ofProperties e.properties) ∧
      ∀ d ∈ e.directives, AcceptsValue d) ∧ Succeeds (assemble children) := by
  rw [body, succeeds_bind_and fun _ => succeeds_bind_of_forall fun _ => succeeds_pure _,
    succeeds_properties_iff]

/-- An element is lowered if it is accepted by itself, and its children are lowered. -/
lemma succeeds_element_iff (e : Element) (children : List Sibling) :
    Succeeds (element e children) ↔ AcceptsElement e ∧ Succeeds (assemble children) := by
  have hloop : AcceptsElement e ↔ (∀ d, e.loop? = some d → AcceptsLoop d) ∧
      Succeeds (Role.ofProperties e.properties) ∧ ∀ d ∈ e.directives, AcceptsValue d :=
    ⟨fun h => ⟨h.loop, h.roles, h.values⟩, fun h => ⟨h.2.1, h.1, h.2.2⟩⟩
  rw [element, hloop]
  cases hl : e.loop? with
  | none =>
      dsimp only
      rw [succeeds_body_iff]
      simp
  | some d =>
      dsimp only
      rw [succeeds_loop_iff, succeeds_body_iff]
      simp [and_assoc]

/-! ### Forests -/

/-- The siblings come with what each of them is lowered to. -/
lemma siblings_eq_map (ns : List Node) : siblings ns = ns.map fun n => (n, node n) := by
  induction ns with
  | nil => rfl
  | cons n ns ih => rw [siblings, ih, List.map_cons]

/-- A gap is lowered. -/
lemma succeeds_node_of_isGap {n : Node} (h : n.IsGap) : Succeeds (node n) := by
  cases n with
  | element e children => exact h.elim
  | text l => exact succeeds_ok _
  | comment l => exact succeeds_ok _
  | interpolation l => exact h.elim

/-- A node that is lowered has accepted properties, so it is at most one branch. -/
lemma hasOneBranch_of_succeeds {n : Node} (h : Succeeds (node n)) : n.HasOneBranch := by
  cases n with
  | element e children =>
      rw [node, succeeds_element_iff] at h
      obtain ⟨roles, hr⟩ := h.1.roles
      exact hasOneBranch_of_ofProperties hr
  | text l => exact Nat.zero_le _
  | comment l => exact Nat.zero_le _
  | interpolation l => exact Nat.zero_le _

/-- What is asked of a node by itself, and of all that is inside it. -/
def IsAcceptedNode (n : Node) : Prop :=
  (∀ l, n ≠ .interpolation l) ∧
    ∀ e children, n = .element e children → AcceptsElement e ∧ IsAccepted children

/-- A forest is accepted if its nodes are and its chains are in order. -/
lemma isAccepted_iff (nodes : List Node) :
    IsAccepted nodes ↔ (∀ n ∈ nodes, IsAcceptedNode n) ∧ Linked False nodes := by
  have hlinked := linked_iff [] nodes
  rw [iff_false_intro isReached_nil] at hlinked
  rw [hlinked]
  constructor
  · rintro ⟨here, inside⟩
    refine ⟨fun n hn => ?_, fun earlier n after h => ?_⟩
    · obtain ⟨before, after, h⟩ := List.append_of_mem hn
      have hat := here before n after h
      exact ⟨hat.translated, fun e children he =>
        ⟨hat.element e children he, inside e children (he ▸ hn)⟩⟩
    · have hat := here earlier n after h
      exact ⟨hat.reached, hat.condition⟩
  · rintro ⟨hnodes, hlink⟩
    refine ⟨fun before n after h => ?_, fun e children hn => (hnodes _ hn).2 e children rfl |>.2⟩
    have hn := hnodes n (by simp [h])
    have hat := hlink before n after h
    exact ⟨hn.1, fun e children he => (hn.2 e children he).1, hat.1, hat.2⟩

/-- Siblings are joined exactly if they are accepted, provided each by itself is lowered
exactly if it is accepted. -/
lemma succeeds_assemble_siblings_iff {nodes : List Node}
    (h : ∀ n ∈ nodes, Succeeds (node n) ↔ IsAcceptedNode n) :
    Succeeds (assemble (siblings nodes)) ↔ IsAccepted nodes := by
  have hmap : (siblings nodes).map (·.1) = nodes := by
    rw [siblings_eq_map, List.map_map]
    exact List.map_id nodes
  have hall : (∀ s ∈ siblings nodes, Succeeds s.2) ↔ ∀ n ∈ nodes, IsAcceptedNode n := by
    rw [siblings_eq_map, List.forall_mem_map]
    exact forall₂_congr h
  have hgap : ∀ s ∈ siblings nodes, s.1.IsGap → Succeeds s.2 := by
    rw [siblings_eq_map, List.forall_mem_map]
    exact fun n _ => succeeds_node_of_isGap
  have hone : (∀ s ∈ siblings nodes, Succeeds s.2) →
      ∀ s ∈ siblings nodes, s.1.HasOneBranch := by
    rw [siblings_eq_map, List.forall_mem_map, List.forall_mem_map]
    exact fun hs n hn => hasOneBranch_of_succeeds (hs n hn)
  rw [isAccepted_iff, ← hall]
  constructor
  · intro ha
    -- A gap is lowered in any case, and what is no gap was assembled.
    have hs : ∀ s ∈ siblings nodes, Succeeds s.2 := fun s hs =>
      (succeeds_of_assemble ha s hs).elim (hgap s hs) id
    have h' := (succeeds_assemble_iff (hone hs) hgap False False.elim).mp ha
    rwa [hmap] at h'
  · rintro ⟨hs, hlink⟩
    exact (succeeds_assemble_iff (hone hs) hgap False False.elim).mpr ⟨hs, by rwa [hmap]⟩

/-- A node by itself is lowered exactly if it is accepted. -/
lemma succeeds_node_iff (n : Node) : Succeeds (node n) ↔ IsAcceptedNode n := by
  induction n using Node.ind with
  | element e children ih =>
      rw [node, succeeds_element_iff, succeeds_assemble_siblings_iff ih, IsAcceptedNode]
      simp
  | text l => exact iff_of_true (succeeds_ok _) ⟨by simp, by simp⟩
  | comment l => exact iff_of_true (succeeds_ok _) ⟨by simp, by simp⟩
  | interpolation l => exact iff_of_false (not_succeeds_error _) fun h => h.1 l rfl

/-- **Exact acceptance**: lowering succeeds exactly on the forests that are accepted at
every depth. -/
theorem succeeds_root_iff (nodes : List Node) : Succeeds (root nodes) ↔ IsAccepted nodes := by
  have h : Succeeds (root nodes) ↔ Succeeds (assemble (siblings nodes)) := by
    rw [root]
    refine succeeds_bind_of_forall fun children => ?_
    split <;> exact succeeds_pure _
  rw [h, succeeds_assemble_siblings_iff fun n _ => succeeds_node_iff n]

end ComponentMigration.Lowering
