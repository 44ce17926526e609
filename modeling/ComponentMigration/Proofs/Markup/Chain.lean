import ComponentMigration.Lowering.Tree
import ComponentMigration.Proofs.Success

/-!
Chains among siblings.

* **Branches.** A node `Carries` a directive by its name. `branchNames` are the names of
  the directives of a chain, the `openingNames` and the `continuingNames`.
* **Gaps.** `IsGap` nodes, comments and blank texts, may stand between two branches.
* **Rivals.** `HasOneBranch` says that a node is at most one branch of a chain. Accepted
  properties make it so (`hasOneBranch_of_ofProperties`), and then it does not matter
  whether a chain asks for the branch or the first branch (`continuation?_eq`).
* **Tails.** `chainTail` is what follows a `v-if` in its chain, and what is left behind
  the chain. `branches_spec` says that lowering finds the same members.
-/

namespace ComponentMigration.Markup

variable {α : Type}

/-! ### Branches and gaps -/

/-- The names of the directives that make an element a branch of a chain. -/
def branchNames : List Text := ["if", "else-if", "else"]

/-- The names of the directives that open a chain. -/
def openingNames : List Text := ["if"]

/-- The names of the directives that continue a chain. -/
def continuingNames : List Text := ["else-if", "else"]

/-- The directives of an element, in order. -/
def Element.directives (e : Element) : List Directive := e.properties.filterMap Property.directive?

/-- The directives of a node, in order. -/
def Node.directives : Node → List Directive
  | .element e _ => e.directives
  | _ => []

/-- A node has a directive with one of the names. -/
def Node.Carries (n : Node) (names : List Text) : Prop := ∃ d ∈ n.directives, d.name ∈ names

/-- A comment or a blank text. -/
def Node.IsGap : Node → Prop
  | .comment _ => True
  | .text l => Text.isBlankText l.content = true
  | _ => False

/-- A branch opens a chain or continues one. -/
lemma Node.carries_branchNames_iff (n : Node) :
    n.Carries branchNames ↔ n.Carries openingNames ∨ n.Carries continuingNames := by
  simp only [Carries, branchNames, openingNames, continuingNames, List.mem_cons,
    List.not_mem_nil, or_false, ← exists_or, ← and_or_left]

instance (n : Node) (names : List Text) : Decidable (n.Carries names) :=
  inferInstanceAs (Decidable (∃ d ∈ n.directives, d.name ∈ names))

instance : DecidablePred Node.IsGap
  | .comment _ => isTrue trivial
  | .text l => inferInstanceAs (Decidable (Text.isBlankText l.content = true))
  | .element _ _ => isFalse id
  | .interpolation _ => isFalse id

/-- A gap has no directives. -/
lemma Node.IsGap.directives_eq {n : Node} (h : n.IsGap) : n.directives = [] := by
  cases n with
  | element e children => exact h.elim
  | text l => rfl
  | comment l => rfl
  | interpolation l => rfl

/-- A gap carries nothing. -/
lemma Node.IsGap.not_carries {n : Node} (h : n.IsGap) (names : List Text) :
    ¬ n.Carries names := by
  rw [Carries, h.directives_eq]
  simp

/-- The first directive with one of the names is the first such among the directives. -/
lemma Element.findDirective_eq (e : Element) (names : List Text) :
    e.findDirective names = e.directives.find? (names.contains ·.name) := by
  rw [findDirective, directives]
  induction e.properties with
  | nil => rfl
  | cons p ps ih =>
      cases p with
      | plain a => simpa [Property.directive?] using ih
      | directive d =>
          by_cases h : d.name ∈ names
          · simp [Property.directive?, h]
          · simpa [Property.directive?, h] using ih

/-! ### Rivals -/

/-- At most one directive of a node makes it a branch of a chain. -/
def Node.HasOneBranch (n : Node) : Prop :=
  (n.directives.filter (branchNames.contains ·.name)).length ≤ 1

/-- The directive that makes a node a branch of a chain. -/
def Node.branch? (n : Node) : Option Directive := n.directives.find? (branchNames.contains ·.name)

/-- The names of the branches are those of the conditional controls. -/
lemma mem_branchNames_iff (name : Text) :
    name ∈ branchNames ↔ ∃ c, Control.ofName? name = some c ∧ c.isConditional = true := by
  simp only [branchNames, Control.ofName?, List.mem_cons, List.not_mem_nil, or_false]
  constructor
  · rintro (rfl | rfl | rfl)
    · exact ⟨.when, rfl, rfl⟩
    · exact ⟨.elseWhen, by decide, rfl⟩
    · exact ⟨.otherwise, by decide, rfl⟩
  · rintro ⟨c, hc, hb⟩
    split_ifs at hc with h1 h2 h3 h4
    · exact .inl h1
    · exact .inr (.inl h2)
    · exact .inr (.inr h3)
    · cases hc
      simp [Control.isConditional] at hb

/-- The names that continue a chain are those of the branches but for `v-if`. -/
lemma mem_continuingNames_iff (name : Text) :
    name ∈ continuingNames ↔ name ∈ branchNames ∧ Control.ofName? name ≠ some .when := by
  simp only [branchNames, continuingNames, List.mem_cons, List.not_mem_nil, or_false]
  constructor
  · rintro (rfl | rfl)
    · exact ⟨.inr (.inl rfl), by decide⟩
    · exact ⟨.inr (.inr rfl), by decide⟩
  · rintro ⟨rfl | h, hc⟩
    · exact absurd rfl hc
    · exact h

/-- A directive that does not control its element is no branch. -/
lemma Role.conditional?_of_ofBinding {d : Directive} {r : Role} (h : Role.ofBinding d = .ok r) :
    r.conditional? = none := by
  rw [Role.ofBinding] at h
  split_ifs at h
  · split at h
    · cases h
    · split_ifs at h
      cases h
      rfl
  · split at h
    · cases h
    · cases h
      rfl
  · cases h
    rfl
  · cases h
    rfl

/-- Of the branches only `v-if` opens a chain. -/
lemma ofName?_eq_when_iff (name : Text) :
    Control.ofName? name = some .when ↔ name = "if".toList := by
  rw [Control.ofName?]
  split_ifs with h
  · exact iff_of_true rfl h
  all_goals exact iff_of_false (by decide) h

/-- A role is a branch if its directive is one by its name. -/
lemma Role.conditional?_of_ofProperty {p : Property} {r : Role} (h : Role.ofProperty p = .ok r) :
    r.conditional? = p.directive?.filter (branchNames.contains ·.name) := by
  cases p with
  | plain a =>
      cases h
      rfl
  | directive d =>
      rw [Role.ofProperty] at h
      rw [Property.directive?, Option.filter_some]
      cases hc : Control.ofName? d.name with
      | some c =>
          have hm : d.name ∈ branchNames ↔ c.isConditional = true := by
            simp [mem_branchNames_iff, hc]
          rw [hc] at h
          cases h
          by_cases hb : c.isConditional = true <;> simp [Role.conditional?, hm, hb]
      | none =>
          have hm : d.name ∉ branchNames := by simp [mem_branchNames_iff, hc]
          rw [hc] at h
          simp [Role.conditional?_of_ofBinding h, hm]

/-- The roles that are branches are the directives that are branches by their names. -/
lemma Role.filterMap_conditional? {ps : List Property} {rs : List Role}
    (h : List.Forall₂ (fun p r => Role.ofProperty p = .ok r) ps rs) :
    rs.filterMap Role.conditional?
      = (ps.filterMap Property.directive?).filter (branchNames.contains ·.name) := by
  induction h with
  | nil => rfl
  | @cons p r ps rs hp _ ih =>
      have hr := Role.conditional?_of_ofProperty hp
      cases hd : p.directive? with
      | none => simp [hr, hd, ih]
      | some d =>
          rw [hd, Option.filter_some] at hr
          by_cases hb : d.name ∈ branchNames <;> simp_all

/-- Accepted properties have a role each. -/
lemma Role.forall₂_of_ofProperties {ps : List Property} {rs : List Role}
    (h : Role.ofProperties ps = .ok rs) :
    List.Forall₂ (fun p r => Role.ofProperty p = .ok r) ps rs := by
  rw [Role.ofProperties, bind_eq_ok] at h
  obtain ⟨roles, hr, h⟩ := h
  split at h
  · cases h
  · cases h
    exact mapM_eq_ok.mp hr

/-- Accepted properties hold at most one branch of a chain. -/
lemma hasOneBranch_of_ofProperties {e : Element} {children : List Node} {rs : List Role}
    (h : Role.ofProperties e.properties = .ok rs) : (Node.element e children).HasOneBranch := by
  have heq := Role.filterMap_conditional? (Role.forall₂_of_ofProperties h)
  rw [Node.HasOneBranch, Node.directives, Element.directives, ← heq]
  rw [Role.ofProperties, bind_eq_ok] at h
  obtain ⟨roles, -, h⟩ := h
  split at h
  · cases h
  · next hc =>
      cases h
      rcases hr : rs.filterMap Role.conditional? with _ | ⟨first, _ | ⟨second, others⟩⟩
      · simp
      · simp
      · exact absurd hr (hc first second others)

namespace Node

/-- A branch of a node with at most one is its only branch. -/
lemma HasOneBranch.branch?_eq {n : Node} (h : n.HasOneBranch) {d : Directive}
    (hd : d ∈ n.directives) (hname : d.name ∈ branchNames) : n.branch? = some d := by
  have hm : d ∈ n.directives.filter (branchNames.contains ·.name) :=
    List.mem_filter.mpr ⟨hd, by simpa using hname⟩
  obtain ⟨d', hs⟩ :=
    List.length_eq_one_iff.mp (Nat.le_antisymm h (List.length_pos_of_mem hm))
  rw [hs, List.mem_singleton] at hm
  rw [branch?, ← List.head?_filter, hs, hm, List.head?_cons]

/-- A node with at most one branch carries a name of a branch if that branch has it. -/
lemma HasOneBranch.carries_iff {n : Node} (h : n.HasOneBranch) {names : List Text}
    (hn : ∀ name ∈ names, name ∈ branchNames) :
    n.Carries names ↔ ∃ d, n.branch? = some d ∧ d.name ∈ names := by
  constructor
  · rintro ⟨d, hd, hname⟩
    exact ⟨d, h.branch?_eq hd (hn _ hname), hname⟩
  · rintro ⟨d, hd, hname⟩
    exact ⟨d, List.mem_of_find?_eq_some hd, hname⟩

/-- The first directive of a node that continues a chain. -/
def continuing? (n : Node) : Option Directive :=
  n.directives.find? (continuingNames.contains ·.name)

/-- A node continues a chain if it carries a directive that does. -/
lemma continuing?_isSome (n : Node) : n.continuing?.isSome ↔ n.Carries continuingNames := by
  simp [continuing?, Carries]

/-- With at most one branch, what continues a chain is the branch. -/
lemma HasOneBranch.branch?_of_continuing? {n : Node} (h : n.HasOneBranch) {d : Directive}
    (hd : n.continuing? = some d) : n.branch? = some d := by
  have hname : d.name ∈ continuingNames := by simpa using List.find?_some hd
  exact h.branch?_eq (List.mem_of_find?_eq_some hd) ((mem_continuingNames_iff _).mp hname).1

end Node

/-- What lowering takes for the branch of a node, by its name. -/
lemma conditional?_eq (n : Node) :
    Lowering.conditional? n = n.branch?.bind fun d => (Control.ofName? d.name).map (·, d) := by
  cases n with
  | element e children => exact congrArg (Option.bind · _) (e.findDirective_eq branchNames)
  | text l => rfl
  | comment l => rfl
  | interpolation l => rfl

/-- A node is no branch, or opens a chain, or continues one. -/
lemma Node.HasOneBranch.cases {n : Node} (h : n.HasOneBranch) :
    (Lowering.conditional? n = none ∧ ¬ n.Carries branchNames) ∨
      (∃ d, Lowering.conditional? n = some (.when, d) ∧ n.branch? = some d ∧
        n.Carries openingNames ∧ ¬ n.Carries continuingNames) ∨
      (∃ c d, Lowering.conditional? n = some (c, d) ∧ c ≠ .when ∧ n.Carries continuingNames ∧
        ¬ n.Carries openingNames) := by
  -- The names of a chain are those that open it and those that continue it, and the first branch
  -- is the only one.
  have hopen : ∀ name ∈ openingNames, name ∈ branchNames := by decide
  have hcont : ∀ name ∈ continuingNames, name ∈ branchNames := by decide
  rw [conditional?_eq, h.carries_iff hopen, h.carries_iff hcont, h.carries_iff fun _ hm => hm]
  cases hd : n.branch? with
  | none => simp
  | some d =>
      have hname : d.name ∈ branchNames := by simpa using List.find?_some hd
      obtain ⟨c, hc, -⟩ := (mem_branchNames_iff _).mp hname
      by_cases hwhen : c = .when
      · subst hwhen
        have h1 := (ofName?_eq_when_iff d.name).mp hc
        exact .inr (.inl ⟨d, by simp [hc], rfl, ⟨d, rfl, by simp [openingNames, h1]⟩, by
          simp [mem_continuingNames_iff, hc]⟩)
      · have h1 : d.name ≠ "if".toList := fun h1 => hwhen <| by
          rw [(ofName?_eq_when_iff d.name).mpr h1] at hc
          exact (Option.some.inj hc).symm
        refine .inr (.inr ⟨c, d, by simp [hc], hwhen, ⟨d, rfl, ?_⟩, ?_⟩)
        · exact (mem_continuingNames_iff _).mpr ⟨hname, by simpa [hc] using hwhen⟩
        · simpa [openingNames] using h1

/-- With at most one branch, what continues a chain does not open one. -/
lemma Node.HasOneBranch.not_opening {n : Node} (h : n.HasOneBranch)
    (hc : n.Carries continuingNames) : ¬ n.Carries openingNames := by
  rcases h.cases with ⟨-, hn⟩ | ⟨-, -, -, -, hn⟩ | ⟨-, -, -, -, -, hn⟩
  · exact fun ho => hn (n.carries_branchNames_iff.mpr (.inl ho))
  · exact absurd hc hn
  · exact hn

/-- What lowering takes for the branch that continues a chain, by its name. -/
lemma Element.continuation?_eq (e : Element) (children : List Node) :
    e.continuation?.map (·.2) = (Node.element e children).continuing? := by
  have h : e.continuation?
      = (Node.element e children).continuing?.bind fun d => (Control.ofName? d.name).map (·, d) :=
    congrArg (Option.bind · _) (e.findDirective_eq continuingNames)
  rw [h]
  cases hd : (Node.element e children).continuing? with
  | none => rfl
  | some d =>
      have hname : d.name ∈ continuingNames := by simpa using List.find?_some hd
      obtain ⟨c, hc, -⟩ := (mem_branchNames_iff _).mp ((mem_continuingNames_iff _).mp hname).1
      simp [hc]

/-! ### Tails -/

/-- The siblings that continue a chain across gaps, and the siblings behind the last of
them. -/
def chainTail : List (Node × α) → List (Node × α) × List (Node × α)
  | [] => ([], [])
  | s :: rest =>
      if s.1.Carries continuingNames then (s :: (chainTail rest).1, (chainTail rest).2)
      else if s.1.IsGap ∧ (chainTail rest).1 ≠ [] then chainTail rest
      else ([], s :: rest)

/-- What is behind a chain does not continue it. -/
lemma chainTail_chainTail_snd (ss : List (Node × α)) : (chainTail (chainTail ss).2).1 = [] := by
  induction ss with
  | nil => rfl
  | cons s rest ih =>
      by_cases hc : s.1.Carries continuingNames
      · rw [chainTail, if_pos hc]
        exact ih
      · by_cases hg : s.1.IsGap ∧ (chainTail rest).1 ≠ []
        · rw [chainTail, if_neg hc, if_pos hg]
          exact ih
        · have h : chainTail (s :: rest) = ([], s :: rest) := by
            rw [chainTail, if_neg hc, if_neg hg]
          rw [h, h]

/-- What is behind a chain is an end of the siblings. -/
lemma chainTail_snd_suffix (ss : List (Node × α)) : (chainTail ss).2 <:+ ss := by
  induction ss with
  | nil => exact List.suffix_refl _
  | cons s rest ih =>
      rw [chainTail]
      split_ifs
      · exact ih.trans (List.suffix_cons s rest)
      · exact ih.trans (List.suffix_cons s rest)
      · exact List.suffix_refl _

/-- The tail of a chain is some of the siblings. -/
lemma chainTail_fst_sublist (ss : List (Node × α)) : (chainTail ss).1.Sublist ss := by
  induction ss with
  | nil => exact List.Sublist.refl _
  | cons s rest ih =>
      rw [chainTail]
      split_ifs
      · exact ih.cons_cons s
      · exact ih.cons s
      · exact List.nil_sublist _

/-- What is neither in the tail of a chain nor behind it is a gap. -/
lemma mem_chainTail_or {ss : List (Node × α)} {s : Node × α} (h : s ∈ ss) :
    s ∈ (chainTail ss).1 ∨ s ∈ (chainTail ss).2 ∨ s.1.IsGap := by
  induction ss with
  | nil => simp at h
  | cons t rest ih =>
      rw [chainTail]
      split_ifs with hc hg
      · rcases List.mem_cons.mp h with rfl | h
        · exact .inl List.mem_cons_self
        · exact (ih h).imp_left (List.mem_cons_of_mem t)
      · rcases List.mem_cons.mp h with rfl | h
        · exact .inr (.inr hg.1)
        · exact ih h
      · exact .inr (.inl h)

/-- Siblings by induction: what holds of the siblings behind the first, and of those behind
its chain, holds with the first in front. -/
@[elab_as_elim]
theorem chainTail_ind {P : List (Node × α) → Prop} (nil : P [])
    (cons : ∀ s rest, P rest → P (chainTail rest).2 → P (s :: rest)) (ss : List (Node × α)) :
    P ss := by
  induction hlen : ss.length using Nat.strongRecOn generalizing ss with
  | _ n ih =>
      cases ss with
      | nil => exact nil
      | cons s rest =>
          have hle := (chainTail_snd_suffix rest).length_le
          rw [List.length_cons] at hlen
          exact cons s rest (ih _ (by omega) rest rfl) (ih _ (by omega) _ rfl)

/-- Siblings that agree in their nodes have tails that agree. -/
lemma chainTail_forall₂ {β : Type} {R : Node × α → Node × β → Prop} {ss : List (Node × α)}
    {ms : List (Node × β)} (hR : ∀ s m, R s m → s.1 = m.1) (h : List.Forall₂ R ss ms) :
    List.Forall₂ R (chainTail ss).1 (chainTail ms).1
      ∧ List.Forall₂ R (chainTail ss).2 (chainTail ms).2 := by
  induction h with
  | nil => exact ⟨.nil, .nil⟩
  | @cons s m ss ms hs hss ih =>
      have hnil : (chainTail ss).1 ≠ [] ↔ (chainTail ms).1 ≠ [] := by
        rw [← List.length_pos_iff, ← List.length_pos_iff, ih.1.length_eq]
      simp only [chainTail, hR s m hs, hnil]
      split_ifs
      · exact ⟨.cons hs ih.1, ih.2⟩
      · exact ih
      · exact ⟨.nil, .cons hs hss⟩

open Lowering (Sibling Branch branches nextBranch?)

/-- A branch that lowering found for a sibling that continues a chain. -/
def IsBranchOf (s : Sibling) (b : Branch) : Prop :=
  s.1.continuing? = some b.directive ∧ s.2 = b.node

/-- A gap is passed on the way to the next branch. -/
lemma nextBranch?_of_gap {s : Sibling} (h : s.1.IsGap) (rest : List Sibling) :
    nextBranch? (s :: rest) = nextBranch? rest := by
  obtain ⟨n, r⟩ := s
  cases n with
  | element e children => exact h.elim
  | text l => exact if_pos h
  | comment l => rw [nextBranch?]
  | interpolation l => exact h.elim

/-- What is no gap is the next branch or none. -/
lemma nextBranch?_of_not_gap {s : Sibling} (h : ¬ s.1.IsGap) (rest : List Sibling) :
    nextBranch? (s :: rest) = s.1.continuing?.map fun d => (⟨d, s.2⟩, rest) := by
  obtain ⟨n, r⟩ := s
  cases n with
  | element e children =>
      rw [nextBranch?, ← e.continuation?_eq children, Option.map_map]
      rfl
  | text l => exact if_neg h
  | comment l => exact absurd trivial h
  | interpolation l => rfl

/-- The branches are the next one and those behind it. -/
lemma branches_of_nextBranch? {ss rest : List Sibling} {b : Branch}
    (h : nextBranch? ss = some (b, rest)) :
    branches ss = (b :: (branches rest).1, (branches rest).2) := by
  rw [branches]
  split
  · next h' => simp [h] at h'
  · next b' rest' h' =>
      rw [h] at h'
      cases h'
      rfl

/-- Without a next branch there are none. -/
lemma branches_of_nextBranch?_none {ss : List Sibling} (h : nextBranch? ss = none) :
    branches ss = ([], ss) := by
  rw [branches]
  split
  · rfl
  · next h' => simp [h] at h'

/-- Lowering finds the tail of a chain. -/
lemma branches_spec (ss : List Sibling) :
    List.Forall₂ IsBranchOf (chainTail ss).1 (branches ss).1
      ∧ (branches ss).2 = (chainTail ss).2 := by
  induction ss with
  | nil => rw [branches_of_nextBranch?_none rfl]; exact ⟨.nil, rfl⟩
  | cons s rest ih =>
      -- The next sibling is a branch, a gap, or the end of the chain.
      by_cases hc : s.1.Carries continuingNames
      · have hg : ¬ s.1.IsGap := fun hg => hg.not_carries _ hc
        obtain ⟨d, hd⟩ := Option.isSome_iff_exists.mp ((Node.continuing?_isSome _).mpr hc)
        have hb : nextBranch? (s :: rest) = some (⟨d, s.2⟩, rest) := by
          rw [nextBranch?_of_not_gap hg, hd]
          rfl
        rw [chainTail, if_pos hc, branches_of_nextBranch? hb]
        exact ⟨.cons ⟨hd, rfl⟩ ih.1, ih.2⟩
      · by_cases hg : s.1.IsGap
        · cases hb : nextBranch? rest with
          -- With no further branch behind it the gap is not part of the chain.
          | none =>
              have hnil : (chainTail rest).1 = [] := by
                have h := ih.1
                rw [branches_of_nextBranch?_none hb] at h
                exact List.forall₂_nil_right_iff.mp h
              rw [chainTail, if_neg hc, if_neg (by simp [hnil]),
                branches_of_nextBranch?_none (by rw [nextBranch?_of_gap hg, hb])]
              exact ⟨.nil, rfl⟩
          | some p =>
              have heq := branches_of_nextBranch? (show nextBranch? rest = some (p.1, p.2) from hb)
              have hne : (chainTail rest).1 ≠ [] := by
                intro hnil
                have h := ih.1
                rw [hnil, heq] at h
                cases h
              have hb' : nextBranch? (s :: rest) = some (p.1, p.2) := by
                rw [nextBranch?_of_gap hg, hb]
              rw [chainTail, if_neg hc, if_pos ⟨hg, hne⟩, branches_of_nextBranch? hb', ← heq]
              exact ih
        · have hn : s.1.continuing? = none := by
            rw [← Option.not_isSome_iff_eq_none, Node.continuing?_isSome]
            exact hc
          rw [chainTail, if_neg hc, if_neg (fun h => hg h.1),
            branches_of_nextBranch?_none (by rw [nextBranch?_of_not_gap hg, hn]; rfl)]
          exact ⟨.nil, rfl⟩

/-- What holds of the branches of all siblings holds of the branches that are found. -/
lemma forall_mem_branches {P : Branch → Prop} {ss : List Sibling}
    (h : ∀ s ∈ ss, ∀ b, IsBranchOf s b → P b) : ∀ b ∈ (branches ss).1, P b := by
  have hmembers : ∀ s ∈ (chainTail ss).1, ∀ b, IsBranchOf s b → P b := fun s hs =>
    h s ((chainTail_fst_sublist ss).subset hs)
  have hbranches := (branches_spec ss).1
  generalize (chainTail ss).1 = members at hmembers hbranches
  generalize (branches ss).1 = bs at hbranches
  induction hbranches with
  | nil => simp
  | cons hb _ ih =>
      obtain ⟨hs, hss⟩ := List.forall_mem_cons.mp hmembers
      exact List.forall_mem_cons.mpr ⟨hs _ hb, ih hss⟩

end ComponentMigration.Markup
