import ComponentMigration.Proofs.Lowering.Acceptance

/-!
What markup shows, before and after lowering.

* **Interpretations.** An `Interpretation` decides every condition and counts the rounds of
  every loop; both may depend on the rounds of the loops around. A `Reading` is what is
  shown, given these rounds.
* **Output.** `Jsx.Node.shown` reads the output: `&&` and `?:` choose, `map` repeats, a
  fragment shows its children.
* **Markup.** `Markup.shown` reads siblings with their chains: of a chain it shows what
  `chosen` takes, and nothing of the gaps inside of it.
* **Main statement.** `root_shown`: lowering does not change what is shown.
-/

namespace ComponentMigration

/-! ### Interpretations -/

/-- The truth of every condition and the number of rounds of every loop, given the rounds
of the loops around, the outermost first. -/
structure Interpretation where
  holds : List Nat → Text → Bool
  count : List Nat → Text → Nat

/-- What there is to see. -/
inductive Shown where
  | element (tag : Text) (properties : List Jsx.Property) (contents : List Shown)
  | text (content : Text)
  | comment (content : Text)

/-- What is shown, given the rounds of the loops around. -/
abbrev Reading := List Nat → List Shown

namespace Interpretation

variable (I : Interpretation)

/-- One of two, by a condition. -/
def choose (condition : Text) (r r' : Reading) : Reading := fun k =>
  if I.holds k condition then r k else r' k

/-- Every round of a loop, one after the other. -/
def each (source : Text) (r : Reading) : Reading := fun k =>
  (List.range (I.count k source)).flatMap fun i => r (k ++ [i])

end Interpretation

/-! ### Reading the output -/

variable (I : Interpretation)

namespace Jsx

mutual

/-- What a node of the output shows. -/
def Node.shown : Node → Reading
  | .element tag properties children =>
      fun k => [.element tag properties (Node.shownAll children k)]
  | .fragment children => Node.shownAll children
  | .text content => fun _ => [.text content]
  | .expression e => e.shown

/-- What nodes of the output show. -/
def Node.shownAll : List Node → Reading
  | [] => fun _ => []
  | n :: ns => fun k => n.shown k ++ Node.shownAll ns k

/-- What an expression shows in markup position. -/
def Expr.shown : Expr → Reading
  | .logicalAnd (.snippet s) right => I.choose s.code right.shown fun _ => []
  | .conditional (.snippet s) consequent alternate =>
      I.choose s.code consequent.shown alternate.shown
  | .call (.member (.snippet s) method) [.arrow _ body] =>
      if method = "map".toList then I.each s.code body.shown else fun _ => []
  | .jsx n => n.shown
  | .comment content => fun _ => [.comment content]
  | _ => fun _ => []

end

end Jsx

/-! ### Reading the markup -/

namespace Markup

/-- The condition of a directive. -/
def Directive.condition (d : Directive) : Text := Text.trim (d.expression.getD [])

/-- The condition of the branch that a node is. -/
def Node.condition (n : Node) : Text := (n.branch?.map Directive.condition).getD []

/-- The properties that an element is lowered to. -/
def Element.lowered (e : Element) : List Jsx.Property :=
  match Lowering.properties e with
  | .ok properties => properties
  | .error _ => []

/-- An element around its contents; a container is only its contents. -/
def Element.around (e : Element) (contents : Reading) : Reading :=
  match e.kind with
  | .container => contents
  | .ordinary => fun k => [.element e.tag e.lowered (contents k)]

/-- An element in every round of its loop. -/
def Element.repeated (e : Element) (r : Reading) : Reading :=
  match e.loop?.bind (·.binding) with
  | some b => I.each (Text.trim b.source) r
  | none => r

/-- The branch that a chain shows: of several the first whose condition holds, but for the
last, which is the default. -/
def chosen (k : List Nat) (first : Node × Reading) (others : List (Node × Reading)) :
    Node × Reading :=
  ((first :: others).dropLast.find? fun m => I.holds k m.1.condition).getD
    ((first :: others).getLast (List.cons_ne_nil first others))

/-- What a chain shows. A chain of one branch shows it or nothing. -/
def chainShown (first : Node × Reading) (others : List (Node × Reading)) : Reading :=
  if others = [] then I.choose first.1.condition first.2 fun _ => []
  else fun k => (chosen I k first others).2 k

/-- What siblings show, given what each shows by itself. -/
def joined : List (Node × Reading) → Reading
  | [] => fun _ => []
  | m :: rest =>
      if m.1.Carries openingNames then fun k =>
        chainShown I m (chainTail rest).1 k ++ joined (chainTail rest).2 k
      else fun k => m.2 k ++ joined rest k
termination_by ms => ms.length
decreasing_by
  · have := (chainTail_snd_suffix rest).length_le
    simp only [List.length_cons]
    omega
  · simp

/-- No siblings show nothing. -/
@[simp] lemma joined_nil : joined I [] = fun _ => [] := by rw [joined]

mutual

/-- What a node shows by itself, whether or not it is a branch. -/
def Node.shown : Node → Reading
  | .element e children => e.repeated I (e.around (joined I (readings children)))
  | .text l => fun _ => [.text l.content]
  | .comment l => fun _ => [.comment l.content]
  | .interpolation _ => fun _ => []

/-- Siblings, each with what it shows by itself. -/
def readings : List Node → List (Node × Reading)
  | [] => []
  | n :: ns => (n, n.shown) :: readings ns

end

/-- What siblings show. -/
def shown (nodes : List Node) : Reading := joined I (readings I nodes)

end Markup

namespace Lowering

open Markup

/-! ### Snippets -/

/-- The text of a condition that is read. -/
lemma code_of_snippet {d : Directive} {s : Snippet} (h : d.snippet = .ok s) :
    s.code = d.condition := by
  rw [Directive.snippet, Directive.snippetOf, mapError_eq_ok] at h
  exact code_of_read h

/-- The text of a source that is read. -/
lemma code_of_loopSource {d : Directive} {b : ForBinding} {s : Snippet}
    (h : loopSource d b = .ok s) : s.code = Text.trim b.source := by
  rw [loopSource, bind_eq_ok] at h
  obtain ⟨s', hs, h⟩ := h
  rw [Directive.snippetOf, mapError_eq_ok] at hs
  split_ifs at h
  cases h
  exact code_of_read hs

/-- A node shows the same as an expression. -/
lemma shown_toExpr (n : Jsx.Node) : n.toExpr.shown I = n.shown I := by
  cases n with
  | element tag properties children => rfl
  | fragment children => rfl
  | text content => rfl
  | expression e => rfl

/-! ### Chains -/

/-- A branch is lowered to something that shows what the node shows. -/
structure Agrees (m : Node × Reading) (b : Branch) : Prop where
  condition : m.1.condition = b.directive.condition
  shown : ∀ out, b.node = .ok out → out.shown I = m.2

variable {I}

/-- Of two branches or more the first is chosen by its condition. -/
lemma chosen_cons (k : List Nat) (first next : Node × Reading) (others : List (Node × Reading)) :
    chosen I k first (next :: others)
      = if I.holds k first.1.condition then first else chosen I k next others := by
  rw [chosen, List.dropLast_cons_cons, List.find?_cons, List.getLast_cons_cons]
  cases I.holds k first.1.condition with
  | true => rfl
  | false => rfl

/-- Nested choices show what the chain does. -/
lemma choice_shown {m : Node × Reading} {ms : List (Node × Reading)} {b : Branch}
    {bs : List Branch} {e : Jsx.Expr} (hm : Agrees I m b) (hms : List.Forall₂ (Agrees I) ms bs)
    (h : choice b bs = .ok e) : e.shown I = fun k => (chosen I k m ms).2 k := by
  induction hms generalizing m b e with
  | nil =>
      rw [choice, bind_eq_ok] at h
      obtain ⟨out, hout, h⟩ := h
      cases h
      rw [shown_toExpr, hm.shown out hout]
      rfl
  | @cons next b' ms bs hnext _ ih =>
      simp only [choice, bind_eq_ok] at h
      obtain ⟨otherwise, ho, test, ht, out, hout, h⟩ := h
      cases h
      funext k
      rw [Jsx.Expr.shown, shown_toExpr, Interpretation.choose, hm.shown out hout, ih hnext ho,
        code_of_snippet ht, ← hm.condition, chosen_cons]
      split <;> rfl

/-- A chain shows one of its branches, or nothing. -/
lemma chain_shown {m : Node × Reading} {ms : List (Node × Reading)} {b : Branch}
    {bs : List Branch} {out : Jsx.Node} (hm : Agrees I m b)
    (hms : List.Forall₂ (Agrees I) ms bs) (h : chain b bs = .ok out) :
    out.shown I = chainShown I m ms := by
  cases hms with
  | nil =>
      simp only [chain, bind_eq_ok] at h
      obtain ⟨test, ht, out, hout, h⟩ := h
      cases h
      rw [Jsx.Node.shown, Jsx.Expr.shown, shown_toExpr, hm.shown out hout, code_of_snippet ht,
        ← hm.condition, chainShown, if_pos rfl]
  | @cons next b' ms bs hnext hms =>
      rw [chain, bind_eq_ok] at h
      obtain ⟨e, he, h⟩ := h
      cases h
      rw [Jsx.Node.shown, choice_shown hm (.cons hnext hms) he, chainShown, if_neg (by simp)]

/-! ### Joined siblings -/

/-- A sibling is lowered to something that shows what the node shows. -/
structure IsShown (I : Interpretation) (s : Sibling) (m : Node × Reading) : Prop where
  node : s.1 = m.1
  hasOneBranch : s.1.HasOneBranch
  shown : ∀ out, s.2 = .ok out → out.shown I = m.2

/-- A branch that lowering found shows what its sibling does. -/
lemma IsShown.agrees {s : Sibling} {m : Node × Reading} {b : Branch} (hm : IsShown I s m)
    (hb : IsBranchOf s b) : Agrees I m b := by
  have hbranch : m.1.branch? = some b.directive := by
    rw [← hm.node]
    exact hm.hasOneBranch.branch?_of_continuing? hb.1
  refine ⟨?_, fun out hout => hm.shown out (hb.2.trans hout)⟩
  rw [Node.condition, hbranch]
  rfl

/-- The branches that lowering found show what their siblings do. -/
lemma agrees_of_isShown {ss : List Sibling} {ms : List (Node × Reading)} {bs : List Branch}
    (hms : List.Forall₂ (IsShown I) ss ms) (hbs : List.Forall₂ IsBranchOf ss bs) :
    List.Forall₂ (Agrees I) ms bs := by
  induction hms generalizing bs with
  | nil =>
      cases hbs
      exact .nil
  | cons hm _ ih =>
      cases hbs with
      | cons hb hbs => exact .cons (hm.agrees hb) (ih hbs)

/-- Joined siblings show what the siblings do. -/
lemma assemble_shown {ss : List Sibling} {ms : List (Node × Reading)} {outs : List Jsx.Node}
    (hms : List.Forall₂ (IsShown I) ss ms) (h : assemble ss = .ok outs) :
    Jsx.Node.shownAll I outs = joined I ms := by
  induction ss using chainTail_ind generalizing ms outs with
  | nil =>
      cases hms
      rw [assemble] at h
      cases h
      rw [joined_nil]
      rfl
  | cons s rest ih ihchain =>
      cases hms with
      | @cons _ m _ ms hm hms =>
          rw [assemble_cons] at h
          rw [joined, ← hm.node]
          rcases hm.hasOneBranch.cases with ⟨hc, hb⟩ | ⟨d, hc, hd, ho, -⟩ | ⟨c, d, hc, hw, -⟩
          · have hopening : ¬ s.1.Carries openingNames := fun h =>
              hb (s.1.carries_branchNames_iff.mpr (.inl h))
            rw [hc] at h
            simp only [bind_eq_ok] at h
            obtain ⟨first, hfirst, others, hothers, h⟩ := h
            cases h
            rw [if_neg hopening, Jsx.Node.shownAll, hm.shown first hfirst, ih hms hothers]
          · obtain ⟨hbs, hbehind⟩ := branches_spec rest
            obtain ⟨htail, hrest⟩ := chainTail_forall₂ (fun _ _ hs => hs.node) hms
            have hfirst : Agrees I m ⟨d, s.2⟩ := by
              refine ⟨?_, hm.shown⟩
              rw [Node.condition, ← hm.node, hd]
              rfl
            rw [hc, hbehind] at h
            simp only [bind_eq_ok] at h
            obtain ⟨first, hchain, others, hothers, h⟩ := h
            cases h
            rw [if_pos ho, Jsx.Node.shownAll,
              chain_shown hfirst (agrees_of_isShown htail hbs) hchain, ihchain hrest hothers]
          · rw [hc] at h
            cases c with
            | when => exact absurd rfl hw
            | elseWhen => cases h
            | otherwise => cases h
            | each => cases h

/-! ### Elements -/

/-- A loop repeats what its body shows. -/
lemma loop_shown {e : Element} {d : Directive} (hd : e.loop? = some d)
    {body : Except Diagnostic Jsx.Node} {r : Reading} {out : Jsx.Node}
    (hbody : ∀ out, body = .ok out → out.shown I = r) (h : loop d body = .ok out) :
    out.shown I = e.repeated I r := by
  rw [loop] at h
  rw [Element.repeated, hd, Option.bind_some]
  cases hb : d.binding with
  | none =>
      rw [hb] at h
      cases h
  | some b =>
      rw [hb] at h
      dsimp only at h
      split_ifs at h
      simp only [bind_eq_ok] at h
      obtain ⟨source, hs, node, hn, h⟩ := h
      cases h
      rw [Jsx.Node.shown, Jsx.Expr.shown, if_pos rfl, shown_toExpr, hbody node hn,
        code_of_loopSource hs]

/-- An element without its loop shows what its children do, and a tag around it. -/
lemma body_shown {e : Element} {children : List Sibling} {r : Reading} {out : Jsx.Node}
    (hchildren : ∀ outs, assemble children = .ok outs → Jsx.Node.shownAll I outs = r)
    (h : body e children = .ok out) : out.shown I = e.around r := by
  simp only [body, bind_eq_ok] at h
  obtain ⟨properties, hp, inner, hi, h⟩ := h
  have hlowered : e.lowered = properties := by rw [Element.lowered, hp]
  rw [Element.around, ← hchildren inner hi, hlowered]
  cases hk : e.kind with
  | container =>
      rw [hk] at h
      cases h
      rfl
  | ordinary =>
      rw [hk] at h
      cases h
      rfl

/-- An element shows its body, in every round of its loop if it has one. -/
lemma element_shown {e : Element} {children : List Sibling} {r : Reading} {out : Jsx.Node}
    (hchildren : ∀ outs, assemble children = .ok outs → Jsx.Node.shownAll I outs = r)
    (h : element e children = .ok out) : out.shown I = e.repeated I (e.around r) := by
  rw [element] at h
  cases hd : e.loop? with
  | none =>
      rw [hd] at h
      rw [Element.repeated, hd, body_shown hchildren h]
      rfl
  | some d =>
      rw [hd] at h
      exact loop_shown hd (fun _ => body_shown hchildren) h

/-! ### Forests -/

lemma readings_eq_map (ns : List Node) : readings I ns = ns.map fun n => (n, n.shown I) := by
  induction ns with
  | nil => rfl
  | cons n ns ih => rw [readings, ih, List.map_cons]

/-- Siblings that are joined are at most one branch each. -/
lemma hasOneBranch_of_assemble {nodes : List Node} {outs : List Jsx.Node}
    (h : assemble (siblings nodes) = .ok outs) : ∀ n ∈ nodes, n.HasOneBranch := by
  have hs := succeeds_of_assemble ⟨outs, h⟩
  rw [siblings_eq_map, List.forall_mem_map] at hs
  intro n hn
  exact hasOneBranch_of_succeeds ((hs n hn).elim succeeds_node_of_isGap id)

/-- Joined siblings show what the nodes do, provided each by itself shows what its node
does. -/
lemma assemble_siblings_shown {nodes : List Node} {outs : List Jsx.Node}
    (hnodes : ∀ n ∈ nodes, ∀ out, node n = .ok out → out.shown I = n.shown I)
    (h : assemble (siblings nodes) = .ok outs) :
    Jsx.Node.shownAll I outs = Markup.shown I nodes := by
  refine assemble_shown ?_ h
  have hone := hasOneBranch_of_assemble h
  rw [siblings_eq_map, readings_eq_map, List.forall₂_map_left_iff, List.forall₂_map_right_iff,
    List.forall₂_same]
  exact fun n hn => ⟨rfl, hone n hn, hnodes n hn⟩

/-- What a node is lowered to by itself shows what the node does. -/
lemma node_shown (n : Node) {out : Jsx.Node} (h : node n = .ok out) :
    out.shown I = n.shown I := by
  induction n using Node.ind generalizing out with
  | element e children ih =>
      rw [node] at h
      exact element_shown (fun _ => assemble_siblings_shown fun n hn _ => ih n hn) h
  | text l =>
      cases h
      rfl
  | comment l =>
      cases h
      rfl
  | interpolation l => cases h

/-- **Lowering preserves what is shown**, under every interpretation and in every round of
the loops around. -/
theorem root_shown (I : Interpretation) {nodes : List Node} {out : Jsx.Node}
    (h : root nodes = .ok out) : out.shown I = Markup.shown I nodes := by
  rw [root, bind_eq_ok] at h
  obtain ⟨outs, houts, h⟩ := h
  rw [← assemble_siblings_shown (fun n _ _ => node_shown n) houts]
  split at h
  · cases h
    funext k
    exact (List.append_nil _).symm
  · cases h
    rfl

/-- A `v-if`, a comment, and a `v-else` that is repeated. -/
def pollNodes : List Node :=
  let directive (name : Text) (expression : Option Text) (binding : Option ForBinding) : Property :=
    .directive ⟨name, none, false, expression, [], binding, .unknown, []⟩
  [.element ⟨"p", .ordinary, [directive "if" (some " open ") none], .unknown, []⟩
      [.text ⟨"Vote", .unknown, []⟩],
    .comment ⟨"or", .unknown, []⟩,
    .element ⟨"b", .ordinary, [directive "else" none none,
      directive "for" (some "v in votes") (some ⟨"votes", some "v", none, none⟩)], .unknown, []⟩ []]

/-- A closed poll with two votes shows the `v-else` twice, and no comment. -/
theorem root_shown_poll :
    let closed : Interpretation := ⟨fun _ _ => false, fun _ _ => 2⟩
    ∃ out, root pollNodes = .ok out ∧
      out.shown closed [] = [.element "b" [] [], .element "b" [] []] := by
  obtain ⟨out, h⟩ : Succeeds (root pollNodes) := by decide +kernel
  refine ⟨out, h, (congrFun (root_shown _ h) []).trans ?_⟩
  rw [Markup.shown, pollNodes]
  simp only [readings]
  rw [joined, if_pos (by decide), chainTail, if_neg (by decide), chainTail, if_pos (by decide)]
  simp only [chainTail]
  rw [if_pos (by decide), chainShown, if_neg (by simp), chosen]
  simp only [Node.shown, readings, joined_nil]
  rfl

end Lowering

end ComponentMigration
