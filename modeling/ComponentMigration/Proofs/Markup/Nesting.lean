import ComponentMigration.Markup.Tree
import ComponentMigration.Proofs.Success

/-!
Nested pieces.

* **Nesting.** `Nests ps ns`: the pieces `ps` make up the siblings `ns`, whose whitespace is
  not condensed yet. A piece is a node by itself (`Piece.IsLeaf`), or a start tag with its end
  tag goes around pieces that nest.
* **Open elements.** `Opens ps f`: the pieces `ps` lead to the forest `f`. `Opens.step` says so
  of one piece more, and nested pieces leave the open elements as they are
  (`Nests.foldlM_step`).
* **Main statement.** `parse_eq_ok_iff`: what is parsed are nested pieces, condensed.
-/

namespace ComponentMigration.Markup

/-! ### Nesting -/

/-- The pieces that are a node by themselves. -/
inductive Piece.IsLeaf (p : Piece) : Node → Prop
  | text {content : Text} (h : p.token = .text content) :
      IsLeaf p (.text ⟨content, p.location, p.source⟩)
  | comment {content : Text} (h : p.token = .comment content) :
      IsLeaf p (.comment ⟨content, p.location, p.source⟩)
  | interpolation {expression : Text} (h : p.token = .interpolation expression) :
      IsLeaf p (.interpolation ⟨expression, p.location, p.source⟩)
  /-- An element that is closed in its start tag, or a void one. -/
  | element {tag : Text} {properties : List Property} {isClosed : Bool}
      (h : p.token = .startTag tag properties isClosed)
      (hclosed : (isClosed || isVoidTag tag) = true) :
      IsLeaf p (.element ⟨tag, kindOf tag properties, properties, p.location, p.source⟩ [])

/-- The text that pieces were read from. -/
def sourceOf (ps : List Piece) : Text := ps.flatMap Piece.source

@[simp] lemma sourceOf_nil : sourceOf [] = [] := rfl

lemma sourceOf_cons (p : Piece) (ps : List Piece) : sourceOf (p :: ps) = p.source ++ sourceOf ps :=
  List.flatMap_cons

lemma sourceOf_append (ps qs : List Piece) : sourceOf (ps ++ qs) = sourceOf ps ++ sourceOf qs :=
  List.flatMap_append

/-- The children of an element, condensed if it is not a `pre`. -/
def childrenOf (tag : Text) (ns : List Node) : List Node :=
  if tag = "pre".toList then ns else condense ns

/-- The element from its start tag to its end tag. -/
def elementOf (p : Piece) (tag : Text) (properties : List Property) (inner : List Piece)
    (q : Piece) (cs : List Node) : Node :=
  .element ⟨tag, kindOf tag properties, properties, p.location, sourceOf (p :: inner ++ [q])⟩
    (childrenOf tag cs)

/-- Pieces that make up siblings. -/
inductive Nests : List Piece → List Node → Prop
  | nil : Nests [] []
  | leaf {p n ps ns} (hp : p.IsLeaf n) (h : Nests ps ns) : Nests (p :: ps) (n :: ns)
  | element {p q inner cs ps ns tag properties} (hp : p.token = .startTag tag properties false)
      (hv : isVoidTag tag = false) (hq : q.token = .endTag tag) (hinner : Nests inner cs)
      (h : Nests ps ns) :
      Nests (p :: inner ++ q :: ps) (elementOf p tag properties inner q cs :: ns)

lemma Nests.append {ps qs : List Piece} {ns ms : List Node} (h : Nests ps ns)
    (h' : Nests qs ms) : Nests (ps ++ qs) (ns ++ ms) := by
  induction h with
  | nil => exact h'
  | leaf hp _ ih => exact .leaf hp ih
  | element hp hv hq hinner _ _ ih =>
      rw [List.append_assoc]
      exact .element hp hv hq hinner ih

/-- A node is where its piece is. -/
lemma Piece.IsLeaf.origin {p : Piece} {n : Node} (h : p.IsLeaf n) :
    n.source = p.source ∧ n.location = p.location := by
  cases h <;> exact ⟨rfl, rfl⟩

/-- Siblings have the source of their pieces. -/
lemma Nests.flatMap_source {ps : List Piece} {ns : List Node} (h : Nests ps ns) :
    ns.flatMap Node.source = sourceOf ps := by
  induction h with
  | nil => rfl
  | leaf hp _ ih => rw [List.flatMap_cons, ih, hp.origin.1, sourceOf_cons]
  | @element p q inner cs ps ns _ _ _ _ _ _ _ _ ih =>
      have hsplit : p :: inner ++ q :: ps = (p :: inner ++ [q]) ++ ps := by simp
      rw [List.flatMap_cons, ih, hsplit, sourceOf_append (p :: inner ++ [q])]
      rfl

/-! ### Steps over nested pieces -/

namespace Forest

/-- The forest with more finished siblings. -/
def extend (f : Forest) (ns : List Node) : Forest := ns.foldl (fun f n => f.add n.source n) f

lemma extend_nil (roots : List Node) (ns : List Node) :
    extend ⟨roots, []⟩ ns = ⟨ns.reverse ++ roots, []⟩ := by
  induction ns generalizing roots with
  | nil => rfl
  | cons n ns ih =>
      rw [extend, List.foldl_cons, ← extend, add, ih, List.reverse_cons, List.append_assoc,
        List.singleton_append]

/-- Siblings are finished inside of the innermost open element. -/
lemma extend_cons (roots : List Node) (e : OpenElement) (es : List OpenElement)
    (ns : List Node) :
    extend ⟨roots, e :: es⟩ ns = ⟨roots, { e with
      sources := (ns.map Node.source).reverse ++ e.sources
      nodes := ns.reverse ++ e.nodes } :: es⟩ := by
  induction ns generalizing e with
  | nil => rfl
  | cons n ns ih =>
      rw [extend, List.foldl_cons, ← extend, add, ih]
      simp [OpenElement.add]

/-- A piece that is a node by itself is added. -/
lemma step_of_isLeaf {f : Forest} {p : Piece} {n : Node} (h : p.IsLeaf n) :
    f.step p = .ok (f.add n.source n) := by
  rw [step]
  cases h with
  | text h =>
      rw [h]
      rfl
  | comment h =>
      rw [h]
      rfl
  | interpolation h =>
      rw [h]
      rfl
  | element h hclosed =>
      rw [h]
      dsimp only
      rw [if_pos hclosed]
      rfl

/-- The element that a start tag has opened, with its children so far. -/
def opened (p : Piece) (tag : Text) (properties : List Property) (cs : List Node) : OpenElement :=
  ⟨tag, properties, p.location, (cs.map Node.source).reverse ++ [p.source], cs.reverse⟩

/-- A start tag that is no node by itself opens an element. -/
lemma step_of_startTag {roots : List Node} {es : List OpenElement} {p : Piece} {tag : Text}
    {properties : List Property} (hp : p.token = .startTag tag properties false)
    (hv : isVoidTag tag = false) :
    step ⟨roots, es⟩ p = .ok ⟨roots, opened p tag properties [] :: es⟩ := by
  rw [step, hp]
  dsimp only
  rw [hv, Bool.or_self, if_neg (by simp)]
  rfl

/-- An end tag closes the innermost open element. -/
lemma step_of_endTag {roots : List Node} {es : List OpenElement} {p q : Piece} {tag : Text}
    {properties : List Property} {inner : List Piece} {cs : List Node}
    (hq : q.token = .endTag tag) (hinner : cs.flatMap Node.source = sourceOf inner) :
    step ⟨roots, opened p tag properties cs :: es⟩ q
      = .ok (add ⟨roots, es⟩ (elementOf p tag properties inner q cs).source
        (elementOf p tag properties inner q cs)) := by
  have hsource : (q.source :: ((cs.map Node.source).reverse ++ [p.source])).reverse.flatten
      = sourceOf (p :: inner ++ [q]) := by
    rw [List.cons_append, sourceOf_cons, sourceOf_append, ← hinner]
    simp [sourceOf, List.flatMap_def]
  rw [step, hq]
  simp only [opened, if_pos, OpenElement.source, OpenElement.close, hsource, List.reverse_reverse]
  rfl

end Forest

/-- Nested pieces finish their siblings inside of what is open. -/
lemma Nests.foldlM_step {ps : List Piece} {ns : List Node} (h : Nests ps ns) (f : Forest) :
    ps.foldlM Forest.step f = .ok (f.extend ns) := by
  induction h generalizing f with
  | nil => rfl
  | leaf hp _ ih =>
      rw [List.foldlM_cons, Forest.step_of_isLeaf hp]
      exact ih _
  | @element p q inner cs ps ns tag properties hp hv hq hinner _ ihinner ih =>
      obtain ⟨roots, es⟩ := f
      have hcs : Forest.extend ⟨roots, Forest.opened p tag properties [] :: es⟩ cs
          = ⟨roots, Forest.opened p tag properties cs :: es⟩ := by
        rw [Forest.extend_cons]
        simp [Forest.opened]
      rw [List.cons_append, List.foldlM_cons, Forest.step_of_startTag hp hv]
      change (inner ++ q :: ps).foldlM Forest.step _ = _
      rw [List.foldlM_append, ihinner, hcs]
      change (q :: ps).foldlM Forest.step _ = _
      rw [List.foldlM_cons, Forest.step_of_endTag hq hinner.flatMap_source]
      exact ih _

/-! ### Forests and their pieces -/

/-- The pieces that lead to a forest: nested ones, and for every open element its start tag
with nested pieces behind it. -/
inductive Opens : List Piece → Forest → Prop
  | roots {ps roots} (h : Nests ps roots.reverse) : Opens ps ⟨roots, []⟩
  | element {ps roots es p inner cs tag properties} (h : Opens ps ⟨roots, es⟩)
      (hp : p.token = .startTag tag properties false) (hv : isVoidTag tag = false)
      (hinner : Nests inner cs) :
      Opens (ps ++ p :: inner) ⟨roots, Forest.opened p tag properties cs :: es⟩

namespace Opens

variable {ps qs : List Piece} {f f' : Forest} {p : Piece}

/-- A finished node belongs to the innermost open element. -/
lemma add (h : Opens ps f) {n : Node} (hn : Nests qs [n]) :
    Opens (ps ++ qs) (f.add n.source n) := by
  cases h with
  | roots h =>
      refine .roots ?_
      rw [List.reverse_cons]
      exact h.append hn
  | @element ps roots es p inner cs tag properties h hp hv hinner =>
      have hopened : (Forest.opened p tag properties cs).add n.source n
          = Forest.opened p tag properties (cs ++ [n]) := by
        simp [Forest.opened, OpenElement.add]
      rw [List.append_assoc, List.cons_append]
      change Opens _ ⟨roots, (Forest.opened p tag properties cs).add n.source n :: es⟩
      rw [hopened]
      exact .element h hp hv (hinner.append hn)

/-- One piece more that is a node by itself. -/
lemma step_of_isLeaf (h : Opens ps f) {n : Node} (hp : p.IsLeaf n) (hf : f.step p = .ok f') :
    Opens (ps ++ [p]) f' := by
  rw [Forest.step_of_isLeaf hp] at hf
  cases hf
  exact h.add (.leaf hp .nil)

/-- One piece more. -/
lemma step (h : Opens ps f) (hf : f.step p = .ok f') : Opens (ps ++ [p]) f' := by
  cases hp : p.token with
  | text content => exact h.step_of_isLeaf (.text hp) hf
  | comment content => exact h.step_of_isLeaf (.comment hp) hf
  | interpolation expression => exact h.step_of_isLeaf (.interpolation hp) hf
  | startTag tag properties isClosed =>
      cases hclosed : isClosed || isVoidTag tag with
      | true => exact h.step_of_isLeaf (.element hp hclosed) hf
      | false =>
          obtain ⟨rfl, hv⟩ := Bool.or_eq_false_iff.mp hclosed
          obtain ⟨roots, es⟩ := f
          rw [Forest.step_of_startTag hp hv] at hf
          cases hf
          exact .element h hp hv .nil
  | endTag tag =>
      cases h with
      | roots h => simp [Forest.step, hp] at hf
      | @element ps roots es p₀ inner cs tag₀ properties h hp₀ hv hinner =>
          by_cases htag : tag₀ = tag
          · subst htag
            rw [Forest.step_of_endTag hp hinner.flatMap_source] at hf
            cases hf
            rw [List.append_assoc]
            exact h.add (.element hp₀ hv hp hinner .nil)
          · simp [Forest.step, hp, Forest.opened, htag] at hf

/-- More pieces. -/
lemma foldlM_step (h : Opens ps f) (hf : qs.foldlM Forest.step f = .ok f') :
    Opens (ps ++ qs) f' := by
  induction qs generalizing ps f with
  | nil =>
      cases hf
      rwa [List.append_nil]
  | cons q qs ih =>
      rw [List.foldlM_cons, bind_eq_ok] at hf
      obtain ⟨f₁, hq, hqs⟩ := hf
      have h₁ := ih (h.step hq) hqs
      rwa [List.append_assoc] at h₁

/-- A forest without open elements is finished. -/
lemma of_finish (h : Opens ps f) {nodes : List Node} (hf : f.finish = .ok nodes) :
    ∃ ns, Nests ps ns ∧ nodes = condense ns := by
  cases h with
  | roots h =>
      cases hf
      exact ⟨_, h, rfl⟩
  | element _ _ _ _ => cases hf

end Opens

/-- **What is parsed**: the pieces of the text, nested, with their whitespace condensed. -/
theorem parse_eq_ok_iff (text : Text) (nodes : List Node) :
    parse text = .ok nodes ↔
      ∃ ps ns, pieces (.ofText text) = (ps, none) ∧ Nests ps ns ∧ nodes = condense ns := by
  cases hpieces : pieces (.ofText text) with
  | mk ps fault =>
      simp only [parse, hpieces, bind_eq_ok, Prod.mk.injEq]
      constructor
      · rintro ⟨f, hf, h⟩
        cases fault with
        | some d => cases h
        | none =>
            obtain ⟨ns, hns, hnodes⟩ := ((Opens.roots .nil).foldlM_step hf).of_finish h
            exact ⟨ps, ns, ⟨rfl, rfl⟩, hns, hnodes⟩
      · rintro ⟨_, ns, ⟨rfl, rfl⟩, hns, rfl⟩
        refine ⟨_, hns.foldlM_step .empty, ?_⟩
        change Forest.finish (Forest.extend ⟨[], []⟩ ns) = _
        rw [Forest.extend_nil, List.append_nil, Forest.finish]
        simp

end ComponentMigration.Markup
