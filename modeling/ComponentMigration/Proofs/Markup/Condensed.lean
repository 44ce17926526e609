import ComponentMigration.Markup.Whitespace
import ComponentMigration.Proofs.Success
import Mathlib.Data.List.Chain

/-!
Condensed whitespace.

* **Texts.** Condensing replaces runs of spacing for good (`condenseSpacing_condenseSpacing`)
  and changes nothing but texts (`condenseNode_of_not_isText`).
* **Siblings.** `AreApart ns`: no two texts are next to each other. Then every text that is
  left has the neighbours it had before, and condensing once more changes nothing
  (`condense_condense`).
-/

namespace ComponentMigration.Markup

/-! ### Texts -/

lemma isBlank_of_isSpacing {c : Char} (h : isSpacing c = true) : Text.isBlank c = true := by
  simp only [isSpacing, Bool.or_eq_true, beq_iff_eq] at h
  rcases h with (((rfl | rfl) | rfl) | rfl) | rfl <;> decide

/-- A text is not empty once it is condensed, if it was not before. -/
lemma condenseSpacing_ne_nil {t : Text} (ht : t ≠ []) : condenseSpacing t ≠ [] := by
  fun_induction condenseSpacing t with
  | case1 => exact ht
  | case2 => simp
  | case3 => simp
  | case4 _ _ _ _ _ ih => exact ih (by simp)
  | case5 => simp
  | case6 => simp

/-- A first character that is no spacing stays. -/
lemma head?_condenseSpacing {c : Char} {t : Text} (hc : isSpacing c = false) :
    (condenseSpacing (c :: t)).head? = some c := by
  cases t <;> simp [condenseSpacing, hc]

/-- Runs of spacing that have been replaced are no longer there. -/
lemma condenseSpacing_condenseSpacing (t : Text) :
    condenseSpacing (condenseSpacing t) = condenseSpacing t := by
  have hspace : isSpacing ' ' = true := by decide
  fun_induction condenseSpacing t with
  | case1 => rfl
  | case2 c hc => simp [condenseSpacing, hspace]
  | case3 c hc => simp [condenseSpacing, hc]
  | case4 c d t hc hd ih => exact ih
  | case5 c d t hc hd ih =>
      obtain ⟨u, hu⟩ := List.head?_eq_some_iff.mp
        (head?_condenseSpacing (t := t) (eq_false_of_ne_true hd))
      rw [hu] at ih ⊢
      rw [condenseSpacing, if_pos hspace, if_neg hd, ih]
  | case6 c d t hc ih =>
      obtain ⟨x, u, hu⟩ :=
        List.exists_cons_of_ne_nil (condenseSpacing_ne_nil (List.cons_ne_nil d t))
      rw [hu] at ih ⊢
      rw [condenseSpacing, if_neg hc, ih]

/-- A text is blank once it is condensed if it was before. -/
lemma isBlankText_condenseSpacing (t : Text) :
    Text.isBlankText (condenseSpacing t) = Text.isBlankText t := by
  have hspace : Text.isBlank ' ' = true := by decide
  fun_induction condenseSpacing t with
  | case1 => rfl
  | case2 c hc => simp [Text.isBlankText, isBlank_of_isSpacing hc, hspace]
  | case3 c hc => rfl
  | case4 c d t hc hd ih =>
      rw [ih]
      simp [Text.isBlankText, isBlank_of_isSpacing hc]
  | case5 c d t hc hd ih =>
      rw [Text.isBlankText] at ih ⊢
      rw [List.all_cons, ih, hspace, Text.isBlankText, Text.isBlankText, List.all_cons (a := c),
        isBlank_of_isSpacing hc]
  | case6 c d t hc ih =>
      rw [Text.isBlankText] at ih ⊢
      rw [List.all_cons, ih, Text.isBlankText, Text.isBlankText, List.all_cons (a := c)]

/-! ### Nodes -/

/-- A text. -/
def Node.IsText : Node → Prop
  | .text _ => True
  | _ => False

instance : DecidablePred Node.IsText
  | .text _ => isTrue trivial
  | .element _ _ | .comment _ | .interpolation _ => isFalse id

lemma Node.IsText.exists_eq {n : Node} (h : n.IsText) : ∃ l, n = .text l := by
  cases n with
  | text l => exact ⟨l, rfl⟩
  | _ => exact h.elim

/-- Condensing changes nothing but texts. -/
lemma condenseNode_of_not_isText {n : Node} (hn : ¬ n.IsText) (before after : Option Node) :
    condenseNode before n after = some n := by
  cases n with
  | text l => exact absurd trivial hn
  | element e cs => rfl
  | comment l => rfl
  | interpolation l => rfl

/-- What is left of a text is a text, and condensing it once more changes nothing. -/
lemma condenseNode_condenseNode {before after : Option Node} {n kept : Node} (hn : n.IsText)
    (h : condenseNode before n after = some kept) :
    kept.IsText ∧ condenseNode before kept after = some kept := by
  obtain ⟨l, rfl⟩ := hn.exists_eq
  rw [condenseNode] at h
  split_ifs at h with hblank hdropped
  · cases h
    refine ⟨trivial, ?_⟩
    -- the content of the text only counts between elements, and a space does not go there
    have hspace : isDroppedBetween [' '] before after = false := by
      rcases before with _ | (_ | _ | _ | _) <;> rcases after with _ | (_ | _ | _ | _) <;>
        simp_all [isDroppedBetween]
    have hblank' : Text.isBlankText [' '] = true := by decide
    rw [condenseNode]
    dsimp only
    rw [if_pos hblank', hspace]
    rfl
  · cases h
    refine ⟨trivial, ?_⟩
    rw [condenseNode, isBlankText_condenseSpacing, if_neg hblank, condenseSpacing_condenseSpacing]

/-- A node by itself stays, if it is no text. -/
lemma condense_singleton {n : Node} (hn : ¬ n.IsText) : condense [n] = [n] := by
  rw [condense, condenseAfter, condenseNode_of_not_isText hn]
  rfl

/-- Condensing adds nothing but texts. -/
lemma mem_of_mem_condenseAfter {n : Node} (hn : ¬ n.IsText) {ns : List Node}
    {before : Option Node} (h : n ∈ condenseAfter before ns) : n ∈ ns := by
  induction ns generalizing before with
  | nil => exact h
  | cons m ns ih =>
      rw [condenseAfter] at h
      split at h
      · next kept hkept =>
          rcases List.mem_cons.mp h with rfl | h
          · by_cases hm : m.IsText
            · exact absurd (condenseNode_condenseNode hm hkept).1 hn
            · rw [condenseNode_of_not_isText hm] at hkept
              cases hkept
              exact List.mem_cons_self
          · exact List.mem_cons_of_mem m (ih h)
      · exact List.mem_cons_of_mem m (ih h)

/-! ### Siblings -/

/-- No two texts are next to each other. -/
def AreApart (ns : List Node) : Prop := ns.IsChain fun n m => ¬ (n.IsText ∧ m.IsText)

lemma areApart_cons_iff {n : Node} {ns : List Node} :
    AreApart (n :: ns) ↔ (∀ m ∈ ns.head?, ¬ (n.IsText ∧ m.IsText)) ∧ AreApart ns :=
  List.isChain_cons

/-- A first node that is no text stays the first one. -/
lemma head?_condenseAfter {ns : List Node} (h : ∀ n ∈ ns.head?, ¬ n.IsText)
    (before : Option Node) : (condenseAfter before ns).head? = ns.head? := by
  cases ns with
  | nil => rfl
  | cons n ns =>
      rw [condenseAfter, condenseNode_of_not_isText (h n rfl)]
      rfl

lemma AreApart.condenseAfter {ns : List Node} (h : AreApart ns) (before : Option Node) :
    AreApart (condenseAfter before ns) := by
  induction ns generalizing before with
  | nil => exact h
  | cons n ns ih =>
      obtain ⟨hnext, hns⟩ := areApart_cons_iff.mp h
      rw [Markup.condenseAfter]
      split
      · next kept hkept =>
          refine areApart_cons_iff.mpr ⟨?_, ih hns _⟩
          by_cases hn : n.IsText
          · have hhead : ∀ m ∈ ns.head?, ¬ m.IsText := fun m hm ht => hnext m hm ⟨hn, ht⟩
            rw [head?_condenseAfter hhead]
            exact fun m hm ht => hhead m hm ht.2
          · rw [condenseNode_of_not_isText hn] at hkept
            cases hkept
            exact fun m _ ht => hn ht.1
      · exact ih hns _

/-- Condensing once more sees the neighbours that a text had before. -/
lemma condenseAfter_condenseAfter {ns : List Node} (h : AreApart ns) {before before' : Option Node}
    (hbefore : ∀ n ∈ ns.head?, n.IsText → before' = before) :
    condenseAfter before' (condenseAfter before ns) = condenseAfter before ns := by
  induction ns generalizing before before' with
  | nil => rfl
  | cons n ns ih =>
      obtain ⟨hnext, hns⟩ := areApart_cons_iff.mp h
      by_cases hn : n.IsText
      · have hhead : ∀ m ∈ ns.head?, ¬ m.IsText := fun m hm ht => hnext m hm ⟨hn, ht⟩
        have hrest (b : Option Node) : condenseAfter b (condenseAfter (some n) ns)
            = condenseAfter (some n) ns := ih hns fun m hm ht => absurd ht (hhead m hm)
        obtain rfl := hbefore n rfl hn
        rw [condenseAfter]
        split
        · next kept hkept =>
            rw [condenseAfter, head?_condenseAfter hhead, (condenseNode_condenseNode hn hkept).2]
            dsimp only
            rw [hrest]
        · exact hrest _
      · rw [condenseAfter, condenseNode_of_not_isText hn]
        dsimp only
        rw [condenseAfter, condenseNode_of_not_isText hn]
        dsimp only
        rw [ih hns fun _ _ _ => rfl]

/-- **Condensing once more changes nothing.** -/
theorem condense_condense {ns : List Node} (h : AreApart ns) :
    condense (condense ns) = condense ns := condenseAfter_condenseAfter h fun _ _ _ => rfl

end ComponentMigration.Markup
