import ComponentMigration.Proofs.Markup.Origin
import ComponentMigration.Proofs.Markup.Scan

/-!
What parsed nodes are like.

* **Names.** A tag and the name of a plain attribute are read from their own characters
  (`Element.IsReadable`, `Property.IsReadable`).
* **Nodes.** `Node.IsReadable`: no text is empty, void elements have no children, and the
  children of an element are condensed with no two texts next to each other.
* **Main statement.** `isReadable_of_parse`: every node that occurs in what is parsed is
  readable.
-/

namespace ComponentMigration.Markup

variable {s t r : Text} {l : Location}

/-! ### Names -/

/-- A plain attribute has a name that is read as one. -/
def Property.IsReadable : Property → Prop
  | .plain a => a.name ≠ [] ∧ (∀ x ∈ a.name, isAttributeChar x = true) ∧
      isDirectiveName a.name = false
  | .directive _ => True

lemma ReadsProperty.isReadable {p : Property} (h : ReadsProperty s l p r) : p.IsReadable := by
  obtain @⟨name, s, r, value, l, p, hne, hname, -, hp⟩ := h
  obtain ⟨hplain, rfl⟩ | ⟨d, -, rfl⟩ := Property.ofRaw_eq_ok hp
  · exact ⟨hne, hname.all, hplain⟩
  · trivial

lemma ReadsProperties.isReadable {ps : List Property} {isClosed : Bool}
    (h : ReadsProperties s l ps isClosed r) : ∀ p ∈ ps, p.IsReadable := by
  induction h with
  | closed _ => simp
  | opened _ => simp
  | slash _ _ _ ih => exact ih
  | property _ h _ ih => exact List.forall_mem_cons.mpr ⟨h.isReadable, ih⟩

/-- The tag and the properties of an element have names that are read as such, and give it its
kind. -/
structure Element.IsReadable (e : Element) : Prop where
  letter : startsTag ('<' :: e.tag) = true
  tag : ∀ x ∈ e.tag, isTagChar x = true
  properties : ∀ p ∈ e.properties, p.IsReadable
  kind : e.kind = kindOf e.tag e.properties

lemma ReadsToken.isReadable {tag : Text} {ps : List Property} {isClosed : Bool}
    (h : ReadsToken s l (.startTag tag ps isClosed) r) (location : Location) (source : Text) :
    Element.IsReadable ⟨tag, kindOf tag ps, ps, location, source⟩ := by
  cases h with
  | startTag hletter htag h => exact ⟨hletter, htag.all, h.isReadable, rfl⟩

/-! ### Nodes -/

/-- A node as it is parsed. -/
inductive Node.IsReadable : Node → Prop
  | element {e : Element} {cs : List Node} (he : e.IsReadable)
      (hvoid : isVoidTag e.tag = true → cs = []) (hcs : ∀ c ∈ cs, c.IsReadable)
      (hapart : AreApart cs) (hcondensed : childrenOf e.tag cs = cs) : IsReadable (.element e cs)
  | text {l : Leaf} (h : l.content ≠ []) : IsReadable (.text l)
  | comment {l : Leaf} : IsReadable (.comment l)
  | interpolation {l : Leaf} : IsReadable (.interpolation l)

lemma Node.IsReadable.condenseAfter {ns : List Node} (h : ∀ n ∈ ns, n.IsReadable)
    (before : Option Node) : ∀ n ∈ condenseAfter before ns, n.IsReadable := by
  induction ns generalizing before with
  | nil => exact h
  | cons n ns ih =>
      obtain ⟨hn, hns⟩ := List.forall_mem_cons.mp h
      rw [Markup.condenseAfter]
      split
      · next kept hkept =>
          refine List.forall_mem_cons.mpr ⟨?_, ih hns _⟩
          cases hn with
          | text hl =>
              rw [condenseNode] at hkept
              split_ifs at hkept
              · cases hkept
                exact .text (by simp)
              · cases hkept
                exact .text (condenseSpacing_ne_nil hl)
          | element he hvoid hcs hapart hcondensed =>
              cases hkept
              exact .element he hvoid hcs hapart hcondensed
          | comment =>
              cases hkept
              exact .comment
          | interpolation =>
              cases hkept
              exact .interpolation
      · exact ih hns _

/-- The children of an element are readable, apart, and condensed for good. -/
lemma childrenOf_isReadable {ns : List Node} (tag : Text) (h : ∀ n ∈ ns, n.IsReadable)
    (hapart : AreApart ns) :
    (∀ n ∈ childrenOf tag ns, n.IsReadable) ∧ AreApart (childrenOf tag ns) ∧
      childrenOf tag (childrenOf tag ns) = childrenOf tag ns := by
  by_cases hpre : tag = "pre".toList
  · have hkeep (ms : List Node) : childrenOf tag ms = ms := if_pos hpre
    rw [hkeep, hkeep]
    exact ⟨h, hapart, rfl⟩
  · have hcondense (ms : List Node) : childrenOf tag ms = condense ms := if_neg hpre
    rw [hcondense, hcondense]
    exact ⟨Node.IsReadable.condenseAfter h none, hapart.condenseAfter none,
      condense_condense hapart⟩

/-- What occurs in a readable node is readable. -/
lemma Occurs.isReadable {n : Node} {ns : List Node} (h : Occurs n ns)
    (hns : ∀ n ∈ ns, n.IsReadable) : n.IsReadable := by
  induction h with
  | member h => exact hns n h
  | child h _ ih =>
      cases hns _ h with
      | element _ _ hcs _ _ => exact ih hcs

/-! ### Pieces -/

/-- A text. -/
def Piece.IsText (p : Piece) : Prop := ∃ content, p.token = .text content

/-- Pieces that have been read one after the other: no two texts are next to each other. -/
structure AreRead (ps : List Piece) : Prop where
  tokens : ∀ p ∈ ps, ∃ l, ReadsToken p.source l p.token p.rest
  apart : ps.IsChain fun p q => ¬ (p.IsText ∧ q.IsText)

lemma AreRead.part {ps qs : List Piece} (h : AreRead ps) (hq : qs <:+: ps) : AreRead qs :=
  ⟨fun p hp => h.tokens p (hq.subset hp), h.apart.infix hq⟩

lemma Scans.areRead {ps : List Piece} (h : Scans t l ps) : AreRead ps := by
  induction h with
  | nil => exact ⟨by simp, .nil⟩
  | @cons s t l token ps htoken hps ih =>
      refine ⟨List.forall_mem_cons.mpr ⟨⟨l, htoken⟩, ih.tokens⟩,
        List.isChain_cons.mpr ⟨?_, ih.apart⟩⟩
      rintro q hq ⟨⟨content, hp⟩, ⟨content', hq'⟩⟩
      dsimp only at hp
      subst hp
      cases hps with
      | nil => cases hq
      | @cons s' t' _ token' ps' htoken' _ =>
          cases hq
          dsimp only at hq'
          subst hq'
          cases htoken with
          | text _ _ hmarkup =>
              cases htoken' with
              | text hne hplain _ =>
                  have hnot := hplain _ List.suffix_rfl hne
                  rcases hmarkup with hnil | hmarkup
                  · exact hne (List.append_eq_nil_iff.mp hnil).1
                  · rw [hnot] at hmarkup
                    cases hmarkup

/-- A first node that is a text has a text for its first piece. -/
lemma Nests.head_isText {ps : List Piece} {ns : List Node} (h : Nests ps ns) {n : Node}
    (hn : n ∈ ns.head?) (htext : n.IsText) : ∃ p ∈ ps.head?, p.IsText := by
  cases h with
  | nil => cases hn
  | @leaf p _ _ _ hp _ =>
      cases hn
      cases hp with
      | text hp => exact ⟨p, rfl, _, hp⟩
      | _ => exact htext.elim
  | element _ _ _ _ _ =>
      cases hn
      exact htext.elim

lemma Piece.IsLeaf.isReadable {p : Piece} {n : Node} (hp : p.IsLeaf n)
    (hread : ReadsToken p.source l p.token p.rest) : n.IsReadable := by
  cases hp with
  | text hp =>
      rw [hp] at hread
      exact .text (hread.content_eq ▸ hread.ne_nil)
  | comment _ => exact .comment
  | interpolation _ => exact .interpolation
  | element hp _ =>
      rw [hp] at hread
      exact .element (hread.isReadable _ _) (fun _ => rfl) (by simp) .nil
        (by simp [childrenOf, condense, condenseAfter])

/-- Siblings are readable and no two texts are next to each other. -/
lemma Nests.isReadable {ps : List Piece} {ns : List Node} (h : Nests ps ns) (hread : AreRead ps) :
    (∀ n ∈ ns, n.IsReadable) ∧ AreApart ns := by
  induction h with
  | nil => exact ⟨by simp, .nil⟩
  | @leaf p n ps ns hp hps ih =>
      obtain ⟨hns, hapart⟩ := ih (hread.part ⟨[p], [], by simp⟩)
      obtain ⟨l, htoken⟩ := hread.tokens p List.mem_cons_self
      refine ⟨List.forall_mem_cons.mpr ⟨hp.isReadable htoken, hns⟩,
        areApart_cons_iff.mpr ⟨?_, hapart⟩⟩
      rintro m hm ⟨hn, hmtext⟩
      obtain ⟨q, hq, hqtext⟩ := hps.head_isText hm hmtext
      obtain ⟨hnext, -⟩ := List.isChain_cons.mp hread.apart
      obtain ⟨q', hq', hptext⟩ := (Nests.leaf hp .nil).head_isText rfl hn
      cases hq'
      exact hnext q hq ⟨hptext, hqtext⟩
  | @element p q inner cs ps ns tag properties hp hv hq hinner _ ihinner ih =>
      obtain ⟨hns, hapart⟩ := ih (hread.part ⟨p :: inner ++ [q], [], by simp⟩)
      obtain ⟨hcs, hcsapart⟩ := ihinner (hread.part ⟨[p], q :: ps, by simp⟩)
      obtain ⟨l, htoken⟩ := hread.tokens p (by simp)
      rw [hp] at htoken
      obtain ⟨hchildren, hchildrenApart, hcondensed⟩ := childrenOf_isReadable tag hcs hcsapart
      have hreadable : (elementOf p tag properties inner q cs).IsReadable :=
        .element (htoken.isReadable _ _) (by simp [hv]) hchildren hchildrenApart hcondensed
      exact ⟨List.forall_mem_cons.mpr ⟨hreadable, hns⟩,
        areApart_cons_iff.mpr ⟨fun _ _ ht => ht.1.elim, hapart⟩⟩

/-- **What is parsed is readable**, at every depth. -/
theorem isReadable_of_parse {text : Text} {nodes : List Node} {n : Node}
    (h : parse text = .ok nodes) (hn : Occurs n nodes) : n.IsReadable := by
  obtain ⟨ps, ns, hpieces, hns, rfl⟩ := (parse_eq_ok_iff text nodes).mp h
  obtain ⟨hreadable, -⟩ := hns.isReadable (pieces_eq_iff.mp hpieces).areRead
  exact hn.isReadable (Node.IsReadable.condenseAfter hreadable none)

end ComponentMigration.Markup
