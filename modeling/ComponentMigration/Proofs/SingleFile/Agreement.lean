import ComponentMigration.Proofs.Markup.Readable
import ComponentMigration.Proofs.SingleFile.Tags
import Mathlib.Data.List.Infix

/-!
The template block of a component, as the parser sees it.

* **Pieces.** The splitter knows nothing of comments, quotes and closed tags.
  `Piece.ShowsTags` says of a piece that the splitter meets a template tag in it only where the
  parser opens or closes an element.
* **Balance.** The parser's start and end tags come in pairs (`Nests.foldlM_marks`), so the
  depth of the splitter is back where it was.
* **Main statement.** `ofText_of_parse`: both see the same end of the template block, if all
  pieces are of that kind. A comment that is not makes them disagree
  (`not_ofText_of_parse`).
-/

namespace ComponentMigration.Markup

open SingleFile (mark? depthBehind Tagged closingTag)

variable {l : Location} {r s t tag : Text}

/-! ### Pieces -/

/-- A start tag that is not closed, or an end tag. -/
def Token.IsBracket : Token → Prop
  | .startTag _ _ isClosed => isClosed = false
  | .endTag _ => True
  | .comment _ | .interpolation _ | .text _ => False

instance : DecidablePred Token.IsBracket
  | .startTag _ _ isClosed => inferInstanceAs (Decidable (isClosed = false))
  | .endTag _ => .isTrue trivial
  | .comment _ | .interpolation _ | .text _ => .isFalse id

/-- A template tag begins in the piece only at its head, and only if the piece is a bracket
with its angle. -/
def Piece.ShowsTags (p : Piece) : Prop :=
  ∀ v ∈ p.source.tails, v ≠ [] → mark? (v ++ p.rest) ≠ none →
    v = p.source ∧ '>' ∈ p.source ∧ p.token.IsBracket

instance : DecidablePred Piece.ShowsTags := fun _ => List.decidableBAll _ _

/-- The template tag that a piece begins with, if there is one. -/
def Piece.marks (p : Piece) : List Bool := (mark? (p.source ++ p.rest)).toList

/-- The splitter meets in a piece the tag that it begins with. -/
lemma Piece.ShowsTags.tagged {p : Piece} (h : p.ShowsTags) (hp : p.source ≠ []) :
    Tagged p.source p.marks (p.rest ++ closingTag) := by
  have hmark {v : Text} (hne : v ≠ []) :
      mark? (v ++ (p.rest ++ closingTag)) = mark? (v ++ p.rest) := by
    rw [← List.append_assoc]
    exact SingleFile.mark?_append (by simp [hne]) rfl
  have hinside {v : Text} (hv : v <:+ p.source) (hne : v ≠ []) (hsource : v ≠ p.source) :
      mark? (v ++ (p.rest ++ closingTag)) = none := by
    rw [hmark hne]
    by_contra hsome
    exact hsource (h v ((List.mem_tails _ _).mpr hv) hne hsome).1
  cases hm : mark? (p.source ++ p.rest) with
  | none =>
      rw [Piece.marks, hm]
      refine SingleFile.tagged_nil fun v hv hne => ?_
      by_cases hsource : v = p.source
      · rw [hmark hne, hsource, hm]
      · exact hinside hv hne hsource
  | some closes =>
      have hself := h p.source ((List.mem_tails _ _).mpr List.suffix_rfl) hp (by simp [hm])
      obtain ⟨a, s, hs, ha⟩ := List.eq_append_cons_of_mem hself.2.1
      have hmarked := hmark hp
      rw [hm, hs, List.append_assoc] at hmarked
      rw [Piece.marks, hm, hs]
      refine .tag hmarked ha (SingleFile.tagged_nil fun v hv hne => hinside ?_ hne ?_)
      · rw [hs]
        exact hv.trans ⟨a ++ ['>'], by simp⟩
      · rintro rfl
        have hle := hv.length_le
        rw [hs, List.length_append, List.length_cons] at hle
        omega

/-! ### Tokens -/

/-- No word goes on where a tag's name ends. -/
lemma endsWord_of_stops (hr : ∀ c ∈ r.head?, isTagChar c = false) : Text.EndsWord r := by
  intro c hc
  have hstop := hr c hc
  simp only [isTagChar, Bool.and_eq_false_iff, Bool.not_eq_false', bne_eq_false_iff_eq] at hstop
  rcases hstop with (hblank | rfl) | rfl
  · exact Text.isWordChar_of_isBlank hblank
  · decide
  · decide

/-- A start tag begins with a template tag if its name says so. -/
lemma ReadsToken.mark?_startTag {ps : List Property} {isClosed : Bool}
    (h : ReadsToken s l (.startTag tag ps isClosed) r) :
    mark? (s ++ r) = (Text.dropWord? "template" tag).map fun _ => false := by
  cases h with
  | @startTag _ s _ _ _ _ hletter htag _ =>
      obtain ⟨x, hx, t, ht⟩ := startsTag_iff.mp hletter
      obtain ⟨-, rfl⟩ := List.cons.inj ht
      have hslash : x ≠ '/' := by
        rintro rfl
        cases hx
      have hends := endsWord_of_stops htag.stops
      change mark? ('<' :: x :: (t ++ s ++ r)) = _
      rw [SingleFile.mark?_of_ne_slash hslash, List.append_assoc]
      exact Text.map_dropWord?_append (t := x :: t) hends false

/-- An end tag begins with a template tag if its name says so. -/
lemma ReadsToken.mark?_endTag (h : ReadsToken s l (.endTag tag) r) :
    mark? (s ++ r) = (Text.dropWord? "template" tag).map fun _ => true := by
  cases h with
  | @endTag _ b e _ _ hname _ _ =>
      have hends : Text.EndsWord (b ++ (e ++ r)) := endsWord_of_stops fun c hc => by
        have hstop := hname.stops c hc
        simp only [isUnquotedChar, isTagChar, Bool.and_eq_false_iff] at hstop ⊢
        exact hstop.imp_left .inl
      change mark? ('<' :: '/' :: (tag ++ (b ++ e) ++ r)) = _
      rw [List.append_assoc, List.append_assoc]
      exact Text.map_dropWord?_append hends true

/-- The name of a void element is no template. -/
lemma dropWord?_of_isVoidTag (h : isVoidTag tag = true) :
    Text.dropWord? "template" tag = none := by
  by_contra hsome
  obtain ⟨r, hr⟩ := Option.ne_none_iff_exists'.mp hsome
  obtain ⟨⟨s, hs, rfl⟩, -⟩ := Text.dropWord?_eq_some_iff.mp hr
  have hvoid : ∀ w ∈ voidTags, ¬ "template".toList <+: w := by decide
  rw [isVoidTag, List.map_append, Text.map_lowerLetter_eq hs, List.contains_iff_mem] at h
  exact hvoid _ h (List.prefix_append _ _)

/-! ### Balance -/

/-- The scan of the whole text meets the tags of its pieces. -/
lemma Scans.tagged {ps : List Piece} (h : Scans t l ps) (hps : ∀ p ∈ ps, p.ShowsTags) :
    Tagged t (ps.flatMap Piece.marks) closingTag := by
  induction h with
  | nil => exact .nil
  | cons htoken _ ih =>
      obtain ⟨hp, hps⟩ := List.forall_mem_cons.mp hps
      exact (hp.tagged htoken.ne_nil).append (ih hps)

/-- A node without tags of its own has no marks. -/
lemma Piece.IsLeaf.marks_eq_nil {p : Piece} {n : Node} (hp : p.IsLeaf n)
    (hread : ReadsToken p.source l p.token p.rest) (h : p.ShowsTags) : p.marks = [] := by
  have hnone : mark? (p.source ++ p.rest) = none := by
    by_contra hsome
    have hself := h p.source ((List.mem_tails _ _).mpr List.suffix_rfl) hread.ne_nil hsome
    have hbracket := hself.2.2
    cases hp with
    | text hp => rwa [hp] at hbracket
    | comment hp => rwa [hp] at hbracket
    | interpolation hp => rwa [hp] at hbracket
    | element hp hclosed =>
        rw [hp] at hbracket hread
        rw [hbracket, Bool.false_or] at hclosed
        rw [hread.mark?_startTag, dropWord?_of_isVoidTag hclosed] at hsome
        exact hsome rfl
  rw [marks, hnone]
  rfl

/-- Nested pieces lead back to the depth they began at. -/
lemma Nests.foldlM_marks {ps : List Piece} {ns : List Node} (h : Nests ps ns)
    (hread : ∀ p ∈ ps, ∃ l, ReadsToken p.source l p.token p.rest)
    (hps : ∀ p ∈ ps, p.ShowsTags) (depth : Nat) :
    (ps.flatMap Piece.marks).foldlM depthBehind depth = some depth := by
  induction h generalizing depth with
  | nil => rfl
  | leaf hp _ ih =>
      obtain ⟨⟨l, hread⟩, hreads⟩ := List.forall_mem_cons.mp hread
      obtain ⟨hshows, hps⟩ := List.forall_mem_cons.mp hps
      rw [List.flatMap_cons, hp.marks_eq_nil hread hshows]
      exact ih hreads hps depth
  | @element p q inner _ ps _ tag _ hp _ hq _ _ ihinner ih =>
      obtain ⟨l, hstart⟩ := hread p (by simp)
      obtain ⟨l', hend⟩ := hread q (by simp)
      rw [hp] at hstart
      rw [hq] at hend
      have hinner := ihinner (fun x hx => hread x (by simp [hx])) (fun x hx => hps x (by simp [hx]))
      have hrest := ih (fun x hx => hread x (by simp [hx])) (fun x hx => hps x (by simp [hx]))
      have hmarks : (p :: inner ++ q :: ps).flatMap Piece.marks
          = p.marks ++ (inner.flatMap Piece.marks ++ (q.marks ++ ps.flatMap Piece.marks)) := by
        simp
      -- A name that makes the start tag a template tag makes the end tag one.
      rw [hmarks, Piece.marks, Piece.marks, hstart.mark?_startTag, hend.mark?_endTag]
      cases Text.dropWord? "template" tag with
      | none => simpa [hinner] using hrest depth
      | some _ => simpa [depthBehind, hinner] using hrest depth

end ComponentMigration.Markup

namespace ComponentMigration.SingleFile

open Markup

/-- **The splitter and the parser agree** on where the template block ends, if all template tags
are brackets of the parser. -/
theorem ofText_of_parse {t : Text} {nodes : List Node} (h : parse t = .ok nodes)
    (hps : ∀ p ∈ (pieces (.ofText t)).1, p.ShowsTags) :
    Blocks.ofText (templateBlock t) = ⟨some t, none⟩ := by
  obtain ⟨ps, ns, hpieces, hns, -⟩ := (parse_eq_ok_iff t nodes).mp h
  rw [hpieces] at hps
  have hscans := pieces_eq_iff.mp hpieces
  have hread := hscans.areRead.tokens
  exact (ofText_template_iff t).mpr ⟨_, hscans.tagged hps, hns.foldlM_marks hread hps 0⟩

/-- A template in the template block, with an angle bracket in a value and a comment. -/
def nestedText : Text :=
  "<template v-if=\"n > 1\"><p id=\"<t\">many</p><!-- </ --></template >\n<b />"

theorem ofText_of_parse_nested :
    Succeeds (parse nestedText) ∧ (∀ p ∈ (pieces (.ofText nestedText)).1, p.ShowsTags) ∧
      Blocks.ofText (templateBlock nestedText) = ⟨some nestedText, none⟩ := by
  obtain ⟨nodes, h⟩ : Succeeds (parse nestedText) := by decide +kernel
  have hps : ∀ p ∈ (pieces (.ofText nestedText)).1, p.ShowsTags := by decide +kernel
  exact ⟨⟨nodes, h⟩, hps, ofText_of_parse h hps⟩

/-- The parser skips an end tag in a comment, the splitter does not. -/
theorem not_ofText_of_parse :
    parse "<!-- </template> -->"
        = .ok [.comment ⟨" </template> ", ⟨1, 1⟩, "<!-- </template> -->"⟩] ∧
      Blocks.ofText (templateBlock "<!-- </template> -->") = ⟨some "<!-- ", none⟩ := by
  exact ⟨by with_unfolding_all rfl, by decide +kernel⟩

-- A start tag that is closed counts as open for the splitter, which then finds no end.
example : Succeeds (parse "<template v-if=\"a\" />") ∧
    Blocks.ofText (templateBlock "<template v-if=\"a\" />") = ⟨none, none⟩ := by
  decide +kernel

end ComponentMigration.SingleFile
