import ComponentMigration.Proofs.Markup.Origin
import ComponentMigration.Proofs.Markup.Scan

/-!
A node read by itself.

* **Locations.** `l.since b` is the location `l` as it is counted from `b` on. That is exact as
  long as fewer than `2 ^ 32` lines lie between the two (`since_after`).
* **Moving.** What is read at one location is read at another, with other locations in it
  (`ReadsToken.move`). How they correspond is said by two functions `f` and `g` that agree behind
  every beginning of the text: `f` of the old locations is `g` of the new ones. The first pieces
  of a scan are scanned by themselves, too (`Scans.exists_move`): the text behind them only ends
  them, and so does the end of the text.
* **Main statement.** `parse_source`: the source of a node parses to the node.
-/

namespace ComponentMigration

/-! ### Locations -/

namespace Location

/-- The location `l` counted from `b` on, which becomes the first one. -/
def since (b l : Location) : Location :=
  if l.line = b.line then ⟨1, l.column - b.column + 1⟩ else ⟨l.line - b.line + 1, l.column⟩

/-- Behind a text that begins at `b` the location is the one behind the text by itself. With
`2 ^ 32` line feeds in it the line would be that of `b` again. -/
lemma since_after (b : Location) {u : Text} (hu : u.count '\n' < UInt32.size) :
    since b (b.after u) = first.after u := by
  rw [after_first, after_eq, since]
  by_cases hfeed : '\n' ∈ u
  · have hline : UInt32.ofNat (u.count '\n') ≠ 0 := by
      rw [Ne, ofNat_eq_zero_iff hu, List.count_eq_zero]
      exact not_not_intro hfeed
    rw [if_neg (by simpa using hline), if_pos hfeed, UInt32.add_comm b.line,
      UInt32.add_sub_cancel]
  · rw [List.count_eq_zero.mpr hfeed, if_pos (by simp), if_neg hfeed, lastLine_of_not_mem hfeed,
      UInt32.add_comm b.column, UInt32.add_sub_cancel]
    rfl

end Location

namespace Markup

variable {f g : Location → Location} {s t r : Text} {l l' : Location}

/-! ### Moving what is read -/

/-- A property that is read at one location is read at another. -/
lemma ReadsProperty.move {p : Property} (h : ReadsProperty s l p r) (hl : f l = g l') :
    ∃ q, ReadsProperty s l' q r ∧ q.mapOrigin g id = p.mapOrigin f id := by
  obtain @⟨name, s, r, value, l, p, hne, hname, hvalue, hp⟩ := h
  have hq := Property.ofRaw_mapOrigin (f := fun _ => l') (g := id) hp
  refine ⟨_, ⟨hne, hname, hvalue, hq⟩, ?_⟩
  obtain ⟨-, rfl⟩ | ⟨d, hd, rfl⟩ := Property.ofRaw_eq_ok hp
  · simp only [Property.mapOrigin, hl]
  · simp only [Property.mapOrigin, id, (Directive.ofRaw_eq_ok hd).1, hl]

/-- Locations that agree behind the beginnings of a text agree behind the beginnings of what
follows its first part. -/
lemma agree_after (h : ∀ u, u <+: s ++ t → f (l.after u) = g (l'.after u)) :
    ∀ u, u <+: t → f ((l.after s).after u) = g ((l'.after s).after u) := fun u hu => by
  rw [← Location.after_append, ← Location.after_append]
  exact h _ ((List.prefix_append_right_inj s).mpr hu)

/-- Properties are read at another location as they are at this one. -/
lemma ReadsProperties.move {ps : List Property} {isClosed : Bool}
    (h : ReadsProperties s l ps isClosed r)
    (hf : ∀ u, u <+: s → f (l.after u) = g (l'.after u)) :
    ∃ qs, ReadsProperties s l' qs isClosed r ∧
      qs.map (Property.mapOrigin g id) = ps.map (Property.mapOrigin f id) := by
  induction h generalizing l' with
  | closed hb => exact ⟨[], .closed hb, rfl⟩
  | opened hb => exact ⟨[], .opened hb, rfl⟩
  | @slash b s r l ps isClosed hb hs _ ih =>
      rw [← List.singleton_append, ← List.append_assoc] at hf
      obtain ⟨qs, hqs, hmap⟩ := ih (agree_after hf)
      exact ⟨qs, .slash hb hs hqs, hmap⟩
  -- The property begins behind the blanks, where the two functions agree, and so do they behind
  -- it.
  | @property b s s' r l p ps isClosed hb h _ ih =>
      have hstart := hf b (List.prefix_append _ _)
      rw [← List.append_assoc] at hf
      obtain ⟨q, hq, hmap⟩ := h.move hstart
      obtain ⟨qs, hqs, hmaps⟩ := ih (agree_after hf)
      exact ⟨q :: qs, .property hb hq hqs, by rw [List.map_cons, List.map_cons, hmap, hmaps]⟩

/-- The token with its locations changed by `f`. -/
def Token.mapOrigin (f : Location → Location) : Token → Token
  | .startTag tag ps isClosed => .startTag tag (ps.map (Property.mapOrigin f id)) isClosed
  | token => token

/-- A token is read at another location as it is at this one. -/
lemma ReadsToken.move {token : Token} (h : ReadsToken s l token r)
    (hf : ∀ u, u <+: s → f (l.after u) = g (l'.after u)) :
    ∃ token', ReadsToken s l' token' r ∧ token'.mapOrigin g = token.mapOrigin f := by
  cases h with
  | endTag hname hb he => exact ⟨_, .endTag hname hb he, rfl⟩
  | comment h => exact ⟨_, .comment h, rfl⟩
  | @startTag tag s r l ps isClosed hletter htag h =>
      rw [← List.cons_append] at hf
      obtain ⟨qs, hqs, hmap⟩ := h.move (agree_after hf)
      exact ⟨_, .startTag hletter htag hqs, by rw [Token.mapOrigin, Token.mapOrigin, hmap]⟩
  | interpolation h => exact ⟨_, .interpolation h, rfl⟩
  | text hne hs hr => exact ⟨_, .text hne hs hr, rfl⟩

/-- Markup begins with its own source. -/
lemma ReadsToken.startsMarkup {token : Token} (h : ReadsToken s l token r)
    (hmarkup : Markup.startsMarkup (s ++ r) = true) : Markup.startsMarkup s = true := by
  cases h with
  | endTag _ _ _ => exact startsMarkup_iff.mpr (.inl (List.prefix_append _ _))
  | comment _ => exact startsMarkup_iff.mpr (.inr (.inl (List.prefix_append _ _)))
  | @startTag tag s _ _ _ _ hletter _ _ =>
      have htag : Markup.startsMarkup ('<' :: tag) = true := by simp [Markup.startsMarkup, hletter]
      exact startsMarkup_mono htag (List.prefix_append ('<' :: tag) s)
  | interpolation _ => exact startsMarkup_iff.mpr (.inr (.inr (.inl (List.prefix_append _ _))))
  | text hne hs _ =>
      rw [hs s List.suffix_rfl hne] at hmarkup
      cases hmarkup

/-! ### Moving pieces -/

/-- The pieces `q` and `p` differ in their locations only: those of `q` are to `g` what those of
`p` are to `f`. -/
structure Piece.IsMoved (f g : Location → Location) (q p : Piece) : Prop where
  token : q.token.mapOrigin g = p.token.mapOrigin f
  location : g q.location = f p.location
  source : q.source = p.source

/-- The pieces of the two lists differ in their locations only. -/
abbrev AreMoved (f g : Location → Location) : List Piece → List Piece → Prop :=
  List.Forall₂ (Piece.IsMoved f g)

/-- Moved pieces have the same source. -/
lemma sourceOf_eq_of_areMoved {ps qs : List Piece} (h : AreMoved f g qs ps) :
    sourceOf qs = sourceOf ps := by
  induction h with
  | nil => rfl
  | cons hp _ ih => rw [sourceOf_cons, sourceOf_cons, hp.source, ih]

/-- The first pieces of a scan make up a scan of their own, wherever it begins. -/
lemma Scans.exists_move {ps qs : List Piece} (h : Scans t l (ps ++ qs))
    (hf : ∀ u, u <+: sourceOf ps → f (l.after u) = g (l'.after u)) :
    ∃ ps', AreMoved f g ps' ps ∧ Scans (sourceOf ps) l' ps' := by
  induction ps generalizing t l l' with
  | nil => exact ⟨[], .nil, .nil⟩
  | cons p ps ih =>
      cases h with
      | @cons s t _ token _ htoken hps =>
          rw [sourceOf_cons] at hf
          obtain ⟨ps', hmoved, hscan⟩ := ih hps (agree_after hf)
          have hprefix : sourceOf ps <+: t := by
            rw [← hps.sourceOf_eq]
            exact ⟨_, (sourceOf_append ps qs).symm⟩
          -- The pieces may be cut off where a text would end: in front of markup, or at the end
          -- of the text.
          have hend : startsMarkup t = true →
              sourceOf ps = [] ∨ startsMarkup (sourceOf ps) = true := by
            intro hmarkup
            cases ps with
            | nil => exact .inl rfl
            | cons p ps =>
                cases hps with
                | cons hp _ =>
                    exact .inr (startsMarkup_mono (hp.startsMarkup hmarkup)
                      (sourceOf_cons _ ps ▸ List.prefix_append _ _))
          have hl : f l = g l' := hf [] List.nil_prefix
          obtain ⟨token', htoken', hmap⟩ :=
            htoken.move fun u hu => hf u (hu.trans (List.prefix_append _ _))
          refine ⟨⟨token', l', s, sourceOf ps⟩ :: ps', .cons ⟨hmap, hl.symm, rfl⟩ hmoved, ?_⟩
          rw [sourceOf_cons]
          exact .cons (htoken'.shorten hprefix hend) hscan

/-! ### Moving nodes -/

/-- Only start tags have locations in them. -/
lemma Token.eq_of_mapOrigin_eq {token token' : Token} (h : token'.mapOrigin g = token.mapOrigin f)
    (hstart : ∀ tag ps isClosed, token ≠ .startTag tag ps isClosed) : token' = token := by
  cases token with
  | startTag tag ps isClosed => exact absurd rfl (hstart tag ps isClosed)
  | _ =>
      cases token' <;> cases h
      rfl

/-- A start tag is moved to a start tag with moved properties. -/
lemma Token.exists_startTag {token' : Token} {tag : Text} {ps : List Property} {isClosed : Bool}
    (h : token'.mapOrigin g = (Token.startTag tag ps isClosed).mapOrigin f) :
    ∃ qs, token' = .startTag tag qs isClosed ∧
      qs.map (Property.mapOrigin g id) = ps.map (Property.mapOrigin f id) := by
  cases token' with
  | startTag tag' qs isClosed' =>
      injection h with htag hmap hclosed
      exact ⟨qs, by rw [htag, hclosed], hmap⟩
  | _ => cases h

/-- The kind of an element does not depend on where its properties are. -/
lemma kindOf_eq_of_map_eq {ps qs : List Property}
    (h : qs.map (Property.mapOrigin g id) = ps.map (Property.mapOrigin f id)) (tag : Text) :
    kindOf tag qs = kindOf tag ps := by
  rw [← kindOf_map_mapOrigin (f := g) (g := id), h, kindOf_map_mapOrigin]

/-- A moved piece is read as a node that differs in its locations only. -/
lemma Piece.IsMoved.isLeaf {p q : Piece} {n : Node} (h : q.IsMoved f g p) (hp : p.IsLeaf n) :
    ∃ m, q.IsLeaf m ∧ m.mapOrigin g id = n.mapOrigin f id := by
  obtain ⟨htoken, hl, hsource⟩ := h
  have hleaf (content : Text) : Leaf.mapOrigin g id ⟨content, q.location, q.source⟩
      = Leaf.mapOrigin f id ⟨content, p.location, p.source⟩ := by
    simp only [Leaf.mapOrigin, id, hl, hsource]
  cases hp with
  | text hp =>
      rw [hp] at htoken
      exact ⟨_, .text (Token.eq_of_mapOrigin_eq htoken (by simp)), congrArg Node.text (hleaf _)⟩
  | comment hp =>
      rw [hp] at htoken
      exact ⟨_, .comment (Token.eq_of_mapOrigin_eq htoken (by simp)),
        congrArg Node.comment (hleaf _)⟩
  | interpolation hp =>
      rw [hp] at htoken
      exact ⟨_, .interpolation (Token.eq_of_mapOrigin_eq htoken (by simp)),
        congrArg Node.interpolation (hleaf _)⟩
  | @element tag properties isClosed hp hclosed =>
      rw [hp] at htoken
      obtain ⟨qs, hq, hmap⟩ := Token.exists_startTag htoken
      refine ⟨_, .element hq hclosed, ?_⟩
      rw [Node.mapOrigin_element, Node.mapOrigin_element, Element.mapOrigin, Element.mapOrigin,
        hmap, kindOf_eq_of_map_eq hmap, hl, hsource]
      rfl

/-- Moved pieces nest as before. -/
lemma Nests.move {ps qs : List Piece} {ns : List Node} (h : Nests ps ns)
    (hq : AreMoved f g qs ps) :
    ∃ ms, Nests qs ms ∧ ms.map (Node.mapOrigin g id) = ns.map (Node.mapOrigin f id) := by
  induction h generalizing qs with
  | nil =>
      cases hq
      exact ⟨[], .nil, rfl⟩
  | leaf hp _ ih =>
      cases hq with
      | cons hmoved hrest =>
          obtain ⟨m, hm, hmap⟩ := hmoved.isLeaf hp
          obtain ⟨ms, hms, hmaps⟩ := ih hrest
          exact ⟨m :: ms, .leaf hm hms, by rw [List.map_cons, List.map_cons, hmap, hmaps]⟩
  | @element p q inner cs ps ns tag properties hp hv hend _ _ ihinner ih =>
      cases hq with
      | @cons p' _ qs _ hp' hqs =>
          -- The moved pieces come apart where those of the element do.
          have hinner := List.forall₂_take_append _ inner (q :: ps) hqs
          have hrest := List.forall₂_drop_append _ inner (q :: ps) hqs
          rw [← List.take_append_drop inner.length qs]
          generalize qs.take inner.length = inner' at hinner
          generalize qs.drop inner.length = qs' at hrest
          cases hrest with
          | @cons q' _ ps' _ hq' hps =>
              have hstart := hp'.token
              rw [hp] at hstart
              obtain ⟨properties', htoken, hmap⟩ := Token.exists_startTag hstart
              have hend' : q'.token = .endTag tag := by
                have hstop := hq'.token
                rw [hend] at hstop
                exact Token.eq_of_mapOrigin_eq hstop (by simp)
              obtain ⟨cs', hcs', hmapInner⟩ := ihinner hinner
              obtain ⟨ms, hms, hmaps⟩ := ih hps
              have hsource : sourceOf (p' :: inner' ++ [q']) = sourceOf (p :: inner ++ [q]) := by
                simp only [List.cons_append, sourceOf_cons, sourceOf_append, hp'.source, hq'.source,
                  sourceOf_eq_of_areMoved hinner, sourceOf_nil]
              refine ⟨_, .element htoken hv hend' hcs' hms, ?_⟩
              rw [List.map_cons, List.map_cons, hmaps, elementOf, elementOf, Node.mapOrigin_element,
                Node.mapOrigin_element, ← childrenOf_map_mapOrigin, ← childrenOf_map_mapOrigin,
                hmapInner, Element.mapOrigin, Element.mapOrigin, hmap, kindOf_eq_of_map_eq hmap,
                hp'.location, hsource]

/-! ### Nodes inside of nodes -/

section Inside

variable {n : Node} (hn : ¬ n.IsText)
include hn

/-- What occurs in condensed nodes occurs in the nodes. -/
lemma Occurs.of_condense {ns : List Node} (h : Occurs n (condense ns)) : Occurs n ns := by
  cases h with
  | member h => exact .member (mem_of_mem_condenseAfter hn h)
  | child h hchild => exact .child (mem_of_mem_condenseAfter id h) hchild

/-- What occurs among the children of an element occurs in its nodes. -/
lemma Occurs.of_childrenOf {tag : Text} {ns : List Node} (h : Occurs n (childrenOf tag ns)) :
    Occurs n ns := by
  rw [childrenOf] at h
  split_ifs at h
  · exact h
  · exact h.of_condense hn

/-- A node at any depth has its own pieces among those of the whole. -/
lemma Nests.exists_append {ps : List Piece} {ns : List Node} (h : Nests ps ns)
    (hoccurs : Occurs n ns) :
    ∃ before own behind, ps = before ++ (own ++ behind) ∧ Nests own [n] := by
  induction h with
  | nil => exact absurd hoccurs (not_occurs_nil n)
  | @leaf p m ps ns hp _ ih =>
      -- The node is the first one, stands within the first one, or stands behind it.
      rcases occurs_cons_iff.mp hoccurs with rfl | ⟨e, cs, rfl, hchild⟩ | hrest
      · exact ⟨[], [p], ps, rfl, .leaf hp .nil⟩
      · cases hp
        exact absurd hchild (not_occurs_nil n)
      · obtain ⟨before, own, behind, rfl, hown⟩ := ih hrest
        exact ⟨p :: before, own, behind, rfl, hown⟩
  | @element p q inner cs ps ns tag properties hp hv hq hinner _ ihinner ih =>
      rcases occurs_cons_iff.mp hoccurs with rfl | ⟨e, cs', helement, hchild⟩ | hrest
      · exact ⟨[], p :: inner ++ [q], ps, by simp, .element hp hv hq hinner .nil⟩
      · cases helement
        obtain ⟨before, own, behind, rfl, hown⟩ := ihinner (hchild.of_childrenOf hn)
        exact ⟨p :: before, own, behind ++ q :: ps, by simp, hown⟩
      · obtain ⟨before, own, behind, rfl, hown⟩ := ih hrest
        exact ⟨p :: inner ++ q :: before, own, behind, by simp, hown⟩

end Inside

/-- A node begins where its pieces begin. -/
lemma Nests.location_eq {ps qs : List Piece} {n : Node} (h : Nests ps [n])
    (hscan : Scans t l (ps ++ qs)) : n.location = l := by
  cases h with
  | leaf hp _ =>
      cases hscan
      exact hp.origin.2
  | element _ _ _ _ _ =>
      cases hscan
      rfl

/-- The source of a node is parsed to one node, whose locations correspond to those of the
node. -/
lemma exists_parse_source {text : Text} {nodes : List Node} {n : Node}
    (h : parse text = .ok nodes) (hoccurs : Occurs n nodes) (hn : ¬ n.IsText)
    (hf : ∀ u, u <+: n.source → f (n.location.after u) = g (Location.first.after u)) :
    ∃ m, parse n.source = .ok [m] ∧ m.mapOrigin g id = n.mapOrigin f id := by
  obtain ⟨ps, ns, hpieces, hns, rfl⟩ := (parse_eq_ok_iff text nodes).mp h
  obtain ⟨before, own, behind, rfl, hown⟩ := hns.exists_append hn (hoccurs.of_condense hn)
  have hscan := (pieces_eq_iff.mp hpieces).right
  have hlocation := hown.location_eq hscan
  have hsource : sourceOf own = n.source := by
    rw [← hown.flatMap_source, List.flatMap_singleton]
  rw [← hlocation] at hscan
  rw [← hsource] at hf
  obtain ⟨own', hmoved, hscan'⟩ := hscan.exists_move hf
  obtain ⟨ms, hms, hmaps⟩ := hown.move hmoved
  rw [List.map_singleton] at hmaps
  obtain ⟨m, rfl, hmap⟩ := List.map_eq_singleton_iff.mp hmaps
  have hm : ¬ m.IsText := by rwa [← isText_mapOrigin (f := g) (g := id), hmap, isText_mapOrigin]
  rw [hsource] at hscan'
  exact ⟨m, (parse_eq_ok_iff _ _).mpr
    ⟨own', _, pieces_eq_iff.mpr hscan', hms, (condense_singleton hm).symm⟩, hmap⟩

/-- An item without the angle bracket of its end tag, in a `pre` that keeps its blanks. -/
def listedText : Text := "é<pre> \n <li id=x>  é\n <i/></li\n</pre>"

/-- The item, with its own location and that of its parts. -/
def listedItem (item name text child : Location) : Node :=
  .element ⟨"li", .ordinary, [.plain ⟨"id", some "x", name⟩], item, "<li id=x>  é\n <i/></li\n"⟩ [
    .text ⟨" é ", text, "  é\n "⟩,
    .element ⟨"i", .ordinary, [], child, "<i/>"⟩ []]

/-- The nodes of the whole text. -/
def listedNodes : List Node := [
  .text ⟨"é", ⟨1, 1⟩, "é"⟩,
  .element ⟨"pre", .ordinary, [], ⟨1, 2⟩, "<pre> \n <li id=x>  é\n <i/></li\n</pre>"⟩ [
    .text ⟨" \n ", ⟨1, 7⟩, " \n "⟩,
    listedItem ⟨2, 2⟩ ⟨2, 6⟩ ⟨2, 11⟩ ⟨3, 2⟩]]

end Markup

end ComponentMigration
