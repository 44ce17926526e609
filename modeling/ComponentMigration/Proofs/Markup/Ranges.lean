import ComponentMigration.Proofs.Markup.Origin
import ComponentMigration.Proofs.Markup.Scan
import ComponentMigration.Proofs.Text.Bytes

/-!
Where the tree of a template stands in its text.

* **Ranges.** `t.IsSlice start stop s`: the bytes from `start` up to `stop` are those of `s`.
  `IsFrom` says so of a source, with the location of its first byte.
* **Layouts.** `Property.Covers` and `Node.Covers` give a property and a node a range of bytes.
  Each says what the bytes are read as in front of those that follow, so a range ends exactly
  where reading stops. `Within` puts the properties of a start tag in order, with blanks and
  slashes around them, and `Row` puts siblings in order with only blanks around them.
* **Main statement.** `parse_covers`: the root nodes of a template are a row from its first byte
  to its last.
-/

namespace ComponentMigration

/-! ### Slices -/

namespace Text

/-- The bytes from `start` up to `stop` are those of `s`. -/
structure IsSlice (t : Text) (start stop : Nat) (s : Text) : Prop where
  le : start ≤ stop
  slice : t.slice? start stop = some s

variable {t p s s' r : Text} {a b c : Nat}

/-- A slice is told by the text in front of it and the text behind. -/
lemma isSlice_iff :
    t.IsSlice a b s ↔ ∃ p r, t = p ++ (s ++ r) ∧ byteLength p = a ∧ a + byteLength s = b := by
  constructor
  · rintro ⟨hle, h⟩
    obtain ⟨u, hu, hs⟩ := Option.bind_eq_some_iff.mp h
    obtain ⟨p, rfl, hp⟩ := dropBytes?_eq_some_iff.mp hu
    obtain ⟨r, rfl, hlength⟩ := takeBytes?_eq_some_iff.mp hs
    exact ⟨p, r, rfl, hp, by omega⟩
  · rintro ⟨p, r, rfl, rfl, rfl⟩
    refine ⟨Nat.le_add_right _ _, ?_⟩
    rw [← List.append_assoc]
    exact slice?_append p s r

/-- What stands between two texts is a slice. -/
lemma isSlice_of_eq (h : t = p ++ (s ++ r)) :
    t.IsSlice (byteLength p) (byteLength (p ++ s)) s :=
  isSlice_iff.mpr ⟨p, r, h, rfl, (byteLength_append p s).symm⟩

/-- Adjacent slices join to one. -/
lemma IsSlice.append (h : t.IsSlice a b s) (h' : t.IsSlice b c s') : t.IsSlice a c (s ++ s') := by
  obtain ⟨p, r, rfl, hp, hb⟩ := isSlice_iff.mp h
  obtain ⟨p', r', heq, hp', hc⟩ := isSlice_iff.mp h'
  have hlength : byteLength (p ++ s) = byteLength p' := by rw [byteLength_append, hp, hb, hp']
  rw [← List.append_assoc] at heq
  obtain ⟨-, rfl⟩ := append_inj_of_byteLength heq hlength
  exact isSlice_iff.mpr ⟨p, r', by simp, hp, by rw [byteLength_append]; omega⟩

/-- The bytes from `start` up to `stop` are blanks. -/
def IsGap (t : Text) (start stop : Nat) : Prop :=
  ∃ s, t.IsSlice start stop s ∧ isBlankText s = true

/-- Blanks between two texts are a gap. -/
lemma isGap_of_eq (hs : isBlankText s = true) (h : t = p ++ (s ++ r)) :
    t.IsGap (byteLength p) (byteLength (p ++ s)) := ⟨s, isSlice_of_eq h, hs⟩

/-- Gaps next to each other are one gap. -/
lemma IsGap.append (h : t.IsGap a b) (h' : t.IsGap b c) : t.IsGap a c := by
  obtain ⟨s, hs, hblank⟩ := h
  obtain ⟨s', hs', hblank'⟩ := h'
  exact ⟨s ++ s', hs.append hs', by simp_all [isBlankText]⟩

/-- The bytes from `start` up to `stop` are those of `s`, which goes as far as `q` holds. -/
structure IsRun (t : Text) (q : Char → Bool) (start stop : Nat) (s : Text) : Prop where
  slice : t.IsSlice start stop s
  stops : ∃ r, t.dropBytes? stop = some r ∧ Runs q s r

/-- What is left behind a slice. -/
lemma dropBytes?_of_eq (h : t = p ++ (s ++ r)) : t.dropBytes? (byteLength (p ++ s)) = some r := by
  rw [h, ← List.append_assoc]
  exact dropBytes?_append _ r

/-- A run between two texts. -/
lemma isRun_of_eq {q : Char → Bool} (h : t = p ++ (s ++ r)) (hs : Runs q s r) :
    t.IsRun q (byteLength p) (byteLength (p ++ s)) s :=
  ⟨isSlice_of_eq h, r, dropBytes?_of_eq h, hs⟩

end Text

namespace Markup

/-! ### Layouts -/

/-- The source and the location are those of the bytes from `start` up to `stop`. -/
structure IsFrom (text source : Text) (l : Location) (start stop : Nat) : Prop where
  source : text.IsSlice start stop source
  location : Location.ofOffset? text start = some l

/-- The bytes that a property has been read from, in front of what follows them. -/
inductive Property.Covers (text : Text) : Property → Nat → Nat → Prop
  | plain {a : Attribute} {s r : Text} {start stop : Nat}
      (h : IsFrom text s a.location start stop) (hr : text.dropBytes? stop = some r)
      (hread : ReadsProperty s a.location (.plain a) r) : Covers text (.plain a) start stop
  | directive {d : Directive} {r : Text} {start stop : Nat}
      (h : IsFrom text d.source d.location start stop) (hr : text.dropBytes? stop = some r)
      (hread : ReadsProperty d.source d.location (.directive d) r) :
      Covers text (.directive d) start stop

/-- A character that is skipped between the properties of a start tag. -/
def IsTagSpace (c : Char) : Prop := Text.isBlank c = true ∨ c = '/'

/-- The bytes between two properties of a start tag. -/
def IsTagGap (text : Text) (start stop : Nat) : Prop :=
  ∃ s, text.IsSlice start stop s ∧ ∀ c ∈ s, IsTagSpace c

/-- The end of a start tag: what is skipped, and the angle bracket. The tag `isClosed` if a slash
stands right in front of that. -/
def IsTagEnd (text : Text) (isClosed : Bool) (start stop : Nat) : Prop :=
  ∃ s, text.IsSlice start stop (s ++ ['>']) ∧ (∀ c ∈ s, IsTagSpace c) ∧
    (isClosed = true ↔ s.getLast? = some '/')

/-- The bytes of properties in order, up to the end of their start tag. -/
inductive Within (text : Text) (isClosed : Bool) : List Property → Nat → Nat → Prop
  | nil {start stop : Nat} (h : IsTagEnd text isClosed start stop) :
      Within text isClosed [] start stop
  | cons {p : Property} {ps : List Property} {start a b stop : Nat} (h : IsTagGap text start a)
      (hp : p.Covers text a b) (hps : Within text isClosed ps b stop) :
      Within text isClosed (p :: ps) start stop

/-- The bytes of a start tag: the angle bracket and the tag, which goes as far as it can, the
properties, and the end. -/
def IsStartTag (text tag : Text) (ps : List Property) (isClosed : Bool) (start stop : Nat) : Prop :=
  ∃ a b, text.IsSlice start a ['<'] ∧ text.IsRun isTagChar a b tag ∧
    startsTag ('<' :: tag) = true ∧ Within text isClosed ps b stop

/-- The bytes of an end tag: the name and blanks, which go as far as they can, and the angle
bracket if it comes next. -/
def IsEndTag (text tag : Text) (start stop : Nat) : Prop :=
  ∃ a b c blanks, text.IsSlice start a ['<', '/'] ∧ text.IsRun isUnquotedChar a b tag ∧
    text.IsRun Text.isBlank b c blanks ∧
      (text.IsSlice c stop ['>'] ∨ c = stop ∧ ∀ r ∈ text.dropBytes? stop, r.head? ≠ some '>')

/-- The token that a node other than an element has been read from. The content of a text may
have been condensed. -/
inductive Node.IsRead : Node → Token → Prop
  | text {l : Leaf} : IsRead (.text l) (.text l.source)
  | comment {l : Leaf} : IsRead (.comment l) (.comment l.content)
  | interpolation {l : Leaf} : IsRead (.interpolation l) (.interpolation l.content)

mutual

/-- The bytes that a node has been read from. Those of an element are its start tag, and if that
is not closed and the tag is not void, its children and the end tag. -/
inductive Node.Covers (text : Text) : Node → Nat → Nat → Prop
  | leaf {n : Node} {token : Token} {r : Text} {start stop : Nat}
      (h : IsFrom text n.source n.location start stop) (hr : text.dropBytes? stop = some r)
      (hn : n.IsRead token) (hread : ReadsToken n.source n.location token r) :
      Node.Covers text n start stop
  | empty {e : Element} {isClosed : Bool} {start stop : Nat}
      (h : IsFrom text e.source e.location start stop)
      (htag : IsStartTag text e.tag e.properties isClosed start stop)
      (hclosed : (isClosed || isVoidTag e.tag) = true) :
      Node.Covers text (.element e []) start stop
  | element {e : Element} {cs : List Node} {start a b stop : Nat}
      (h : IsFrom text e.source e.location start stop)
      (htag : IsStartTag text e.tag e.properties false start a) (hvoid : isVoidTag e.tag = false)
      (hcs : Row text cs a b) (hend : IsEndTag text e.tag b stop) :
      Node.Covers text (.element e cs) start stop

/-- Siblings in order from one byte up to another, with blanks around them. -/
inductive Row (text : Text) : List Node → Nat → Nat → Prop
  | nil {start stop : Nat} (h : text.IsGap start stop) : Row text [] start stop
  | cons {n : Node} {ns : List Node} {start a b stop : Nat} (h : text.IsGap start a)
      (hn : n.Covers text a b) (hns : Row text ns b stop) : Row text (n :: ns) start stop

end

/-! ### Properties -/

variable {text pre post s : Text}

/-- A source with what is in front of it has its location. -/
lemma isFrom_of_eq (h : text = pre ++ (s ++ post)) :
    IsFrom text s (Location.first.after pre) pre.byteLength (pre ++ s).byteLength := by
  refine ⟨Text.isSlice_of_eq h, ?_⟩
  rw [h]
  exact Location.ofOffset?_byteLength pre _

/-- A property covers what it was read from. -/
lemma ReadsProperty.covers {p : Property} (h : ReadsProperty s (Location.first.after pre) p post)
    (ht : text = pre ++ (s ++ post)) : p.Covers text pre.byteLength (pre ++ s).byteLength := by
  have hread := h
  obtain @⟨name, s, r, value, l, p, hne, hname, hvalue, hp⟩ := h
  obtain ⟨-, rfl⟩ | ⟨d, hd, rfl⟩ := Property.ofRaw_eq_ok hp
  · exact .plain (isFrom_of_eq ht) (Text.dropBytes?_of_eq ht) hread
  · obtain ⟨hl, hs, -⟩ := Directive.ofRaw_eq_ok hd
    rw [← hl, ← hs] at hread
    refine .directive ?_ (Text.dropBytes?_of_eq ht) hread
    rw [hl, hs]
    exact isFrom_of_eq ht

/-- Blanks may stand between properties. -/
lemma isTagSpace_of_isBlank {b : Text} (hb : ∀ c ∈ b, Text.isBlank c = true) :
    ∀ c ∈ b, IsTagSpace c := fun c hc => .inl (hb c hc)

/-- A tag that ends behind blanks is closed by the slash behind them only. -/
lemma getLast?_ne_of_isBlank {b : Text} (hb : ∀ c ∈ b, Text.isBlank c = true) :
    b.getLast? ≠ some '/' := by
  intro hlast
  have hblank := hb '/' (List.mem_of_getLast? hlast)
  exact absurd hblank (by decide)

/-- What may stand in front of a property may stand in front of more of it. -/
lemma Within.of_gap {isClosed : Bool} {ps : List Property} {a b c : Nat}
    (h : Within text isClosed ps b c) (hgap : IsTagGap text a b)
    (hclosed : ps = [] → ∀ s, text.IsSlice b c s → s ≠ ['>']) : Within text isClosed ps a c := by
  obtain ⟨u, hu, huspace⟩ := hgap
  cases h with
  | nil h =>
      obtain ⟨v, hv, hvspace, hlast⟩ := h
      have hne : v ≠ [] := by
        rintro rfl
        exact hclosed rfl _ hv rfl
      refine .nil ⟨u ++ v, by simpa using hu.append hv,
        List.forall_mem_append.mpr ⟨huspace, hvspace⟩,
        ?_⟩
      rw [hlast, List.getLast?_append_of_ne_nil u hne]
  | cons h hp hps =>
      obtain ⟨v, hv, hvspace⟩ := h
      exact .cons ⟨u ++ v, hu.append hv, List.forall_mem_append.mpr ⟨huspace, hvspace⟩⟩ hp hps

/-- The properties of a start tag come in order in front of its end. -/
lemma ReadsProperties.within {ps : List Property} {isClosed : Bool}
    (h : ReadsProperties s (Location.first.after pre) ps isClosed post)
    (ht : text = pre ++ (s ++ post)) :
    Within text isClosed ps pre.byteLength (pre ++ s).byteLength := by
  -- The induction is on what is read; the text in front grows by what each rule passes.
  generalize hl : Location.first.after pre = l at h
  induction h generalizing pre with
  | @closed b r l hb =>
      refine .nil ⟨b ++ ['/'], ?_, ?_, by simp⟩
      · simpa using Text.isSlice_of_eq ht
      · exact List.forall_mem_append.mpr ⟨isTagSpace_of_isBlank hb, by simp [IsTagSpace]⟩
  | @opened b r l hb =>
      refine .nil ⟨b, Text.isSlice_of_eq ht, isTagSpace_of_isBlank hb, ?_⟩
      simpa using getLast?_ne_of_isBlank hb
  | @slash b s r l ps isClosed hb hs h ih =>
      subst hl
      have hsplit : text = (pre ++ (b ++ ['/'])) ++ (s ++ r) := by simp [ht]
      have hwithin := ih hsplit (Location.after_append _ pre (b ++ ['/']))
      have hgap : text.IsSlice pre.byteLength (pre ++ (b ++ ['/'])).byteLength (b ++ ['/']) :=
        Text.isSlice_of_eq (hsplit.trans (List.append_assoc _ _ _))
      have hstop : pre ++ (b ++ ['/']) ++ s = pre ++ (b ++ '/' :: s) := by simp
      rw [hstop] at hwithin
      refine hwithin.of_gap ⟨_, hgap,
        List.forall_mem_append.mpr ⟨isTagSpace_of_isBlank hb, by simp [IsTagSpace]⟩⟩ ?_
      -- A slash that closes the tag would have been read as its end.
      rintro - u hu rfl
      have hown := Text.isSlice_of_eq hsplit
      rw [hstop] at hown
      have heq := Option.some.inj (hown.slice.symm.trans hu.slice)
      rw [heq] at hs
      exact hs rfl
  | @property b s s' r l p ps isClosed hb h h' ih =>
      subst hl
      rw [← Location.after_append] at h
      have hgap : text.IsSlice pre.byteLength (pre ++ b).byteLength b :=
        Text.isSlice_of_eq (r := s ++ (s' ++ r)) (by simp [ht])
      have hproperty : text = (pre ++ b) ++ (s ++ (s' ++ r)) := by simp [ht]
      have hrest : text = (pre ++ (b ++ s)) ++ (s' ++ r) := by simp [ht]
      have hwithin := ih hrest (Location.after_append _ pre (b ++ s))
      have hcovers := h.covers hproperty
      simp only [List.append_assoc] at hwithin hcovers ⊢
      exact .cons ⟨b, hgap, isTagSpace_of_isBlank hb⟩ hcovers hwithin

/-! ### Tokens -/

/-- A start tag that is read stands in the text. -/
lemma ReadsToken.isStartTag {tag : Text} {ps : List Property} {isClosed : Bool}
    (h : ReadsToken s (Location.first.after pre) (.startTag tag ps isClosed) post)
    (ht : text = pre ++ (s ++ post)) :
    IsStartTag text tag ps isClosed pre.byteLength (pre ++ s).byteLength := by
  cases h with
  | @startTag _ s _ _ _ _ hletter htag h =>
      rw [← Location.after_append] at h
      have hopen : text = pre ++ (['<'] ++ (tag ++ (s ++ post))) := by simp [ht]
      have htext : text = (pre ++ ['<']) ++ (tag ++ (s ++ post)) := by simp [ht]
      have hwithin := h.within (htext.trans (by simp))
      simp only [List.append_assoc, List.cons_append] at hwithin
      have hrun := Text.isRun_of_eq htext htag
      simp only [List.append_assoc, List.cons_append, List.nil_append] at hrun
      exact ⟨_, _, Text.isSlice_of_eq hopen, hrun, hletter, hwithin⟩

/-- An end tag that is read stands in the text. -/
lemma ReadsToken.isEndTag {tag : Text} {l : Location} (h : ReadsToken s l (.endTag tag) post)
    (ht : text = pre ++ (s ++ post)) :
    IsEndTag text tag pre.byteLength (pre ++ s).byteLength := by
  cases h with
  | @endTag _ b e _ _ hname hb he =>
      have hopen : text = pre ++ (['<', '/'] ++ (tag ++ (b ++ (e ++ post)))) := by simp [ht]
      have htag : text = (pre ++ ['<', '/']) ++ (tag ++ (b ++ (e ++ post))) := by simp [ht]
      have hblanks : text = (pre ++ ['<', '/'] ++ tag) ++ (b ++ (e ++ post)) := by simp [ht]
      refine ⟨_, _, _, b, Text.isSlice_of_eq hopen, Text.isRun_of_eq htag hname,
        Text.isRun_of_eq hblanks hb, ?_⟩
      rcases he with rfl | ⟨rfl, hhead⟩
      · have hend := Text.isSlice_of_eq (t := text) (p := pre ++ ['<', '/'] ++ tag ++ b)
          (s := ['>']) (r := post) (by simp [ht])
        exact .inl (by simpa using hend)
      · refine .inr ⟨by simp, fun r hr => ?_⟩
        rw [Text.dropBytes?_of_eq ht] at hr
        cases hr
        exact hhead

/-! ### Pieces -/

/-- The pieces have been read one after the other in front of `post`, the first at the location
`l`. -/
def IsReadFrom (post : Text) : Location → List Piece → Prop
  | _, [] => True
  | l, p :: ps =>
      p.location = l ∧ ReadsToken p.source l p.token (sourceOf ps ++ post) ∧
        IsReadFrom post (l.after p.source) ps

/-- Pieces that are scanned are read one by one. -/
lemma Scans.isReadFrom {t : Text} {l : Location} {ps : List Piece} (h : Scans t l ps) :
    IsReadFrom [] l ps := by
  induction h with
  | nil => trivial
  | @cons s t l token ps h hps ih =>
      refine ⟨rfl, ?_, ih⟩
      rwa [List.append_nil, hps.sourceOf_eq]

/-- Pieces are read in two parts. -/
lemma isReadFrom_append {l : Location} {ps qs : List Piece} :
    IsReadFrom post l (ps ++ qs) ↔
      IsReadFrom (sourceOf qs ++ post) l ps ∧ IsReadFrom post (l.after (sourceOf ps)) qs := by
  induction ps generalizing l with
  | nil => simp [IsReadFrom, sourceOf]
  | cons p ps ih =>
      rw [List.cons_append, IsReadFrom, IsReadFrom, ih, sourceOf_cons, Location.after_append,
        sourceOf_append, List.append_assoc, and_assoc, and_assoc]

/-! ### Rows -/

/-- A text that has not been condensed is its own source. -/
def IsOriginal (n : Node) : Prop := ∀ l, n = .text l → l.content = l.source

/-- A gap in front of a row is part of it. -/
lemma Row.of_gap {ns : List Node} {a b c : Nat} (h : text.IsGap a b) (hns : Row text ns b c) :
    Row text ns a c := by
  cases hns with
  | nil h' => exact .nil (h.append h')
  | cons h' hn hns => exact .cons (h.append h') hn hns

/-- Condensing only takes blanks out of a row. -/
lemma Row.condenseAfter {ns : List Node} {a b : Nat} (h : Row text ns a b)
    (hns : ∀ n ∈ ns, IsOriginal n) (before : Option Node) :
    Row text (condenseAfter before ns) a b := by
  induction ns generalizing a before with
  | nil => exact h
  | cons n ns ih =>
      cases h with
      | @cons _ _ _ c d _ hgap hn hrow =>
          have hrest := ih hrow (fun m hm => hns m (List.mem_cons_of_mem n hm)) (some n)
          rw [Markup.condenseAfter]
          cases n with
          | text l =>
              cases hn with
              | @leaf _ token r _ _ hl hr hread htoken =>
                  cases hread
                  have hsource : l.content = l.source := hns _ List.mem_cons_self l rfl
                  rw [condenseNode]
                  -- A blank text that is dropped becomes a gap, and any other one stays.
                  split_ifs with hblank hdrop
                  · exact hrest.of_gap (hgap.append ⟨l.source, hl.source, hsource ▸ hblank⟩)
                  · exact .cons hgap (.leaf hl hr .text htoken) hrest
                  · exact .cons hgap (.leaf hl hr .text htoken) hrest
          | element e cs => exact .cons hgap hn hrest
          | comment l => exact .cons hgap hn hrest
          | interpolation l => exact .cons hgap hn hrest

/-- Siblings that have not been condensed are their own sources if they are texts. -/
lemma Nests.isOriginal {ps : List Piece} {ns : List Node} (h : Nests ps ns) {l : Location}
    (hread : IsReadFrom post l ps) : ∀ n ∈ ns, IsOriginal n := by
  induction h generalizing l post with
  | nil => simp
  | @leaf p n ps ns hp _ ih =>
      obtain ⟨-, htoken, hps⟩ := hread
      refine List.forall_mem_cons.mpr ⟨?_, ih hps⟩
      rintro leaf rfl
      cases hp with
      | text hcontent =>
          rw [hcontent] at htoken
          exact htoken.content_eq
  | @element p q inner cs ps ns tag properties _ _ _ _ _ _ ih =>
      obtain ⟨-, -, hread⟩ := hread
      obtain ⟨-, -, -, hps⟩ := isReadFrom_append.mp hread
      exact List.forall_mem_cons.mpr ⟨by rintro l ⟨⟩, ih hps⟩

/-- A node stands where its piece does. -/
lemma Piece.IsLeaf.covers {p : Piece} {n : Node} (hp : p.IsLeaf n)
    (hl : p.location = Location.first.after pre)
    (hread : ReadsToken p.source (Location.first.after pre) p.token post)
    (ht : text = pre ++ (p.source ++ post)) :
    n.Covers text pre.byteLength (pre ++ p.source).byteLength := by
  have hfrom : IsFrom text p.source p.location pre.byteLength (pre ++ p.source).byteLength :=
    hl ▸ isFrom_of_eq ht
  have hrest := Text.dropBytes?_of_eq ht
  -- Each leaf is read from its piece; a tag that is closed is an element without children.
  cases hp with
  | text htoken =>
      rw [htoken, ← hl] at hread
      obtain rfl := hread.content_eq
      exact .leaf hfrom hrest .text hread
  | comment htoken =>
      rw [htoken, ← hl] at hread
      exact .leaf hfrom hrest .comment hread
  | interpolation htoken =>
      rw [htoken, ← hl] at hread
      exact .leaf hfrom hrest .interpolation hread
  | element htoken hclosed =>
      rw [htoken] at hread
      exact .empty hfrom (hread.isStartTag ht) hclosed

/-- The children of an element stand in a row, condensed or not. -/
lemma Row.childrenOf {ns : List Node} {a b : Nat} (h : Row text ns a b)
    (hns : ∀ n ∈ ns, IsOriginal n) (tag : Text) : Row text (childrenOf tag ns) a b := by
  rw [Markup.childrenOf]
  split_ifs
  · exact h
  · exact h.condenseAfter hns none

/-- Siblings are a row of their pieces. -/
lemma Nests.row {ps : List Piece} {ns : List Node} (h : Nests ps ns)
    (hread : IsReadFrom post (Location.first.after pre) ps)
    (ht : text = pre ++ (sourceOf ps ++ post)) :
    Row text ns pre.byteLength (pre ++ sourceOf ps).byteLength := by
  induction h generalizing pre post with
  | nil => exact .nil (Text.isGap_of_eq rfl ht)
  | @leaf p n ps ns hp _ ih =>
      obtain ⟨hl, htoken, hps⟩ := hread
      rw [← Location.after_append] at hps
      have hpiece : text = pre ++ (p.source ++ (sourceOf ps ++ post)) := by
        rw [ht, sourceOf_cons, List.append_assoc]
      have hrest : text = (pre ++ p.source) ++ (sourceOf ps ++ post) := by
        rw [hpiece, List.append_assoc]
      have hgap : text.IsGap pre.byteLength pre.byteLength := by
        simpa using Text.isGap_of_eq (s := []) rfl hpiece
      have hrow := ih hps hrest
      rw [List.append_assoc, ← sourceOf_cons] at hrow
      exact .cons hgap (hp.covers hl htoken hpiece) hrow
  -- The source of the element is that of its start tag, of what is inside, and of its end tag.
  -- Each part is placed behind the parts in front of it.
  | @element p q inner cs ps ns tag properties hp hv hq hinner _ ihinner ih =>
      obtain ⟨hl, htoken, hread⟩ := hread
      obtain ⟨hreadInner, -, hreadEnd, hreadRest⟩ := isReadFrom_append.mp hread
      simp only [← Location.after_append] at hreadInner hreadEnd hreadRest
      simp only [List.append_eq, sourceOf_append, sourceOf_cons, List.append_assoc]
        at htoken hreadInner
      have hpiece : text
          = pre ++ (p.source ++ (sourceOf inner ++ (q.source ++ (sourceOf ps ++ post)))) := by
        simp [ht, sourceOf]
      have hinside : text
          = (pre ++ p.source) ++ (sourceOf inner ++ (q.source ++ (sourceOf ps ++ post))) := by
        rw [hpiece, List.append_assoc]
      have hbehind : text
          = (pre ++ p.source ++ sourceOf inner) ++ (q.source ++ (sourceOf ps ++ post)) := by
        rw [hinside, ← List.append_assoc _ (sourceOf inner)]
      have hrest : text
          = (pre ++ p.source ++ sourceOf inner ++ q.source) ++ (sourceOf ps ++ post) := by
        rw [hbehind, ← List.append_assoc _ q.source]
      have helement : text = pre ++ (sourceOf (p :: inner ++ [q]) ++ (sourceOf ps ++ post)) := by
        rw [hpiece]
        simp [sourceOf]
      have hfrom := isFrom_of_eq helement
      have hstop : pre ++ sourceOf (p :: inner ++ [q])
          = pre ++ p.source ++ sourceOf inner ++ q.source := by simp [sourceOf]
      have hstop' : pre ++ sourceOf (p :: inner ++ q :: ps)
          = pre ++ p.source ++ sourceOf inner ++ q.source ++ sourceOf ps := by simp [sourceOf]
      rw [hstop, ← hl] at hfrom
      rw [hp] at htoken
      rw [hq] at hreadEnd
      have hgap : text.IsGap pre.byteLength pre.byteLength := by
        simpa using Text.isGap_of_eq (s := []) rfl hpiece
      -- White space that the element drops between its children is a gap of the row.
      have hcs := (ihinner hreadInner hinside).childrenOf (hinner.isOriginal hreadInner) tag
      have hcovers : (elementOf p tag properties inner q cs).Covers text pre.byteLength
          (pre ++ p.source ++ sourceOf inner ++ q.source).byteLength :=
        .element hfrom (htoken.isStartTag hpiece) hv hcs (hreadEnd.isEndTag hbehind)
      rw [hstop']
      exact .cons hgap hcovers (ih hreadRest hrest)

/-- **The tree of a template is a view of its text**: the root nodes stand in a row from the
first byte to the last. Each node has the source and the location of its bytes, and these are
read as the node. The properties of an element stand in its start tag, which ends at its angle
bracket; its children stand between its tags; between siblings there are blanks only. -/
theorem parse_covers {nodes : List Node} (h : parse text = .ok nodes) :
    Row text nodes 0 text.byteLength := by
  obtain ⟨ps, ns, hpieces, hns, rfl⟩ := (parse_eq_ok_iff text nodes).mp h
  have hscan := pieces_eq_iff.mp hpieces
  have hread : IsReadFrom [] (Location.first.after []) ps := hscan.isReadFrom
  have ht : text = [] ++ (sourceOf ps ++ []) := by
    rw [hscan.sourceOf_eq, List.append_nil]
    rfl
  have hrow := hns.row hread ht
  rw [List.append_nil, List.nil_append] at ht
  rw [List.nil_append, ← ht] at hrow
  exact hrow.condenseAfter (hns.isOriginal hread) none

/-- A paragraph without the angle bracket of its end tag. -/
def noteText : Text :=
  "<p :id='é' lang=fr>\n <b>x</b >\n <!-- c -->\n\x7b\x7b y \x7d\x7d < z<br></p\n"

/-- The nodes of the paragraph: two of its blank texts are gone. -/
def noteNodes : List Node := [
  .element ⟨"p", .ordinary, [
      .directive ⟨"bind", some "id", false, some "é", [], none, ⟨1, 4⟩, ":id='é'"⟩,
      .plain ⟨"lang", some "fr", ⟨1, 12⟩⟩], ⟨1, 1⟩, noteText⟩ [
    .element ⟨"b", .ordinary, [], ⟨2, 2⟩, "<b>x</b >"⟩ [.text ⟨"x", ⟨2, 5⟩, "x"⟩],
    .comment ⟨" c ", ⟨3, 2⟩, "<!-- c -->"⟩,
    .text ⟨" ", ⟨3, 12⟩, "\n"⟩,
    .interpolation ⟨"y", ⟨4, 1⟩, "\x7b\x7b y \x7d\x7d"⟩,
    .text ⟨" < z", ⟨4, 8⟩, " < z"⟩,
    .element ⟨"br", .ordinary, [], ⟨4, 12⟩, "<br>"⟩ []]]

theorem parse_covers_note :
    parse noteText = .ok noteNodes ∧ Row noteText noteNodes 0 noteText.byteLength := by
  have hparse : parse noteText = .ok noteNodes := by with_unfolding_all rfl
  exact ⟨hparse, parse_covers hparse⟩

end Markup

end ComponentMigration
