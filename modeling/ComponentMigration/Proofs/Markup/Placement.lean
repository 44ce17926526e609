import ComponentMigration.Proofs.Lowering.Failure
import ComponentMigration.Proofs.Markup.Ranges

/-!
Where the diagnostics of a template stand in its text.

* **Places.** `text.ShowsAt l s`: from the location `l` on, the text reads `s`. This can be
  computed, by a walk over the text (`showsFrom_iff`).
* **Diagnostics.** A diagnostic `IsPlaced` in a text if it names no file and its context is what
  the text shows at its location. A placed one that reports the markup `IsFault`.
* **Reading.** A cursor that `IsIn` the text reports only what is placed there, and stays in the
  text as it moves on. Pieces and open elements remember where they began.
* **Lowering.** A node that covers bytes of the text is reported where they are.
* **Main statements.** `parse_failsOnly` and `root_failsOnly_isPlaced`: reading a template fails
  only with faults of its text, and lowering its nodes with diagnostics that are placed in it.
-/

namespace ComponentMigration

/-! ### Places -/

/-- From the location `l` on, the text reads `s`. -/
def Text.ShowsAt (text : Text) (l : Location) (s : Text) : Prop :=
  ∃ pre post, text = pre ++ (s ++ post) ∧ Location.first.after pre = l

/-- Whether a text that begins at `here` reads `s` from the location `l` on. -/
def Text.showsFrom (l : Location) (s : Text) (here : Location) : Text → Bool
  | [] => here = l && s.isPrefixOf []
  | c :: t => (here = l && s.isPrefixOf (c :: t)) || showsFrom l s (here.next c) t

lemma Text.showsFrom_iff {text s : Text} {here l : Location} :
    showsFrom l s here text = true ↔
      ∃ pre post, text = pre ++ (s ++ post) ∧ here.after pre = l := by
  induction text generalizing here with
  | nil =>
      simp only [showsFrom, Bool.and_eq_true, decide_eq_true_eq, List.isPrefixOf_iff_prefix,
        List.prefix_nil]
      constructor
      · rintro ⟨hl, rfl⟩
        exact ⟨[], [], rfl, hl⟩
      · rintro ⟨pre, post, h, hl⟩
        obtain ⟨rfl, hs⟩ := List.append_eq_nil_iff.mp h.symm
        exact ⟨hl, (List.append_eq_nil_iff.mp hs).1⟩
  | cons c t ih =>
      simp only [showsFrom, Bool.or_eq_true, Bool.and_eq_true, decide_eq_true_eq,
        List.isPrefixOf_iff_prefix, ih]
      constructor
      · rintro (⟨hl, post, h⟩ | ⟨pre, post, rfl, hl⟩)
        · exact ⟨[], post, h.symm, hl⟩
        · exact ⟨c :: pre, post, rfl, hl⟩
      · rintro ⟨pre, post, h, hl⟩
        cases pre with
        | nil => exact .inl ⟨hl, post, h.symm⟩
        | cons d pre =>
            cases h
            exact .inr ⟨pre, post, rfl, hl⟩

instance (text s : Text) (l : Location) : Decidable (text.ShowsAt l s) :=
  decidable_of_iff (Text.showsFrom l s .first text = true) Text.showsFrom_iff

/-- The diagnostic names no file, and its context is what the text shows at its location. -/
structure Diagnostic.IsPlaced (text : Text) (d : Diagnostic) : Prop where
  file : d.file = []
  context : ∃ s, d.context = some s ∧ text.ShowsAt d.location s

/-- A fault of the markup, placed in the text. Two codes report such faults. -/
structure Diagnostic.IsFault (text : Text) (d : Diagnostic) : Prop extends d.IsPlaced text where
  code : d.cause.code = Code.templateSyntax ∨ d.cause.code = Code.malformedFor

namespace Markup

variable {text : Text}

/-! ### Cursors -/

/-- The cursor reads the text. -/
def Cursor.IsIn (c : Cursor) (text : Text) : Prop :=
  ∃ pre, text = pre ++ c.rest ∧ c.location = Location.first.after pre

namespace Cursor

variable {c c' start : Cursor} {s : Text}

lemma isIn_ofText (text : Text) : (Cursor.ofText text).IsIn text := ⟨[], rfl, rfl⟩

lemma IsIn.passes (h : c.IsIn text) (hp : c.Passes s c') : c'.IsIn text := by
  obtain ⟨pre, rfl, hl⟩ := h
  refine ⟨pre ++ s, by rw [hp.rest, List.append_assoc], ?_⟩
  rw [hp.location, hl, Location.after_append]

lemma IsIn.drop (h : c.IsIn text) (n : Nat) : (c.drop n).IsIn text := by
  have hsplit : c.rest = c.rest.take n ++ c.rest.drop n := (List.take_append_drop n _).symm
  exact h.passes ⟨hsplit, rfl⟩

lemma IsIn.dropBlanks (h : c.IsIn text) : c.dropBlanks.IsIn text := h.drop _

/-- The text shows at a cursor all that comes next. -/
lemma IsIn.showsAt (h : c.IsIn text) (hs : s <+: c.rest) : text.ShowsAt c.location s := by
  obtain ⟨pre, rfl, hl⟩ := h
  obtain ⟨post, hpost⟩ := hs
  exact ⟨pre, post, by rw [hpost], hl.symm⟩

lemma IsIn.diagnose (h : c.IsIn text) {cause : Cause} (hcode : cause.code = Code.templateSyntax) :
    (c.diagnose cause).IsFault text :=
  ⟨⟨rfl, _, rfl, h.showsAt (List.take_prefix _ _)⟩, .inl hcode⟩

end Cursor

/-! ### Properties -/

variable {c start : Cursor}

lemma ofRaw_failsOnly {name source : Text} {value : Option Text} {l : Location}
    (h : text.ShowsAt l source) :
    FailsOnly (Diagnostic.IsFault text) (Property.ofRaw name value l source) := by
  rw [Property.ofRaw]
  split_ifs
  · refine FailsOnly.map ?_
    simp only [Directive.ofRaw]
    by_cases hfor : (NameParts.ofText name).explicit.getD (shorthandName name) = "for".toList
    · rw [if_pos hfor]
      split
      · exact .ok _
      · exact .error ⟨⟨rfl, _, rfl, h⟩, .inr rfl⟩
    · rw [if_neg hfor]
      exact .ok _
  · exact .ok _

lemma readValue_failsOnly (hstart : start.IsIn text) :
    FailsOnly (Diagnostic.IsFault text) (readValue start c) := by
  rw [readValue]
  split
  · exact .ok _
  · split_ifs
    · split
      · exact .ok _
      · exact .error (hstart.diagnose rfl)
    · exact .ok _

lemma readValue?_failsOnly (hstart : start.IsIn text) :
    FailsOnly (Diagnostic.IsFault text) (readValue? start c) := by
  rw [readValue?]
  split_ifs
  · exact (readValue_failsOnly hstart).map
  · exact .ok _

lemma readProperty_failsOnly (hc : c.IsIn text) :
    FailsOnly (Diagnostic.IsFault text) (readProperty c) := by
  rw [readProperty]
  split_ifs
  · exact .error (hc.diagnose rfl)
  · split
    · next d hd => exact .error (readValue?_failsOnly hc d hd)
    · exact (ofRaw_failsOnly (hc.showsAt (List.take_prefix _ _))).map

/-- The properties of a start tag fail as one of them, or as the tag. -/
lemma readProperties_failsOnly {tag : Text} (hstart : start.IsIn text) (hc : c.IsIn text) :
    FailsOnly (Diagnostic.IsFault text) (readProperties start tag c) := by
  fun_induction readProperties start tag c with
  | case1 c _ => exact .error (hstart.diagnose rfl)
  | case2 c _ _ => exact .ok _
  | case3 c _ _ => exact .ok _
  | case4 c _ _ _ ih => exact ih (hc.dropBlanks.drop 1)
  | case5 c _ _ _ _ _ _ d hd => exact .error (readProperty_failsOnly hc.dropBlanks d hd)
  | case6 c _ _ _ _ _ _ p c' hp d hd ih =>
      obtain ⟨s, hpass, -⟩ := readProperty_eq_ok_iff.mp hp
      exact .error (ih (hc.dropBlanks.passes hpass) d hd)
  | case7 => exact .ok _

/-! ### Pieces -/

lemma read_failsOnly (hc : c.IsIn text) : FailsOnly (Diagnostic.IsFault text) (Token.read c) := by
  rw [Token.read]
  dsimp only
  split_ifs
  · exact .ok _
  · exact .ok _
  · split
    · exact .ok _
    · exact .error (hc.diagnose rfl)
  · split
    · exact .ok _
    · next d hd => exact .error (readProperties_failsOnly hc (hc.drop _) d hd)
  · split
    · exact .ok _
    · exact .error (hc.diagnose rfl)
  · exact .ok _

/-- The piece and all behind it are in the text, at the location of the piece. -/
def Piece.IsIn (p : Piece) (text : Text) : Prop :=
  ∃ pre, text = pre ++ (p.source ++ p.rest) ∧ p.location = Location.first.after pre

lemma Piece.IsIn.diagnose {p : Piece} (h : p.IsIn text) {cause : Cause}
    (hcode : cause.code = Code.templateSyntax) : (Forest.diagnose p cause).IsFault text := by
  have hc : (⟨p.source ++ p.rest, p.location⟩ : Cursor).IsIn text := h
  exact hc.diagnose hcode

/-- All pieces are in the text, and the fault behind them is placed there. -/
lemma pieces_isIn (hc : c.IsIn text) :
    (∀ p ∈ (pieces c).1, p.IsIn text) ∧ ∀ d ∈ (pieces c).2, d.IsFault text := by
  fun_induction pieces c with
  | case1 c hrest => simp
  | case2 c hrest d hd => simpa using read_failsOnly hc d hd
  | case3 c hrest token c' hread ih =>
      obtain ⟨s, hpass, -⟩ := (Token.read_eq_ok_iff hrest).mp hread
      obtain ⟨hpieces, hfault⟩ := ih (hc.passes hpass)
      refine ⟨List.forall_mem_cons.mpr ⟨?_, hpieces⟩, hfault⟩
      obtain ⟨pre, rfl, hl⟩ := hc
      exact ⟨pre, by rw [hpass.upTo_eq, hpass.rest], hl⟩

/-! ### Trees -/

/-- A piece that does not fit is reported where it begins. -/
lemma step_failsOnly {p : Piece} (hp : p.IsIn text) (f : Forest) :
    FailsOnly (Diagnostic.IsFault text) (f.step p) := by
  rw [Forest.step]
  split
  · exact .ok _
  · exact .ok _
  · exact .ok _
  · split_ifs
    · exact .ok _
    · exact .ok _
  · split
    · exact .error (hp.diagnose rfl)
    · split_ifs
      · exact .ok _
      · exact .error (hp.diagnose rfl)

/-- The innermost open element has the source that is read since its start tag. -/
lemma Opens.source_eq {ps : List Piece} {roots : List Node} {e : OpenElement}
    {es : List OpenElement} (h : Opens ps ⟨roots, e :: es⟩) :
    ∃ before p inner, ps = before ++ p :: inner ∧ e.location = p.location ∧
      e.source = sourceOf (p :: inner) := by
  cases h with
  | @element before _ _ p inner cs tag properties h hp hv hinner =>
      refine ⟨before, p, inner, rfl, rfl, ?_⟩
      simp [OpenElement.source, Forest.opened, sourceOf_cons, ← hinner.flatMap_source,
        List.flatMap_def]

/-- An element that is never closed is reported where it begins. -/
lemma finish_failsOnly {ps : List Piece} {f : Forest} (h : Opens ps f)
    (hscan : Scans text .first ps) : FailsOnly (Diagnostic.IsFault text) f.finish := by
  obtain ⟨roots, _ | ⟨e, es⟩⟩ := f
  · exact .ok _
  · obtain ⟨before, p, inner, rfl, hl, hsource⟩ := h.source_eq
    have hbehind := (isReadFrom_append.mp hscan.isReadFrom).2
    obtain ⟨post, hpost⟩ := List.take_prefix Cursor.contextLength e.source
    refine .error ⟨⟨rfl, _, rfl, sourceOf before, post, ?_, ?_⟩, .inl rfl⟩
    · rw [hpost, hsource, ← sourceOf_append, hscan.sourceOf_eq]
    · exact hbehind.1.symm.trans hl.symm

/-- **Reading a template** fails only with faults that are placed in its text. -/
lemma parse_failsOnly (text : Text) : FailsOnly (Diagnostic.IsFault text) (parse text) := by
  obtain ⟨hpieces, hfault⟩ := pieces_isIn (Cursor.isIn_ofText text)
  cases hp : pieces (.ofText text) with
  | mk ps fault =>
      rw [hp] at hpieces hfault
      rw [parse, hp]
      refine (FailsOnly.foldlM (fun p hmem f => step_failsOnly (hpieces p hmem) f) _).bind
        fun f hf => ?_
      cases fault with
      | some d => exact .error (hfault d rfl)
      | none =>
          have hempty : Opens [] .empty := .roots .nil
          exact finish_failsOnly (hempty.foldlM_step hf) (pieces_eq_iff.mp hp)

/-! ### Nodes -/

/-- What has been read from bytes of the text is shown there. -/
lemma IsFrom.showsAt {source : Text} {l : Location} {start stop : Nat}
    (h : IsFrom text source l start stop) : text.ShowsAt l source := by
  obtain ⟨pre, post, rfl, rfl, -⟩ := Text.isSlice_iff.mp h.source
  have hl := h.location
  rw [Location.ofOffset?_byteLength] at hl
  exact ⟨pre, post, rfl, Option.some.inj hl⟩

/-- A directive within a start tag is shown where it is. -/
lemma Within.showsAt {ps : List Property} {isClosed : Bool} {start stop : Nat}
    (h : Within text isClosed ps start stop) {d : Directive} (hd : .directive d ∈ ps) :
    text.ShowsAt d.location d.source := by
  induction h with
  | nil _ => cases hd
  | cons _ hp _ ih =>
      rcases List.mem_cons.mp hd with rfl | hd
      · cases hp with
        | directive hfrom _ _ => exact hfrom.showsAt
      · exact ih hd

/-- An element with a start tag is reported where its directives are. -/
lemma IsStartTag.elementReports {e : Element} {isClosed : Bool} {start stop : Nat}
    (h : IsStartTag text e.tag e.properties isClosed start stop) :
    Lowering.ElementReports (Diagnostic.IsPlaced text) e := by
  obtain ⟨a, b, -, -, -, hwithin⟩ := h
  have hshows : ∀ d ∈ e.directives, text.ShowsAt d.location d.source := by
    intro d hd
    obtain ⟨p, hp, hdirective⟩ := List.mem_filterMap.mp hd
    cases p with
    | plain a => cases hdirective
    | directive d' =>
        cases hdirective
        exact hwithin.showsAt hp
  refine ⟨fun d hd _ _ _ => ⟨rfl, _, rfl, hshows d hd⟩, fun d hd => .inr ?_⟩
  rw [Element.loop?, Element.findDirective_eq] at hd
  exact ⟨rfl, _, rfl, hshows d (List.mem_of_find?_eq_some hd)⟩

/-- A node that covers bytes of the text is reported where they are. -/
lemma Node.Covers.reports {n : Node} {start stop : Nat} (h : n.Covers text start stop) :
    Lowering.Reports (Diagnostic.IsPlaced text) n := by
  cases h with
  | leaf hfrom _ hn _ =>
      refine ⟨fun _ _ => ⟨rfl, _, rfl, hfrom.showsAt⟩, ?_⟩
      rintro e cs rfl
      cases hn
  | empty hfrom htag _ =>
      refine ⟨fun _ _ => ⟨rfl, _, rfl, hfrom.showsAt⟩, ?_⟩
      rintro e cs ⟨⟩
      exact htag.elementReports
  | element hfrom htag _ _ _ =>
      refine ⟨fun _ _ => ⟨rfl, _, rfl, hfrom.showsAt⟩, ?_⟩
      rintro e cs ⟨⟩
      exact htag.elementReports

lemma Row.exists_covers_of_mem {ns : List Node} {start stop : Nat} (h : Row text ns start stop)
    {n : Node} (hn : n ∈ ns) : ∃ a b, n.Covers text a b := by
  induction ns generalizing start with
  | nil => cases hn
  | cons m ns ih =>
      cases h with
      | cons _ hm hns =>
          rcases List.mem_cons.mp hn with rfl | hn
          · exact ⟨_, _, hm⟩
          · exact ih hns hn

/-- Every node that occurs in a row covers bytes of the text. -/
lemma Row.exists_covers {ns : List Node} {start stop : Nat} (h : Row text ns start stop)
    {n : Node} (hn : Occurs n ns) : ∃ a b, n.Covers text a b := by
  induction hn generalizing start stop with
  | member hmem => exact h.exists_covers_of_mem hmem
  | child hmem hn ih =>
      obtain ⟨a, b, hcovers⟩ := h.exists_covers_of_mem hmem
      cases hcovers with
      | leaf _ _ hleaf _ => cases hleaf
      | empty _ _ _ => exact absurd hn (not_occurs_nil n)
      | element _ _ _ hcs _ => exact ih hcs

/-- **Lowering a template** fails only with diagnostics that are placed in its text. -/
lemma root_failsOnly_isPlaced {nodes : List Node} (h : parse text = .ok nodes) :
    FailsOnly (Diagnostic.IsPlaced text) (Lowering.root nodes) :=
  Lowering.root_failsOnly_of_reports fun _ hn =>
    let ⟨_, _, hcovers⟩ := (parse_covers h).exists_covers hn
    hcovers.reports

end Markup

end ComponentMigration
