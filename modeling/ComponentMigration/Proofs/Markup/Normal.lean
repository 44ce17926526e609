import ComponentMigration.Proofs.Lowering.Failure
import ComponentMigration.Proofs.Markup.Isolation
import ComponentMigration.Proofs.Markup.Readable

/-!
The normal form of parsed markup.

* **Texts.** `IsSpaced t`: the only spacing in `t` is single spaces.
* **Siblings.** `AreCondensed ns` says where blank texts may stand and what texts look like. All of
  it comes from one equation, that condensing once more changes nothing
  (`areCondensed_of_condense_eq`).
* **Elements.** `Element.IsNormal` says of an element and its children what parsing makes of
  them. What it says of the properties goes back to the start tag that they were read from
  (`exists_readsProperties`).
* **Main statement.** `parse_normal`: what is parsed is in normal form at every depth, so lowering
  never meets a malformed `v-for` in it.
-/

namespace ComponentMigration.Markup

variable {t : Text} {n : Node} {ns : List Node} {before after : Option Node} {l : Leaf}

/-! ### Texts -/

/-- A text without tabs, line breaks, form feeds and two spaces in a row. -/
structure IsSpaced (t : Text) : Prop where
  chars : ∀ c ∈ t, c ≠ '\t' ∧ c ≠ '\n' ∧ c ≠ '\r' ∧ c ≠ '\x0c'
  single : ¬ [' ', ' '] <:+: t

/-- In front of a spaced text a character stays apart from spaces if it is no spacing, or if it
is a space that none follows. -/
lemma IsSpaced.cons {c : Char} (h : IsSpaced t) (hc : isSpacing c = true → c = ' ')
    (hnext : c = ' ' → t.head? ≠ some ' ') : IsSpaced (c :: t) := by
  refine ⟨List.forall_mem_cons.mpr ⟨?_, h.chars⟩, fun hspaces => ?_⟩
  · by_cases hspace : isSpacing c = true
    · rw [hc hspace]
      decide
    · simp only [isSpacing, Bool.or_eq_true, beq_iff_eq] at hspace
      tauto
  · rcases List.infix_cons_iff.mp hspaces with hprefix | hinfix
    · obtain ⟨hfirst, hrest⟩ := List.cons_prefix_cons.mp hprefix
      obtain ⟨u, rfl⟩ := hrest
      exact hnext hfirst.symm rfl
    · exact h.single hinfix

lemma isSpaced_nil : IsSpaced [] := ⟨by simp, by simp⟩

/-- Condensing leaves single spaces only. -/
lemma isSpaced_condenseSpacing (t : Text) : IsSpaced (condenseSpacing t) := by
  have hspace : isSpacing ' ' = true := by decide
  fun_induction condenseSpacing t with
  | case1 => exact isSpaced_nil
  | case2 c hc => exact isSpaced_nil.cons (fun _ => rfl) (by simp)
  | case3 c hc => exact isSpaced_nil.cons (fun h => absurd h hc) (by simp)
  | case4 c d t hc hd ih => exact ih
  | case5 c d t hc hd ih =>
      refine ih.cons (fun _ => rfl) fun _ => ?_
      rw [head?_condenseSpacing (eq_false_of_ne_true hd)]
      rintro ⟨⟩
      exact hd hspace
  | case6 c d t hc ih =>
      refine ih.cons (fun h => absurd h hc) ?_
      rintro rfl
      exact absurd hspace hc

/-! ### Siblings -/

/-- A comment. -/
def Node.IsComment : Node → Prop
  | .comment _ => True
  | _ => False

/-- An element. -/
def Node.IsElement : Node → Prop
  | .element _ _ => True
  | _ => False

/-- Siblings whose whitespace is condensed. -/
structure AreCondensed (ns : List Node) : Prop where
  first : ∀ l, ns.head? = some (.text l) → Text.isBlankText l.content = false
  last : ∀ l, ns.getLast? = some (.text l) → Text.isBlankText l.content = false
  blank : ∀ l, .text l ∈ ns → Text.isBlankText l.content = true → l.content = [' ']
  /-- No blank text stands between two comments or between a comment and an element. -/
  between : ∀ n l m, [n, .text l, m] <:+: ns → Text.isBlankText l.content = true →
    ¬ (n.IsComment ∧ (m.IsComment ∨ m.IsElement)) ∧ ¬ (n.IsElement ∧ m.IsComment)
  spaced : ∀ l, .text l ∈ ns → IsSpaced l.content
  stable : condense ns = ns

lemma length_condenseAfter_le (before : Option Node) (ns : List Node) :
    (condenseAfter before ns).length ≤ ns.length := by
  induction ns generalizing before with
  | nil => exact Nat.le_refl 0
  | cons n ns ih =>
      rw [condenseAfter]
      split
      · exact Nat.succ_le_succ (ih _)
      · exact Nat.le_succ_of_le (ih _)

/-- Condensing changes nothing if it keeps the first node and changes nothing behind it. -/
lemma condenseAfter_cons_eq_iff :
    condenseAfter before (n :: ns) = n :: ns ↔
      condenseNode before n ns.head? = some n ∧ condenseAfter (some n) ns = ns := by
  rw [condenseAfter]
  split
  · next kept hkept => rw [List.cons.injEq, hkept, Option.some.injEq]
  · next hnone =>
      refine iff_of_false (fun h => ?_) (by simp [hnone])
      have hle := length_condenseAfter_le (some n) ns
      rw [h, List.length_cons] at hle
      omega

/-- If condensing changes nothing, every node is kept between its neighbours. -/
lemma condenseNode_of_condenseAfter_eq {earlier later : List Node}
    (h : condenseAfter before (earlier ++ n :: later) = earlier ++ n :: later) :
    condenseNode (earlier.getLast?.or before) n later.head? = some n := by
  induction earlier generalizing before with
  | nil => exact (condenseAfter_cons_eq_iff.mp h).1
  | cons m earlier ih =>
      have hm := ih (condenseAfter_cons_eq_iff.mp h).2
      rw [List.getLast?_cons, Option.some_or]
      cases hlast : earlier.getLast? with
      | none =>
          rw [hlast] at hm
          exact hm
      | some m' =>
          rw [hlast] at hm
          exact hm

/-- A text that is kept is a single space that nothing drops, or it is not blank and its runs of
spacing are condensed. -/
lemma condenseNode_text_eq_iff :
    condenseNode before (.text l) after = some (.text l) ↔
      (l.content = [' '] ∧ isDroppedBetween l.content before after = false) ∨
        (Text.isBlankText l.content = false ∧ condenseSpacing l.content = l.content) := by
  have hspace : Text.isBlankText [' '] = true := by decide
  obtain ⟨content, location, source⟩ := l
  rw [condenseNode]
  cases hblank : Text.isBlankText content with
  | true =>
      cases hdropped : isDroppedBetween content before after <;> simp [eq_comm]
  | false =>
      have hne : content ≠ [' '] := by
        rintro rfl
        rw [hspace] at hblank
        cases hblank
      simp [hne]

/-- **What condensing does not change is condensed.** -/
lemma areCondensed_of_condense_eq (h : condense ns = ns) : AreCondensed ns := by
  have hkept (earlier later : List Node) (l : Leaf) (hns : ns = earlier ++ .text l :: later) :
      (l.content = [' '] ∧ isDroppedBetween l.content earlier.getLast? later.head? = false) ∨
        (Text.isBlankText l.content = false ∧ condenseSpacing l.content = l.content) := by
    rw [hns] at h
    have hnode := condenseNode_of_condenseAfter_eq h
    rw [Option.or_none] at hnode
    exact condenseNode_text_eq_iff.mp hnode
  refine ⟨fun l hl => ?_, fun l hl => ?_, fun l hl hblank => ?_, fun n l m hns hblank => ?_,
    fun l hl => ?_, h⟩
  · obtain ⟨later, hns⟩ := List.head?_eq_some_iff.mp hl
    rcases hkept [] later l hns with ⟨-, hdropped⟩ | ⟨hblank, -⟩
    · cases hdropped
    · exact hblank
  · obtain ⟨earlier, hns⟩ := List.getLast?_eq_some_iff.mp hl
    rcases hkept earlier [] l hns with ⟨-, hdropped⟩ | ⟨hblank, -⟩
    · cases hlast : earlier.getLast? <;> simp [hlast, isDroppedBetween] at hdropped
    · exact hblank
  · obtain ⟨earlier, later, hns⟩ := List.append_of_mem hl
    rcases hkept earlier later l hns with ⟨hspace, -⟩ | ⟨hnot, -⟩
    · exact hspace
    · rw [hnot] at hblank
      cases hblank
  · obtain ⟨earlier, later, hns⟩ := hns
    have hns' : ns = (earlier ++ [n]) ++ .text l :: m :: later := by simp [← hns]
    rcases hkept _ _ l hns' with ⟨-, hdropped⟩ | ⟨hnot, -⟩
    · rw [List.getLast?_append_of_ne_nil _ (by simp), List.getLast?_singleton,
        List.head?_cons] at hdropped
      cases n <;> cases m <;> simp_all [isDroppedBetween, Node.IsComment, Node.IsElement]
    · rw [hnot] at hblank
      cases hblank
  · obtain ⟨earlier, later, hns⟩ := List.append_of_mem hl
    rcases hkept earlier later l hns with ⟨hspace, -⟩ | ⟨-, hcondensed⟩
    · rw [hspace]
      exact isSpaced_nil.cons (fun _ => rfl) (by simp)
    · rw [← hcondensed]
      exact isSpaced_condenseSpacing _

/-! ### Elements -/

/-- An element and its children as they are parsed. -/
structure Element.IsNormal (e : Element) (children : List Node) : Prop where
  apart : AreApart children
  /-- The blanks in a `pre` stay. -/
  condensed : e.tag ≠ "pre".toList → AreCondensed children
  void : isVoidTag e.tag = true → children = []
  container : e.kind = .container ↔ e.tag = "template".toList ∧
    ∃ d ∈ e.directives, d.name ∈ (["if", "else-if", "else", "for", "slot"] : List Text)
  binding : ∀ d ∈ e.directives, d.binding.isSome = true ↔ d.name = "for".toList

/-- A container is a `template` with a structural directive. -/
lemma kindOf_eq_container_iff {tag : Text} {ps : List Property} :
    kindOf tag ps = .container ↔ tag = "template".toList ∧
      ∃ d ∈ ps.filterMap Property.directive?, d.name ∈ structuralNames := by
  have hany : ps.any (fun p => p.directive?.any (structuralNames.contains ·.name)) = true ↔
      ∃ d ∈ ps.filterMap Property.directive?, d.name ∈ structuralNames := by
    simp only [List.any_eq_true, Option.any_eq_true, List.contains_iff_mem, List.mem_filterMap]
    tauto
  rw [kindOf, ← hany]
  split_ifs with h
  · exact iff_of_true rfl h
  · exact iff_of_false (by simp) h

/-- A directive has a binding if it is a loop. -/
lemma isSome_binding_of_ofRaw {name source : Text} {value : Option Text} {location : Location}
    {d : Directive} (h : Directive.ofRaw name value location source = .ok d) :
    d.binding.isSome = true ↔ d.name = "for".toList := by
  simp only [Directive.ofRaw] at h
  by_cases hfor : (NameParts.ofText name).explicit.getD (shorthandName name) = "for".toList
  · rw [if_pos hfor] at h
    cases hbinding : ForBinding.read? (value.getD []) with
    | none =>
        rw [hbinding] at h
        cases h
    | some binding =>
        rw [hbinding] at h
        cases h
        exact iff_of_true rfl hfor
  · rw [if_neg hfor] at h
    cases h
    exact iff_of_false (by simp) hfor

/-- Properties are read from raw attributes. -/
lemma ReadsProperties.exists_ofRaw {s r : Text} {location : Location} {ps : List Property}
    {isClosed : Bool} (h : ReadsProperties s location ps isClosed r) :
    ∀ p ∈ ps, ∃ name value l source, Property.ofRaw name value l source = .ok p := by
  induction h with
  | closed _ => simp
  | opened _ => simp
  | slash _ _ _ ih => exact ih
  | property _ h _ ih =>
      obtain ⟨-, -, -, hp⟩ := h
      exact List.forall_mem_cons.mpr ⟨⟨_, _, _, _, hp⟩, ih⟩

lemma ReadsToken.readsProperties {s r : Text} {location : Location} {tag : Text}
    {ps : List Property} {isClosed : Bool}
    (h : ReadsToken s location (.startTag tag ps isClosed) r) :
    ∃ s' location', ReadsProperties s' location' ps isClosed r := by
  cases h with
  | startTag _ _ h => exact ⟨_, _, h⟩

/-! ### What is parsed -/

section Parsed

variable {text : Text} {nodes children : List Node} {e : Element}

/-- An element has the properties of a start tag in the text. -/
lemma exists_readsProperties (h : parse text = .ok nodes)
    (hoccurs : Occurs (.element e children) nodes) :
    ∃ s location isClosed r, ReadsProperties s location e.properties isClosed r := by
  obtain ⟨ps, ns, hpieces, hns, rfl⟩ := (parse_eq_ok_iff text nodes).mp h
  obtain ⟨before, own, behind, rfl, hown⟩ := hns.exists_append id (hoccurs.of_condense id)
  have hread := (pieces_eq_iff.mp hpieces).areRead
  have hstart : ∃ p ∈ own, ∃ isClosed, p.token = .startTag e.tag e.properties isClosed := by
    cases hown with
    | @leaf p _ _ _ hp _ =>
        cases hp with
        | element hp _ => exact ⟨p, by simp, _, hp⟩
    | @element p _ _ _ _ _ _ _ hp _ _ _ _ => exact ⟨p, by simp, _, hp⟩
  obtain ⟨p, hp, isClosed, htoken⟩ := hstart
  obtain ⟨location, hreads⟩ := hread.tokens p (by simp [hp])
  rw [htoken] at hreads
  obtain ⟨s, l, hproperties⟩ := hreads.readsProperties
  exact ⟨s, l, isClosed, p.rest, hproperties⟩

/-- A directive of an element has a binding if it is a loop. -/
lemma isSome_binding_of_parse (h : parse text = .ok nodes)
    (hoccurs : Occurs (.element e children) nodes) {d : Directive} (hd : d ∈ e.directives) :
    d.binding.isSome = true ↔ d.name = "for".toList := by
  obtain ⟨s, location, isClosed, r, hreads⟩ := exists_readsProperties h hoccurs
  obtain ⟨p, hp, hdirective⟩ := List.mem_filterMap.mp hd
  obtain ⟨name, value, l, source, hraw⟩ := hreads.exists_ofRaw p hp
  obtain ⟨-, rfl⟩ | ⟨d', hd', rfl⟩ := Property.ofRaw_eq_ok hraw
  · cases hdirective
  · cases hdirective
    exact isSome_binding_of_ofRaw hd'

lemma isNormal_of_parse (h : parse text = .ok nodes)
    (hoccurs : Occurs (.element e children) nodes) : e.IsNormal children := by
  cases isReadable_of_parse h hoccurs with
  | element he hvoid hcs hapart hcondensed =>
      refine ⟨hapart, fun hpre => ?_, hvoid, ?_, fun d hd => isSome_binding_of_parse h hoccurs hd⟩
      · rw [childrenOf, if_neg hpre] at hcondensed
        exact areCondensed_of_condense_eq hcondensed
      · rw [he.kind, kindOf_eq_container_iff]
        rfl

/-- The root nodes are apart, and condensed for good. -/
lemma areCondensed_of_parse (h : parse text = .ok nodes) :
    AreApart nodes ∧ AreCondensed nodes := by
  obtain ⟨ps, ns, hpieces, hns, rfl⟩ := (parse_eq_ok_iff text nodes).mp h
  obtain ⟨-, hapart⟩ := hns.isReadable (pieces_eq_iff.mp hpieces).areRead
  exact ⟨hapart.condenseAfter none, areCondensed_of_condense_eq (condense_condense hapart)⟩

/-- **The normal form of parsed markup.** At every depth no two texts are neighbours, whitespace is
condensed except inside of a `pre`, void elements are empty, containers are the templates with a
structural directive, and loops are the directives with a binding. So lowering what is parsed does
not report a malformed `v-for`. -/
theorem parse_normal (h : parse text = .ok nodes) :
    (AreApart nodes ∧ AreCondensed nodes) ∧
      (∀ e children, Occurs (.element e children) nodes → e.IsNormal children) ∧
      ∀ d, Lowering.root nodes = .error d → d.cause.code ≠ Code.malformedFor := by
  refine ⟨areCondensed_of_parse h, fun e children => isNormal_of_parse h, ?_⟩
  refine Lowering.root_failsOnly fun e children hoccurs d hd => ?_
  have hloop : d ∈ e.directives ∧ d.name = "for".toList := by
    rw [Element.loop?, e.findDirective_eq] at hd
    exact ⟨List.mem_of_find?_eq_some hd, by simpa using List.find?_some hd⟩
  exact (isSome_binding_of_parse h hoccurs hloop.1).mpr hloop.2

end Parsed

/-- A repeated template: a void element, a comment and a `pre` between blank texts. -/
def rosterText : Text :=
  "<template v-for=\"x in xs\">\n  <br> <!--or-->\n <pre>  </pre> a\t b</template> "

/-- The template without its children. -/
def rosterHead : Element :=
  ⟨"template", .container, [.directive ⟨"for", none, false, some "x in xs", [],
    some ⟨"xs", some "x", none, none⟩, ⟨1, 11⟩, "v-for=\"x in xs\""⟩], ⟨1, 1⟩,
    "<template v-for=\"x in xs\">\n  <br> <!--or-->\n <pre>  </pre> a\t b</template>"⟩

/-- The children of the template: no blank text is left but the one in the `pre`. -/
def rosterChildren : List Node := [
  .element ⟨"br", .ordinary, [], ⟨2, 3⟩, "<br>"⟩ [],
  .comment ⟨"or", ⟨2, 8⟩, "<!--or-->"⟩,
  .element ⟨"pre", .ordinary, [], ⟨3, 2⟩, "<pre>  </pre>"⟩ [.text ⟨"  ", ⟨3, 7⟩, "  "⟩],
  .text ⟨" a b", ⟨3, 15⟩, " a\t b"⟩]

theorem parse_normal_roster :
    parse rosterText = .ok [.element rosterHead rosterChildren] ∧
      AreCondensed [.element rosterHead rosterChildren] ∧ rosterHead.IsNormal rosterChildren ∧
      ∀ d, Lowering.root [.element rosterHead rosterChildren] = .error d →
        d.cause.code ≠ Code.malformedFor := by
  have hparse : parse rosterText = .ok [.element rosterHead rosterChildren] := by
    with_unfolding_all rfl
  obtain ⟨⟨-, hcondensed⟩, hnormal, hlowering⟩ := parse_normal hparse
  exact ⟨hparse, hcondensed, hnormal _ _ (.member (.head _)), hlowering⟩

end ComponentMigration.Markup
