import ComponentMigration.Markup.Directive
import ComponentMigration.Proofs.Path
import ComponentMigration.Proofs.Text.Search

/-!
The forms of a directive's name.

* **Parts.** A long form `v-name:` is cut at its colon, a short one behind its mark, and what
  follows is cut in the same way (`argument?`), whichever form it is.
* **Modifiers.** Behind an argument without dots every modifier is behind a dot of its own, so
  that splitting at the dots gives them back (`filter_splitOn_dotted`).
* **Main statement.** `ofRaw_forms`: a short form is read as the long one, and a long form is read
  back exactly.
-/

namespace ComponentMigration.Markup

variable {a n name s t tail : Text} {ms : List Text} {e explicit : Option Text}

/-- The long form of a name, with all that follows the colon. -/
def longForm (n s : Text) : Text := 'v' :: '-' :: (n ++ ':' :: s)

/-- The modifiers, each behind a dot. -/
def dotted (ms : List Text) : Text := ms.flatMap ('.' :: ·)

/-- A name of a directive: lower-case letters, digits and hyphens, with a letter in front. -/
structure IsDirectiveWord (n : Text) : Prop where
  head : ∃ c ∈ n.head?, 'a' ≤ c ∧ c ≤ 'z'
  all : ∀ c ∈ n, ('a' ≤ c ∧ c ≤ 'z') ∨ Text.isDigit c = true ∨ c = '-'

instance : DecidablePred IsDirectiveWord := fun n =>
  decidable_of_iff (n.head?.any (fun c => 'a' ≤ c ∧ c ≤ 'z') = true ∧
    ∀ c ∈ n, ('a' ≤ c ∧ c ≤ 'z') ∨ Text.isDigit c = true ∨ c = '-')
    ⟨fun h => ⟨by simpa [Option.any_eq_true] using h.1, h.2⟩,
      fun h => ⟨by simpa [Option.any_eq_true] using h.head, h.all⟩⟩

/-- The marks that stand for a long form, and the names in it. -/
def shortMarks : List (Char × Text) := [(':', "bind"), ('@', "on"), ('#', "slot")]

/-! ### Parts -/

lemma isLetter_foldCase {c : Char} (hc : 'a' ≤ c ∧ c ≤ 'z') :
    Text.isLetter (Text.foldCase c) = true := by
  rw [Text.foldCase, Text.lowerLetter]
  split_ifs with hs hk hupper
  · decide
  · decide
  · exact absurd (Char.le_trans hc.1 hupper.2) (by decide)
  · simp [Text.isLetter, hc]

lemma IsDirectiveWord.runs (hn : IsDirectiveWord n) (s : Text) :
    Text.Runs Text.isHyphenWordChar n (':' :: s) := by
  refine Text.runs_cons (fun c hc => ?_) (by decide)
  rw [Text.isHyphenWordChar]
  rcases hn.all c hc with hletter | hdigit | rfl
  · rw [isLetter_foldCase hletter, Bool.true_or, Bool.true_or]
  · rw [hdigit, Bool.or_true, Bool.true_or]
  · rw [beq_self_eq_true, Bool.or_true]

lemma IsDirectiveWord.ne_nil (hn : IsDirectiveWord n) : n ≠ [] := by
  rintro rfl
  obtain ⟨c, hc, -⟩ := hn.head
  cases hc

/-- A long form is cut at its colon. -/
lemma ofText_longForm (hn : IsDirectiveWord n) (s : Text) :
    NameParts.ofText (longForm n s) = NameParts.ofRest (some n) (':' :: s) := by
  rw [longForm, NameParts.ofText, (hn.runs s).takeWhile_eq, (hn.runs s).dropWhile_eq,
    if_neg hn.ne_nil]

/-- There is an argument unless a dot or nothing stands in its place. -/
lemma exists_argument? (hs : s ≠ []) (hdot : s.head? ≠ some '.') :
    ∃ a tail, argument? s = some (a, tail) := by
  rw [argument?]
  split
  · next r _ => exact ⟨r.1, r.2, rfl⟩
  · refine ⟨_, _, if_neg ?_⟩
    cases s with
    | nil => exact absurd rfl hs
    | cons c s =>
        have hc : (c != '.') = true := by simpa using hdot
        simp [hc]

/-- An argument without dots and brackets ends where the modifiers begin. -/
lemma argument?_append (ha : a ≠ []) (hdot : '.' ∉ a) (hbracket : a.head? ≠ some '[')
    (ht : ∀ c ∈ t.head?, c = '.') : argument? (a ++ t) = some (a, t) := by
  have hruns : Text.Runs (· != '.') a t := by
    refine ⟨fun c hc => ?_, fun c hc => ?_⟩
    · rw [bne_iff_ne]
      rintro rfl
      exact hdot hc
    · rw [ht c hc, bne_self_eq_false]
  have hplain : bracketed? (a ++ t) = none := by
    cases a with
    | nil => exact absurd rfl ha
    | cons c a =>
        rw [List.cons_append, bracketed?]
        rintro _ h
        exact hbracket (congrArg List.head? h)
  rw [argument?, hplain]
  dsimp only
  rw [hruns.takeWhile_eq, hruns.dropWhile_eq, if_neg ha]

/-! ### Modifiers -/

/-- The modifiers in the tail of a name. -/
def modifiersOf (tail : Text) : List Text := (Text.splitOn '.' tail).filter (· ≠ [])

lemma splitOn_append_dotted (ha : '.' ∉ a) (hms : ∀ m ∈ ms, '.' ∉ m) :
    Text.splitOn '.' (a ++ dotted ms) = a :: ms := by
  induction ms generalizing a with
  | nil => exact (congrArg _ (List.append_nil a)).trans (Text.splitOn_of_not_mem ha)
  | cons m ms ih =>
      obtain ⟨hm, hms⟩ := List.forall_mem_cons.mp hms
      have hdotted : dotted (m :: ms) = '.' :: (m ++ dotted ms) := rfl
      rw [hdotted, Text.splitOn_append_cons, Text.splitOn_of_not_mem ha, ih hm hms]
      rfl

/-- Modifiers behind dots are read back. -/
lemma modifiersOf_dotted (hms : ∀ m ∈ ms, m ≠ [] ∧ '.' ∉ m) : modifiersOf (dotted ms) = ms := by
  have hsplit : Text.splitOn '.' (dotted ms) = [] :: ms :=
    splitOn_append_dotted (List.not_mem_nil) fun m hm => (hms m hm).2
  rw [modifiersOf, hsplit, List.filter_cons_of_neg (by simp), List.filter_eq_self]
  exact fun m hm => by simpa using (hms m hm).1

/-- A directive that is none of `v-for` is read from the parts of its name. -/
lemma ofRaw_of_parts (hparts : NameParts.ofText name = ⟨explicit, some a, tail⟩)
    (hname : explicit.getD (shorthandName name) = n) (hfor : n ≠ "for".toList)
    (l : Location) (source : Text) :
    Directive.ofRaw name e l source = .ok ⟨n, some (unbracketed a).1, (unbracketed a).2, e,
      if name.head? = some '.' then ("prop" : Text) :: modifiersOf tail else modifiersOf tail,
      none, l, source⟩ := by
  simp only [Directive.ofRaw, hparts, hname, if_neg hfor]
  rfl

/-- A mark opens an argument. -/
lemma ofRest_of_mark {mark : Char} (hs : argument? s = some (a, tail))
    (hmark : mark = ':' ∨ explicit = none ∧ (mark = '.' ∨ mark = '@' ∨ mark = '#')) :
    NameParts.ofRest explicit (mark :: s) = ⟨explicit, some a, tail⟩ := by
  rw [NameParts.ofRest, if_pos hmark, hs]

/-- A short form is cut behind its mark. -/
lemma ofText_of_mark {mark : Char} (hs : argument? s = some (a, tail))
    (hmark : mark = ':' ∨ mark = '.' ∨ mark = '@' ∨ mark = '#') :
    NameParts.ofText (mark :: s) = ⟨none, some a, tail⟩ := by
  have hrest := ofRest_of_mark hs (hmark.imp_right fun h => ⟨rfl, h⟩)
  rcases hmark with rfl | rfl | rfl | rfl <;> exact hrest

lemma ofRaw_longForm (hn : IsDirectiveWord n) (hfor : n ≠ "for".toList)
    (hs : argument? s = some (a, tail)) (l : Location) (source : Text) :
    Directive.ofRaw (longForm n s) e l source = .ok ⟨n, some (unbracketed a).1,
      (unbracketed a).2, e, modifiersOf tail, none, l, source⟩ :=
  ofRaw_of_parts ((ofText_longForm hn s).trans (ofRest_of_mark hs (.inl rfl))) rfl hfor l source

lemma isDirectiveWord_of_mem_shortMarks :
    ∀ x ∈ shortMarks, IsDirectiveWord x.2 ∧ x.2 ≠ "for".toList := by decide

/-- A name behind a mark is read as one with the name that the mark stands for. -/
lemma ofRaw_shortForm {x : Char × Text} (hx : x ∈ shortMarks) (hs : argument? s = some (a, tail))
    (l : Location) (source : Text) :
    Directive.ofRaw (x.1 :: s) e l source = .ok ⟨x.2, some (unbracketed a).1,
      (unbracketed a).2, e, modifiersOf tail, none, l, source⟩ := by
  have hfor := (isDirectiveWord_of_mem_shortMarks x hx).2
  simp only [shortMarks, List.mem_cons, List.not_mem_nil, or_false] at hx
  rcases hx with rfl | rfl | rfl
  · exact ofRaw_of_parts (n := "bind") (ofText_of_mark hs (by decide)) rfl hfor l source
  · exact ofRaw_of_parts (n := "on") (ofText_of_mark hs (by decide)) rfl hfor l source
  · exact ofRaw_of_parts (n := "slot") (ofText_of_mark hs (by decide)) rfl hfor l source

/-- **Forms of directives**: a name behind one of the marks is read as its long form, a dot adds
the modifier `prop`, and of a long form the name, an argument without dots and brackets and all
modifiers are read back. -/
theorem ofRaw_forms :
    (∀ (s : Text) (e : Option Text), s ≠ [] → (∀ c ∈ s, Text.isBlank c = false) →
      s.head? ≠ some '.' → ∃ argument isDynamic modifiers, ∀ (l : Location) (source : Text),
        let read (n : Text) (ms : List Text) : Except Diagnostic Directive :=
          .ok ⟨n, some argument, isDynamic, e, ms, none, l, source⟩
        (∀ x ∈ shortMarks,
          Directive.ofRaw (longForm x.2 s) e l source = read x.2 modifiers ∧
          Directive.ofRaw (x.1 :: s) e l source = read x.2 modifiers) ∧
        Directive.ofRaw ('.' :: s) e l source = read "bind" ("prop" :: modifiers)) ∧
    ∀ (n a : Text) (ms : List Text) (e : Option Text) (l : Location) (source : Text),
      IsDirectiveWord n → n ≠ "for".toList →
      a ≠ [] → (∀ c ∈ a, Text.isBlank c = false ∧ c ≠ '.') → a.head? ≠ some '[' →
      (∀ m ∈ ms, m ≠ [] ∧ ∀ c ∈ m, Text.isBlank c = false ∧ c ≠ '.') →
      Directive.ofRaw (longForm n (a ++ dotted ms)) e l source
        = .ok ⟨n, some a, false, e, ms, none, l, source⟩ := by
  constructor
  · intro s e hs _ hdot
    obtain ⟨a, tail, hargument⟩ := exists_argument? hs hdot
    refine ⟨(unbracketed a).1, (unbracketed a).2, modifiersOf tail, fun l source =>
      ⟨fun x hx => ⟨?_, ofRaw_shortForm hx hargument l source⟩, ?_⟩⟩
    · obtain ⟨hword, hfor⟩ := isDirectiveWord_of_mem_shortMarks x hx
      exact ofRaw_longForm hword hfor hargument l source
    · exact ofRaw_of_parts (n := "bind") (ofText_of_mark hargument (by decide)) rfl (by decide) l
        source
  · intro n a ms e l source hn hfor ha hchars hbracket hms
    have hdot : '.' ∉ a := fun h => (hchars _ h).2 rfl
    have hmodifiers : ∀ m ∈ ms, m ≠ [] ∧ '.' ∉ m := fun m hm =>
      ⟨(hms m hm).1, fun h => ((hms m hm).2 _ h).2 rfl⟩
    have hhead : ∀ c ∈ (dotted ms).head?, c = '.' := by
      cases ms with
      | nil => simp [dotted]
      | cons m ms => simp [dotted]
    have hraw := ofRaw_longForm (e := e) hn hfor (argument?_append ha hdot hbracket hhead) l source
    have hplain : unbracketed a = (a, false) := by
      rw [unbracketed, if_neg fun h => hbracket h.1]
    rwa [hplain, modifiersOf_dotted hmodifiers] at hraw

theorem ofRaw_forms_dynamic :
    Directive.ofRaw ":[a.b].sync" (some "x") ⟨1, 1⟩ ":[a.b].sync=\"x\""
        = Directive.ofRaw "v-bind:[a.b].sync" (some "x") ⟨1, 1⟩ ":[a.b].sync=\"x\"" ∧
      Directive.ofRaw "v-model-2:update:title.trim.lazy" none ⟨2, 3⟩ "v-model-2"
        = .ok ⟨"model-2", some "update:title", false, none, ["trim", "lazy"], none, ⟨2, 3⟩,
            "v-model-2"⟩ := by
  constructor
  · obtain ⟨argument, isDynamic, modifiers, hforms⟩ :=
      ofRaw_forms.1 "[a.b].sync" (some "x") (by decide) (by decide) (by decide)
    obtain ⟨hlong, hshort⟩ := (hforms ⟨1, 1⟩ ":[a.b].sync=\"x\"").1 (':', "bind") (by decide)
    exact hshort.trans hlong.symm
  · exact ofRaw_forms.2 "model-2" "update:title" ["trim", "lazy"] none ⟨2, 3⟩ "v-model-2"
      (by decide) (by decide) (by decide) (by decide) (by decide) (by decide)

-- An argument in brackets keeps its dots.
example : Directive.ofRaw ":[a.b].sync" (some "x") ⟨1, 1⟩ [] =
    .ok ⟨"bind", some "a.b", true, some "x", ["sync"], none, ⟨1, 1⟩, []⟩ := by
  with_unfolding_all rfl

end ComponentMigration.Markup
