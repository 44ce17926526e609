import ComponentMigration.Proofs.Text.Search
import ComponentMigration.SingleFile

/-!
The template block of a component, as its tags see it.

* **Tags.** `mark?` tells whether a template tag begins at the head of a text, and whether it is
  a closing one. `templateTag?` takes it up to the next angle bracket.
* **Depth.** `Tagged t ks r`: in front of `r` the scan of `t` meets the tags `ks`, and
  `depthBehind` is what one of them does to the depth. `Balanced t r` if it is back where it
  was, and was never above.
* **Main statement.** `untilClosed?_eq_some_iff`: the text up to the closing tag is the one that
  is balanced in front of a closing tag. So `ofText_template_iff` says which texts between the
  two tags of a template block are cut out whole.
-/

namespace ComponentMigration

/-! ### Words -/

namespace Text

variable {c : Char} {r s t w : Text}

/-- A word is dropped in whatever case its letters are written. -/
lemma dropFolded?_eq_some_iff :
    dropFolded? w t = some r ↔ ∃ s, s.map foldCase = w ∧ t = s ++ r := by
  induction w generalizing t with
  | nil => simp [dropFolded?, List.map_eq_nil_iff, eq_comm]
  | cons x w ih =>
      cases t with
      | nil =>
          refine iff_of_false (by simp [dropFolded?]) ?_
          rintro ⟨s, hs, h⟩
          obtain ⟨rfl, -⟩ := List.append_eq_nil_iff.mp h.symm
          cases hs
      | cons c t =>
          rw [dropFolded?]
          constructor
          · intro h
            split_ifs at h with hc
            obtain ⟨s, hs, rfl⟩ := ih.mp h
            exact ⟨c :: s, by rw [List.map_cons, hc, hs], rfl⟩
          · rintro ⟨s, hs, h⟩
            cases s with
            | nil => cases hs
            | cons y s =>
                cases h
                cases hs
                rw [if_pos rfl]
                exact ih.mpr ⟨s, rfl, rfl⟩

/-- No word goes on at the head of the text. -/
def EndsWord (t : Text) : Prop := ∀ c ∈ t.head?, isWordChar c = false

/-- A word is dropped if no character of a word follows it. -/
lemma dropWord?_eq_some_iff :
    dropWord? w t = some r ↔ (∃ s, s.map foldCase = w ∧ t = s ++ r) ∧ EndsWord r := by
  rw [dropWord?, Option.filter_eq_some_iff, dropFolded?_eq_some_iff]
  cases r <;> simp [EndsWord]

/-- A blank is no part of a word. -/
lemma isWordChar_of_isBlank (hc : isBlank c = true) : isWordChar c = false := by
  let blanks : List Nat := [0x9, 0xA, 0xB, 0xC, 0xD, 0x20, 0x85, 0xA0, 0x1680, 0x2000, 0x2001,
    0x2002, 0x2003, 0x2004, 0x2005, 0x2006, 0x2007, 0x2008, 0x2009, 0x200A, 0x2028, 0x2029, 0x202F,
    0x205F, 0x3000]
  have hblanks : ∀ n ∈ blanks, isWordChar (Char.ofNat n) = false := by decide +kernel
  have hmem : c.toNat ∈ blanks := by
    simp [isBlank] at hc
    simp [blanks]
    omega
  rw [← Char.ofNat_toNat c]
  exact hblanks _ hmem

/-- What is folded to a letter of the word `template` is that letter, in whatever case. -/
lemma foldCase_eq_lowerLetter (hc : foldCase c ∈ "template".toList) :
    foldCase c = lowerLetter c := by
  rw [foldCase] at hc ⊢
  split_ifs at hc ⊢
  · exact absurd hc (by decide)
  · exact absurd hc (by decide)
  · rfl

/-- The word `template` in any case is that word in lower case. -/
lemma map_lowerLetter_eq (hs : s.map foldCase = "template".toList) :
    s.map lowerLetter = "template".toList := by
  rw [← hs]
  refine List.map_congr_left fun c hc => (foldCase_eq_lowerLetter ?_).symm
  exact hs ▸ List.mem_map_of_mem hc

/-- What is folded to a letter of the word `template` is a letter itself. -/
lemma isWordChar_of_foldCase (hc : foldCase c ∈ "template".toList) : isWordChar c = true := by
  rw [foldCase_eq_lowerLetter hc, lowerLetter] at hc
  split_ifs at hc with hupper
  · have hle : c.toNat < 0x80 := by
      have := hupper.2
      rw [Char.le_def, UInt32.le_iff_toNat_le] at this
      exact lt_of_le_of_lt this (by decide)
    simp [isWordChar, hle, isLetter, hupper.1, hupper.2]
  · have hletters : "template".toList.all isWordChar = true := by decide
    exact List.all_eq_true.mp hletters c hc

/-- Where no word goes on it does not matter what follows. -/
lemma dropWord?_append_isSome (hr : EndsWord r) :
    (dropWord? "template" (t ++ r)).isSome = (dropWord? "template" t).isSome := by
  rw [Bool.eq_iff_iff, Option.isSome_iff_exists, Option.isSome_iff_exists]
  constructor
  · rintro ⟨u, hu⟩
    obtain ⟨⟨s, hs, h⟩, hends⟩ := dropWord?_eq_some_iff.mp hu
    -- The word ends within `t`, or it would go on into `r`, which begins with no character of a
    -- word.
    rcases List.append_eq_append_iff.mp h with ⟨s', rfl, rfl⟩ | ⟨t', rfl, rfl⟩
    · cases s' with
      | nil =>
          rw [List.append_nil] at hs
          exact ⟨[], dropWord?_eq_some_iff.mpr ⟨⟨t, hs, by simp⟩, by simp [EndsWord]⟩⟩
      | cons x s' =>
          have hx := isWordChar_of_foldCase (c := x) (hs ▸ by simp)
          rw [hr x rfl] at hx
          cases hx
    · refine ⟨t', dropWord?_eq_some_iff.mpr ⟨⟨s, hs, rfl⟩, ?_⟩⟩
      cases t' with
      | nil => simp [EndsWord]
      | cons x t' => exact fun c hc => hends c hc
  · rintro ⟨u, hu⟩
    obtain ⟨⟨s, hs, rfl⟩, hends⟩ := dropWord?_eq_some_iff.mp hu
    refine ⟨u ++ r, dropWord?_eq_some_iff.mpr ⟨⟨s, hs, by simp⟩, ?_⟩⟩
    cases u with
    | nil => exact hr
    | cons x u => exact fun c hc => hends c hc

/-- What stands behind the end of a word does not matter. -/
lemma map_dropWord?_append (hr : EndsWord r) (b : Bool) :
    ((dropWord? "template" (t ++ r)).map fun _ => b) = (dropWord? "template" t).map fun _ => b := by
  have h := dropWord?_append_isSome (t := t) hr
  generalize dropWord? "template" (t ++ r) = x at h
  generalize dropWord? "template" t = y at h
  cases x <;> cases y <;> simp_all

end Text

namespace SingleFile

variable {a r t u : Text} {c : Char} {closes : Bool} {depth size : Nat}

/-! ### Tags -/

/-- Whether a template tag begins at the head of a text, and if so, whether it is a closing
one. -/
def mark? : Text → Option Bool
  | '<' :: '/' :: t => (Text.dropWord? "template" t).map fun _ => true
  | '<' :: t => (Text.dropWord? "template" t).map fun _ => false
  | _ => none

/-- A tag begins with an angle bracket. -/
lemma mark?_of_ne (hc : c ≠ '<') : mark? (c :: t) = none := by
  rw [mark?.eq_def]
  split
  · next h => exact absurd (List.cons.inj h).1 hc
  · next h => exact absurd (List.cons.inj h).1 hc
  · rfl

/-- Without a slash a tag opens a block. -/
lemma mark?_of_ne_slash (hc : c ≠ '/') :
    mark? ('<' :: c :: t) = (Text.dropWord? "template" (c :: t)).map fun _ => false := by
  rw [mark?.eq_2]
  rintro t h
  exact hc (List.cons.inj h).1

/-- A text behind which no word goes on does not change the mark in front of it. -/
lemma mark?_append (ht : t ≠ []) (hr : r.head? = some '<') : mark? (t ++ r) = mark? t := by
  obtain ⟨r, rfl⟩ := List.head?_eq_some_iff.mp hr
  have hends : Text.EndsWord ('<' :: r) := by
    rintro c ⟨⟩
    decide
  cases t with
  | nil => exact absurd rfl ht
  | cons c t =>
      by_cases hc : c = '<'
      · subst hc
        cases t with
        | nil => rfl
        | cons d t =>
            by_cases hd : d = '/'
            -- Whether the tag opens or closes, its name has to end in front of the next tag.
            · subst hd
              exact Text.map_dropWord?_append hends true
            · rw [List.cons_append, List.cons_append, mark?_of_ne_slash hd, mark?_of_ne_slash hd]
              exact Text.map_dropWord?_append (t := d :: t) hends false
      · rw [List.cons_append, mark?_of_ne hc, mark?_of_ne hc]

/-- A tag goes up to the next angle bracket. -/
lemma untilTagEnd?_eq_cutAt? (t : Text) : untilTagEnd? t = Text.cutAt? ['>'] t := by
  induction t with
  | nil => rfl
  | cons c t ih =>
      rw [untilTagEnd?, Text.cutAt?, ih, Text.dropPrefix?]
      split_ifs with hc hc'
      · rfl
      · exact absurd hc.symm hc'
      · exact absurd (Eq.symm ‹_›) hc
      · rfl

/-- In a tag there is no angle bracket but the last. -/
lemma untilTagEnd?_eq_some_iff : untilTagEnd? t = some (a, r) ↔ t = a ++ '>' :: r ∧ '>' ∉ a := by
  rw [untilTagEnd?_eq_cutAt?, Text.cutAt?_eq_some_iff (by simp), Text.isFirst_singleton_iff]
  rfl

/-- The next angle bracket is found from anywhere in front of it. -/
lemma untilTagEnd?_append (ha : '>' ∉ a) :
    untilTagEnd? (a ++ t) = (untilTagEnd? t).map fun x => (a ++ x.1, x.2) := by
  induction a with
  | nil => simp
  | cons c a ih =>
      obtain ⟨hc, ha⟩ := List.ne_and_not_mem_of_not_mem_cons ha
      rw [List.cons_append, untilTagEnd?, if_neg (Ne.symm hc), ih ha, Option.map_map]
      rfl

/-- A template tag is its mark `b` and its name, with all up to the next angle bracket. -/
lemma tag_eq {b : Text} (hb : '>' ∉ b) (closes : Bool) :
    (((Text.dropWord? "template" t).bind untilTagEnd?).map fun x =>
        (closes, (b ++ t).length - x.2.length))
      = ((Text.dropWord? "template" t).map fun _ => closes).bind fun closes =>
          (untilTagEnd? (b ++ t)).map fun x => (closes, (b ++ t).length - x.2.length) := by
  cases hr : Text.dropWord? "template" t with
  | none => rfl
  | some r =>
      obtain ⟨⟨s, hs, rfl⟩, -⟩ := Text.dropWord?_eq_some_iff.mp hr
      have hbracket : '>' ∉ b ++ s := by
        rw [List.mem_append, not_or]
        refine ⟨hb, fun hmem => ?_⟩
        have hfold : Text.foldCase '>' ∈ "template".toList := hs ▸ List.mem_map_of_mem hmem
        exact absurd hfold (by decide)
      rw [← List.append_assoc, untilTagEnd?_append hbracket]
      simp [Function.comp_def]

/-- A tag of a template is its mark and what goes up to its end. -/
lemma templateTag?_eq (t : Text) :
    templateTag? t = (mark? t).bind fun closes =>
      (untilTagEnd? t).map fun x => (closes, t.length - x.2.length) := by
  rw [mark?.eq_def]
  split
  · exact tag_eq (b := ['<', '/']) (by decide) true
  · next t hslash =>
      rw [templateTag?]
      · exact tag_eq (b := ['<']) (by decide) false
      · exact hslash
  · next hopening =>
      rw [templateTag?.eq_def]
      split
      · next r _ => exact absurd rfl (hopening r)
      · rfl

/-- A tag of a template is told by its mark, and its size by the next angle bracket. -/
lemma templateTag?_eq_some_iff :
    templateTag? t = some (closes, size) ↔
      mark? t = some closes ∧ ∃ a r, t = a ++ '>' :: r ∧ '>' ∉ a ∧ size = a.length + 1 := by
  simp only [templateTag?_eq, Option.bind_eq_some_iff, Option.map_eq_some_iff, Prod.exists,
    untilTagEnd?_eq_some_iff, Prod.mk.injEq]
  constructor
  · rintro ⟨_, hmark, a, r, ⟨rfl, ha⟩, rfl, rfl⟩
    exact ⟨hmark, a, r, rfl, ha, by simp; omega⟩
  · rintro ⟨hmark, a, r, rfl, ha, rfl⟩
    exact ⟨closes, hmark, a, r, ⟨rfl, ha⟩, rfl, by simp; omega⟩

/-! ### Depth -/

/-- The depth behind a tag; none if the tag closes what is open at depth zero. -/
def depthBehind : Nat → Bool → Option Nat
  | depth, false => some (depth + 1)
  | 0, true => none
  | depth + 1, true => some depth

/-- The scan of `t` in front of `r` meets the tags `ks`. -/
inductive Tagged : Text → List Bool → Text → Prop
  | nil {r : Text} : Tagged [] [] r
  | char {c : Char} {t r : Text} {ks : List Bool} (hc : templateTag? (c :: (t ++ r)) = none)
      (h : Tagged t ks r) : Tagged (c :: t) ks r
  | tag {a t r : Text} {closes : Bool} {ks : List Bool}
      (hmark : mark? (a ++ '>' :: (t ++ r)) = some closes) (ha : '>' ∉ a) (h : Tagged t ks r) :
      Tagged (a ++ '>' :: t) (closes :: ks) r

/-- The tags of `t` in front of `r` lead back to the depth they began at, and never above. -/
def Balanced (t r : Text) : Prop := ∃ ks, Tagged t ks r ∧ ks.foldlM depthBehind 0 = some 0

/-- What is skipped is part of the text that is cut out. -/
lemma untilClosed?_skip (depth : Nat) (s : Text) :
    untilClosed? depth s.length (s ++ t)
      = (untilClosed? depth 0 t).map fun x => (s ++ x.1, x.2) := by
  induction s with
  | nil => simp
  | cons c s ih =>
      rw [List.cons_append, List.length_cons, untilClosed?, ih, Option.map_map]
      rfl

/-- A character with which no tag begins is part of the text that is cut out. -/
lemma untilClosed?_of_none (h : templateTag? (c :: t) = none) :
    untilClosed? depth 0 (c :: t) = (untilClosed? depth 0 t).map fun x => (c :: x.1, x.2) := by
  rw [untilClosed?, h]

/-- A tag ends the search or is passed with a new depth. -/
lemma untilClosed?_of_mark (hmark : mark? (a ++ '>' :: r) = some closes) (ha : '>' ∉ a) :
    untilClosed? depth 0 (a ++ '>' :: r) = match depthBehind depth closes with
      | none => some ([], r)
      | some depth => (untilClosed? depth 0 r).map fun x => (a ++ '>' :: x.1, x.2) := by
  have htag := templateTag?_eq_some_iff.mpr ⟨hmark, a, r, rfl, ha, rfl⟩
  cases a with
  | nil => cases hmark
  | cons c a =>
      have hskip (depth : Nat) : untilClosed? depth (a.length + 1) (a ++ '>' :: r)
          = (untilClosed? depth 0 r).map fun x => (a ++ '>' :: x.1, x.2) := by
        simpa using untilClosed?_skip (t := r) depth (a ++ ['>'])
      rw [List.cons_append] at htag ⊢
      rw [untilClosed?, htag]
      rcases closes with _ | _
      · simp [depthBehind, hskip, Function.comp_def]
      · cases depth with
        | zero => simp [depthBehind]
        | succ depth => simp [depthBehind, hskip, Function.comp_def]

/-- An opening tag ends the search for one. -/
lemma untilOpened?_of_mark (hmark : mark? (a ++ '>' :: r) = some false) (ha : '>' ∉ a) :
    untilOpened? 0 (a ++ '>' :: r) = some ([], r) := by
  have htag := templateTag?_eq_some_iff.mpr ⟨hmark, a, r, rfl, ha, rfl⟩
  cases a with
  | nil => cases hmark
  | cons c a =>
      rw [List.cons_append] at htag ⊢
      rw [untilOpened?, htag]
      simp

/-- The search goes through tags with their depth. -/
lemma untilClosed?_of_tagged {ks : List Bool} {depth' : Nat} (h : Tagged t ks r)
    (hks : ks.foldlM depthBehind depth = some depth') :
    untilClosed? depth 0 (t ++ r) = (untilClosed? depth' 0 r).map fun x => (t ++ x.1, x.2) := by
  induction h generalizing depth with
  | nil =>
      cases hks
      simp
  | char hc _ ih =>
      rw [List.cons_append, untilClosed?_of_none hc, ih hks, Option.map_map]
      rfl
  | @tag a t r closes ks hmark ha _ ih =>
      rw [List.foldlM_cons] at hks
      obtain ⟨depth₁, hstep, hks⟩ := Option.bind_eq_some_iff.mp hks
      rw [List.append_assoc, List.cons_append, untilClosed?_of_mark hmark ha, hstep]
      dsimp only
      rw [ih hks, Option.map_map]
      simp [Function.comp_def]

/-- **Where the template block ends**: the text up to the closing tag is balanced in front of a
closing tag. -/
theorem untilClosed?_eq_some_iff :
    untilClosed? depth 0 u = some (t, r) ↔ ∃ a ks, u = t ++ (a ++ '>' :: r) ∧ '>' ∉ a ∧
      mark? (a ++ '>' :: r) = some true ∧ Tagged t ks (a ++ '>' :: r) ∧
      ks.foldlM depthBehind depth = some 0 := by
  constructor
  · intro h
    -- The induction is on the length, as the scan goes on behind a whole tag.
    induction hlen : u.length using Nat.strongRecOn generalizing u t depth with
    | _ n ih =>
        cases u with
        | nil => cases h
        | cons c u =>
            cases htag : templateTag? (c :: u) with
            -- Below the outermost block there is no depth, so this is the closing tag that was
            -- looked for.
            | none =>
                rw [untilClosed?_of_none htag, Option.map_eq_some_iff] at h
                obtain ⟨⟨t', r'⟩, h, heq⟩ := h
                cases heq
                obtain ⟨a, ks, rfl, ha, hmark, htagged, hdepth⟩ := ih _ (by simp [← hlen]) h rfl
                exact ⟨a, ks, rfl, ha, hmark, .char htag htagged, hdepth⟩
            | some tag =>
                obtain ⟨closes, size⟩ := tag
                obtain ⟨hmark, a, r', hsplit, ha, -⟩ := templateTag?_eq_some_iff.mp htag
                rw [hsplit] at h hmark hlen ⊢
                rw [untilClosed?_of_mark hmark ha] at h
                cases hstep : depthBehind depth closes with
                | none =>
                    rw [hstep] at h
                    cases h
                    cases closes with
                    | false => cases hstep
                    | true =>
                        cases depth with
                        | zero => exact ⟨a, [], rfl, ha, hmark, .nil, rfl⟩
                        | succ depth => cases hstep
                | some depth' =>
                    rw [hstep] at h
                    dsimp only at h
                    rw [Option.map_eq_some_iff] at h
                    obtain ⟨⟨t', r''⟩, h, heq⟩ := h
                    cases heq
                    -- Any other tag changes the depth, and the scan goes on behind it.
                    obtain ⟨a', ks, rfl, ha', hmark', htagged, hdepth⟩ :=
                      ih _ (by simp [← hlen]; omega) h rfl
                    refine ⟨a', closes :: ks, by simp, ha', hmark', .tag hmark ha htagged, ?_⟩
                    rw [List.foldlM_cons, hstep]
                    exact hdepth
  · rintro ⟨a, ks, rfl, ha, hmark, htagged, hdepth⟩
    rw [untilClosed?_of_tagged htagged hdepth, untilClosed?_of_mark hmark ha]
    simp [depthBehind]

/-- Tags that are met one behind the other are met together. -/
lemma Tagged.append {s : Text} {ks ks' : List Bool} (h : Tagged s ks (t ++ r))
    (h' : Tagged t ks' r) : Tagged (s ++ t) (ks ++ ks') r := by
  generalize hbehind : t ++ r = behind at h
  induction h with
  | nil => exact h'
  | @char c s _ ks hc _ ih =>
      subst hbehind
      rw [← List.append_assoc] at hc
      exact .char hc (ih rfl)
  | @tag a s _ closes ks hmark ha _ ih =>
      subst hbehind
      rw [← List.append_assoc] at hmark
      rw [List.append_assoc]
      exact .tag hmark ha (ih rfl)

/-- A text in which no template tag begins is passed without one. -/
lemma tagged_nil {s : Text} (h : ∀ v, v <:+ s → v ≠ [] → mark? (v ++ r) = none) :
    Tagged s [] r := by
  induction s with
  | nil => exact .nil
  | cons c s ih =>
      refine .char ?_ (ih fun v hv => h v (hv.trans (List.suffix_cons c s)))
      rw [templateTag?_eq, ← List.cons_append, h _ List.suffix_rfl (List.cons_ne_nil c s)]
      rfl

/-! ### Template blocks -/

/-- The closing tag of a template block. -/
def closingTag : Text := "</template>"

/-- A component that is only a template block around a text. -/
def templateBlock (t : Text) : Text := "<template>" ++ (t ++ closingTag)

/-- The closing tag closes. -/
lemma mark?_closingTag (r : Text) : mark? (closingTag ++ r) = some true := rfl

/-- A template block begins with its opening tag. -/
lemma untilOpened?_templateBlock (t : Text) :
    untilOpened? 0 (templateBlock t) = some ([], t ++ closingTag) :=
  untilOpened?_of_mark (a := "<template") rfl (by decide)

/-- **When a text is the template**: a text between the two tags of a template block is cut out
whole if and only if it is balanced. -/
theorem ofText_template_iff (t : Text) :
    Blocks.ofText (templateBlock t) = ⟨some t, none⟩ ↔ Balanced t closingTag := by
  have hcut : cutTemplate? (templateBlock t)
      = (untilClosed? 0 0 (t ++ closingTag)).map fun x => x := by
    rw [cutTemplate?, untilOpened?_templateBlock]
    rfl
  rw [Option.map_id'] at hcut
  constructor
  · intro h
    rw [Blocks.ofText, hcut] at h
    cases hclosed : untilClosed? 0 0 (t ++ closingTag) with
    | none =>
        rw [hclosed] at h
        cases h
    | some x =>
        obtain ⟨inside, outside⟩ := x
        rw [hclosed] at h
        obtain rfl : inside = t := Option.some.inj (Blocks.mk.inj h).1
        -- What is cut out is the whole text, so the closing tag is the one behind it.
        obtain ⟨a, ks, hsplit, -, -, htagged, hdepth⟩ := untilClosed?_eq_some_iff.mp hclosed
        rw [List.append_cancel_left hsplit]
        exact ⟨ks, htagged, hdepth⟩
  · rintro ⟨ks, htagged, hdepth⟩
    have hclosed : untilClosed? 0 0 (t ++ closingTag) = some (t, []) :=
      untilClosed?_eq_some_iff.mpr
        ⟨"</template", ks, rfl, by decide, mark?_closingTag [], htagged, hdepth⟩
    rw [Blocks.ofText, hcut, hclosed]
    rfl

end SingleFile

end ComponentMigration
