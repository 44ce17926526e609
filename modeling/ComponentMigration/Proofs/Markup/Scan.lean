import ComponentMigration.Proofs.Location
import ComponentMigration.Proofs.Markup.Nesting
import ComponentMigration.Proofs.Text.Search

/-!
Reading pieces, as a grammar.

* **Moving.** `c.Passes s c'`: behind the text `s` the cursor `c` has become `c'`.
* **Rules.** `ReadsValue`, `ReadsOptional`, `ReadsProperty`, `ReadsProperties` and `ReadsToken`
  say what a text in front of another text is read as. Each goes with the lemma that its reader
  has exactly these ways.
* **Looking ahead.** Every rule asks of the text behind only that it does not begin in some
  way. So what is read in front of a text is read in front of each of its beginnings
  (`shorten`).
* **Scans.** `Scans t l ps`: the text `t` at the location `l` is read as the pieces `ps`.
* **Main statement.** `pieces_eq_iff`: the pieces of a text are the ones that it is read as.
-/

namespace ComponentMigration

namespace Markup

/-! ### Moving -/

namespace Cursor

/-- Behind the text `s` the cursor `c` has become `c'`. -/
structure Passes (c : Cursor) (s : Text) (c' : Cursor) : Prop where
  rest : c.rest = s ++ c'.rest
  location : c'.location = c.location.after s

variable {c c' c'' : Cursor} {s s' r : Text} {p : Char → Bool}

/-- Nothing is passed where the cursor stands. -/
lemma Passes.refl (c : Cursor) : c.Passes [] c := ⟨rfl, rfl⟩

/-- Texts that are passed one behind the other are passed together. -/
lemma Passes.trans (h : c.Passes s c') (h' : c'.Passes s' c'') : c.Passes (s ++ s') c'' := by
  refine ⟨?_, ?_⟩
  · rw [h.rest, h'.rest, List.append_assoc]
  · rw [h'.location, h.location, Location.after_append]

/-- A cursor moves over any text that comes next. -/
lemma passes_drop {n : Nat} (h : c.rest = s ++ r) (hn : s.length = n) :
    c.Passes s (c.drop n) ∧ (c.drop n).rest = r := by
  subst hn
  have hr : (c.drop s.length).rest = r := by rw [rest_drop, h, List.drop_left' rfl]
  refine ⟨⟨by rw [hr, h], ?_⟩, hr⟩
  rw [drop, h, List.take_left' rfl]

/-- A text of `n` characters is passed by leaving out `n` characters. -/
lemma Passes.drop_eq {n : Nat} (h : c.Passes s c') (hn : s.length = n) : c.drop n = c' := by
  obtain ⟨hpass, hr⟩ := passes_drop h.rest hn
  have hl := h.location
  rw [← hpass.location] at hl
  cases c'
  cases hd : c.drop n
  simp_all

/-- On the way over two texts a cursor comes between them. -/
lemma Passes.exists_between (h : c.Passes (s ++ s') c'') :
    ∃ c', c.Passes s c' ∧ c'.Passes s' c'' := by
  have hrest : c.rest = s ++ (s' ++ c''.rest) := by rw [h.rest, List.append_assoc]
  obtain ⟨hpass, hr⟩ := passes_drop hrest rfl
  refine ⟨_, hpass, hr, ?_⟩
  rw [h.location, hpass.location, Location.after_append]

/-- The longest run of some characters is passed by leaving out these characters. -/
lemma Passes.dropWhile_eq (h : c.Passes s c') (hs : Text.Runs p s c'.rest) :
    c.dropWhile p = c' := by
  rw [dropWhile, h.rest, hs.takeWhile_eq, h.drop_eq rfl]

/-- Leaving out some characters passes the longest run of them. -/
lemma passes_dropWhile (c : Cursor) (p : Char → Bool) :
    c.Passes (c.rest.takeWhile p) (c.dropWhile p) ∧
      Text.Runs p (c.rest.takeWhile p) (c.dropWhile p).rest := by
  have hsplit := List.takeWhile_append_dropWhile (p := p) (l := c.rest)
  obtain ⟨hpass, hr⟩ := passes_drop hsplit.symm rfl
  exact ⟨hpass, hr.symm ▸ Text.runs_takeWhile p c.rest⟩

/-- Leaving out blanks passes the longest run of them. -/
lemma passes_dropBlanks (c : Cursor) :
    c.Passes (c.rest.takeWhile Text.isBlank) c.dropBlanks ∧
      Text.Runs Text.isBlank (c.rest.takeWhile Text.isBlank) c.dropBlanks.rest :=
  c.passes_dropWhile Text.isBlank

/-- On the way over blanks and what is not blank a cursor comes between them. -/
lemma Passes.dropBlanks {x : Char} (h : c.Passes (s ++ x :: s') c')
    (hs : ∀ y ∈ s, Text.isBlank y = true) (hx : Text.isBlank x = false) :
    c.Passes s c.dropBlanks ∧ c.dropBlanks.Passes (x :: s') c' := by
  obtain ⟨c₁, h₁, h₂⟩ := h.exists_between
  obtain rfl : c.dropBlanks = c₁ := h₁.dropWhile_eq (h₂.rest ▸ Text.runs_cons hs hx)
  exact ⟨h₁, h₂⟩

/-- What was passed is found again between the two cursors. -/
lemma Passes.upTo_eq (h : c.Passes s c') : c.upTo c' = s := by
  rw [upTo, h.rest, List.length_append, Nat.add_sub_cancel, List.take_left' rfl]

end Cursor

/-! ### Values -/

/-- A text in front of `r` that is read as a value: between quotes, or up to a blank or the end
of the tag. -/
inductive ReadsValue : Text → Text → Text → Prop
  | quoted {quote : Char} {value r : Text} (hquote : quote = '"' ∨ quote = '\'')
      (hvalue : quote ∉ value) : ReadsValue (quote :: (value ++ [quote])) value r
  | unquoted {value r : Text} (hquote : ∀ x ∈ (value ++ r).head?, ¬ (x = '"' ∨ x = '\''))
      (hvalue : Text.Runs isUnquotedChar value r) : ReadsValue value value r

/-- A value in quotes does not look behind itself, and one without quotes has to end there. -/
lemma ReadsValue.shorten {s value r r' : Text} (h : ReadsValue s value r) (hr : r' <+: r) :
    ReadsValue s value r' := by
  cases h with
  | quoted hquote hvalue => exact .quoted hquote hvalue
  | unquoted hquote hvalue =>
      refine .unquoted (fun x hx => hquote x ?_) (hvalue.shorten hr)
      exact Text.mem_head?_mono ((List.prefix_append_right_inj s).mpr hr) hx

/-- The reader of a value has exactly the ways of `ReadsValue`. -/
lemma readValue_eq_ok_iff {start c c' : Cursor} {value : Text} :
    readValue start c = .ok (value, c') ↔
      ∃ s, c.Passes s c' ∧ ReadsValue s value c'.rest := by
  constructor
  · intro h
    -- The reader looks at one character: there is none, or a quote, or another one.
    rw [readValue] at h
    split at h
    · next hc =>
        cases h
        refine ⟨[], .refl c, .unquoted ?_ ⟨by simp, ?_⟩⟩ <;> simp [hc]
    · next quote t hc =>
        split_ifs at h with hquote
        · split at h
          · next _ value' after hcut =>
              cases h
              obtain ⟨rfl, hvalue⟩ := (Text.cutAt?_eq_some_iff (by simp)).mp hcut
              rw [Text.isFirst_singleton_iff] at hvalue
              have hrest : c.rest = (quote :: (value ++ [quote])) ++ after := by simp [hc]
              exact ⟨_, (Cursor.passes_drop hrest (by simp)).1, .quoted hquote hvalue⟩
          · cases h
        · cases h
          obtain ⟨hpass, hruns⟩ := c.passes_dropWhile isUnquotedChar
          refine ⟨_, hpass, .unquoted ?_ hruns⟩
          rw [← hpass.rest, hc]
          rintro x ⟨⟩
          exact hquote
  · rintro ⟨s, hpass, h⟩
    cases h with
    | @quoted quote value r hquote hvalue =>
        have hrest : c.rest = quote :: (value ++ quote :: c'.rest) := by simp [hpass.rest]
        have hcut : Text.cutAt? [quote] (value ++ quote :: c'.rest) = some (value, c'.rest) :=
          (Text.cutAt?_eq_some_iff (by simp)).mpr ⟨rfl, Text.isFirst_singleton_iff.mpr hvalue⟩
        have hdrop : c.drop (value.length + 2) = c' := hpass.drop_eq (by simp)
        rw [readValue, hrest]
        simp only [if_pos hquote, hcut, hdrop]
    | unquoted hquote hvalue =>
        -- Without quotes the value may be empty at the end of the text, where there is no
        -- character to look at.
        rw [← hpass.rest] at hquote
        rw [readValue]
        split
        · next hc =>
            have hnil := hpass.rest
            rw [hc, eq_comm, List.append_eq_nil_iff] at hnil
            obtain ⟨rfl, -⟩ := hnil
            rw [← hpass.drop_eq rfl]
            rfl
        · next quote t hc =>
            rw [if_neg (hquote quote (by rw [hc]; rfl)), hpass.dropWhile_eq hvalue, hpass.rest,
              hvalue.takeWhile_eq]

/-- What is read as the value behind the name of an attribute, if there is one. -/
inductive ReadsOptional : Text → Option Text → Text → Prop
  | none {r : Text} (h : ¬ ∃ b t, (∀ x ∈ b, Text.isBlank x = true) ∧ r = b ++ '=' :: t) :
      ReadsOptional [] none r
  | some {b b' s value r : Text} (hb : ∀ x ∈ b, Text.isBlank x = true)
      (hb' : Text.Runs Text.isBlank b' (s ++ r)) (h : ReadsValue s value r) :
      ReadsOptional (b ++ '=' :: (b' ++ s)) (some value) r

/-- Where no value follows, none follows in front of less text. -/
lemma ReadsOptional.shorten {s r r' : Text} {value : Option Text}
    (h : ReadsOptional s value r) (hr : r' <+: r) : ReadsOptional s value r' := by
  cases h with
  | none h =>
      refine .none ?_
      rintro ⟨b, t, hb, rfl⟩
      obtain ⟨d, rfl⟩ := hr
      exact h ⟨b, t ++ d, hb, by simp⟩
  | some hb hb' h =>
      exact .some hb (hb'.shorten ((List.prefix_append_right_inj _).mpr hr)) (h.shorten hr)

/-- The next character behind the blanks. -/
lemma head?_dropBlanks_eq_some_iff {c : Cursor} {x : Char} (hx : Text.isBlank x = false) :
    c.dropBlanks.rest.head? = some x ↔
      ∃ b t, (∀ y ∈ b, Text.isBlank y = true) ∧ c.rest = b ++ x :: t := by
  obtain ⟨hpass, hruns⟩ := c.passes_dropBlanks
  constructor
  · intro h
    obtain ⟨t, ht⟩ := List.head?_eq_some_iff.mp h
    refine ⟨_, t, hruns.all, ?_⟩
    rw [← ht]
    exact hpass.rest
  · rintro ⟨b, t, hb, hrest⟩
    obtain ⟨hpass, hr⟩ := Cursor.passes_drop hrest rfl
    have hstops : Text.Runs Text.isBlank b (c.drop b.length).rest := by
      rw [hr]
      exact Text.runs_cons hb hx
    rw [Cursor.dropBlanks, hpass.dropWhile_eq hstops, hr, List.head?_cons]

/-- The reader of an optional value has exactly the ways of `ReadsOptional`. -/
lemma readValue?_eq_ok_iff {start c c' : Cursor} {value : Option Text} :
    readValue? start c = .ok (value, c') ↔
      ∃ s, c.Passes s c' ∧ ReadsOptional s value c'.rest := by
  have hequals : Text.isBlank '=' = false := by decide
  rw [readValue?]
  constructor
  · intro h
    split_ifs at h with hhead
    · cases hv : readValue start (c.dropBlanks.drop 1).dropBlanks with
      | error d =>
          rw [hv] at h
          cases h
      | ok result =>
          obtain ⟨value', c''⟩ := result
          rw [hv] at h
          cases h
          -- Behind the sign of equality stand blanks, and then the value.
          obtain ⟨s, hs, hread⟩ := readValue_eq_ok_iff.mp hv
          obtain ⟨t, ht⟩ := List.head?_eq_some_iff.mp hhead
          obtain ⟨hb, hbruns⟩ := c.passes_dropBlanks
          have hmark : c.dropBlanks.Passes ['='] (c.dropBlanks.drop 1) :=
            (Cursor.passes_drop (s := ['=']) ht rfl).1
          obtain ⟨hb', hbruns'⟩ := (c.dropBlanks.drop 1).passes_dropBlanks
          rw [hs.rest] at hbruns'
          exact ⟨_, hb.trans (hmark.trans (hb'.trans hs)), .some (s := s) hbruns.all hbruns' hread⟩
    · cases h
      exact ⟨[], .refl c, .none fun h => hhead ((head?_dropBlanks_eq_some_iff hequals).mpr h)⟩
  · rintro ⟨s, hpass, h⟩
    cases h with
    | none h =>
        -- No sign of equality follows, so nothing was passed, not even the blanks.
        obtain rfl : c = c' := hpass.drop_eq rfl
        rw [if_neg fun hhead => h ((head?_dropBlanks_eq_some_iff hequals).mp hhead)]
    | @some b b' s value r hb hb' h =>
        have hrest : c.rest = b ++ '=' :: (b' ++ s ++ c'.rest) := by simp [hpass.rest]
        obtain ⟨-, h₁⟩ := hpass.dropBlanks hb hequals
        obtain ⟨c₂, h₂, h₃⟩ := Cursor.Passes.exists_between (s := ['=']) h₁
        obtain ⟨c₃, h₃, h₄⟩ := h₃.exists_between
        have hread : readValue start c₃ = .ok (value, c') := readValue_eq_ok_iff.mpr ⟨s, h₄, h⟩
        have hmark : c.dropBlanks.drop 1 = c₂ := h₂.drop_eq rfl
        have hblanks : c₂.dropBlanks = c₃ := h₃.dropWhile_eq (h₄.rest ▸ hb')
        rw [if_pos ((head?_dropBlanks_eq_some_iff hequals).mpr ⟨b, _, hb, hrest⟩), hmark, hblanks,
          hread]
        rfl

/-! ### Properties -/

/-- What is read as a property that begins at the location `l`. -/
inductive ReadsProperty : Text → Location → Property → Text → Prop
  | intro {name s r : Text} {value : Option Text} {l : Location} {p : Property}
      (hne : name ≠ []) (hname : Text.Runs isAttributeChar name (s ++ r))
      (hvalue : ReadsOptional s value r) (hp : Property.ofRaw name value l (name ++ s) = .ok p) :
      ReadsProperty (name ++ s) l p r

/-- What may follow a property is told by what may follow its name and its value. -/
lemma ReadsProperty.shorten {s r r' : Text} {l : Location} {p : Property}
    (h : ReadsProperty s l p r) (hr : r' <+: r) : ReadsProperty s l p r' := by
  obtain ⟨hne, hname, hvalue, hp⟩ := h
  exact ⟨hne, hname.shorten ((List.prefix_append_right_inj _).mpr hr), hvalue.shorten hr, hp⟩

/-- The characters of the name of a property. -/
lemma isAttributeChar_iff {x : Char} :
    isAttributeChar x = true ↔
      Text.isBlank x = false ∧ x ≠ '=' ∧ x ≠ '>' ∧ x ≠ '/' := by
  simp [isAttributeChar, and_assoc]

/-- A property begins with a character of its name. -/
lemma ReadsProperty.exists_eq_cons {s r : Text} {l : Location} {p : Property}
    (h : ReadsProperty s l p r) : ∃ x t, s = x :: t ∧ isAttributeChar x = true := by
  obtain @⟨name, s, _, _, _, _, hne, hname, _, _⟩ := h
  obtain ⟨x, t, rfl⟩ := List.exists_cons_of_ne_nil hne
  exact ⟨x, t ++ s, rfl, hname.all x (by simp)⟩

/-- The reader of a property has exactly the one way of `ReadsProperty`. -/
lemma readProperty_eq_ok_iff {c c' : Cursor} {p : Property} :
    readProperty c = .ok (p, c') ↔
      ∃ s, c.Passes s c' ∧ ReadsProperty s c.location p c'.rest := by
  constructor
  · intro h
    rw [readProperty] at h
    split_ifs at h with hne
    split at h
    · cases h
    · next value stop hvalue =>
        cases hp : Property.ofRaw (c.rest.takeWhile isAttributeChar) value c.location
            (c.upTo stop) with
        | error d =>
            rw [hp] at h
            cases h
        | ok q =>
            rw [hp] at h
            cases h
            obtain ⟨s, hs, hread⟩ := readValue?_eq_ok_iff.mp hvalue
            obtain ⟨hname, hruns⟩ := c.passes_dropWhile isAttributeChar
            have hpass := hname.trans hs
            rw [hpass.upTo_eq] at hp
            rw [hs.rest] at hruns
            exact ⟨_, hpass, hne, hruns, hread, hp⟩
  · rintro ⟨s, hpass, h⟩
    obtain @⟨name, s, r, value, l, p, hne, hname, hvalue, hp⟩ := h
    -- The cursors are given back piece by piece: the name, and the value behind it.
    have hup : c.upTo c' = name ++ s := hpass.upTo_eq
    have htake : c.rest.takeWhile isAttributeChar = name := by
      rw [hpass.rest, List.append_assoc, hname.takeWhile_eq]
    obtain ⟨c₁, h₁, h₂⟩ := hpass.exists_between
    have hdrop : c.dropWhile isAttributeChar = c₁ := h₁.dropWhile_eq (h₂.rest ▸ hname)
    have hread : readValue? c c₁ = .ok (value, c') := readValue?_eq_ok_iff.mpr ⟨s, h₂, hvalue⟩
    rw [readProperty, htake, if_neg hne, hdrop, hread]
    dsimp only
    rw [hup, hp]
    rfl

/-- What is read as the properties of a start tag, with its end; `isClosed` if that is a slash
with the angle bracket. Other slashes are skipped. -/
inductive ReadsProperties : Text → Location → List Property → Bool → Text → Prop
  | closed {b r : Text} {l : Location} (hb : ∀ x ∈ b, Text.isBlank x = true) :
      ReadsProperties (b ++ ['/', '>']) l [] true r
  | opened {b r : Text} {l : Location} (hb : ∀ x ∈ b, Text.isBlank x = true) :
      ReadsProperties (b ++ ['>']) l [] false r
  | slash {b s r : Text} {l : Location} {ps : List Property} {isClosed : Bool}
      (hb : ∀ x ∈ b, Text.isBlank x = true) (hs : s.head? ≠ some '>')
      (h : ReadsProperties s (l.after (b ++ ['/'])) ps isClosed r) :
      ReadsProperties (b ++ '/' :: s) l ps isClosed r
  | property {b s s' r : Text} {l : Location} {p : Property} {ps : List Property}
      {isClosed : Bool} (hb : ∀ x ∈ b, Text.isBlank x = true)
      (h : ReadsProperty s (l.after b) p (s' ++ r))
      (h' : ReadsProperties s' (l.after (b ++ s)) ps isClosed r) :
      ReadsProperties (b ++ (s ++ s')) l (p :: ps) isClosed r

namespace ReadsProperties

variable {s r r' : Text} {l : Location} {ps : List Property} {isClosed : Bool}

/-- The last of the properties looks ahead, and the end of the tag does not. -/
lemma shorten (h : ReadsProperties s l ps isClosed r) (hr : r' <+: r) :
    ReadsProperties s l ps isClosed r' := by
  induction h with
  | closed hb => exact .closed hb
  | opened hb => exact .opened hb
  | slash hb hs _ ih => exact .slash hb hs (ih hr)
  | property hb h _ ih =>
      exact .property hb (h.shorten ((List.prefix_append_right_inj _).mpr hr)) (ih hr)

/-- A start tag ends in an angle bracket. -/
lemma exists_eq_append (h : ReadsProperties s l ps isClosed r) : ∃ t, s = t ++ ['>'] := by
  induction h with
  | @closed b _ _ _ => exact ⟨b ++ ['/'], by simp⟩
  | @opened b _ _ _ => exact ⟨b, rfl⟩
  | @slash b _ _ _ _ _ _ _ _ ih =>
      obtain ⟨t, rfl⟩ := ih
      exact ⟨b ++ '/' :: t, by simp⟩
  | @property b s _ _ _ _ _ _ _ _ _ ih =>
      obtain ⟨t, rfl⟩ := ih
      exact ⟨b ++ (s ++ t), by simp⟩

/-- The end of the tag is not empty. -/
lemma ne_nil (h : ReadsProperties s l ps isClosed r) : s ≠ [] := by
  obtain ⟨t, rfl⟩ := h.exists_eq_append
  simp

end ReadsProperties

/-- The properties that are read are those of a text that is passed. -/
lemma exists_passes_readsProperties {start c c' : Cursor} {tag : Text} {ps : List Property}
    {isClosed : Bool} (h : readProperties start tag c = .ok (ps, isClosed, c')) :
    ∃ s, c.Passes s c' ∧ ReadsProperties s c.location ps isClosed c'.rest := by
  fun_induction readProperties start tag c generalizing ps isClosed with
  | case1 => cases h
  | case2 c t ht =>
      cases h
      obtain ⟨hb, hruns⟩ := c.passes_dropBlanks
      obtain ⟨hend, -⟩ := Cursor.passes_drop (s := ['/', '>']) ht rfl
      exact ⟨_, hb.trans hend, .closed hruns.all⟩
  | case3 c t ht =>
      cases h
      obtain ⟨hb, hruns⟩ := c.passes_dropBlanks
      obtain ⟨hend, -⟩ := Cursor.passes_drop (s := ['>']) ht rfl
      exact ⟨_, hb.trans hend, .opened hruns.all⟩
  -- A slash that ends no tag is passed, and the properties go on behind it.
  | case4 c t hclosed ht ih =>
      obtain ⟨hb, hruns⟩ := c.passes_dropBlanks
      obtain ⟨hslash, hr⟩ := Cursor.passes_drop (s := ['/']) ht rfl
      obtain ⟨s, hs, hread⟩ := ih h
      have hhead : s.head? ≠ some '>' := by
        intro hhead
        obtain ⟨u, rfl⟩ := List.head?_eq_some_iff.mp hhead
        exact hclosed (u ++ c'.rest) (hr.symm.trans hs.rest)
      have hslash' := hb.trans hslash
      refine ⟨_, hb.trans (hslash.trans hs), .slash (s := s) hruns.all hhead ?_⟩
      rw [← hslash'.location]
      exact hread
  | case5 => cases h
  | case6 => cases h
  | case7 c x t hclosed hopened hslash ht p c₁ hp ps₁ r₁ hr ih =>
      cases h
      obtain ⟨hb, hruns⟩ := c.passes_dropBlanks
      obtain ⟨s, hs, hread⟩ := readProperty_eq_ok_iff.mp hp
      -- The property, and the rest by induction, with the location moved on by the property.
      obtain ⟨s', hs', hread'⟩ := ih hr
      have hfirst := hb.trans hs
      rw [hs'.rest, hb.location] at hread
      rw [hfirst.location] at hread'
      exact ⟨_, hb.trans (hs.trans hs'), .property hruns.all hread hread'⟩

/-- Where the text of properties is passed, they are read. -/
lemma readProperties_of_passes (start : Cursor) (tag : Text) {c c' : Cursor} {s : Text}
    {ps : List Property} {isClosed : Bool} (hpass : c.Passes s c')
    (h : ReadsProperties s c.location ps isClosed c'.rest) :
    readProperties start tag c = .ok (ps, isClosed, c') := by
  generalize hl : c.location = l at h
  generalize hr : c'.rest = r at h
  -- The induction is on what is read; each rule tells which branch of the reader is taken.
  induction h generalizing c with
  | @closed b r l hb =>
      obtain ⟨-, hend⟩ := hpass.dropBlanks hb rfl
      have hrest : c.dropBlanks.rest = '/' :: '>' :: c'.rest := hend.rest
      have hdrop : c.dropBlanks.drop 2 = c' := hend.drop_eq rfl
      rw [readProperties]
      split <;> grind
  | @opened b r l hb =>
      obtain ⟨-, hend⟩ := hpass.dropBlanks hb rfl
      have hrest : c.dropBlanks.rest = '>' :: c'.rest := hend.rest
      have hdrop : c.dropBlanks.drop 1 = c' := hend.drop_eq rfl
      rw [readProperties]
      split <;> grind
  | @slash b s r l ps isClosed hb hs h ih =>
      obtain ⟨h₁, h₂⟩ := hpass.dropBlanks hb rfl
      obtain ⟨c₂, h₂, h₃⟩ := Cursor.Passes.exists_between (s := ['/']) h₂
      have hrest : c.dropBlanks.rest = '/' :: c₂.rest := h₂.rest
      have hdrop : c.dropBlanks.drop 1 = c₂ := h₂.drop_eq rfl
      -- Behind the slash no tag ends, as the rule asks.
      have hnot : ∀ t, c₂.rest ≠ '>' :: t := by
        obtain ⟨x, t, rfl⟩ := List.exists_cons_of_ne_nil h.ne_nil
        intro u hu
        rw [h₃.rest] at hu
        cases hu
        exact hs rfl
      have hread := ih h₃ (hl ▸ (h₁.trans h₂).location) hr
      rw [readProperties]
      split <;> grind
  | @property b s s' r l p ps isClosed hb h h' ih =>
      subst hl hr
      obtain ⟨x, t, rfl, hx⟩ := h.exists_eq_cons
      -- A name begins with no blank, no slash and no end of the tag, so the branches in front
      -- fail.
      obtain ⟨hblank, -, hopened, hslash⟩ := isAttributeChar_iff.mp hx
      obtain ⟨h₁, h₂⟩ := hpass.dropBlanks hb hblank
      obtain ⟨c₂, h₂, h₃⟩ := Cursor.Passes.exists_between (s := x :: t) h₂
      have hread := ih h₃ (h₁.trans h₂).location rfl
      rw [← h₁.location, ← h₃.rest] at h
      have hp := readProperty_eq_ok_iff.mpr ⟨x :: t, h₂, h⟩
      have hrest : c.dropBlanks.rest = x :: (t ++ c₂.rest) := h₂.rest
      rw [readProperties]
      split <;> grind

/-- The reader of properties has exactly the ways of `ReadsProperties`. -/
lemma readProperties_eq_ok_iff {start c c' : Cursor} {tag : Text} {ps : List Property}
    {isClosed : Bool} :
    readProperties start tag c = .ok (ps, isClosed, c') ↔
      ∃ s, c.Passes s c' ∧ ReadsProperties s c.location ps isClosed c'.rest := by
  refine ⟨exists_passes_readsProperties, ?_⟩
  rintro ⟨s, hpass, h⟩
  exact readProperties_of_passes start tag hpass h

/-! ### Tokens -/

/-- A tag begins with an angle bracket and a letter. -/
lemma startsTag_iff {t : Text} :
    startsTag t = true ↔ ∃ x, Text.isLetter x = true ∧ ['<', x] <+: t := by
  rw [startsTag.eq_def]
  split
  · simp [List.cons_prefix_cons]
  · next hnot =>
      refine iff_of_false (by simp) ?_
      rintro ⟨x, -, u, rfl⟩
      exact hnot x u rfl

/-- Markup begins in one of four ways. -/
lemma startsMarkup_iff {t : Text} :
    startsMarkup t = true ↔
      ['<', '/'] <+: t ∨ ['<', '!', '-', '-'] <+: t ∨ ['{', '{'] <+: t ∨
        ∃ x, Text.isLetter x = true ∧ ['<', x] <+: t := by
  simp [startsMarkup, Text.startsWith, startsTag_iff, or_assoc]

/-- Markup that begins a text begins every longer one. -/
lemma startsMarkup_mono {t t' : Text} (h : startsMarkup t' = true) (ht : t' <+: t) :
    startsMarkup t = true := by
  rw [startsMarkup_iff] at h ⊢
  rcases h with h | h | h | ⟨x, hx, h⟩
  · exact .inl (h.trans ht)
  · exact .inr (.inl (h.trans ht))
  · exact .inr (.inr (.inl (h.trans ht)))
  · exact .inr (.inr (.inr ⟨x, hx, h.trans ht⟩))

/-- In front of `r` no markup begins inside of `s`. -/
def IsPlain (s r : Text) : Prop := ∀ v, v <:+ s → v ≠ [] → startsMarkup (v ++ r) = false

/-- Plain text is plain from each of its characters on. -/
lemma isPlain_cons_iff {x : Char} {s r : Text} :
    IsPlain (x :: s) r ↔ startsMarkup (x :: (s ++ r)) = false ∧ IsPlain s r := by
  constructor
  · intro h
    exact ⟨h _ List.suffix_rfl (List.cons_ne_nil x s),
      fun v hv => h v (hv.trans (List.suffix_cons x s))⟩
  · rintro ⟨hx, hs⟩ v hv hne
    rcases List.suffix_cons_iff.mp hv with rfl | hv
    · exact hx
    · exact hs v hv hne

/-- Plain text is plain in front of less text. -/
lemma IsPlain.shorten {s r r' : Text} (h : IsPlain s r) (hr : r' <+: r) : IsPlain s r' := by
  intro v hv hne
  by_contra hmarkup
  rw [Bool.not_eq_false] at hmarkup
  have hlong := startsMarkup_mono hmarkup ((List.prefix_append_right_inj v).mpr hr)
  rw [h v hv hne] at hlong
  cases hlong

/-- A text goes up to the next markup or to the end. -/
lemma untilMarkup_append_iff {s r : Text} :
    untilMarkup (s ++ r) = s ↔ IsPlain s r ∧ (r = [] ∨ startsMarkup r = true) := by
  induction s with
  | nil =>
      have hplain : IsPlain [] r := fun v hv hne => absurd (List.suffix_nil.mp hv) hne
      cases r with
      | nil => simp [untilMarkup, hplain]
      | cons x r => simp [untilMarkup, hplain]
  | cons x s ih =>
      rw [isPlain_cons_iff, and_assoc, ← ih, List.cons_append, untilMarkup]
      split_ifs with hmarkup
      · simp [hmarkup]
      · simp [hmarkup]

/-- The text up to the next markup is a beginning of it. -/
lemma untilMarkup_prefix (t : Text) : untilMarkup t <+: t := by
  induction t with
  | nil => exact List.prefix_rfl
  | cons x t ih =>
      rw [untilMarkup]
      split_ifs
      · exact List.nil_prefix
      · exact List.cons_prefix_cons.mpr ⟨rfl, ih⟩

/-- A text that does not begin with markup takes its first character. -/
lemma take_append_untilMarkup {t : Text} (hne : t ≠ []) (ht : startsMarkup t = false) :
    t.take 1 ++ untilMarkup (t.drop 1) = untilMarkup t ∧ untilMarkup t ≠ [] := by
  obtain ⟨x, t, rfl⟩ := List.exists_cons_of_ne_nil hne
  simp [untilMarkup, ht]

/-- What is read as a token that begins at the location `l`. -/
inductive ReadsToken : Text → Location → Token → Text → Prop
  | endTag {name b e r : Text} {l : Location}
      (hname : Text.Runs isUnquotedChar name (b ++ (e ++ r)))
      (hb : Text.Runs Text.isBlank b (e ++ r))
      (he : e = ['>'] ∨ e = [] ∧ r.head? ≠ some '>') :
      ReadsToken (['<', '/'] ++ (name ++ (b ++ e))) l (.endTag name) r
  | comment {content r : Text} {l : Location} (h : Text.IsFirst ['-', '-', '>'] content) :
      ReadsToken (['<', '!', '-', '-'] ++ (content ++ ['-', '-', '>'])) l (.comment content) r
  | startTag {tag s r : Text} {l : Location} {ps : List Property} {isClosed : Bool}
      (hletter : startsTag ('<' :: tag) = true) (htag : Text.Runs isTagChar tag (s ++ r))
      (h : ReadsProperties s (l.after ('<' :: tag)) ps isClosed r) :
      ReadsToken ('<' :: (tag ++ s)) l (.startTag tag ps isClosed) r
  | interpolation {content r : Text} {l : Location} (h : Text.IsFirst ['}', '}'] content) :
      ReadsToken (['{', '{'] ++ (content ++ ['}', '}'])) l (.interpolation (Text.trim content)) r
  | text {s r : Text} {l : Location} (hne : s ≠ []) (hs : IsPlain s r)
      (hr : r = [] ∨ startsMarkup r = true) : ReadsToken s l (.text s) r

namespace ReadsToken

variable {s r r' : Text} {l : Location} {token : Token}

/-- Where less follows, the token stays, if a text still ends there. -/
lemma shorten (h : ReadsToken s l token r) (hr : r' <+: r)
    (hend : startsMarkup r = true → r' = [] ∨ startsMarkup r' = true) :
    ReadsToken s l token r' := by
  cases h with
  -- The name, the blanks and the angle bracket each ask that something does not follow.
  | endTag hname hb he =>
      refine .endTag (hname.shorten ?_) (hb.shorten ?_) (he.imp_right fun h => ⟨h.1, ?_⟩)
      · simpa only [List.prefix_append_right_inj] using hr
      · simpa only [List.prefix_append_right_inj] using hr
      · exact fun hx => h.2 (Text.mem_head?_mono hr hx)
  | comment h => exact .comment h
  | startTag hletter htag h =>
      exact .startTag hletter (htag.shorten ((List.prefix_append_right_inj _).mpr hr))
        (h.shorten hr)
  | interpolation h => exact .interpolation h
  -- A text goes on up to markup, which is why a beginning of the rest has to begin with markup
  -- too.
  | text hne hs hmarkup =>
      refine .text hne (hs.shorten hr) ?_
      rcases hmarkup with rfl | hmarkup
      · exact .inl (List.prefix_nil.mp hr)
      · exact hend hmarkup

/-- A token is not empty, so reading goes on. -/
lemma ne_nil (h : ReadsToken s l token r) : s ≠ [] := by
  cases h with
  | text hne _ _ => exact hne
  | _ => simp

/-- A text is what it was read from. -/
lemma content_eq {content : Text} (h : ReadsToken s l (.text content) r) : content = s := by
  cases h
  rfl

end ReadsToken

/-- A text that starts with another one has it as a prefix. -/
lemma startsWith_iff {t p : Text} : Text.startsWith t p = true ↔ p <+: t :=
  List.isPrefixOf_iff_prefix

section Reader

variable {c c' : Cursor}

/-- An end tag, with or without its angle bracket. -/
lemma exists_readsToken_endTag (hc : ['<', '/'] <+: c.rest) {name : Text}
    (hname : (c.rest.drop 2).takeWhile isUnquotedChar = name) {behind : Cursor}
    (hbehind : (c.drop (2 + name.length)).dropBlanks = behind)
    (hc' : (if behind.rest.head? = some '>' then behind.drop 1 else behind) = c') :
    ∃ s, c.Passes s c' ∧ ReadsToken s c.location (.endTag name) c'.rest := by
  obtain ⟨t, ht⟩ := hc
  have hrun := Text.runs_takeWhile isUnquotedChar t
  have hsplit := List.takeWhile_append_dropWhile (p := isUnquotedChar) (l := t)
  rw [← ht] at hname
  change t.takeWhile isUnquotedChar = name at hname
  rw [hname] at hrun hsplit
  rw [← hsplit, ← List.append_assoc] at ht
  obtain ⟨h₁, hr₁⟩ := Cursor.passes_drop (n := 2 + name.length) ht.symm List.length_append
  obtain ⟨h₂, hb⟩ := (c.drop (2 + name.length)).passes_dropBlanks
  rw [← hr₁, h₂.rest, hbehind] at hrun
  rw [hbehind] at h₂ hb
  -- The angle bracket may be missing, and then nothing is passed for it.
  split_ifs at hc' with hhead
  · obtain ⟨u, hu⟩ := List.head?_eq_some_iff.mp hhead
    obtain ⟨h₃, -⟩ := Cursor.passes_drop (s := ['>']) hu rfl
    have h := h₁.trans (h₂.trans h₃)
    subst hc'
    rw [List.append_assoc] at h
    rw [h₃.rest] at hrun hb
    exact ⟨_, h, .endTag hrun hb (.inl rfl)⟩
  · have h := h₁.trans (h₂.trans (.refl behind))
    subst hc'
    rw [List.append_assoc] at h
    exact ⟨_, h, .endTag hrun hb (.inr ⟨rfl, hhead⟩)⟩

/-- The other way round an end tag is read from its parts. -/
lemma read_of_endTag {name b e : Text} (h : c.Passes (['<', '/'] ++ (name ++ (b ++ e))) c')
    (hname : Text.Runs isUnquotedChar name (b ++ (e ++ c'.rest)))
    (hb : Text.Runs Text.isBlank b (e ++ c'.rest))
    (he : e = ['>'] ∨ e = [] ∧ c'.rest.head? ≠ some '>') :
    Token.read c = .ok (.endTag name, c') := by
  have hc : Text.startsWith c.rest ['<', '/'] = true :=
    startsWith_iff.mpr ⟨_, (h.rest.trans (List.append_assoc _ _ _)).symm⟩
  have htake : (c.rest.drop 2).takeWhile isUnquotedChar = name := by
    have hdrop : c.rest.drop 2 = name ++ (b ++ (e ++ c'.rest)) := by
      rw [h.rest, List.append_assoc, List.append_assoc, List.append_assoc]
      rfl
    rw [hdrop, hname.takeWhile_eq]
  rw [← List.append_assoc] at h
  -- The cursor behind the name, and the one behind the blanks.
  obtain ⟨c₁, h₁, h⟩ := h.exists_between
  obtain ⟨c₂, h₂, h₃⟩ := h.exists_between
  have hdrop : c.drop (2 + name.length) = c₁ := h₁.drop_eq List.length_append
  have hblanks : c₁.dropBlanks = c₂ := h₂.dropWhile_eq (h₃.rest ▸ hb)
  have hend : (if c₂.rest.head? = some '>' then c₂.drop 1 else c₂) = c' := by
    rcases he with rfl | ⟨rfl, hhead⟩
    · rw [if_pos (by rw [h₃.rest]; rfl)]
      exact h₃.drop_eq rfl
    · obtain rfl : c₂ = c' := h₃.drop_eq rfl
      rw [if_neg hhead]
  have hchar : (fun x => !Text.isBlank x && x != '>') = isUnquotedChar := rfl
  rw [Token.read, if_pos hc, hchar, htake]
  dsimp only
  rw [hdrop, hblanks, hend]

/-- A letter can stand in the name of a tag. -/
lemma isTagChar_of_isLetter {x : Char} (hx : Text.isLetter x = true) : isTagChar x = true := by
  have hrange : (97 ≤ x.toNat ∧ x.toNat ≤ 122) ∨ (65 ≤ x.toNat ∧ x.toNat ≤ 90) := by
    simpa [Text.isLetter, Char.le_def, UInt32.le_iff_toNat_le] using hx
  have hslash : x ≠ '/' := by
    rintro rfl
    simp at hrange
  have hangle : x ≠ '>' := by
    rintro rfl
    simp at hrange
  have hblank : Text.isBlank x = false := by
    simp only [Text.isBlank, Bool.or_eq_false_iff, Bool.and_eq_false_iff,
      decide_eq_false_iff_not, beq_eq_false_iff_ne]
    omega
  simp [isTagChar, hblank, hslash, hangle]

/-- A start tag: its name, its properties and its end. -/
lemma exists_readsToken_startTag (hc : startsTag c.rest = true) {tag : Text}
    (htag : (c.rest.drop 1).takeWhile isTagChar = tag) {ps : List Property} {isClosed : Bool}
    (hread : readProperties c tag (c.drop (1 + tag.length)) = .ok (ps, isClosed, c')) :
    ∃ s, c.Passes s c' ∧ ReadsToken s c.location (.startTag tag ps isClosed) c'.rest := by
  obtain ⟨x, hx, t, ht⟩ := startsTag_iff.mp hc
  have hrun := Text.runs_takeWhile isTagChar (x :: t)
  have hsplit := List.takeWhile_append_dropWhile (p := isTagChar) (l := x :: t)
  rw [← ht] at htag
  change (x :: t).takeWhile isTagChar = tag at htag
  rw [htag] at hrun hsplit
  -- The first letter of the name is enough to tell the tag.
  have hletter : startsTag ('<' :: tag) = true := by
    rw [← htag, List.takeWhile_cons_of_pos (isTagChar_of_isLetter hx)]
    exact hx
  have hrest : c.rest = ('<' :: tag) ++ (x :: t).dropWhile isTagChar := by
    rw [List.cons_append, hsplit, ← ht]
    rfl
  obtain ⟨h₁, hr₁⟩ := Cursor.passes_drop (n := 1 + tag.length) hrest (by simp [Nat.add_comm])
  obtain ⟨s, h₂, hs⟩ := readProperties_eq_ok_iff.mp hread
  rw [← hr₁, h₂.rest] at hrun
  rw [h₁.location] at hs
  exact ⟨_, h₁.trans h₂, .startTag hletter hrun hs⟩

/-- The other way round a start tag is read from its parts. -/
lemma read_of_startTag {tag s : Text} {ps : List Property} {isClosed : Bool}
    (h : c.Passes ('<' :: (tag ++ s)) c') (hletter : startsTag ('<' :: tag) = true)
    (htag : Text.Runs isTagChar tag (s ++ c'.rest))
    (hread : ReadsProperties s (c.location.after ('<' :: tag)) ps isClosed c'.rest) :
    Token.read c = .ok (.startTag tag ps isClosed, c') := by
  obtain ⟨x, hx, t, ht⟩ := startsTag_iff.mp hletter
  obtain ⟨-, rfl⟩ := List.cons.inj ht
  change c.Passes ('<' :: x :: (t ++ s)) c' at h
  change Text.Runs isTagChar (x :: t) (s ++ c'.rest) at htag
  have hrest : c.rest = '<' :: ((x :: t) ++ (s ++ c'.rest)) := by simp [h.rest]
  -- A letter behind the angle bracket rules out an end tag and a comment.
  have hendTag : Text.startsWith c.rest ['<', '/'] = false := by
    have hslash : '/' ≠ x := by
      rintro rfl
      cases hx
    rw [Bool.eq_false_iff, ne_eq, startsWith_iff, hrest]
    simp [List.cons_prefix_cons, hslash]
  have hcomment : Text.startsWith c.rest ['<', '!', '-', '-'] = false := by
    have hbang : '!' ≠ x := by
      rintro rfl
      cases hx
    rw [Bool.eq_false_iff, ne_eq, startsWith_iff, hrest]
    simp [List.cons_prefix_cons, hbang]
  have hstart : startsTag c.rest = true := by
    rw [hrest]
    exact hx
  have htake : (c.rest.drop 1).takeWhile isTagChar = x :: t := by
    rw [hrest]
    exact htag.takeWhile_eq
  -- Behind the name the properties are read.
  obtain ⟨c₁, h₁, h₂⟩ := Cursor.Passes.exists_between (s := '<' :: x :: t) h
  have hdrop : c.drop (1 + (x :: t).length) = c₁ := h₁.drop_eq (by simp [Nat.add_comm])
  have hproperties : readProperties c (x :: t) c₁ = .ok (ps, isClosed, c') := by
    refine readProperties_eq_ok_iff.mpr ⟨s, h₂, ?_⟩
    rw [h₁.location]
    exact hread
  rw [Token.read, hendTag, hcomment, hstart]
  simp only [Bool.false_eq_true, if_false, if_true, htake, hdrop, hproperties]
  rfl

/-- What stands between two marks is passed with them. -/
lemma passes_of_cutAt? {o e content after : Text} (ho : o <+: c.rest) (he : e ≠ [])
    (hcut : Text.cutAt? e (c.rest.drop o.length) = some (content, after)) :
    c.Passes (o ++ (content ++ e)) (c.drop (content.length + (o.length + e.length))) ∧
      Text.IsFirst e content := by
  obtain ⟨t, ht⟩ := ho
  rw [← ht, List.drop_left' rfl] at hcut
  obtain ⟨rfl, hfirst⟩ := (Text.cutAt?_eq_some_iff he).mp hcut
  have hrest : c.rest = (o ++ (content ++ e)) ++ after := by simp [← ht]
  exact ⟨(Cursor.passes_drop hrest (by simp [Nat.add_left_comm])).1, hfirst⟩

/-- A text between two marks is found by cutting at the second one. -/
lemma cutAt?_of_passes {o e content : Text} (he : e ≠ [])
    (h : c.Passes (o ++ (content ++ e)) c') (hfirst : Text.IsFirst e content) :
    Text.cutAt? e (c.rest.drop o.length) = some (content, c'.rest) ∧
      c.drop (content.length + (o.length + e.length)) = c' := by
  refine ⟨?_, h.drop_eq (by simp [Nat.add_left_comm])⟩
  rw [h.rest, List.append_assoc, List.drop_left' rfl, List.append_assoc]
  exact (Text.cutAt?_eq_some_iff he).mpr ⟨rfl, hfirst⟩

/-- A comment is read from its content. -/
lemma read_of_comment {content : Text}
    (h : c.Passes (['<', '!', '-', '-'] ++ (content ++ ['-', '-', '>'])) c')
    (hfirst : Text.IsFirst ['-', '-', '>'] content) :
    Token.read c = .ok (.comment content, c') := by
  obtain ⟨hcut, hdrop⟩ := cutAt?_of_passes (by simp) h hfirst
  have hcomment : Text.startsWith c.rest ['<', '!', '-', '-'] = true :=
    startsWith_iff.mpr ⟨_, (h.rest.trans (List.append_assoc _ _ _)).symm⟩
  have hendTag : Text.startsWith c.rest ['<', '/'] = false := by
    rw [h.rest]
    rfl
  change Text.cutAt? _ (c.rest.drop 4) = _ at hcut
  change c.drop (content.length + 7) = _ at hdrop
  rw [Token.read, hendTag, hcomment, if_neg (by simp), if_pos rfl, hcut]
  simp only [hdrop]

/-- An interpolation is read from its content. -/
lemma read_of_interpolation {content : Text}
    (h : c.Passes (['{', '{'] ++ (content ++ ['}', '}'])) c')
    (hfirst : Text.IsFirst ['}', '}'] content) :
    Token.read c = .ok (.interpolation (Text.trim content), c') := by
  obtain ⟨hcut, hdrop⟩ := cutAt?_of_passes (by simp) h hfirst
  change Text.cutAt? _ (c.rest.drop 2) = _ at hcut
  change c.drop (content.length + 4) = _ at hdrop
  have hrest : c.rest = '{' :: '{' :: (content ++ ['}', '}'] ++ c'.rest) := h.rest
  -- Two braces rule out the other kinds of tokens.
  have hendTag : Text.startsWith c.rest ['<', '/'] = false := by
    rw [hrest]
    rfl
  have hcomment : Text.startsWith c.rest ['<', '!', '-', '-'] = false := by
    rw [hrest]
    rfl
  have htag : startsTag c.rest = false := by
    rw [hrest]
    rfl
  have hopen : Text.startsWith c.rest ['{', '{'] = true := by
    rw [hrest]
    rfl
  rw [Token.read, hendTag, hcomment, htag, hopen]
  simp only [Bool.false_eq_true, if_false, if_true, hcut, hdrop]

/-- A text up to where markup begins. -/
lemma exists_readsToken_text (hc : c.rest ≠ []) (hmarkup : startsMarkup c.rest = false) :
    c.Passes (untilMarkup c.rest) (c.drop (untilMarkup c.rest).length) ∧
      ReadsToken (untilMarkup c.rest) c.location (.text (untilMarkup c.rest))
        (c.drop (untilMarkup c.rest).length).rest := by
  obtain ⟨r, hr⟩ := untilMarkup_prefix c.rest
  obtain ⟨hpass, hr'⟩ := Cursor.passes_drop hr.symm rfl
  obtain ⟨hplain, hend⟩ := untilMarkup_append_iff.mp (congrArg untilMarkup hr)
  rw [← hr'] at hplain hend
  exact ⟨hpass, .text (take_append_untilMarkup hc hmarkup).2 hplain hend⟩

/-- A text is read up to markup. -/
lemma read_of_text {s : Text} (h : c.Passes s c') (hne : s ≠ []) (hs : IsPlain s c'.rest)
    (hend : c'.rest = [] ∨ startsMarkup c'.rest = true) : Token.read c = .ok (.text s, c') := by
  have hmarkup : startsMarkup c.rest = false := by
    rw [h.rest]
    exact hs s List.suffix_rfl hne
  have hc : c.rest ≠ [] := by simp [h.rest, hne]
  have htake := (take_append_untilMarkup hc hmarkup).1
  rw [h.rest, untilMarkup_append_iff.mpr ⟨hs, hend⟩, ← h.rest] at htake
  simp only [startsMarkup, Bool.or_eq_false_iff] at hmarkup
  obtain ⟨⟨⟨hendTag, hcomment⟩, hopen⟩, htag⟩ := hmarkup
  rw [Token.read, hendTag, hcomment, htag, hopen]
  simp only [Bool.false_eq_true, if_false, htake, h.drop_eq rfl]

end Reader

/-- The reader of a token has exactly the ways of `ReadsToken`. -/
lemma Token.read_eq_ok_iff {c c' : Cursor} (hc : c.rest ≠ []) {token : Token} :
    Token.read c = .ok (token, c') ↔
      ∃ s, c.Passes s c' ∧ ReadsToken s c.location token c'.rest := by
  constructor
  · intro h
    rw [Token.read] at h
    -- The branches of the reader are the kinds of tokens, in the order in which it looks for
    -- them.
    split_ifs at h with hendTag hcomment htag hinterpolation
    · cases h
      exact exists_readsToken_endTag (startsWith_iff.mp hendTag) rfl rfl rfl
    · split at h
      · next content after hcut =>
          cases h
          obtain ⟨hpass, hfirst⟩ := passes_of_cutAt? (startsWith_iff.mp hcomment) (by simp) hcut
          exact ⟨_, hpass, .comment hfirst⟩
      · cases h
    · dsimp only at h
      split at h
      · next ps isClosed c'' hread =>
          cases h
          exact exists_readsToken_startTag htag rfl hread
      · cases h
    · split at h
      · next content after hcut =>
          cases h
          obtain ⟨hpass, hfirst⟩ :=
            passes_of_cutAt? (startsWith_iff.mp hinterpolation) (by simp) hcut
          exact ⟨_, hpass, .interpolation hfirst⟩
      · cases h
    · have hmarkup : startsMarkup c.rest = false := by
        simp [startsMarkup, hendTag, hcomment, htag, hinterpolation]
      cases h
      rw [(take_append_untilMarkup hc hmarkup).1]
      exact ⟨_, exists_readsToken_text hc hmarkup⟩
  · rintro ⟨s, hpass, h⟩
    generalize hl : c.location = l at h
    cases h with
    | endTag hname hb he => exact read_of_endTag hpass hname hb he
    | comment hfirst => exact read_of_comment hpass hfirst
    | startTag hletter htag h =>
        subst hl
        exact read_of_startTag hpass hletter htag h
    | interpolation hfirst => exact read_of_interpolation hpass hfirst
    | text hne hs hend => exact read_of_text hpass hne hs hend

/-! ### Scans -/

/-- The text `t` at the location `l` is read as the pieces `ps`. -/
inductive Scans : Text → Location → List Piece → Prop
  | nil {l : Location} : Scans [] l []
  | cons {s t : Text} {l : Location} {token : Token} {ps : List Piece}
      (h : ReadsToken s l token t) (hps : Scans t (l.after s) ps) :
      Scans (s ++ t) l (⟨token, l, s, t⟩ :: ps)

namespace Scans

variable {t : Text} {l : Location} {ps qs : List Piece}

/-- The pieces of a text make up the text. -/
lemma sourceOf_eq (h : Scans t l ps) : sourceOf ps = t := by
  induction h with
  | nil => rfl
  | cons _ _ ih => rw [sourceOf_cons, ih]

/-- The pieces behind some of them are read from where those end. -/
lemma right (h : Scans t l (ps ++ qs)) : Scans (sourceOf qs) (l.after (sourceOf ps)) qs := by
  induction ps generalizing t l with
  | nil =>
      rw [List.nil_append] at h
      rw [h.sourceOf_eq]
      exact h
  | cons p ps ih =>
      cases h with
      | @cons s t _ token _ h hps =>
          rw [sourceOf_cons, Location.after_append]
          exact ih hps

end Scans

/-- The pieces of a text without a fault are the ones that it is read as. -/
theorem pieces_eq_iff {c : Cursor} {ps : List Piece} :
    pieces c = (ps, none) ↔ Scans c.rest c.location ps := by
  constructor
  · intro h
    -- The pieces are read one by one, and the fault of the rest is that of the whole.
    fun_induction pieces c generalizing ps with
    | case1 c hc =>
        cases h
        rw [hc]
        exact .nil
    | case2 c hc d hd => cases h
    | case3 c hc token c' hread ih =>
        obtain ⟨hps, hfault⟩ := Prod.mk.inj h
        obtain ⟨s, hpass, htoken⟩ := (Token.read_eq_ok_iff hc).mp hread
        have hscan := ih (Prod.ext rfl hfault)
        rw [hpass.location] at hscan
        rw [← hps, hpass.upTo_eq, hpass.rest]
        exact .cons htoken hscan
  · intro h
    generalize hl : c.location = l at h
    generalize hr : c.rest = r at h
    induction h generalizing c with
    | nil => rw [pieces, dif_pos hr]
    | @cons s t l token ps h hps ih =>
        subst hl
        -- A token is not empty, so the text is not at its end and the first branch is ruled out.
        obtain ⟨hpass, hr'⟩ := Cursor.passes_drop hr rfl
        have hc : c.rest ≠ [] := by
          rw [hr]
          exact fun hnil => h.ne_nil (List.append_eq_nil_iff.mp hnil).1
        have hread := (Token.read_eq_ok_iff hc).mpr ⟨s, hpass, hr'.symm ▸ h⟩
        have hrest := ih hpass.location hr'
        rw [pieces, dif_neg hc]
        split
        · next d hd =>
            rw [hread] at hd
            cases hd
        · next token' c' ht =>
            rw [hread] at ht
            cases ht
            rw [hrest, hpass.upTo_eq, hr']

end Markup

end ComponentMigration
