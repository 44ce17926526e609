import ComponentMigration.Markup.ForBinding
import ComponentMigration.Proofs.Text.Blank
import ComponentMigration.Proofs.Text.Search
import Mathlib.Data.List.Infix

/-!
The aliases of a `v-for`, written and read back.

* **Writing.** A `ForText` holds the parts of an expression and the blanks between them, and
  with them what makes the parts recognizable.
* **The keyword.** `afterKeyword?_eq_some_iff` says where a keyword is read. As none stands
  between blanks in the aliases, the cut is behind them (`cutKeyword?_append`).
* **The commas.** Behind a comma of the value a closing brace or bracket follows, behind the
  others none, so the first comma at which the aliases are cut is the one behind the value
  (`cutAliases?_append`).
* **Main statement.** `ForBinding.read?_toText`: the parts are read back.
-/

namespace ComponentMigration.Markup

variable {a b d g k r s t : Text}

/-! ### Written expressions -/

/-- Blanks, maybe none. -/
abbrev Blanks := { t : Text // ∀ c ∈ t, Text.isBlank c = true }

/-- Blanks, at least one of them. -/
structure IsBlankRun (g : Text) : Prop where
  ne_nil : g ≠ []
  all : ∀ c ∈ g, Text.isBlank c = true

instance : DecidablePred IsBlankRun := fun g =>
  decidable_of_iff (g ≠ [] ∧ ∀ c ∈ g, Text.isBlank c = true)
    ⟨fun h => ⟨h.1, h.2⟩, fun h => ⟨h.ne_nil, h.all⟩⟩

/-- The words between the aliases and the source. -/
def forKeywords : List Text := ["in", "of"]

/-- Whether a keyword between two blanks stands at the start of the text. -/
def beginsKeyword : Text → Bool
  | b :: c :: d :: e :: _ => Text.isBlank b && forKeywords.contains [c, d] && Text.isBlank e
  | _ => false

/-- Behind every comma of the text a brace or a bracket is closed. -/
def ClosesCommas (t : Text) : Prop := ∀ u ∈ t.tails, u.head? = some ',' → '}' ∈ u ∨ ']' ∈ u

instance : DecidablePred ClosesCommas := fun t =>
  inferInstanceAs (Decidable (∀ u ∈ t.tails, u.head? = some ',' → '}' ∈ u ∨ ']' ∈ u))

/-- An alias behind its comma, with the blanks on both sides of the comma. -/
structure CommaAlias where
  front : Blanks
  back : Blanks
  name : Text
  ne_nil : name ≠ []
  trim_eq : Text.trim name = name
  all : ∀ c ∈ name, isAliasChar c = true

/-- The aliases behind the value. -/
inductive LaterAliases
  | none
  | key (k : CommaAlias)
  | keyAndIndex (k i : CommaAlias)

/-- The alias with its comma. -/
def CommaAlias.toText (x : CommaAlias) : Text := x.front ++ ',' :: (x.back ++ x.name)

namespace LaterAliases

/-- The text of the aliases behind the value. -/
def toText : LaterAliases → Text
  | none => []
  | key k => k.toText
  | keyAndIndex k i => k.toText ++ i.toText

/-- The name of the key, if there is one. -/
def key? : LaterAliases → Option Text
  | none => .none
  | key k | keyAndIndex k _ => k.name

/-- The name of the index, if there is one. -/
def index? : LaterAliases → Option Text
  | none | key _ => .none
  | keyAndIndex _ i => i.name

/-- The last of all aliases, the value among them. -/
def last (value : Text) : LaterAliases → Text
  | none => value
  | key k => k.name
  | keyAndIndex _ i => i.name

end LaterAliases

/-- The aliases of a `v-for`. In front of a key, and in parentheses, the value may be missing. -/
structure Aliases where
  value : Text
  later : LaterAliases
  /-- The blanks inside of the parentheses, if there are parentheses. -/
  parentheses : Option (Blanks × Blanks)
  trim_value : Text.trim value = value
  closesCommas : ClosesCommas value
  not_missing : value = [] → later.key?.isSome = true ∧ parentheses.isSome = true
  bare : parentheses = none → value.head? ≠ some '(' ∧ (later.last value).getLast? ≠ some ')'

namespace Aliases

/-- The aliases without the parentheses. -/
def list (w : Aliases) : Text := w.value ++ w.later.toText

/-- The aliases as they stand in front of the keyword. -/
def toText (w : Aliases) : Text :=
  match w.parentheses with
  | none => w.list
  | some (b, b') => '(' :: (b ++ (w.list ++ b')) ++ [')']

/-- The value, unless it was left out. -/
def value? (w : Aliases) : Option Text := if w.value = [] then none else some w.value

end Aliases

/-- An expression of a `v-for`: aliases, a keyword and a source. In the aliases and the blanks
behind them no keyword stands between blanks. -/
structure ForText where
  aliases : Aliases
  keyword : Text
  source : Text
  before : Blanks
  gap : { g : Text // IsBlankRun g }
  gap' : { g : Text // IsBlankRun g }
  after : Blanks
  keyword_mem : keyword ∈ forKeywords
  source_ne_nil : source ≠ []
  trim_source : Text.trim source = source
  keyword_first : ∀ u ∈ (aliases.toText ++ gap.1).tails, beginsKeyword u = false

/-- The expression from the aliases to the source. -/
def ForText.core (w : ForText) : Text :=
  w.aliases.toText ++ (w.gap ++ (w.keyword ++ (w.gap' ++ w.source)))

/-- The expression with the blanks around it. -/
def ForText.toText (w : ForText) : Text := w.before ++ (w.core ++ w.after)

/-- The parts of the expression. -/
def ForText.binding (w : ForText) : ForBinding :=
  ⟨w.source, w.aliases.value?, w.aliases.later.key?, w.aliases.later.index?⟩

/-! ### The keyword -/

/-- A run of blanks begins with one. -/
lemma IsBlankRun.head?_any (hg : IsBlankRun g) (t : Text) :
    (g ++ t).head?.any Text.isBlank = true := by
  obtain ⟨c, g, rfl⟩ := List.exists_cons_of_ne_nil hg.ne_nil
  exact hg.all c List.mem_cons_self

/-- The blanks at the start of a text that has some. -/
lemma isBlankRun_takeWhile (h : t.head?.any Text.isBlank = true) :
    IsBlankRun (t.takeWhile Text.isBlank) := by
  refine ⟨?_, (Text.runs_takeWhile _ t).all⟩
  cases t with
  | nil => cases h
  | cons c t => simp [show Text.isBlank c = true from h]

/-- The blanks in front of a text and what is left without them. -/
lemma takeWhile_append_trimStart (t : Text) : t.takeWhile Text.isBlank ++ Text.trimStart t = t :=
  List.takeWhile_append_dropWhile

/-- A keyword has no blanks. -/
lemma isBlank_of_mem_keyword : ∀ k ∈ forKeywords, ∀ c ∈ k, Text.isBlank c = false := by decide

lemma keyword_ne_nil : ∀ k ∈ forKeywords, k ≠ [] := by decide

/-- A keyword begins with no blank. -/
lemma isBlank_head?_keyword (hk : k ∈ forKeywords) (r : Text) :
    ∀ c ∈ (k ++ r).head?, Text.isBlank c = false := by
  intro c hc
  rw [List.head?_append_of_ne_nil _ (keyword_ne_nil k hk)] at hc
  exact isBlank_of_mem_keyword k hk c (List.mem_of_head? hc)

lemma mem_forKeywords : k ∈ forKeywords ↔ k = "in" ∨ k = "of" := by simp [forKeywords]

/-- A keyword between blanks is found where the blank in front of it stands. -/
lemma beginsKeyword_append {x y : Char} (hx : Text.isBlank x = true) (hk : k ∈ forKeywords)
    (hy : Text.isBlank y = true) (r : Text) : beginsKeyword (x :: (k ++ y :: r)) = true := by
  rcases mem_forKeywords.mp hk with rfl | rfl <;> simp [beginsKeyword, forKeywords, hx, hy]

/-- What is read behind a keyword. -/
lemma afterKeyword?_of_trimStart (h : t.head?.any Text.isBlank = true) (hk : k ∈ forKeywords)
    (ht : Text.trimStart t = k ++ r) : afterKeyword? t =
      if r.head?.any Text.isBlank = true then
        if Text.trimStart r = [] then none else some (Text.trimStart r)
      else none := by
  rcases mem_forKeywords.mp hk with rfl | rfl <;> rw [afterKeyword?, h, ht] <;> rfl

/-- A source is read behind blanks, a keyword and blanks. -/
lemma afterKeyword?_eq_some_iff : afterKeyword? t = some s ↔
    s ≠ [] ∧ (∀ c ∈ s.head?, Text.isBlank c = false) ∧
      ∃ g k g', IsBlankRun g ∧ k ∈ forKeywords ∧ IsBlankRun g' ∧ t = g ++ (k ++ (g' ++ s)) := by
  constructor
  · intro h
    -- A keyword needs a blank in front of it, and another one behind it.
    have hany : t.head?.any Text.isBlank = true := by
      by_contra hany
      rw [afterKeyword?, eq_false_of_ne_true hany] at h
      cases h
    obtain ⟨k, r, hk, ht⟩ : ∃ k r, k ∈ forKeywords ∧ Text.trimStart t = k ++ r := by
      rw [afterKeyword?, hany] at h
      split at h
      · cases h
      · split at h
        · next r ht => exact ⟨"in", r, by decide, ht⟩
        · next r ht => exact ⟨"of", r, by decide, ht⟩
        · cases h
    rw [afterKeyword?_of_trimStart hany hk ht] at h
    split_ifs at h with hr hs
    cases h
    refine ⟨hs, (Text.runs_takeWhile _ r).stops, _, k, _, isBlankRun_takeWhile hany, hk,
      isBlankRun_takeWhile hr, ?_⟩
    rw [takeWhile_append_trimStart, ← ht, takeWhile_append_trimStart]
  · rintro ⟨hs, hhead, g, k, g', hg, hk, hg', rfl⟩
    -- The blanks on both sides are the longest runs, since the texts behind them begin with
    -- none.
    have hstart : Text.trimStart (g ++ (k ++ (g' ++ s))) = k ++ (g' ++ s) :=
      Text.Runs.dropWhile_eq ⟨hg.all, isBlank_head?_keyword hk _⟩
    have hsource : Text.trimStart (g' ++ s) = s := Text.Runs.dropWhile_eq ⟨hg'.all, hhead⟩
    rw [afterKeyword?_of_trimStart (hg.head?_any _) hk hstart, if_pos (hg'.head?_any s), hsource,
      if_neg hs]

/-- Blanks in front of a keyword end in a text that does not end with a blank. -/
lemma exists_append_of_blanks (ha : a ≠ []) (hlast : ∀ c ∈ a.getLast?, Text.isBlank c = false)
    (hb : ∀ c ∈ b, Text.isBlank c = true) (heq : a ++ t = b ++ s) :
    ∃ d, a = b ++ d ∧ s = d ++ t := by
  rcases List.append_eq_append_iff.mp heq with ⟨d, rfl, -⟩ | h
  · have hblank := hb (a.getLast ha) (List.mem_append_left d (List.getLast_mem ha))
    rw [hlast _ (List.getLast?_eq_some_getLast ha)] at hblank
    cases hblank
  · exact h

/-- A keyword ends in front of blanks. -/
lemma exists_append_of_keyword (hk : k ∈ forKeywords) (hg : IsBlankRun g)
    (heq : k ++ s = d ++ (g ++ r)) : ∃ e, d = k ++ e ∧ s = e ++ (g ++ r) := by
  rcases List.append_eq_append_iff.mp heq with h | ⟨e, rfl, he⟩
  · exact h
  · cases e with
    | nil => exact ⟨[], by simp, he.symm⟩
    | cons x e =>
        have hhead : (g ++ r).head? = g.head? := List.head?_append_of_ne_nil g hg.ne_nil
        rw [he] at hhead
        have hblank := hg.all x (List.mem_of_head? hhead.symm)
        rw [isBlank_of_mem_keyword _ hk x (by simp)] at hblank
        cases hblank

/-- Where no keyword stands between blanks, none is read. -/
lemma afterKeyword?_eq_none (ha : a ≠ []) (hlast : ∀ c ∈ a.getLast?, Text.isBlank c = false)
    (hg : IsBlankRun g) (hfirst : ∀ u, u <:+ a ++ g → beginsKeyword u = false) (r : Text) :
    afterKeyword? (a ++ (g ++ r)) = none := by
  by_contra hne
  obtain ⟨s, hs⟩ := Option.ne_none_iff_exists'.mp hne
  obtain ⟨-, -, b, k, b', hb, hk, hb', heq⟩ := afterKeyword?_eq_some_iff.mp hs
  obtain ⟨d, rfl, hd⟩ := exists_append_of_blanks ha hlast hb.all heq
  obtain ⟨e, rfl, he⟩ := exists_append_of_keyword hk hg hd
  -- So the blank behind the keyword is the first character of `e ++ g`.
  obtain ⟨y, t, ht⟩ := List.exists_cons_of_ne_nil (List.append_ne_nil_of_right_ne_nil e hg.ne_nil)
  obtain ⟨z, b', rfl⟩ := List.exists_cons_of_ne_nil hb'.ne_nil
  rw [← List.append_assoc, ht] at he
  obtain ⟨rfl, -⟩ := List.cons.inj he
  obtain ⟨b, x, rfl⟩ := (List.eq_nil_or_concat b).resolve_left hb.ne_nil
  have hbegins : beginsKeyword (x :: (k ++ z :: t)) = true :=
    beginsKeyword_append (hb.all x (by simp)) hk (hb'.all z List.mem_cons_self) t
  rw [hfirst _ ⟨b, by simp [← ht]⟩] at hbegins
  cases hbegins

-- Here and below `cutKeyword?` is opened as a whole: Lean is slow to split it into its cases.
/-- Where a keyword is read, the text is cut. -/
lemma cutKeyword?_of_some {c : Char} (h : afterKeyword? (c :: t) = some s) :
    cutKeyword? (c :: t) = some ([], s) := by
  rw [cutKeyword?.eq_def]
  simp only [h]

/-- Where none is read, the next character is one of the aliases. -/
lemma cutKeyword?_of_none {c : Char} (h : afterKeyword? (c :: t) = none) :
    cutKeyword? (c :: t) = (cutKeyword? t).map fun x => (c :: x.1, x.2) := by
  rw [cutKeyword?.eq_def]
  simp only [h]

/-- The aliases end in front of the keyword. -/
lemma cutKeyword?_append (hlast : ∀ c ∈ a.getLast?, Text.isBlank c = false) (hg : IsBlankRun g)
    (hfirst : ∀ u, u <:+ a ++ g → beginsKeyword u = false)
    (hs : afterKeyword? (g ++ r) = some s) : cutKeyword? (a ++ (g ++ r)) = some (a, s) := by
  induction a with
  | nil =>
      obtain ⟨c, g, rfl⟩ := List.exists_cons_of_ne_nil hg.ne_nil
      exact cutKeyword?_of_some hs
  | cons c a ih =>
      have hnone := afterKeyword?_eq_none (List.cons_ne_nil c a) hlast hg hfirst r
      have hcut := ih (fun d hd => hlast d (List.mem_getLast?_cons hd))
        fun u hu => hfirst u (hu.trans (List.suffix_cons c _))
      exact (cutKeyword?_of_none hnone).trans (congrArg _ hcut)

/-! ### The commas -/

/-- Blanks may stand in an alias. -/
lemma isAliasChar_of_isBlank {c : Char} (h : Text.isBlank c = true) : isAliasChar c = true := by
  rw [isAliasChar, Bool.and_eq_true, Bool.and_eq_true, bne_iff_ne, bne_iff_ne, bne_iff_ne]
  refine ⟨⟨?_, ?_⟩, ?_⟩ <;> rintro rfl <;> cases h

/-- With no further comma the last alias is the key. -/
lemma lastAliases?_of_all (hk : ∀ c ∈ k, isAliasChar c = true) :
    lastAliases? k = some (k, none) := by
  have hruns : Text.Runs isAliasChar k [] := ⟨hk, by simp⟩
  have htake := hruns.takeWhile_eq
  have hdrop := hruns.dropWhile_eq
  rw [List.append_nil] at htake hdrop
  rw [lastAliases?, hdrop, htake]

/-- With one further comma the last alias is the index. -/
lemma lastAliases?_append (hk : ∀ c ∈ k, isAliasChar c = true)
    (hr : ∀ c ∈ r, isAliasChar c = true) : lastAliases? (k ++ ',' :: r) = some (k, some r) := by
  have hruns : Text.Runs isAliasChar k (',' :: r) := Text.runs_cons hk (by decide)
  rw [lastAliases?, hruns.takeWhile_eq, hruns.dropWhile_eq]
  exact if_pos (List.all_eq_true.mpr hr)

/-- In front of a closing brace or bracket no comma is the last. -/
lemma lastAliases?_eq_none (h : '}' ∈ t ∨ ']' ∈ t) : lastAliases? t = none := by
  obtain ⟨c, hc, hcomma, hchar⟩ : ∃ c ∈ t, c ≠ ',' ∧ isAliasChar c = false := by
    rcases h with h | h
    · exact ⟨_, h, by decide, by decide⟩
    · exact ⟨_, h, by decide, by decide⟩
  have htake : c ∉ t.takeWhile isAliasChar := fun hmem => by
    rw [(Text.runs_takeWhile isAliasChar t).all c hmem] at hchar
    cases hchar
  -- The bracket stands behind the run of alias characters, and not at the comma.
  have hdrop : c ∈ t.dropWhile isAliasChar := by
    rw [← List.takeWhile_append_dropWhile (p := isAliasChar) (l := t)] at hc
    exact (List.mem_append.mp hc).resolve_left htake
  rw [lastAliases?]
  split
  · next hnil => rw [hnil] at hdrop; cases hdrop
  · next r hr =>
      rw [hr, List.mem_cons] at hdrop
      refine if_neg fun hall => ?_
      rw [List.all_eq_true.mp hall c (hdrop.resolve_left hcomma)] at hchar
      cases hchar
  · rfl

/-- Whether commas are closed is told character by character. -/
lemma closesCommas_cons_iff {c : Char} :
    ClosesCommas (c :: t) ↔ (c = ',' → '}' ∈ t ∨ ']' ∈ t) ∧ ClosesCommas t := by
  rw [ClosesCommas, List.tails_cons, List.forall_mem_cons, List.head?_cons, Option.some_inj]
  refine and_congr_left' (imp_congr_right ?_)
  rintro rfl
  simp

/-- The commas of a text are closed at its end. -/
lemma ClosesCommas.of_suffix (h : ClosesCommas t) (hs : s <:+ t) : ClosesCommas s := by
  intro u hu
  rw [List.mem_tails] at hu
  exact h u ((List.mem_tails u t).mpr (hu.trans hs))

/-- Blanks have no commas. -/
lemma ClosesCommas.append_blanks (h : ClosesCommas t) (b : Blanks) : ClosesCommas (t ++ b) := by
  induction t with
  | nil =>
      intro u hu hcomma
      have hmem := ((List.mem_tails u _).mp hu).subset (List.mem_of_head? hcomma)
      cases b.2 ',' hmem
  | cons c t ih =>
      rw [closesCommas_cons_iff] at h
      refine closesCommas_cons_iff.mpr ⟨fun hc => ?_, ih h.2⟩
      exact (h.1 hc).imp (List.mem_append_left _) (List.mem_append_left _)

/-- At the commas of a text that closes them, the aliases are not cut. -/
lemma cutAliases?_of_closesCommas {c : Char} (h : ClosesCommas (c :: t)) (r : Text) :
    cutAliases? (c :: (t ++ r)) = (cutAliases? (t ++ r)).map fun x => (c :: x.1, x.2) := by
  have hnone : (if c = ',' then lastAliases? (t ++ r) else none) = none := by
    split_ifs with hc
    · exact lastAliases?_eq_none (((closesCommas_cons_iff.mp h).1 hc).imp
        (List.mem_append_left r) (List.mem_append_left r))
    · rfl
  rw [cutAliases?, hnone]

/-- The aliases are cut behind a text that closes its commas. -/
lemma cutAliases?_append {x : Text × Option Text} (ht : ClosesCommas t)
    (hr : lastAliases? r = some x) : cutAliases? (t ++ ',' :: r) = some (t, x) := by
  induction t with
  | nil => rw [List.nil_append, cutAliases?, if_pos rfl, hr]
  | cons c t ih =>
      have hcut := ih (ht.of_suffix (List.suffix_cons c t))
      rw [List.cons_append, cutAliases?_of_closesCommas ht, hcut]
      rfl

/-- At a comma that is closed no aliases are cut, so a text with closed commas is a value alone. -/
lemma cutAliases?_eq_none (ht : ClosesCommas t) : cutAliases? t = none := by
  induction t with
  | nil => rfl
  | cons c t ih =>
      have hcut := cutAliases?_of_closesCommas ht []
      rwa [List.append_nil, ih (ht.of_suffix (List.suffix_cons c t))] at hcut

/-! ### The parentheses -/

/-- Parentheses around a text are taken off. -/
lemma withoutParentheses_enclosed (t : Text) : withoutParentheses ('(' :: t ++ [')']) = t := by
  have hopen : ('(' :: t ++ [')']).head? = some '(' := rfl
  have hdrop : ('(' :: t ++ [')']).drop 1 = t ++ [')'] := rfl
  rw [withoutParentheses, if_pos hopen, hdrop, if_pos List.getLast?_concat, List.dropLast_concat]

namespace CommaAlias

variable (x : CommaAlias)

/-- An alias is no blank text. -/
lemma nonBlank?_name {t : Text} (ht : Text.trim t = x.name) : nonBlank? t = some x.name := by
  rw [nonBlank?, ht, if_neg x.ne_nil]

lemma isBlank_getLast? : ∀ c ∈ x.name.getLast?, Text.isBlank c = false :=
  (Text.trim_eq_self_iff.mp x.trim_eq).2

lemma trim_back_append : Text.trim (x.back ++ x.name) = x.name := by
  rw [Text.trim_append_left x.back.2, x.trim_eq]

lemma all_back_append : ∀ c ∈ x.back ++ x.name, isAliasChar c = true :=
  List.forall_mem_append.mpr ⟨fun c hc => isAliasChar_of_isBlank (x.back.2 c hc), x.all⟩

/-- The last character of an alias is that of its name. -/
lemma getLast?_append (t : Text) : (t ++ x.toText).getLast? = x.name.getLast? := by
  have hsplit : t ++ x.toText = (t ++ (x.front ++ ',' :: x.back)) ++ x.name := by simp [toText]
  rw [hsplit, List.getLast?_append_of_ne_nil _ x.ne_nil]

end CommaAlias

/-- What stands behind the value, if something does, is a comma and what is read behind it. -/
lemma LaterAliases.exists_lastAliases? {later : LaterAliases} (h : later ≠ none) :
    ∃ (front : Blanks) (r key : Text) (index : Option Text),
      later.toText = front ++ ',' :: r ∧ lastAliases? r = some (key, index) ∧
      nonBlank? key = later.key? ∧ index.bind nonBlank? = later.index? := by
  cases later with
  | none => exact absurd rfl h
  | key k =>
      exact ⟨k.front, _, _, _, rfl, lastAliases?_of_all k.all_back_append,
        k.nonBlank?_name k.trim_back_append, rfl⟩
  | keyAndIndex k i =>
      have hkey : Text.trim (k.back ++ (k.name ++ i.front)) = k.name := by
        rw [Text.trim_append_left k.back.2, Text.trim_append_right i.front.2, k.trim_eq]
      have hall : ∀ c ∈ k.back ++ (k.name ++ i.front), isAliasChar c = true := by
        rw [← List.append_assoc, List.forall_mem_append]
        exact ⟨k.all_back_append, fun c hc => isAliasChar_of_isBlank (i.front.2 c hc)⟩
      refine ⟨k.front, _, _, _, ?_, lastAliases?_append hall i.all_back_append,
        k.nonBlank?_name hkey, i.nonBlank?_name i.trim_back_append⟩
      simp [toText, CommaAlias.toText]

namespace Aliases

variable (w : Aliases)

/-- The last character of the aliases is that of the last of them. -/
lemma getLast?_list : w.list.getLast? = (w.later.last w.value).getLast? := by
  rw [list]
  cases w.later with
  | none => rw [LaterAliases.toText, LaterAliases.last, List.append_nil]
  | key k => exact k.getLast?_append _
  | keyAndIndex k i =>
      rw [LaterAliases.toText, ← List.append_assoc]
      exact i.getLast?_append _

/-- The aliases end with no blank. -/
lemma isBlank_getLast?_list : ∀ c ∈ w.list.getLast?, Text.isBlank c = false := by
  rw [getLast?_list]
  cases w.later with
  | none => exact (Text.trim_eq_self_iff.mp w.trim_value).2
  | key k => exact k.isBlank_getLast?
  | keyAndIndex _ i => exact i.isBlank_getLast?

/-- Without parentheses there is a value. -/
lemma value_ne_nil (h : w.parentheses = none) : w.value ≠ [] := by
  intro hnil
  have hsome := (w.not_missing hnil).2
  rw [h] at hsome
  cases hsome

/-- Without parentheses the aliases begin with the value. -/
lemma head?_list (h : w.parentheses = none) : w.list.head? = w.value.head? :=
  List.head?_append_of_ne_nil _ (w.value_ne_nil h)

/-- The aliases are written with at least one character. -/
lemma toText_ne_nil : w.toText ≠ [] := by
  intro hnil
  rw [toText] at hnil
  split at hnil
  · next h => exact w.value_ne_nil h (List.append_eq_nil_iff.mp hnil).1
  · cases hnil

/-- The aliases have no blanks around them. -/
lemma trim_toText : Text.trim w.toText = w.toText := by
  rw [toText]
  split
  · next h =>
      refine Text.trim_eq_self ?_ w.isBlank_getLast?_list
      rw [w.head?_list h]
      exact (Text.trim_eq_self_iff.mp w.trim_value).1
  · refine Text.trim_eq_self ?_ ?_
    · rintro c ⟨⟩
      rfl
    · intro c hc
      rw [List.getLast?_concat] at hc
      cases hc
      rfl

/-- One pair of parentheses is dropped, and only where it is written. -/
lemma trim_withoutParentheses : Text.trim (withoutParentheses w.toText) = Text.trim w.list := by
  rw [toText]
  split
  · next h =>
      obtain ⟨hhead, hlast⟩ := w.bare h
      rw [← w.head?_list h] at hhead
      rw [← w.getLast?_list] at hlast
      rw [withoutParentheses, if_neg hhead, if_neg hlast]
  · next b b' _ =>
      rw [withoutParentheses_enclosed, Text.trim_append_left b.2, Text.trim_append_right b'.2]

/-- A value that was left out is no value. -/
lemma nonBlank?_value {t : Text} (ht : Text.trim t = w.value) : nonBlank? t = w.value? := by
  rw [nonBlank?, ht, value?]

/-- The aliases are read from the list without parentheses. -/
lemma binding_list (source : Text) :
    (match cutAliases? (Text.trim w.list) with
      | some (value, key, index) =>
          ForBinding.mk source (nonBlank? value) (nonBlank? key) (index.bind nonBlank?)
      | none => ⟨source, nonBlank? (Text.trim w.list), none, none⟩) =
    ⟨source, w.value?, w.later.key?, w.later.index?⟩ := by
  -- With the value alone no comma is cut at; otherwise the first cut is behind the value.
  by_cases hnone : w.later = .none
  · have hlist : Text.trim w.list = w.value := by
      rw [list, hnone, LaterAliases.toText, List.append_nil, w.trim_value]
    rw [hlist, cutAliases?_eq_none w.closesCommas, w.nonBlank?_value w.trim_value, hnone]
    rfl
  · obtain ⟨front, r, key, index, htext, hread, hkey, hindex⟩ :=
      LaterAliases.exists_lastAliases? hnone
    have hlist : w.list = w.value ++ front ++ ',' :: r := by
      rw [list, htext, List.append_assoc]
    -- The rest begins with the comma and ends with a name, so no blanks are taken off there.
    have hr : Text.trim (',' :: r) = ',' :: r := by
      refine Text.trim_eq_self (by rintro c ⟨⟩; rfl) ?_
      have hlast := w.isBlank_getLast?_list
      rwa [hlist, List.getLast?_append_of_ne_nil _ (List.cons_ne_nil _ _)] at hlast
    have hvalue : Text.trim (Text.trimStart (w.value ++ front)) = w.value := by
      rw [Text.trim_trimStart]
      exact (Text.trim_append_right front.2 _).trans w.trim_value
    have hcommas : ClosesCommas (Text.trimStart (w.value ++ front)) :=
      (w.closesCommas.append_blanks front).of_suffix (List.dropWhile_suffix _)
    rw [hlist, Text.trim_append_of_trim_eq (List.cons_ne_nil _ _) hr,
      cutAliases?_append hcommas hread]
    dsimp only
    rw [w.nonBlank?_value hvalue, hkey, hindex]

end Aliases

/-- The blanks around the expression are taken off. -/
lemma ForText.trim_toText (w : ForText) : Text.trim w.toText = w.core := by
  obtain ⟨hhead, -⟩ := Text.trim_eq_self_iff.mp w.aliases.trim_toText
  obtain ⟨-, hlast⟩ := Text.trim_eq_self_iff.mp w.trim_source
  rw [toText, Text.trim_append_left w.before.2, Text.trim_append_right w.after.2]
  refine Text.trim_eq_self ?_ ?_
  · rwa [core, List.head?_append_of_ne_nil _ w.aliases.toText_ne_nil]
  · have hcore : w.core = (w.aliases.toText ++ (w.gap ++ (w.keyword ++ w.gap'))) ++ w.source := by
      simp [core]
    rwa [hcore, List.getLast?_append_of_ne_nil _ w.source_ne_nil]

/-- The expression is cut at its keyword. -/
lemma ForText.cutKeyword?_core (w : ForText) :
    cutKeyword? w.core = some (w.aliases.toText, w.source) := by
  obtain ⟨-, hlast⟩ := Text.trim_eq_self_iff.mp w.aliases.trim_toText
  obtain ⟨hhead, -⟩ := Text.trim_eq_self_iff.mp w.trim_source
  refine cutKeyword?_append hlast w.gap.2 (fun u hu => ?_) ?_
  · exact w.keyword_first u ((List.mem_tails u _).mpr hu)
  · exact afterKeyword?_eq_some_iff.mpr
      ⟨w.source_ne_nil, hhead, _, _, _, w.gap.2, w.keyword_mem, w.gap'.2, rfl⟩

/-- **Aliases of a `v-for`**: from an expression its aliases and its source are read back. -/
theorem ForBinding.read?_toText (w : ForText) : ForBinding.read? w.toText = some w.binding := by
  rw [ForBinding.read?, w.trim_toText, w.cutKeyword?_core, Option.map_some]
  dsimp only
  rw [w.aliases.trim_toText, w.aliases.trim_withoutParentheses, w.trim_source]
  exact congrArg some (w.aliases.binding_list w.source)

/-- A destructured value, a key and an index, and a source with a keyword of its own. -/
def destructuredFor : ForText where
  aliases :=
    { value := "{ id, tags: [a, b] }"
      later := .keyAndIndex
        ⟨⟨[], by decide⟩, ⟨[], by decide⟩, "in", by decide, by decide, by decide⟩
        ⟨⟨"\t", by decide⟩, ⟨"\n ", by decide⟩, "i)", by decide, by decide, by decide⟩
      parentheses := some (⟨" ", by decide⟩, ⟨[], by decide⟩)
      trim_value := by decide
      closesCommas := by decide
      not_missing := by decide
      bare := by decide }
  keyword := "of"
  source := "rows in order"
  before := ⟨"\n", by decide⟩
  gap := ⟨"  ", by decide⟩
  gap' := ⟨" ", by decide⟩
  after := ⟨[], by decide⟩
  keyword_mem := by decide
  source_ne_nil := by decide
  trim_source := by decide
  keyword_first := by decide

theorem ForBinding.read?_toText_destructured :
    ForBinding.read? "\n( { id, tags: [a, b] },in\t,\n i))  of rows in order"
      = some ⟨"rows in order", some "{ id, tags: [a, b] }", some "in", some "i)"⟩ :=
  ForBinding.read?_toText destructuredFor

-- In front of a key the value may be left out.
example : ForBinding.read? "(, i) in list" = some ⟨"list", none, some "i", none⟩ := by
  decide +kernel

end ComponentMigration.Markup
