import ComponentMigration.Script.Lexeme
import ComponentMigration.Proofs.Text.Bytes
import ComponentMigration.Proofs.Text.Search
import Mathlib.Tactic.SplitIfs

/-!
Where the tokens of a text begin and end.

* **Gaps.** A `Gap` is a text that can stand between two tokens: `skipTrivia_of_gap` and
  `exists_gap` say that such texts are passed, and no others.
* **Tokens.** A plain token, that is a word, a string or one of the punctuators of an import
  declaration, is read from its own characters: `read_append`. What stands behind it counts for
  no more than its first character does (`GoesOn`).
* **Texts.** `Shows t tok fresh r`: the first token of the text `t` is `tok`, and `r` stands
  behind it. `Lexes` lists several tokens. Neither changes in front of a text that goes on.
-/

namespace ComponentMigration.Script

open Text

/-! ### Gaps -/

/-- A text that can stand between two tokens: from the `mode` and the freshness at its start, it
leads to this freshness behind it. -/
inductive Gap : Trivia → Bool → Text → Bool → Prop
  | nil {f : Bool} : Gap .space f [] f
  | lineEnd {f fresh : Bool} {c : Char} {g : Text} (hc : isLineEnd c = true)
      (h : Gap .space true g fresh) : Gap .space f (c :: g) fresh
  | space {f fresh : Bool} {c : Char} {g : Text} (hc : isLineEnd c = false)
      (hc' : isSpace c = true) (h : Gap .space f g fresh) : Gap .space f (c :: g) fresh
  | openLine {f fresh : Bool} {g : Text} (h : Gap .lineComment f g fresh) :
      Gap .space f ('/' :: '/' :: g) fresh
  | openBlock {f fresh : Bool} {g : Text} (h : Gap .blockComment f g fresh) :
      Gap .space f ('/' :: '*' :: g) fresh
  | closeLine {f fresh : Bool} {c : Char} {g : Text} (hc : isLineEnd c = true)
      (h : Gap .space true g fresh) : Gap .lineComment f (c :: g) fresh
  | line {f fresh : Bool} {c : Char} {g : Text} (hc : isLineEnd c = false)
      (h : Gap .lineComment f g fresh) : Gap .lineComment f (c :: g) fresh
  | closeBlock {f fresh : Bool} {g : Text} (h : Gap .space f g fresh) :
      Gap .blockComment f ('*' :: '/' :: g) fresh
  | block {f fresh : Bool} {c d : Char} {g : Text} (hc : ¬ (c = '*' ∧ d = '/'))
      (h : Gap .blockComment (f || isLineEnd c) (d :: g) fresh) :
      Gap .blockComment f (c :: d :: g) fresh

/-- A text begins with what is no gap. -/
def IsToken : Text → Prop
  | [] => False
  | c :: t => isLineEnd c = false ∧ isSpace c = false ∧
      ¬ (c = '/' ∧ (t.head? = some '/' ∨ t.head? = some '*'))

lemma isLineEnd_slash : isLineEnd '/' = false := rfl

lemma isSpace_slash : isSpace '/' = false := rfl

/-- A line end is passed. -/
lemma skipTrivia_lineEnd {m : Trivia} {c : Char} (hc : isLineEnd c = true)
    (hm : m ≠ .blockComment) (f : Bool) (o : Nat) (t : Text) :
    skipTrivia m f o (c :: t) = skipTrivia .space true (o + c.utf8Size) t := by
  cases m with
  | space => cases t <;> simp [skipTrivia, hc]
  | lineComment => cases t <;> simp [skipTrivia, hc]
  | blockComment => exact absurd rfl hm

/-- A space is passed, or a character of a comment in a line. -/
lemma skipTrivia_inLine {m : Trivia} {c : Char} (hc : isLineEnd c = false)
    (hm : m = .space ∧ isSpace c = true ∨ m = .lineComment) (f : Bool) (o : Nat) (t : Text) :
    skipTrivia m f o (c :: t) = skipTrivia m f (o + c.utf8Size) t := by
  rcases hm with ⟨rfl, hspace⟩ | rfl
  · cases t <;> simp [skipTrivia, hc, hspace]
  · cases t <;> simp [skipTrivia, hc]

/-- A gap is passed, whatever follows it. -/
lemma skipTrivia_gap_append {m : Trivia} {f fresh : Bool} {g : Text} (h : Gap m f g fresh)
    (u : Text) (o : Nat) :
    skipTrivia m f o (g ++ u) = skipTrivia .space fresh (o + Text.byteLength g) u := by
  induction h generalizing o with
  | nil => rfl
  | lineEnd hc _ ih =>
      rw [List.cons_append, skipTrivia_lineEnd (m := .space) hc nofun, ih, Text.byteLength_cons,
        Nat.add_assoc]
  | space hc hc' _ ih =>
      rw [List.cons_append, skipTrivia_inLine hc (.inl ⟨rfl, hc'⟩), ih, Text.byteLength_cons,
        Nat.add_assoc]
  -- The mark of a comment has two characters, so the text is taken apart twice.
  | openLine _ ih =>
      rw [List.cons_append, List.cons_append, skipTrivia]
      simp only [isLineEnd_slash, isSpace_slash, Bool.false_eq_true, if_false, and_self, if_true]
      rw [ih, Text.byteLength_cons, Text.byteLength_cons, ← Nat.add_assoc, ← Nat.add_assoc]
      rfl
  | openBlock _ ih =>
      rw [List.cons_append, List.cons_append, skipTrivia]
      simp only [isLineEnd_slash, isSpace_slash, Bool.false_eq_true, if_false, and_self, if_true,
        true_and, show ¬ '*' = '/' from by decide]
      rw [ih, Text.byteLength_cons, Text.byteLength_cons, ← Nat.add_assoc, ← Nat.add_assoc]
      rfl
  | closeLine hc _ ih =>
      rw [List.cons_append, skipTrivia_lineEnd (m := .lineComment) hc nofun, ih,
        Text.byteLength_cons, Nat.add_assoc]
  | line hc _ ih =>
      rw [List.cons_append, skipTrivia_inLine hc (.inr rfl), ih, Text.byteLength_cons,
        Nat.add_assoc]
  | closeBlock _ ih =>
      rw [List.cons_append, List.cons_append, skipTrivia]
      simp only [and_self, if_true]
      rw [ih, Text.byteLength_cons, Text.byteLength_cons, ← Nat.add_assoc, ← Nat.add_assoc]
      rfl
  -- Within a comment a step passes one character, and looks at the one behind it.
  | @block f fresh c d g hc _ ih =>
      rw [List.cons_append, List.cons_append, skipTrivia]
      simp only [hc, if_false]
      rw [← List.cons_append, ih, Text.byteLength_cons c, Nat.add_assoc]

/-- Nothing is passed in front of a token. -/
lemma skipTrivia_of_isToken {u : Text} (hu : IsToken u) (f : Bool) (o : Nat) :
    skipTrivia .space f o u = (u, o, f, true) := by
  match u, hu with
  | [c], ⟨hend, hspace, _⟩ => simp [skipTrivia, hend, hspace]
  | c :: d :: t, ⟨hend, hspace, hcomment⟩ =>
      simp only [List.head?_cons, Option.some.injEq] at hcomment
      have h₁ : ¬ (c = '/' ∧ d = '/') := fun h => hcomment ⟨h.1, .inl h.2⟩
      have h₂ : ¬ (c = '/' ∧ d = '*') := fun h => hcomment ⟨h.1, .inr h.2⟩
      simp [skipTrivia, hend, hspace, h₁, h₂]

/-- Behind a gap a token is where the trivia end. -/
lemma skipTrivia_of_gap {m : Trivia} {f fresh : Bool} {g u : Text} (h : Gap m f g fresh)
    (hu : IsToken u) (o : Nat) :
    skipTrivia m f o (g ++ u) = (u, o + Text.byteLength g, fresh, true) := by
  rw [skipTrivia_gap_append h, skipTrivia_of_isToken hu]

/-- What is passed in front of a token is a gap. With nothing left there would be no token. -/
lemma exists_gap {m : Trivia} {f fresh closed : Bool} {o n : Nat} {t u : Text}
    (h : skipTrivia m f o t = (u, n, fresh, closed)) (hu : u ≠ []) :
    ∃ g, t = g ++ u ∧ Gap m f g fresh ∧ IsToken u := by
  -- One case for each branch: those that end the text, those that end the gap, and those that
  -- pass something.
  fun_induction skipTrivia m f o t with
  | case1 => cases h; exact absurd rfl hu
  | case2 => cases h; exact absurd rfl hu
  | case3 => cases h; exact absurd rfl hu
  | case4 =>
      next hend hspace =>
      cases h
      exact ⟨[], rfl, .nil, by simpa using hend, by simpa using hspace, by simp⟩
  | case5 => cases h; exact absurd rfl hu
  | case6 => cases h; exact absurd rfl hu
  | case7 =>
      next hc ih =>
      obtain ⟨g, hg, hgap, hu⟩ := ih h
      exact ⟨_ :: g, by rw [hg]; rfl, .lineEnd hc hgap, hu⟩
  | case8 =>
      next hend hc ih =>
      obtain ⟨g, hg, hgap, hu⟩ := ih h
      exact ⟨_ :: g, by rw [hg]; rfl, .space (by simpa using hend) hc hgap, hu⟩
  | case9 =>
      next hc ih =>
      obtain ⟨rfl, rfl⟩ := hc
      obtain ⟨g, hg, hgap, hu⟩ := ih h
      exact ⟨_ :: _ :: g, by rw [hg]; rfl, .openLine hgap, hu⟩
  | case10 =>
      next hc ih =>
      obtain ⟨rfl, rfl⟩ := hc
      obtain ⟨g, hg, hgap, hu⟩ := ih h
      exact ⟨_ :: _ :: g, by rw [hg]; rfl, .openBlock hgap, hu⟩
  -- A slash with no second one and no star behind it begins a token.
  | case11 =>
      next hend hspace hline hblock =>
      cases h
      refine ⟨[], rfl, .nil, by simpa using hend, by simpa using hspace, ?_⟩
      rintro ⟨hc, hd⟩
      simp only [List.head?_cons, Option.some.injEq] at hd
      exact hd.elim (fun hd => hline ⟨hc, hd⟩) fun hd => hblock ⟨hc, hd⟩
  | case12 =>
      next hc ih =>
      obtain ⟨g, hg, hgap, hu⟩ := ih h
      exact ⟨_ :: g, by rw [hg]; rfl, .closeLine hc hgap, hu⟩
  | case13 =>
      next hc ih =>
      obtain ⟨g, hg, hgap, hu⟩ := ih h
      exact ⟨_ :: g, by rw [hg]; rfl, .line (by simpa using hc) hgap, hu⟩
  | case14 =>
      next hc ih =>
      obtain ⟨rfl, rfl⟩ := hc
      obtain ⟨g, hg, hgap, hu⟩ := ih h
      exact ⟨_ :: _ :: g, by rw [hg]; rfl, .closeBlock hgap, hu⟩
  -- The character behind the one that is passed is passed as well, so the rest of the gap is not
  -- empty.
  | case15 =>
      next hc ih =>
      obtain ⟨g, hg, hgap, hu⟩ := ih h
      cases g with
      | nil => cases hgap
      | cons e g =>
          obtain ⟨rfl, rfl⟩ := List.cons.inj hg
          exact ⟨_ :: _ :: g, rfl, .block hc hgap, hu⟩

/-! ### Escapes -/

/-- What can be taken stands in front. -/
lemma exists_append_of_take {t : Text} {n : Nat} (h : (t.take n).length = n) :
    ∃ w r, t = w ++ r ∧ w.length = n :=
  ⟨t.take n, t.drop n, (List.take_append_drop n t).symm, h⟩

/-- An escape is read from its own characters. -/
lemma unicodeEscape?_append {t : Text} {n k : Nat} (h : unicodeEscape? t = some (n, k)) :
    ∃ w r, t = 'u' :: w ++ r ∧ w.length + 1 = k ∧
      ∀ r', unicodeEscape? ('u' :: w ++ r') = some (n, k) := by
  unfold unicodeEscape? at h
  split at h
  · next r =>
      dsimp only at h
      split at h
      · next rest hrest =>
        obtain ⟨m, hm, heq⟩ := Option.map_eq_some_iff.mp h
        cases heq
        -- In braces the digits go on to the closing brace, which is read with them.
        have hr : r = r.takeWhile (· != '}') ++ '}' :: rest := by
          rw [← hrest]
          exact (List.prefix_iff_eq_append.mp (List.takeWhile_prefix _)).symm
        have hruns := (runs_takeWhile (· != '}') r).all
        generalize r.takeWhile (· != '}') = digits at hm hr hruns
        refine ⟨'{' :: (digits ++ ['}']), rest, by simp [hr], by simp, fun r' => ?_⟩
        have htake : (digits ++ '}' :: r').takeWhile (· != '}') = digits :=
          (runs_cons hruns (by rfl)).takeWhile_eq
        have ht : 'u' :: '{' :: (digits ++ ['}']) ++ r' = 'u' :: '{' :: (digits ++ '}' :: r') := by
          simp
        rw [ht, unicodeEscape?, htake, List.drop_left, hm]
        rfl
      · cases h
  · next r hr =>
      split_ifs at h with hlength
      obtain ⟨m, hm, heq⟩ := Option.map_eq_some_iff.mp h
      cases heq
      -- Without braces there are four digits, and so no brace in front of another text either.
      obtain ⟨w, rest, rfl, hw⟩ := exists_append_of_take hlength
      refine ⟨w, rest, rfl, by rw [hw], fun r' => ?_⟩
      rw [List.take_left' hw] at hm
      have hbrace : ∀ s, w ++ r' ≠ '{' :: s := by
        rintro s hs
        cases w with
        | nil => cases hw
        | cons c w => exact hr (w ++ rest) (by rw [List.cons_append, (List.cons.inj hs).1])
      rw [List.cons_append, unicodeEscape?]
      · rw [List.take_left' hw, if_pos hw, hm]
        rfl
      · exact fun s hs => hbrace s hs
  · cases h

/-! ### Names -/

/-- A name ends in front of a text. -/
def EndsName (r : Text) : Prop := ∀ c ∈ r.head?, c ≠ '\\' ∧ isNamePart c = false

/-- Characters of an escape are passed. -/
lemma scanName_append (w t : Text) :
    scanName w.length (w ++ t) = (scanName 0 t).map fun (name, size, isEscaped, rest) =>
      (name, byteLength w + size, isEscaped, rest) := by
  induction w with
  | nil => simp
  | cons c w ih =>
      rw [List.length_cons, List.cons_append, scanName, ih, Option.map_map]
      congr 1
      funext ⟨name, size, isEscaped, rest⟩
      simp only [Function.comp_apply, byteLength_cons, Prod.mk.injEq, true_and, and_true]
      omega

/-- No name begins with what ends one. -/
lemma scanName_of_endsName {r : Text} (hr : EndsName r) :
    scanName 0 r = some ([], 0, false, r) := by
  cases r with
  | nil => rfl
  | cons c r =>
      obtain ⟨hc, hc'⟩ := hr c rfl
      simp [scanName, hc, hc']

/-- A name is read from its own characters. -/
lemma scanName_eq_some {t name r : Text} {size : Nat} {isEscaped : Bool}
    (h : scanName 0 t = some (name, size, isEscaped, r)) :
    ∃ w, t = w ++ r ∧ size = byteLength w ∧ EndsName r ∧
      ∀ r', EndsName r' → scanName 0 (w ++ r') = some (name, size, isEscaped, r') := by
  -- The induction is on the length: behind an escape the name goes on several characters later.
  induction hn : t.length using Nat.strong_induction_on generalizing t name size isEscaped with
  | _ n ih =>
  cases t with
  | nil =>
      cases h
      exact ⟨[], rfl, rfl, (by simp [EndsName]), fun r' hr' => scanName_of_endsName hr'⟩
  | cons c t =>
      rw [scanName] at h
      split_ifs at h with hc hpart
      · subst hc
        cases hescape : unicodeEscape? t with
        | none => rw [hescape] at h; cases h
        | some found =>
            obtain ⟨m, k⟩ := found
            rw [hescape] at h
            dsimp only at h
            split_ifs at h with hpart
            obtain ⟨⟨name', size', isEscaped', rest'⟩, h', heq⟩ := Option.map_eq_some_iff.mp h
            cases heq
            -- An escape is read from its own characters, and then the rest of the name by
            -- induction.
            obtain ⟨w, u, rfl, hk, hlocal⟩ := unicodeEscape?_append hescape
            rw [← List.length_cons (a := 'u')] at hk
            subst hk
            rw [scanName_append] at h'
            obtain ⟨⟨name'', size'', isEscaped'', rest''⟩, h'', heq⟩ := Option.map_eq_some_iff.mp h'
            cases heq
            obtain ⟨w', rfl, rfl, hends, hscan⟩ := ih u.length (by
              rw [← hn, List.length_cons, List.length_append]; omega) h'' rfl
            refine ⟨'\\' :: ('u' :: w ++ w'), by simp, ?_, hends, fun r' hr' => ?_⟩
            · simp only [byteLength_cons, byteLength_append]
              rw [show Char.utf8Size '\\' = 1 from rfl, Nat.add_comm 1]
            · rw [List.cons_append, List.append_assoc, scanName, if_pos rfl, hlocal]
              dsimp only
              rw [if_pos hpart, scanName_append, hscan r' hr']
              rfl
      -- A character that a name can have.
      · obtain ⟨⟨name', size', isEscaped', r'⟩, h', heq⟩ := Option.map_eq_some_iff.mp h
        cases heq
        obtain ⟨w, rfl, rfl, hends, hscan⟩ :=
          ih t.length (by rw [← hn, List.length_cons]; omega) h' rfl
        refine ⟨c :: w, rfl, by rw [byteLength_cons, Nat.add_comm], hends, fun r' hr' => ?_⟩
        rw [List.cons_append, scanName, if_neg hc, if_pos hpart, hscan r' hr']
        rfl
      · cases h
        -- Any other character ends the name.
        refine ⟨[], rfl, rfl, ?_, fun r' hr' => scanName_of_endsName hr'⟩
        simp [EndsName, hc, hpart]

/-! ### Strings -/

/-- An octal escape takes all the octal digits that it may. -/
lemma takeWhile_octal (m : Nat) (t : Text) :
    ∃ w r, t = w ++ r ∧ (t.take m).takeWhile isOctal = w ∧
      ∀ r', r'.head? = r.head? → ((w ++ r').take m).takeWhile isOctal = w := by
  induction m generalizing t with
  | zero => exact ⟨[], t, rfl, by simp, fun r' _ => by simp⟩
  | succ m ih =>
      cases t with
      | nil => exact ⟨[], [], rfl, rfl, fun r' hr' => by
          rw [List.head?_nil, List.head?_eq_none_iff] at hr'
          rw [hr']
          rfl⟩
      | cons c t =>
          cases hc : isOctal c with
          | true =>
              obtain ⟨w, r, rfl, hw, hlocal⟩ := ih t
              refine ⟨c :: w, r, rfl, ?_, fun r' hr' => ?_⟩
              · rw [List.take_succ_cons, List.takeWhile_cons_of_pos hc, hw]
              · rw [List.cons_append, List.take_succ_cons, List.takeWhile_cons_of_pos hc,
                  hlocal r' hr']
          -- The first character behind the digits is the same by assumption, so the digits end
          -- there again.
          | false =>
              refine ⟨[], c :: t, rfl, by simp [hc], fun r' hr' => ?_⟩
              cases r' with
              | nil => rfl
              | cons d r' =>
                  cases hr'
                  simp [hc]

/-- What stands behind a backslash is read from its own characters and the one behind them. -/
lemma escapeOf?_append {c : Char} {r d : Text} {k : Nat} (h : escapeOf? c r = some (d, k)) :
    ∃ w u, r = w ++ u ∧ w.length + 1 = k ∧
      ∀ u', u'.head? = u.head? → escapeOf? c (w ++ u') = some (d, k) := by
  have hm : ∃ m, (if c ≤ '3' then 3 else 2) = m + 1 := by split_ifs <;> exact ⟨_, rfl⟩
  -- The first digit tells how many octal digits there can be, at least one.
  obtain ⟨m, hm⟩ := hm
  unfold escapeOf? at h ⊢
  dsimp only at h ⊢
  rw [hm] at h ⊢
  split_ifs at h ⊢ with hend hu hx hlength hoctal
  · cases h
    exact ⟨[], r, rfl, rfl, fun _ _ => rfl⟩
  · obtain ⟨⟨m, k'⟩, hm, heq⟩ := Option.map_eq_some_iff.mp h
    cases heq
    obtain ⟨w, u, heq, hk, hlocal⟩ := unicodeEscape?_append hm
    cases heq
    exact ⟨w, u, rfl, hk, fun u' _ => by rw [← List.cons_append, hlocal]; rfl⟩
  · obtain ⟨m, hm, heq⟩ := Option.map_eq_some_iff.mp h
    cases heq
    obtain ⟨w, u, rfl, hw⟩ := exists_append_of_take hlength
    rw [List.take_left' hw] at hm
    refine ⟨w, u, rfl, by rw [hw], fun u' _ => ?_⟩
    rw [List.take_left' hw, if_pos hw, hm]
    rfl
  -- Octal digits: how many there are depends on the character behind them.
  · obtain ⟨w, u, heq, hw, hlocal⟩ := takeWhile_octal (m + 1) (c :: r)
    rw [hw] at h
    cases w with
    | nil =>
        rw [List.take_succ_cons, List.takeWhile_cons_of_pos hoctal] at hw
        cases hw
    | cons c' w =>
        obtain ⟨rfl, rfl⟩ := List.cons.inj heq
        cases h
        exact ⟨w, u, rfl, rfl, fun u' hu' => by rw [← List.cons_append, hlocal u' hu']⟩
  · have hk : k = 1 := by
      split at h <;> cases h <;> rfl
    exact ⟨[], r, rfl, hk.symm, fun u' _ => h⟩

/-- An escape is read from its own characters and the one behind them. -/
lemma escape?_append {t d : Text} {k : Nat} (h : escape? t = some (d, k)) :
    ∃ w r, t = w ++ r ∧ w.length = k ∧
      ∀ r', r'.head? = r.head? → escape? (w ++ r') = some (d, k) := by
  unfold escape? at h
  split at h
  · cases h
  · next rest =>
      cases h
      exact ⟨['\r', '\n'], rest, rfl, rfl, fun r' _ => rfl⟩
  · next c r hcrlf =>
      obtain ⟨w, u, rfl, hk, hlocal⟩ := escapeOf?_append h
      refine ⟨c :: w, u, rfl, hk, fun u' hu' => ?_⟩
      -- A carriage return with no line feed behind it is told from one with a line feed by the
      -- next character.
      have hhead : (w ++ u').head? = (w ++ u).head? := by
        rw [List.head?_append, List.head?_append, hu']
      rw [List.cons_append, escape?]
      · exact hlocal u' hu'
      · rintro tail rfl heq
        rw [heq, List.head?_cons] at hhead
        obtain ⟨tail', htail⟩ := List.head?_eq_some_iff.mp hhead.symm
        exact hcrlf tail' rfl htail

/-- Characters left out in front are added to the size. -/
lemma scanString_append (quote : Char) (w t : Text) :
    scanString quote w.length (w ++ t) = (scanString quote 0 t).map fun (value, size, rest) =>
      (value, byteLength w + size, rest) := by
  induction w with
  | nil => simp
  | cons c w ih =>
      rw [List.length_cons, List.cons_append, scanString, ih, Option.map_map]
      congr 1
      funext ⟨value, size, rest⟩
      simp only [Function.comp_apply, byteLength_cons, Prod.mk.injEq, true_and, and_true]
      omega

/-- A string is read from its own characters. -/
lemma scanString_eq_some {quote : Char} (hsize : quote.utf8Size = 1) {t value r : Text}
    {size : Nat} (h : scanString quote 0 t = some (value, size, r)) :
    ∃ w, w ≠ [] ∧ t = w ++ r ∧ size = byteLength w ∧
      ∀ r', scanString quote 0 (w ++ r') = some (value, size, r') := by
  -- The induction is on the length, as for names.
  induction hn : t.length using Nat.strong_induction_on generalizing t value size with
  | _ n ih =>
  cases t with
  | nil => cases h
  | cons c t =>
      rw [scanString] at h
      split_ifs at h with hquote hc hend
      · cases h
        refine ⟨[c], by simp, rfl, by simp [hquote, hsize], fun r' => ?_⟩
        rw [List.singleton_append, scanString, if_pos hquote]
      · obtain ⟨⟨d, k⟩, hescape, h⟩ := Option.bind_eq_some_iff.mp h
        obtain ⟨w, u, rfl, rfl, hlocal⟩ := escape?_append hescape
        obtain ⟨⟨value', size', rest'⟩, h', heq⟩ := Option.map_eq_some_iff.mp h
        cases heq
        rw [scanString_append] at h'
        obtain ⟨⟨value'', size'', rest''⟩, h'', heq⟩ := Option.map_eq_some_iff.mp h'
        cases heq
        obtain ⟨w', hw', rfl, rfl, hscan⟩ := ih u.length (by
          rw [← hn, List.length_cons, List.length_append]; omega) h'' rfl
        -- An escape looks one character ahead; the string goes on, so this character is one of
        -- its own.
        have hhead : ∀ r', (w' ++ r').head? = (w' ++ r).head? := fun r' => by
          rw [List.head?_append_of_ne_nil _ hw', List.head?_append_of_ne_nil _ hw']
        subst hc
        refine ⟨'\\' :: (w ++ w'), by simp, by simp, ?_, fun r' => ?_⟩
        · rw [byteLength_cons, byteLength_append, Nat.add_comm]
          rfl
        · rw [List.cons_append, List.append_assoc, scanString, if_neg hquote, if_pos rfl,
            hlocal _ (hhead r'), Option.bind_some]
          dsimp only
          rw [scanString_append, hscan r']
          rfl
      · obtain ⟨⟨value', size', r'⟩, h', heq⟩ := Option.map_eq_some_iff.mp h
        cases heq
        obtain ⟨w, hw, rfl, rfl, hscan⟩ :=
          ih t.length (by rw [← hn, List.length_cons]; omega) h' rfl
        refine ⟨c :: w, by simp, rfl, by rw [byteLength_cons, Nat.add_comm], fun r' => ?_⟩
        rw [List.cons_append, scanString, if_neg hquote, if_neg hc, if_neg hend, hscan r']
        rfl

/-! ### Tokens -/

/-- The punctuators that no longer one begins with, and the star. -/
def plainPunctuators : List Text := [['{'], ['}'], [','], [';'], [':'], ['*']]

/-- A word, a string, or one of the plain punctuators. -/
def Token.isPlain : Token → Bool
  | .word _ _ | .string _ => true
  | .punctuator p => plainPunctuators.contains p
  | _ => false

/-- A text goes on like another one, or with a comma or a new line. -/
def GoesOn (r r' : Text) : Prop := r'.head? = r.head? ∨ r'.head? = some ',' ∨ r'.head? = some '\n'

/-- Whether a name ends is told by the first character. -/
lemma EndsName.goesOn {r r' : Text} (h : EndsName r) (hr : GoesOn r r') : EndsName r' := by
  rcases hr with hr | hr | hr
  · rwa [EndsName, hr]
  · simp [EndsName, hr, show isNamePart ',' = false from rfl]
  · simp [EndsName, hr, show isNamePart '\n' = false from rfl]

/-- A lexeme that is invalid has the token that says so. -/
lemma invalid_token (t : Text) : (Lexeme.invalid t).token = .invalid := by
  cases t <;> rfl

/-- A word is read as a word, or as nothing that is valid. -/
lemma word_cases (t : Text) :
    (∃ n e, (Lexeme.word t).token = .word n e) ∨ (Lexeme.word t).token = .invalid := by
  unfold Lexeme.word
  split
  · split_ifs
    · exact .inl ⟨_, _, rfl⟩
    · exact .inr (invalid_token t)
  · exact .inr (invalid_token t)

/-- A number is read as a number, or as nothing that is valid. -/
lemma number_cases (t : Text) :
    (∃ isBig, (Lexeme.number t).token = .number isBig) ∨ (Lexeme.number t).token = .invalid := by
  unfold Lexeme.number
  split
  · exact .inl ⟨_, rfl⟩
  · exact .inr (invalid_token t)

/-- A piece of a template is read as such a piece, or as nothing that is valid. -/
lemma templateRest_cases (t : Text) : (∃ isLast isBad, (Lexeme.templateRest t).token
    = .template isLast isBad) ∨ (Lexeme.templateRest t).token = .invalid := by
  unfold Lexeme.templateRest
  split
  · exact .inl ⟨_, _, rfl⟩
  · exact .inr (invalid_token t)

/-- A private name is read as a private name, or as nothing that is valid. -/
lemma privateWord_cases (t : Text) :
    (∃ n, (Lexeme.privateWord t).token = .privateWord n) ∨
      (Lexeme.privateWord t).token = .invalid := by
  unfold Lexeme.privateWord
  split
  · exact .inl ⟨_, rfl⟩
  · exact .inr (invalid_token t)

/-- A number is not plain. -/
lemma number_token (t : Text) : (Lexeme.number t).token.isPlain = false := by
  rcases number_cases t with ⟨_, h⟩ | h <;> rw [h] <;> rfl

/-- A piece of a template is not plain. -/
lemma templateRest_token (t : Text) : (Lexeme.templateRest t).token.isPlain = false := by
  rcases templateRest_cases t with ⟨_, _, h⟩ | h <;> rw [h] <;> rfl

/-- A private name is not plain. -/
lemma privateWord_token (t : Text) : (Lexeme.privateWord t).token.isPlain = false := by
  rcases privateWord_cases t with ⟨_, h⟩ | h <;> rw [h] <;> rfl

/-- A word is read from its own characters. -/
lemma word_append {u r : Text} {tok : Token} {size : Nat}
    (h : Lexeme.word u = ⟨tok, size, r⟩) (hplain : tok.isPlain = true) :
    ∃ w, w ≠ [] ∧ u = w ++ r ∧ size = byteLength w ∧ (∃ n e, tok = .word n e) ∧
      ∀ r', GoesOn r r' → Lexeme.word (w ++ r') = ⟨tok, size, r'⟩ := by
  unfold Lexeme.word at h
  split at h
  -- A scan that passes nothing would have ended at once, with no name at all.
  · next c name size' isEscaped rest hscan =>
      split_ifs at h with hc
      · cases h
        obtain ⟨w, rfl, rfl, hends, hlocal⟩ := scanName_eq_some hscan
        refine ⟨w, ?_, rfl, rfl, ⟨_, _, rfl⟩, fun r' hr' => ?_⟩
        · rintro rfl
          rw [List.nil_append, scanName_of_endsName hends] at hscan
          cases hscan
        · rw [Lexeme.word, hlocal r' (hends.goesOn hr')]
          simp only [hc, if_true]
      · have h' := congrArg Lexeme.token h
        rw [invalid_token] at h'
        subst h'
        cases hplain
  · have h' := congrArg Lexeme.token h
    rw [invalid_token] at h'
    subst h'
    cases hplain

/-- A star in front of no other star and no equals sign is a token. -/
lemma read_star {r : Text} (h : ∀ c ∈ r.head?, c ≠ '*' ∧ c ≠ '=') :
    Lexeme.read ('*' :: r) = ⟨.punctuator ['*'], 1, r⟩ := by
  cases r with
  | nil => rfl
  | cons c r =>
      obtain ⟨hstar, hequals⟩ := h c rfl
      have hfind : punctuators.find? (startsWith ('*' :: c :: r) ·) = some ['*'] := by
        simp [punctuators, startsWith, List.isPrefixOf, hstar.symm, hequals.symm]
      have hread : Lexeme.read ('*' :: c :: r) = Lexeme.punctuator ('*' :: c :: r) := rfl
      rw [hread, Lexeme.punctuator, hfind]
      rfl

/-- A star that is a token stands in front of no other star and no equals sign. -/
lemma head_of_read_star {r r' : Text} {size : Nat}
    (h : Lexeme.punctuator ('*' :: r) = ⟨.punctuator ['*'], size, r'⟩) :
    ∀ c ∈ r.head?, c ≠ '*' ∧ c ≠ '=' := by
  cases r with
  | nil => simp
  | cons c r =>
      rw [List.head?_cons]
      rintro _ ⟨rfl⟩
      constructor
      · rintro rfl
        -- Two stars are one token, or three characters with the sign of equality.
        cases hequals : List.isPrefixOf ['='] r with
        | true =>
            have hfind : punctuators.find? (startsWith ('*' :: '*' :: r) ·)
                = some ['*', '*', '='] := by
              simp [punctuators, startsWith, List.isPrefixOf, hequals]
            rw [Lexeme.punctuator, hfind] at h
            cases h
        | false =>
            have hfind : punctuators.find? (startsWith ('*' :: '*' :: r) ·) = some ['*', '*'] := by
              simp [punctuators, startsWith, List.isPrefixOf, hequals]
            rw [Lexeme.punctuator, hfind] at h
            cases h
      · rintro rfl
        have hfind : punctuators.find? (startsWith ('*' :: '=' :: r) ·) = some ['*', '='] := by
          simp [punctuators, startsWith, List.isPrefixOf]
        rw [Lexeme.punctuator, hfind] at h
        cases h

/-- A plain punctuator is read from its own characters. -/
lemma punctuator_append {t r : Text} {tok : Token} {size : Nat}
    (h : Lexeme.punctuator t = ⟨tok, size, r⟩) (hplain : tok.isPlain = true) :
    ∃ p ∈ plainPunctuators, tok = .punctuator p ∧ t = p ++ r ∧ size = byteLength p := by
  unfold Lexeme.punctuator at h
  split at h
  · next p hfind =>
      have hp : p <+: t := List.isPrefixOf_iff_prefix.mp
        (List.find?_some (p := (startsWith t ·)) hfind)
      -- A dot with a digit behind it is a number, and any other punctuator is taken as found.
      obtain ⟨r', rfl⟩ := hp
      split_ifs at h with hfraction
      · cases h
        exact absurd hplain (by decide)
      · cases h
        have hmem : p ∈ plainPunctuators := List.contains_iff_mem.mp hplain
        have hsize : ∀ p ∈ plainPunctuators, p.length = byteLength p := by decide
        exact ⟨p, hmem, rfl, by rw [List.drop_left], hsize p hmem⟩
  · have h' := congrArg Lexeme.token h
    rw [invalid_token] at h'
    subst h'
    cases hplain

/-- A token is read from characters of its own, in front of any text that goes on. -/
def IsLocal (u : Text) (tok : Token) (size : Nat) (r : Text) : Prop :=
  ∃ w, w ≠ [] ∧ w.head? ≠ some '/' ∧ u = w ++ r ∧ size = byteLength w ∧
    ∀ r', GoesOn r r' → Lexeme.read (w ++ r') = ⟨tok, size, r'⟩

/-- A word is read from its own characters, up to the first character behind it. -/
lemma isLocal_word {c : Char} {u r : Text} {tok : Token} {size : Nat}
    (hword : (isNameStart c || c == '\\') = true)
    (h : Lexeme.word (c :: u) = ⟨tok, size, r⟩) (hplain : tok.isPlain = true) :
    IsLocal (c :: u) tok size r := by
  obtain ⟨w, hw, heq, hsize, -, hlocal⟩ := word_append h hplain
  cases w with
  | nil => exact absurd rfl hw
  | cons c' w =>
      obtain ⟨rfl, rfl⟩ := List.cons.inj heq
      refine ⟨c :: w, hw, ?_, rfl, hsize, fun r' hr' => ?_⟩
      · rintro hslash
        cases hslash
        exact absurd hword (by decide)
      · rw [List.cons_append, Lexeme.read, if_pos hword]
        exact hlocal r' hr'

/-- A quote begins a string. -/
lemma read_quote {c : Char} {u r value : Text} {size : Nat} (hquote : c = '"' ∨ c = '\'')
    (hscan : scanString c 0 u = some (value, size, r)) :
    Lexeme.read (c :: u) = ⟨.string value, size + 1, r⟩ := by
  have hword : ¬ (isNameStart c || c == '\\') = true := by rcases hquote with rfl | rfl <;> decide
  have hnumber : ¬ (isDigit c || (c == '.' && u.head?.any isDigit)) = true := by
    rcases hquote with rfl | rfl <;>
      simp [show isDigit '"' = false from rfl, show isDigit '\'' = false from rfl]
  rw [Lexeme.read, if_neg hword, if_neg hnumber, if_pos hquote, hscan]

/-- A string is read from its own characters alone: it ends with its second quote. -/
lemma isLocal_string {c : Char} {u r value : Text} {size : Nat} (hquote : c = '"' ∨ c = '\'')
    (hscan : scanString c 0 u = some (value, size, r)) :
    IsLocal (c :: u) (.string value) (size + 1) r := by
  have hc : c.utf8Size = 1 ∧ c ≠ '/' := by rcases hquote with rfl | rfl <;> decide
  obtain ⟨w, -, rfl, rfl, hlocal⟩ := scanString_eq_some hc.1 hscan
  refine ⟨c :: w, by simp, ?_, rfl, ?_, fun r' _ => ?_⟩
  · rintro hslash
    exact hc.2 (Option.some.inj hslash)
  · rw [byteLength_cons, hc.1, Nat.add_comm]
  · rw [List.cons_append, read_quote hquote (hlocal r')]

/-- A plain punctuator is read from its own characters, up to the first character behind it. -/
lemma isLocal_punctuator {u r : Text} {tok : Token} {size : Nat}
    (h : Lexeme.punctuator u = ⟨tok, size, r⟩) (hplain : tok.isPlain = true) :
    IsLocal u tok size r := by
  obtain ⟨p, hp, rfl, heq, rfl⟩ := punctuator_append h hplain
  have hhead : ∀ p ∈ plainPunctuators, p ≠ [] ∧ p.head? ≠ some '/' := by decide
  refine ⟨p, (hhead p hp).1, (hhead p hp).2, heq, rfl, fun r' hr' => ?_⟩
  simp only [plainPunctuators, List.mem_cons, List.not_mem_nil, or_false] at hp
  rcases hp with rfl | rfl | rfl | rfl | rfl | rfl
  · rfl
  · rfl
  · rfl
  · rfl
  · rfl
  -- a star goes on as a longer token in front of some characters
  · subst heq
    have hstar := head_of_read_star (r := r) h
    refine read_star (r := r') ?_
    rcases hr' with hr' | hr' | hr' <;> rw [hr']
    · exact hstar
    · simp
    · simp

/-- A plain token is read from its own characters. -/
lemma read_append {u r : Text} {tok : Token} {size : Nat} (h : Lexeme.read u = ⟨tok, size, r⟩)
    (hplain : tok.isPlain = true) : IsLocal u tok size r := by
  -- The kinds of tokens that are not plain are ruled out in their branches.
  have hother : ∀ {l : Lexeme}, l.token.isPlain = false → l ≠ ⟨tok, size, r⟩ := by
    rintro _ hl rfl
    rw [hplain] at hl
    cases hl
  cases u with
  | nil => exact absurd h (hother rfl)
  | cons c u =>
      rw [Lexeme.read] at h
      split_ifs at h with hword hnumber hstring htemplate hprivate
      · exact isLocal_word hword h hplain
      · exact absurd h (hother (number_token _))
      · split at h
        · next hscan =>
            cases h
            exact isLocal_string hstring hscan
        · exact absurd h (hother (by rw [invalid_token]; rfl))
      · exact absurd h (hother (templateRest_token _))
      · exact absurd h (hother (privateWord_token _))
      · exact isLocal_punctuator h hplain

/-! ### The next token -/

/-- The next token of a text, whether a line ends in front of it, and the text behind it. -/
def Shows (t : Text) (tok : Token) (isFresh : Bool) (r : Text) : Prop :=
  ∃ g w, t = g ++ (w ++ r) ∧ Gap .space false g isFresh ∧ IsToken (w ++ r) ∧
    Lexeme.read (w ++ r) = ⟨tok, byteLength w, r⟩

/-- A token that begins with no slash is no comment, whatever stands behind it. -/
lemma IsToken.goesOn {w r r' : Text} (h : IsToken (w ++ r)) (hw : w ≠ [])
    (hslash : w.head? ≠ some '/') : IsToken (w ++ r') := by
  cases w with
  | nil => exact absurd rfl hw
  | cons c w => exact ⟨h.1, h.2.1, fun hc => hslash (by rw [List.head?_cons, hc.1])⟩

/-- A plain token is not empty. -/
lemma Shows.lt_length {t r : Text} {tok : Token} {fresh : Bool} (h : Shows t tok fresh r)
    (hplain : tok.isPlain = true) : r.length < t.length := by
  obtain ⟨g, w, rfl, -, -, hread⟩ := h
  obtain ⟨w', hw, -, heq, -⟩ := read_append hread hplain
  obtain rfl := List.append_cancel_right heq
  have := List.length_pos_iff.mpr hw
  simp only [List.length_append]
  omega

/-- A plain token is the same in front of any text that goes on. -/
lemma Shows.goesOn {t r : Text} {tok : Token} {fresh : Bool} (h : Shows t tok fresh r)
    (hplain : tok.isPlain = true) :
    ∃ w, w ≠ [] ∧ t = w ++ r ∧ ∀ r', GoesOn r r' → Shows (w ++ r') tok fresh r' := by
  obtain ⟨g, w, rfl, hgap, htoken, hread⟩ := h
  obtain ⟨w', hw, hslash, heq, -, hlocal⟩ := read_append hread hplain
  obtain rfl := List.append_cancel_right heq
  refine ⟨g ++ w, by simp [hw], by rw [List.append_assoc], fun r' hr' => ?_⟩
  exact ⟨g, w, List.append_assoc _ _ _, hgap, htoken.goesOn hw hslash, hlocal r' hr'⟩

/-- A text shows one token only. -/
lemma Shows.unique {t r r' : Text} {tok tok' : Token} {fresh fresh' : Bool}
    (h : Shows t tok fresh r) (h' : Shows t tok' fresh' r') :
    tok = tok' ∧ fresh = fresh' ∧ r = r' := by
  obtain ⟨g, w, rfl, hgap, htoken, hread⟩ := h
  obtain ⟨g', w', heq, hgap', htoken', hread'⟩ := h'
  have hskip := skipTrivia_of_gap hgap htoken 0
  rw [heq, skipTrivia_of_gap hgap' htoken' 0] at hskip
  simp only [Prod.mk.injEq, and_true] at hskip
  obtain ⟨htext, -, rfl⟩ := hskip
  rw [htext, hread, Lexeme.mk.injEq] at hread'
  exact ⟨hread'.1, rfl, hread'.2.2⟩

/-! ### Several tokens -/

/-- The tokens of a text, each with whether a line ends in front of it, up to another text. -/
inductive Lexes : Text → List (Token × Bool) → Text → Prop
  | nil {t : Text} : Lexes t [] t
  | cons {t r t' : Text} {tok : Token} {fresh : Bool} {ts : List (Token × Bool)}
      (h : Shows t tok fresh r) (hplain : tok.isPlain = true) (hts : Lexes r ts t') :
      Lexes t ((tok, fresh) :: ts) t'

/-- Tokens are the same in front of any text that goes on. -/
lemma Lexes.goesOn {t t' : Text} {ts : List (Token × Bool)} (h : Lexes t ts t') :
    ∃ w, (ts ≠ [] → w ≠ []) ∧ t = w ++ t' ∧ ∀ u, GoesOn t' u → Lexes (w ++ u) ts u := by
  induction h with
  | nil => exact ⟨[], fun h => absurd rfl h, rfl, fun u _ => .nil⟩
  | @cons t r t' tok fresh ts h hplain _ ih =>
      obtain ⟨w, hw, rfl, hshows⟩ := h.goesOn hplain
      obtain ⟨w', hw', rfl, hlexes⟩ := ih
      refine ⟨w ++ w', fun _ => by simp [hw], by rw [List.append_assoc], fun u hu => ?_⟩
      rw [List.append_assoc]
      refine .cons (hshows (w' ++ u) ?_) hplain (hlexes u hu)
      cases w' with
      | nil => exact hu
      | cons c w' => exact .inl rfl

/-! ### What stands at the head of a text -/

/-- The offset is only counted on. -/
lemma skipTrivia_offset : ∀ (m : Trivia) (f : Bool) (o : Nat) (t : Text),
    skipTrivia m f o t
      = ((skipTrivia m f 0 t).1, o + (skipTrivia m f 0 t).2.1, (skipTrivia m f 0 t).2.2)
  | m, f, o, [] => by simp [skipTrivia]
  | m, f, o, [c] => by
      cases m
      · simp only [skipTrivia]
        split_ifs <;> simp
      · simp [skipTrivia]
      · simp [skipTrivia]
  | m, f, o, c :: d :: t => by
      cases m
      all_goals
        simp only [skipTrivia]
        split_ifs
      all_goals first
        | rw [skipTrivia_offset _ _ (o + _), skipTrivia_offset _ _ (0 + _)]
          simp [Nat.add_assoc]
        | simp

/-- Whether a line ended before does not matter for what is skipped. -/
lemma skipTrivia_fresh : ∀ (m : Trivia) (f f' : Bool) (o : Nat) (t : Text),
    (skipTrivia m f o t).1 = (skipTrivia m f' o t).1 ∧
      (skipTrivia m f o t).2.2.2 = (skipTrivia m f' o t).2.2.2
  | m, f, f', o, [] => by simp [skipTrivia]
  | m, f, f', o, [c] => by
      cases m
      · simp only [skipTrivia]
        split_ifs <;> simp
      · simp [skipTrivia]
      · simp [skipTrivia]
  | m, f, f', o, c :: d :: t => by
      cases m
      all_goals
        simp only [skipTrivia]
        split_ifs
      all_goals first
        | exact skipTrivia_fresh _ _ _ _ _
        | simp

/-- The text from its first token on. -/
def fromToken (t : Text) : Text := (skipTrivia .space false 0 t).1

/-- Whether a line ends in front of the first token of a text. -/
def startsFresh (t : Text) : Bool := (skipTrivia .space false 0 t).2.2.1

/-- The first token of a text. -/
def peek (t : Text) : Token := (Lexeme.read (fromToken t)).token

/-- What is shown is what `peek` and `startsFresh` look at. -/
lemma Shows.fromToken_eq {t r : Text} {tok : Token} {fresh : Bool} (h : Shows t tok fresh r) :
    startsFresh t = fresh ∧ peek t = tok := by
  obtain ⟨g, w, rfl, hgap, htoken, hread⟩ := h
  rw [startsFresh, peek, fromToken, skipTrivia_of_gap hgap htoken, hread]
  exact ⟨rfl, rfl⟩

/-- A plain token is shown. -/
lemma exists_shows {t : Text} (h : (peek t).isPlain = true) :
    ∃ r, Shows t (peek t) (startsFresh t) r := by
  obtain ⟨tok, size, r, hread⟩ : ∃ tok size r, Lexeme.read (fromToken t) = ⟨tok, size, r⟩ :=
    ⟨_, _, _, rfl⟩
  rw [peek, hread] at h ⊢
  obtain ⟨w, hw, -, hfrom, rfl, -⟩ := read_append hread h
  have hne : fromToken t ≠ [] := by
    rw [hfrom]
    simp [hw]
  obtain ⟨g, heq, hgap, htoken⟩ := exists_gap (t := t) rfl hne
  rw [← fromToken, hfrom] at heq htoken
  rw [hfrom] at hread
  exact ⟨r, g, w, heq, hgap, htoken, hread⟩

end ComponentMigration.Script
