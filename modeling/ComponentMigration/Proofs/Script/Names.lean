import ComponentMigration.Proofs.Script.Declares
import ComponentMigration.Proofs.Script.Taken
import Mathlib.Tactic.IntervalCases

/-!
Names, modules and separators as they are written.

* **Words.** `IsWord`, `IsIdentifier` and `IsQuotable` say what can be written as it is, outside and
  inside of quotes. Each is read back in front of any text with which it does not go on.
* **First tokens.** `peek_eq_word_iff` and `peek_eq_punctuator_iff` tell the first token of a text
  from its first characters.
* **Same beginnings.** `Continues.of_gap`: what can follow an import is seen in seven characters
  behind the gap.
-/

namespace ComponentMigration.Script

open Text Script.Parser

/-! ### Names as they are written -/

/-- A word as it is written in a script without escapes. -/
structure IsWord (n : Text) : Prop where
  start : n.head?.any isNameStart = true
  parts : n.all isNamePart = true

/-- A word that can be an identifier. -/
structure IsIdentifier (n : Text) : Prop extends IsWord n where
  isFree : isIdentifierWord n = true

instance : DecidablePred IsWord := fun n =>
  decidable_of_iff (n.head?.any isNameStart = true ∧ n.all isNamePart = true)
    ⟨fun h => ⟨h.1, h.2⟩, fun h => ⟨h.start, h.parts⟩⟩

instance : DecidablePred IsIdentifier := fun n =>
  decidable_of_iff (IsWord n ∧ isIdentifierWord n = true)
    ⟨fun h => ⟨h.1, h.2⟩, fun h => ⟨h.toIsWord, h.isFree⟩⟩

/-- A text that can stand between the quotes of a string as it is. -/
def IsQuotable (m : Text) : Prop := ∀ c ∈ m, c ≠ '"' ∧ c ≠ '\\' ∧ c ≠ '\n' ∧ c ≠ '\r'

instance : DecidablePred IsQuotable := fun m =>
  inferInstanceAs (Decidable (∀ c ∈ m, c ≠ '"' ∧ c ≠ '\\' ∧ c ≠ '\n' ∧ c ≠ '\r'))

/-- What holds of the code points of spaces holds of every space. -/
lemma of_isSpace {P : Char → Prop} {c : Char} (hc : isSpace c = true)
    (h : ∀ n ∈ [0x20, 0x09, 0x0B, 0x0C, 0x85, 0xA0, 0xFEFF, 0x1680, 0x202F, 0x205F, 0x3000] ++
      List.range' 0x2000 12, P (Char.ofNat n)) : P c := by
  rw [← Char.ofNat_toNat c]
  refine h c.toNat ?_
  simp only [isSpace, Bool.or_eq_true, Bool.and_eq_true, beq_iff_eq, decide_eq_true_eq] at hc
  simp only [List.mem_append, List.mem_cons, List.not_mem_nil, or_false, List.mem_range'_1]
  omega

/-- No space can stand in a name. -/
lemma isNamePart_of_isSpace {c : Char} (h : isSpace c = true) : isNamePart c = false :=
  of_isSpace (P := fun c => isNamePart c = false) h (by decide +kernel)

/-- No end of a line can stand in a name. -/
lemma isNamePart_of_isLineEnd {c : Char} (h : isLineEnd c = true) : isNamePart c = false := by
  simp only [isLineEnd, Bool.or_eq_true, beq_iff_eq, or_assoc] at h
  rcases h with rfl | rfl | rfl | rfl <;> decide +kernel

/-- A name is followed by the text behind it. -/
lemma scanName_of_all {n r : Text} (hn : n.all isNamePart = true) (hr : EndsName r) :
    scanName 0 (n ++ r) = some (n, byteLength n, false, r) := by
  induction n with
  | nil => exact scanName_of_endsName hr
  | cons c n ih =>
      rw [List.all_cons, Bool.and_eq_true] at hn
      have hc : c ≠ '\\' := by
        rintro rfl
        exact absurd hn.1 (by decide)
      rw [List.cons_append, scanName, if_neg hc, if_pos hn.1, ih hn.2, Option.map_some,
        byteLength_cons, Nat.add_comm]

/-- A name without escapes is what is written. -/
lemma eq_append_of_scanName {t name r : Text} {size : Nat}
    (h : scanName 0 t = some (name, size, false, r)) : t = name ++ r := by
  induction t generalizing name size with
  | nil =>
      cases h
      rfl
  | cons c t ih =>
      rw [scanName] at h
      split_ifs at h with hc hpart
      -- An escape would have been noted.
      · cases hescape : unicodeEscape? t with
        | none =>
            rw [hescape] at h
            cases h
        | some found =>
            rw [hescape] at h
            dsimp only at h
            split_ifs at h
            obtain ⟨_, -, heq⟩ := Option.map_eq_some_iff.mp h
            cases heq
      · obtain ⟨⟨name', size', isEscaped, r'⟩, h', heq⟩ := Option.map_eq_some_iff.mp h
        cases heq
        rw [ih h', List.cons_append]
      · cases h
        rfl

/-- What stands between two quotes as it is. -/
lemma scanString_of_forall {q : Char} {m r : Text}
    (hm : ∀ c ∈ m, c ≠ q ∧ c ≠ '\\' ∧ c ≠ '\n' ∧ c ≠ '\r') :
    scanString q 0 (m ++ q :: r) = some (m, byteLength m + 1, r) := by
  induction m with
  | nil => simp [scanString]
  | cons c m ih =>
      obtain ⟨hquote, hc, hn, hr⟩ := hm c List.mem_cons_self
      rw [List.cons_append, scanString, if_neg hquote, if_neg hc, if_neg (by simp [hn, hr]),
        ih fun d hd => hm d (List.mem_cons_of_mem c hd), Option.map_some, byteLength_cons,
        Option.some.injEq, Prod.mk.injEq, Prod.mk.injEq]
      exact ⟨rfl, by omega, rfl⟩

/-! ### Tokens as they are written -/

/-- A character of a name begins a token. -/
lemma isToken_cons_of_isNamePart {c : Char} {t : Text} (hc : isNamePart c = true) :
    IsToken (c :: t) := by
  refine ⟨?_, ?_, ?_⟩
  · by_contra h
    rw [isNamePart_of_isLineEnd (by simpa using h)] at hc
    cases hc
  · by_contra h
    rw [isNamePart_of_isSpace (by simpa using h)] at hc
    cases hc
  · rintro ⟨rfl, -⟩
    exact absurd hc (by decide)

/-- A word is read as a whole in front of what is no part of it. -/
lemma read_name {n r : Text} (hn : IsWord n) (hr : EndsName r) :
    Lexeme.read (n ++ r) = ⟨.word n false, byteLength n, r⟩ := by
  have hscan := scanName_of_all hn.parts hr
  cases n with
  | nil => cases hn.start
  | cons c n =>
      have hc : isNameStart c = true := hn.start
      rw [List.cons_append] at hscan ⊢
      rw [Lexeme.read, hc, Bool.true_or, if_pos rfl, Lexeme.word, hscan]
      simp only [hc, if_true]

/-- A word is the first token of its text. -/
lemma shows_name {n r : Text} (hn : IsWord n) (hr : EndsName r) :
    Shows (n ++ r) (.word n false) false r := by
  refine ⟨[], n, rfl, .nil, ?_, read_name hn hr⟩
  cases n with
  | nil => cases hn.start
  | cons c n =>
      have hparts := hn.parts
      rw [List.all_cons, Bool.and_eq_true] at hparts
      exact isToken_cons_of_isNamePart hparts.1

/-- What stands in quotes is read as a string, whatever follows. -/
lemma read_string {q : Char} {m r : Text} (hq : q = '"' ∨ q = '\'')
    (hm : ∀ c ∈ m, c ≠ q ∧ c ≠ '\\' ∧ c ≠ '\n' ∧ c ≠ '\r') :
    Lexeme.read (q :: (m ++ q :: r)) = ⟨.string m, byteLength (q :: (m ++ [q])), r⟩ := by
  have hsize : q.utf8Size = 1 := by rcases hq with rfl | rfl <;> rfl
  rw [read_quote hq (scanString_of_forall hm)]
  simp only [byteLength_cons, byteLength_append, byteLength_nil, hsize]
  congr 1
  omega

/-- A quoted text is the first token of its text. -/
lemma shows_string {m r : Text} (hm : IsQuotable m) :
    Shows ('"' :: (m ++ '"' :: r)) (.string m) false r := by
  refine ⟨[], '"' :: (m ++ ['"']), by simp, .nil, ⟨rfl, by decide, by simp⟩, ?_⟩
  rw [List.cons_append, List.append_assoc]
  exact read_string (.inl rfl) hm

/-- A space in front of a token. -/
lemma Shows.space {t r : Text} {tok : Token} {fresh : Bool} (h : Shows t tok fresh r) :
    Shows (' ' :: t) tok fresh r := by
  obtain ⟨g, w, rfl, hgap, htoken, hread⟩ := h
  exact ⟨' ' :: g, w, rfl, .space rfl (by decide) hgap, htoken, hread⟩

lemma shows_comma (r : Text) : Shows (',' :: r) (.punctuator ",") false r :=
  ⟨[], [','], rfl, .nil, ⟨rfl, by decide, by simp⟩, rfl⟩

lemma shows_openBrace (r : Text) : Shows ('{' :: r) (.punctuator "\x7b") false r :=
  ⟨[], ['{'], rfl, .nil, ⟨rfl, by decide, by simp⟩, rfl⟩

lemma shows_closeBrace (r : Text) : Shows ('}' :: r) (.punctuator "\x7d") false r :=
  ⟨[], ['}'], rfl, .nil, ⟨rfl, by decide, by simp⟩, rfl⟩

lemma shows_semicolon (r : Text) : Shows (';' :: r) (.punctuator ";") false r :=
  ⟨[], [';'], rfl, .nil, ⟨rfl, by decide, by simp⟩, rfl⟩

/-! ### The first token of a text -/

/-- A token that is read as a word or a punctuator is one, and no other ends the text. -/
lemma read_cases (u : Text) : u = [] ∨ Lexeme.read u = Lexeme.word u ∨
    Lexeme.read u = Lexeme.punctuator u ∨ ((Lexeme.read u).token ≠ .endOfText ∧
      (∀ n e, (Lexeme.read u).token ≠ .word n e) ∧ ∀ p, (Lexeme.read u).token ≠ .punctuator p) := by
  cases u with
  | nil => exact .inl rfl
  | cons c u =>
      right
      rw [Lexeme.read]
      -- The other kinds of tokens are neither words nor punctuators, and not the end.
      split_ifs
      · exact .inl rfl
      · right; right
        rcases number_cases (c :: u) with ⟨_, h⟩ | h <;> simp [h]
      · right; right
        split
        · simp
        · simp [invalid_token]
      · right; right
        rcases templateRest_cases u with ⟨_, _, h⟩ | h <;> simp [h]
      · right; right
        rcases privateWord_cases u with ⟨_, h⟩ | h <;> simp [h]
      · exact .inr (.inl rfl)

/-- Punctuators are read as such, or as nothing that is valid. -/
lemma punctuator_cases (u : Text) :
    (∃ p, (Lexeme.punctuator u).token = .punctuator p) ∨
      (Lexeme.punctuator u).token = .invalid := by
  unfold Lexeme.punctuator
  split
  · split_ifs
    · exact .inl ⟨_, rfl⟩
    · exact .inl ⟨_, rfl⟩
  · exact .inr (invalid_token u)

/-- Nothing is left of a text without a token. -/
lemma fromToken_eq_nil {t : Text} (h : peek t = .endOfText) : fromToken t = [] := by
  rw [peek] at h
  rcases read_cases (fromToken t) with hnil | hread | hread | ⟨hne, -⟩
  · exact hnil
  · rw [hread] at h
    rcases word_cases (fromToken t) with ⟨_, _, h'⟩ | h' <;>
      exact absurd (h.symm.trans h') (by simp)
  · rw [hread] at h
    rcases punctuator_cases (fromToken t) with ⟨_, h'⟩ | h' <;>
      exact absurd (h.symm.trans h') (by simp)
  · exact absurd h hne

/-- Some punctuators are told by their character. -/
lemma peek_eq_punctuator_iff {t : Text} {c : Char}
    (hc : c = '{' ∨ c = '}' ∨ c = ',' ∨ c = ';') :
    peek t = .punctuator [c] ↔ (fromToken t).head? = some c := by
  rw [peek]
  constructor
  · rintro h
    -- Only a punctuator can be this token, and a plain one is read from its own characters.
    rcases read_cases (fromToken t) with hnil | hread | hread | ⟨-, -, hne⟩
    · rw [hnil] at h
      cases h
    · rw [hread] at h
      rcases word_cases (fromToken t) with ⟨_, _, h'⟩ | h' <;>
        exact absurd (h.symm.trans h') (by simp)
    · obtain ⟨tok, size, r, heq⟩ : ∃ tok size r, Lexeme.punctuator (fromToken t) = ⟨tok, size, r⟩ :=
        ⟨_, _, _, rfl⟩
      rw [hread, heq] at h
      dsimp only at h
      subst h
      obtain ⟨p, -, hp, htext, -⟩ := punctuator_append heq (by
        rcases hc with rfl | rfl | rfl | rfl <;> rfl)
      cases hp
      rw [htext]
      rfl
    · exact absurd h (hne _)
  · rintro h
    obtain ⟨r, hr⟩ := List.head?_eq_some_iff.mp h
    rw [hr]
    rcases hc with rfl | rfl | rfl | rfl <;> rfl

/-- A word without escapes is told by its characters and the end of them. -/
lemma peek_eq_word_iff {t n : Text} (hn : IsWord n) :
    peek t = .word n false ↔ ∃ r, fromToken t = n ++ r ∧ EndsName r := by
  rw [peek]
  constructor
  · rintro h
    -- Only a word can be this token, and without an escape it is written as it is read.
    rcases read_cases (fromToken t) with hnil | hread | hread | ⟨-, hne, -⟩
    · rw [hnil] at h
      cases h
    · rw [hread, Lexeme.word] at h
      split at h
      · next hscan =>
        split_ifs at h
        · cases h
          obtain ⟨_, -, -, hends, -⟩ := scanName_eq_some hscan
          exact ⟨_, eq_append_of_scanName hscan, hends⟩
        · rw [invalid_token] at h
          cases h
      · rw [invalid_token] at h
        cases h
    · rw [hread] at h
      rcases punctuator_cases (fromToken t) with ⟨_, h'⟩ | h' <;>
        exact absurd (h.symm.trans h') (by simp)
    · exact absurd h (hne _ _)
  · rintro ⟨r, hr, hends⟩
    rw [hr, read_name hn hends]

/-- A gap begins with white space or a slash. -/
lemma Gap.head {f fresh : Bool} {c : Char} {g : Text} (h : Gap .space f (c :: g) fresh) :
    isLineEnd c = true ∨ isSpace c = true ∨ c = '/' := by
  cases h with
  | lineEnd hc _ => exact .inl hc
  | space _ hc _ => exact .inr (.inl hc)
  | openLine _ => exact .inr (.inr rfl)
  | openBlock _ => exact .inr (.inr rfl)

/-- In front of the first token there is a gap. -/
lemma exists_fromToken {t : Text} (h : fromToken t ≠ []) :
    ∃ g, t = g ++ fromToken t ∧ Gap .space false g (startsFresh t) ∧ IsToken (fromToken t) :=
  exists_gap rfl h

/-- A name ends in front of a comma or a closing brace. -/
lemma IsStop.endsName {t : Text} (h : IsStop t) : EndsName t := by
  have hhead : (fromToken t).head? = some ',' ∨ (fromToken t).head? = some '}' :=
    h.imp (peek_eq_punctuator_iff (by simp)).mp (peek_eq_punctuator_iff (by simp)).mp
  obtain ⟨g, ht, hgap, -⟩ := exists_fromToken (t := t) (by
    rintro hnil
    rw [hnil] at hhead
    simp at hhead)
  rw [ht, EndsName]
  -- Behind a name there is the mark itself, or the gap in front of it.
  cases g with
  | nil =>
      rw [List.nil_append]
      rcases hhead with hhead | hhead <;> rw [hhead] <;> simp <;> decide
  | cons c g =>
      rw [List.cons_append, List.head?_cons]
      rintro _ ⟨rfl⟩
      rcases hgap.head with hc | hc | rfl
      · exact ⟨by rintro rfl; exact absurd hc (by decide), isNamePart_of_isLineEnd hc⟩
      · exact ⟨by rintro rfl; exact absurd hc (by decide), isNamePart_of_isSpace hc⟩
      · exact ⟨by decide, by decide⟩

/-! ### Texts with the same beginning -/

/-- Two characters tell a token from a comment. -/
lemma IsToken.of_append {w r r' : Text} (h : IsToken (w ++ r)) (hw : 2 ≤ w.length) :
    IsToken (w ++ r') := by
  match w, hw with
  | _ :: _ :: _, _ => exact h

/-- A token is found behind its gap. -/
lemma fromToken_of_gap {g u : Text} {fresh : Bool} (hgap : Gap .space false g fresh)
    (hu : IsToken u) : fromToken (g ++ u) = u ∧ startsFresh (g ++ u) = fresh := by
  rw [fromToken, startsFresh, skipTrivia_of_gap hgap hu]
  exact ⟨rfl, rfl⟩

/-- A text that begins with a token begins with its first token. -/
lemma fromToken_of_isToken {t : Text} (ht : IsToken t) : fromToken t = t :=
  (fromToken_of_gap .nil ht).1

/-- What can follow an import is seen in the first characters. -/
lemma Continues.of_gap {g w r r' : Text} {fresh : Bool} (hgap : Gap .space false g fresh)
    (htoken : IsToken (w ++ r)) (hw : 7 ≤ w.length) :
    Continues (g ++ (w ++ r)) (g ++ (w ++ r')) := by
  have htoken' : IsToken (w ++ r') := htoken.of_append (by omega)
  obtain ⟨hfrom, hfresh⟩ := fromToken_of_gap hgap htoken
  obtain ⟨hfrom', hfresh'⟩ := fromToken_of_gap hgap htoken'
  have hne : w ≠ [] := by
    rintro rfl
    cases hw
  have hhead : (fromToken (g ++ (w ++ r'))).head? = (fromToken (g ++ (w ++ r))).head? := by
    rw [hfrom, hfrom', List.head?_append_of_ne_nil _ hne, List.head?_append_of_ne_nil _ hne]
  -- a word of the second text that is short enough is one of the first
  have hword : ∀ n, IsWord n → n.length < 7 → peek (g ++ (w ++ r')) = .word n false →
      peek (g ++ (w ++ r)) = .word n false := by
    intro n hn hlength h
    obtain ⟨u, hu, hends⟩ := (peek_eq_word_iff hn).mp h
    rw [hfrom'] at hu
    obtain ⟨v, rfl⟩ : n <+: w := List.prefix_of_prefix_length_le ⟨u, hu.symm⟩
      (List.prefix_append w r') (by omega)
    refine (peek_eq_word_iff hn).mpr ⟨v ++ r, by rw [hfrom, List.append_assoc], ?_⟩
    rw [List.append_assoc] at hu
    obtain rfl := List.append_cancel_left hu
    rw [List.length_append] at hw
    have hv : v ≠ [] := by
      rintro rfl
      simp only [List.length_nil] at hw
      omega
    rwa [EndsName, List.head?_append_of_ne_nil _ hv] at hends ⊢
  refine ⟨?_, ?_, ?_⟩
  · exact (GoesOn.append (t := w ++ r) (u := w ++ r') (.inl (by
      rw [List.head?_append_of_ne_nil _ hne, List.head?_append_of_ne_nil _ hne])) g)
  · rintro ⟨hsemicolon, hend⟩
    have hiff : ∀ c, c = '}' ∨ c = ';' → (peek (g ++ (w ++ r')) = .punctuator [c] ↔
        peek (g ++ (w ++ r)) = .punctuator [c]) := by
      intro c hc
      have hc : c = '{' ∨ c = '}' ∨ c = ',' ∨ c = ';' := by tauto
      rw [peek_eq_punctuator_iff hc, peek_eq_punctuator_iff hc, hhead]
    refine ⟨fun h => hsemicolon ((hiff ';' (.inr rfl)).mp h), ?_⟩
    rcases hend with hend | hend | hend
    · exact .inl ((hiff '}' (.inl rfl)).mpr hend)
    · have hnil := fromToken_eq_nil hend
      rw [hfrom] at hnil
      exact absurd (List.append_eq_nil_iff.mp hnil).1 hne
    · exact .inr (.inr (by rw [hfresh', ← hfresh, hend]))
  · rintro h
    rw [← Bool.not_eq_true] at h ⊢
    rintro h'
    refine h ?_
    simp only [startsAttributes, Bool.or_eq_true, Bool.and_eq_true, beq_iff_eq] at h' ⊢
    rw [hfresh'] at h'
    rw [hfresh]
    exact h'.imp (hword _ (by decide) (by decide)) (And.imp_left (hword _ (by decide) (by decide)))

end ComponentMigration.Script
