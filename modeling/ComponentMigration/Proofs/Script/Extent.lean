import ComponentMigration.Proofs.Script.Names

/-!
How much of a text a token takes.

* **Narrow beginnings.** Numbers are counted in characters; `StartsNarrow` says that each of them
  is one byte.
* **Scanners.** What a scanner counts leads to the text behind it, and so do the bytes in front of
  a token, `gapLength`.
* **Tokens.** `Lexeme.Takes`: a token takes as many bytes as it says, and a punctuator is what the
  text begins with. Every token is like that unless it is invalid.
-/

namespace ComponentMigration.Script

open Text

variable {t r value : Text} {k n size : Nat} {isEscaped isLast isBad inClass : Bool}

/-! ### Narrow beginnings -/

/-- A text begins with so many characters of one byte each. -/
def StartsNarrow (n : Nat) (t : Text) : Prop := n ≤ t.length ∧ ∀ c ∈ t.take n, c.utf8Size = 1

namespace StartsNarrow

lemma zero (t : Text) : StartsNarrow 0 t := ⟨Nat.zero_le _, by simp⟩

lemma cons {c : Char} (hc : c.utf8Size = 1) (h : StartsNarrow n t) :
    StartsNarrow (n + 1) (c :: t) := by
  refine ⟨Nat.succ_le_succ h.1, ?_⟩
  rw [List.take_succ_cons, List.forall_mem_cons]
  exact ⟨hc, h.2⟩

/-- Narrow characters go on behind others. -/
lemma add (h : StartsNarrow k t) (h' : StartsNarrow n (t.drop k)) : StartsNarrow (k + n) t := by
  have hlength := h'.1
  rw [List.length_drop] at hlength
  refine ⟨by have := h.1; omega, ?_⟩
  rw [List.take_add, List.forall_mem_append]
  exact ⟨h.2, h'.2⟩

/-- Narrow characters are as many bytes as they are characters. -/
lemma dropBytes? (h : StartsNarrow n t) : t.dropBytes? n = some (t.drop n) := by
  have hall : ∀ w : Text, (∀ c ∈ w, c.utf8Size = 1) → byteLength w = w.length := by
    intro w hw
    induction w with
    | nil => rfl
    | cons c w ih =>
        rw [List.forall_mem_cons] at hw
        rw [byteLength_cons, hw.1, ih hw.2, List.length_cons, Nat.add_comm]
  refine dropBytes?_eq_some_iff.mpr ⟨t.take n, (List.take_append_drop n t).symm, ?_⟩
  rw [hall _ h.2, List.length_take, Nat.min_eq_left h.1]

/-- A run of narrow characters is narrow. -/
lemma takeWhile {p : Char → Bool} (hp : ∀ c, p c = true → c.utf8Size = 1) (t : Text) :
    StartsNarrow (t.takeWhile p).length t := by
  have hfront := List.takeWhile_prefix p (l := t)
  refine ⟨hfront.length_le, fun c hc => hp c ?_⟩
  rw [← List.prefix_iff_eq_take.mp hfront] at hc
  exact List.mem_takeWhile_imp hc

end StartsNarrow

/-- A character of ASCII is one byte. -/
lemma utf8Size_of_toNat {c : Char} (h : c.toNat < 128) : c.utf8Size = 1 := by
  have hle : c.val ≤ 127 := by
    rw [UInt32.le_iff_toNat_le]
    exact Nat.le_of_lt_succ h
  exact if_pos hle

/-! ### Numbers -/

lemma utf8Size_of_isDigit {c : Char} (h : isDigit c = true) : c.utf8Size = 1 := by
  simp only [isDigit, Bool.and_eq_true, decide_eq_true_eq] at h
  exact utf8Size_of_toNat (Nat.lt_of_le_of_lt (Char.le_def.mp h.2) (by decide))

lemma utf8Size_of_hexValue? {c : Char} (h : (hexValue? c).isSome = true) : c.utf8Size = 1 := by
  have hle : ∀ {d : Char}, c ≤ d → d.toNat < 128 → c.utf8Size = 1 := fun hcd hd =>
    utf8Size_of_toNat (Nat.lt_of_le_of_lt (Char.le_def.mp hcd) hd)
  unfold hexValue? at h
  split_ifs at h with hdigit hlower hupper
  · exact utf8Size_of_isDigit hdigit
  · exact hle hlower.2 (by decide)
  · exact hle hupper.2 (by decide)
  · cases h

lemma utf8Size_of_isOctal {c : Char} (h : isOctal c = true) : c.utf8Size = 1 := by
  simp only [isOctal, Bool.and_eq_true, decide_eq_true_eq] at h
  exact utf8Size_of_toNat (Nat.lt_of_le_of_lt (Char.le_def.mp h.2) (by decide))

lemma utf8Size_of_radixDigit? {letter c : Char} {isDigit : Char → Bool}
    (h : radixDigit? letter = some isDigit) (hc : isDigit c = true) : c.utf8Size = 1 := by
  unfold radixDigit? at h
  split_ifs at h <;> cases h
  · exact utf8Size_of_hexValue? hc
  · exact utf8Size_of_isOctal hc
  · simp only [Bool.or_eq_true, beq_iff_eq] at hc
    rcases hc with rfl | rfl <;> rfl

lemma utf8Size_of_radix {letter : Char} {isDigit : Char → Bool}
    (h : radixDigit? letter = some isDigit) : letter.utf8Size = 1 := by
  unfold radixDigit? at h
  split_ifs at h with hx ho hb
  · rcases hx with rfl | rfl <;> rfl
  · rcases ho with rfl | rfl <;> rfl
  · rcases hb with rfl | rfl <;> rfl

/-- Digits are narrow, and so are the marks between them. -/
lemma startsNarrow_digitRun {p : Char → Bool} (hp : ∀ c, p c = true → c.utf8Size = 1) (t : Text) :
    StartsNarrow (digitRun p t).length t := by
  refine .takeWhile (fun c hc => ?_) t
  simp only [Bool.or_eq_true, beq_iff_eq] at hc
  rcases hc with hc | rfl
  · exact hp c hc
  · rfl

/-- One narrow character at the head of a text. -/
lemma startsNarrow_of_head? {c : Char} (hc : c.utf8Size = 1) (h : t.head? = some c) :
    StartsNarrow 1 t := by
  obtain ⟨t, rfl⟩ := List.head?_eq_some_iff.mp h
  exact .cons hc (.zero t)

/-- An exponent is a letter, perhaps a sign, and digits. -/
lemma startsNarrow_exponentLength? (h : exponentLength? t = some n) : StartsNarrow n t := by
  unfold exponentLength? at h
  split at h
  · next e r =>
    dsimp only at h
    split_ifs at h with he hdigits
    · cases h
      have he' : e.utf8Size = 1 := by rcases he with rfl | rfl <;> rfl
      refine .add (.add (.cons he' (.zero r)) ?_) ?_
      · split
        · next s _ =>
          split_ifs with hs
          · refine startsNarrow_of_head? (c := s) ?_ rfl
            rcases hs with rfl | rfl <;> rfl
          · exact .zero _
        · exact .zero _
      · rw [← List.drop_drop, List.drop_succ_cons, List.drop_zero]
        exact startsNarrow_digitRun (fun _ => utf8Size_of_isDigit) _
    · cases h
      exact .zero _
  · cases h
    exact .zero _

/-- A fraction is a dot, digits and perhaps an exponent. -/
lemma startsNarrow_fractionLength? (h : fractionLength? t = some n) : StartsNarrow n t := by
  unfold fractionLength? at h
  split at h
  · next r =>
    dsimp only at h
    split_ifs at h with hdigits
    obtain ⟨m, hm, rfl⟩ := Option.map_eq_some_iff.mp h
    refine .add (.add (.cons rfl (.zero r))
      (startsNarrow_digitRun (fun _ => utf8Size_of_isDigit) r)) ?_
    rw [← List.drop_drop, List.drop_succ_cons, List.drop_zero]
    exact startsNarrow_exponentLength? hm
  · exact startsNarrow_exponentLength? h

/-- A number is counted in characters of one byte each. -/
lemma startsNarrow_numberLength? {isBig : Bool} (h : numberLength? t = some (isBig, n)) :
    StartsNarrow n t := by
  unfold numberLength? at h
  obtain ⟨h, -⟩ := Option.filter_eq_some_iff.mp h
  split at h
  -- A radix takes two characters, and its digits follow.
  · next isDigit hradix =>
    obtain ⟨htwo, hdigit⟩ : StartsNarrow 2 t ∧ ∀ c, isDigit c = true → c.utf8Size = 1 := by
      split at hradix
      · exact ⟨.cons rfl (.cons (utf8Size_of_radix hradix) (.zero _)),
          fun c => utf8Size_of_radixDigit? hradix⟩
      · cases hradix
    have hrun := htwo.add (startsNarrow_digitRun hdigit _)
    dsimp only at h
    split_ifs at h with hbad hbig <;> cases h
    · rw [show 3 + (digitRun isDigit (t.drop 2)).length
        = 2 + (digitRun isDigit (t.drop 2)).length + 1 by omega]
      exact hrun.add (startsNarrow_of_head? rfl hbig)
    · exact hrun
  -- Without a radix the digits come first; then a fraction, an exponent or the mark of a big
  -- number.
  · have hdigits := startsNarrow_digitRun (fun _ => utf8Size_of_isDigit) t
    dsimp only at h
    split_ifs at h with hzero hlow hoctal hbad hbig
    · cases h
      exact hdigits
    · obtain ⟨m, hm, hn⟩ := Option.map_eq_some_iff.mp h
      cases hn
      exact hdigits.add (startsNarrow_fractionLength? hm)
    · cases h
      exact hdigits.add (startsNarrow_of_head? rfl hbig.1)
    · obtain ⟨m, hm, hn⟩ := Option.map_eq_some_iff.mp h
      cases hn
      exact hdigits.add (startsNarrow_fractionLength? hm)

/-! ### Scanners -/

/-- What is left behind a run is what is not dropped with it. -/
lemma drop_takeWhile (p : Char → Bool) (t : Text) :
    t.drop (t.takeWhile p).length = t.dropWhile p :=
  List.append_cancel_left ((List.prefix_iff_eq_append.mp (List.takeWhile_prefix p)).trans
    List.takeWhile_append_dropWhile.symm)

/-- The bytes of a run are the bytes in front of what is left. -/
lemma dropBytes?_takeWhile (p : Char → Bool) (t : Text) :
    t.dropBytes? (byteLength (t.takeWhile p)) = some (t.drop (t.takeWhile p).length) := by
  refine dropBytes?_eq_some_iff.mpr ⟨_, ?_, rfl⟩
  exact (List.prefix_iff_eq_append.mp (List.takeWhile_prefix p)).symm

/-- The size of a name is that of the text in front of what is left. -/
lemma scanName_dropBytes? {name : Text} (h : scanName k t = some (name, size, isEscaped, r)) :
    t.dropBytes? size = some r := by
  fun_induction scanName k t generalizing name size isEscaped r with
  | case1 => cases h; rfl
  | case2 c t k ih =>
      obtain ⟨_, h', heq⟩ := Option.map_eq_some_iff.mp h
      cases heq
      exact dropBytes?_cons c (ih h')
  -- An escape takes several characters, which the scan counts one by one.
  | case3 t n k _ _ ih =>
      obtain ⟨_, h', heq⟩ := Option.map_eq_some_iff.mp h
      cases heq
      exact dropBytes?_cons '\\' (ih h')
  | case4 => cases h
  | case5 => cases h
  | case6 c t _ _ ih =>
      obtain ⟨_, h', heq⟩ := Option.map_eq_some_iff.mp h
      cases heq
      exact dropBytes?_cons c (ih h')
  | case7 => cases h; rfl

/-- The size of a string is that of the text in front of what is left. -/
lemma scanString_dropBytes? {quote : Char} (hquote : quote.utf8Size = 1)
    (h : scanString quote k t = some (value, size, r)) : t.dropBytes? size = some r := by
  fun_induction scanString quote k t generalizing value size r with
  | case1 => cases h
  | case2 c t k ih =>
      obtain ⟨_, h', heq⟩ := Option.map_eq_some_iff.mp h
      cases heq
      exact dropBytes?_cons c (ih h')
  | case3 t =>
      cases h
      rw [← hquote]
      exact dropBytes?_append [quote] t
  -- The characters of an escape are counted without being looked at again.
  | case4 t _ ih =>
      obtain ⟨⟨_, taken⟩, -, hmap⟩ := Option.bind_eq_some_iff.mp h
      obtain ⟨_, h', heq⟩ := Option.map_eq_some_iff.mp hmap
      cases heq
      exact dropBytes?_cons '\\' (ih taken h')
  | case5 => cases h
  | case6 c t _ _ _ ih =>
      obtain ⟨_, h', heq⟩ := Option.map_eq_some_iff.mp h
      cases heq
      exact dropBytes?_cons c (ih h')

/-- The size of a piece of a template is that of the text in front of what is left. -/
lemma scanTemplate_dropBytes? (h : scanTemplate k t = some (isLast, isBad, size, r)) :
    t.dropBytes? size = some r := by
  fun_induction scanTemplate k t generalizing isLast isBad size r with
  | case1 => cases h
  | case2 _ _ hc => cases h; rw [hc.2]; rfl
  | case3 => cases h
  | case5 => cases h; rfl
  | case6 _ _ _ _ hc => cases h; rw [hc.1, hc.2]; exact dropBytes?_append ['$', '{'] _
  | case4 | case9 =>
      next ih =>
      obtain ⟨_, h', heq⟩ := Option.map_eq_some_iff.mp h
      cases heq
      exact dropBytes?_cons _ (ih h')
  | case7 | case8 =>
      next ih =>
      obtain ⟨_, h', heq⟩ := Option.map_eq_some_iff.mp h
      cases heq
      exact dropBytes?_cons '\\' (ih h')

/-- The size of a regular expression without its flags. -/
lemma scanRegex_dropBytes? (h : scanRegex inClass t = some (size, r)) :
    t.dropBytes? size = some r := by
  fun_induction scanRegex inClass t generalizing size r with
  | case1 => cases h
  | case2 _ _ hc => cases h; rw [hc.1]; rfl
  | case3 => cases h
  | case4 => cases h
  | case5 => cases h
  | case6 _ d t _ _ ih =>
      obtain ⟨⟨n, _⟩, h', heq⟩ := Option.map_eq_some_iff.mp h
      cases heq
      rw [Nat.add_right_comm]
      exact dropBytes?_cons '\\' (dropBytes?_cons d (ih h'))
  | case7 _ _ _ _ _ _ hc => cases h; rw [hc.1]; rfl
  | case8 =>
      next ih =>
      obtain ⟨_, h', heq⟩ := Option.map_eq_some_iff.mp h
      cases heq
      exact dropBytes?_cons _ (ih h')

/-- The offset behind the trivia is that of the text that is left. -/
lemma exists_dropBytes?_skipTrivia {m : Trivia} {f fresh closed : Bool} {o p : Nat}
    (h : skipTrivia m f o t = (r, p, fresh, closed)) :
    ∃ k, p = o + k ∧ t.dropBytes? k = some r := by
  -- Each step passes one character or two.
  have hcons : ∀ {c : Char} {t : Text} {o p : Nat} {r : Text},
      (∃ k, p = o + c.utf8Size + k ∧ t.dropBytes? k = some r) →
        ∃ k, p = o + k ∧ dropBytes? (c :: t) k = some r := by
    rintro c t o p r ⟨k, rfl, hk⟩
    exact ⟨k + c.utf8Size, by omega, dropBytes?_cons c hk⟩
  fun_induction skipTrivia m f o t with
  | case1 => cases h; exact ⟨0, rfl, rfl⟩
  | case2 | case3 | case5 | case6 => cases h; exact hcons ⟨0, rfl, rfl⟩
  | case4 => cases h; exact ⟨0, rfl, rfl⟩
  | case7 | case8 | case12 | case13 | case15 =>
      next ih => exact hcons (ih h)
  | case9 | case10 | case14 =>
      next hc ih =>
      obtain ⟨rfl, rfl⟩ := hc
      exact hcons (hcons (ih h))
  | case11 => cases h; exact ⟨0, rfl, rfl⟩

/-- The bytes in front of the first token of a text. -/
def gapLength (t : Text) : Nat := (skipTrivia .space false 0 t).2.1

/-- The bytes of a gap are the bytes in front of the token. -/
lemma dropBytes?_gapLength (t : Text) : t.dropBytes? (gapLength t) = some (fromToken t) := by
  obtain ⟨k, hk, hdrop⟩ := exists_dropBytes?_skipTrivia
    (show skipTrivia .space false 0 t = (fromToken t, gapLength t, _, _) from rfl)
  rw [hk, Nat.zero_add, hdrop]

/-! ### Tokens -/

/-- A token takes the bytes that it says; a punctuator is what the text begins with. -/
structure Lexeme.Takes (l : Lexeme) (t : Text) : Prop where
  rest : t.dropBytes? l.size = some l.rest
  begins : ∀ p, l.token = .punctuator p → p <+: t

namespace Lexeme

/-- A word takes as many bytes as it says. -/
lemma takes_word (h : (word t).token ≠ .invalid) : (word t).Takes t := by
  unfold word at h ⊢
  split
  · next hscan =>
    rw [hscan] at h
    dsimp only at h
    split_ifs at h ⊢
    · exact ⟨scanName_dropBytes? hscan, by simp⟩
    · exact absurd (invalid_token t) h
  · next hscan =>
    split at h
    · next hscan' => exact absurd hscan' (hscan _ _ _ _ _)
    · exact absurd (invalid_token t) h

/-- A private name takes the mark and its word. -/
lemma takes_privateWord (h : (privateWord t).token ≠ .invalid) :
    (privateWord t).Takes ('#' :: t) := by
  unfold privateWord at h ⊢
  split
  · next hword =>
    have htakes := takes_word (t := t) (by rw [hword]; simp)
    rw [hword] at htakes
    exact ⟨dropBytes?_cons '#' htakes.rest, by simp⟩
  · next hword =>
    split at h
    · next hword' => exact absurd hword' (hword _ _ _ _)
    · exact absurd (invalid_token t) h

/-- The characters of a number are narrow, so their number is that of its bytes. -/
lemma takes_number (h : (number t).token ≠ .invalid) : (number t).Takes t := by
  unfold number at h ⊢
  split
  · next hlength => exact ⟨(startsNarrow_numberLength? hlength).dropBytes?, by simp⟩
  · next hlength =>
    rw [hlength] at h
    exact absurd (invalid_token t) h

/-- A piece of a template takes its first mark and what was scanned. -/
lemma takes_templateRest {c : Char} (hc : c.utf8Size = 1) (h : (templateRest t).token ≠ .invalid) :
    (templateRest t).Takes (c :: t) := by
  unfold templateRest at h ⊢
  split
  · next hscan =>
    refine ⟨?_, by simp⟩
    rw [← hc]
    exact dropBytes?_cons c (scanTemplate_dropBytes? hscan)
  · next hscan =>
    rw [hscan] at h
    exact absurd (invalid_token t) h

/-- A punctuator of some narrow characters that stand at the head of a text. -/
lemma takes_of_prefix {p : Text} (hp : p <+: t) (hsize : byteLength p = p.length) :
    Takes ⟨.punctuator p, p.length, t.drop p.length⟩ t := by
  obtain ⟨r, rfl⟩ := hp
  refine ⟨?_, fun q hq => by cases hq; exact List.prefix_append p r⟩
  dsimp only
  rw [List.drop_left, ← hsize]
  exact dropBytes?_append p r

/-- Punctuators are written in ASCII. -/
lemma byteLength_of_mem_punctuators : ∀ p ∈ punctuators, byteLength p = p.length := by
  decide +kernel

/-- A punctuator takes as many bytes as it has characters. -/
lemma takes_punctuator (h : (punctuator t).token ≠ .invalid) : (punctuator t).Takes t := by
  unfold punctuator at h ⊢
  split
  · next p hfind =>
    have hp : p <+: t := List.isPrefixOf_iff_prefix.mp
      (List.find?_some (p := (startsWith t ·)) hfind)
    split_ifs with hquestion
    · rw [hquestion.1] at hp
      exact takes_of_prefix (p := ['?']) ((List.prefix_append ['?'] ['.']).trans hp) rfl
    · exact takes_of_prefix hp
        (byteLength_of_mem_punctuators p (List.mem_of_find?_eq_some hfind))
  · next hfind =>
    rw [hfind] at h
    exact absurd (invalid_token t) h

/-- The token at the head of a text takes the beginning of the text. -/
lemma takes_read (h : (read t).token ≠ .invalid) : (read t).Takes t := by
  cases t with
  | nil => exact ⟨rfl, by simp [read]⟩
  | cons c t =>
      unfold read at h ⊢
      dsimp only at h ⊢
      split_ifs at h ⊢ with hname hdigit hquote htemplate hprivate
      · exact takes_word h
      · exact takes_number h
      -- The quote is one byte more.
      · have hc : c.utf8Size = 1 := by rcases hquote with rfl | rfl <;> rfl
        split
        · next hscan =>
          refine ⟨?_, by simp⟩
          rw [← hc]
          exact dropBytes?_cons c (scanString_dropBytes? hc hscan)
        · next hscan =>
          rw [hscan] at h
          exact absurd (invalid_token _) h
      · exact takes_templateRest (htemplate ▸ rfl) h
      · rw [hprivate]
        exact takes_privateWord h
      · exact takes_punctuator h

/-- A regular expression takes the beginning of a text that begins with a slash. -/
lemma takes_regex (h : (regex ('/' :: t)).token ≠ .invalid) :
    (regex ('/' :: t)).Takes ('/' :: t) := by
  unfold regex at h ⊢
  rw [List.drop_succ_cons, List.drop_zero] at h ⊢
  split
  · next size rest hscan =>
    rw [hscan] at h
    dsimp only at h ⊢
    split_ifs at h ⊢
    -- The slash, the pattern, and the flags behind it.
    · refine ⟨?_, by simp⟩
      dsimp only
      rw [Nat.add_comm 1]
      exact dropBytes?_add (dropBytes?_cons '/' (scanRegex_dropBytes? hscan))
        (dropBytes?_takeWhile _ rest)
    · exact absurd (invalid_token _) h
  · next hscan =>
    rw [hscan] at h
    exact absurd (invalid_token _) h

/-- Text among the children of markup takes as many bytes as it says. -/
lemma takes_markupChild (h : (markupChild t).token ≠ .invalid) : (markupChild t).Takes t := by
  unfold markupChild at h ⊢
  split
  · exact ⟨rfl, by simp⟩
  · next r =>
    exact ⟨dropBytes?_append ['{'] r, fun p hp => by cases hp; exact List.prefix_append ['{'] r⟩
  · next r =>
    exact ⟨dropBytes?_append ['<'] r, fun p hp => by cases hp; exact List.prefix_append ['<'] r⟩
  · dsimp only at h ⊢
    split
    · exact ⟨dropBytes?_takeWhile _ t, by simp⟩
    · exact ⟨dropBytes?_takeWhile _ t, by simp⟩
    · simp only at h
      exact absurd (invalid_token t) h

/-- A slash is read as a regular expression, or as nothing that is valid. -/
lemma regex_token (t : Text) : (regex t).token = .regex ∨ (regex t).token = .invalid := by
  unfold regex
  split
  · dsimp only
    split_ifs
    · exact .inl rfl
    · exact .inr (invalid_token t)
  · exact .inr (invalid_token t)

/-- Among the children of markup no closing brace is a token, and the end only at the end of the
text. -/
lemma markupChild_token (t : Text) : (markupChild t).token ≠ .punctuator "\x7d" ∧
    ((markupChild t).token = .endOfText → t = []) := by
  unfold markupChild
  split
  · exact ⟨by simp, fun _ => rfl⟩
  · exact ⟨by simp, by simp⟩
  · exact ⟨by simp, by simp⟩
  · dsimp only
    split <;> simp [invalid_token]

/-- A name in a tag takes as many bytes as it says. -/
lemma takes_markupName (t : Text) : (markupName t).Takes t :=
  ⟨dropBytes?_takeWhile _ t, by simp [markupName]⟩

/-- The value of an attribute is a string, if it is valid. -/
lemma markupString?_token {l : Lexeme} (h : markupString? t = some l) :
    (∃ value, l.token = .string value) ∨ l.token = .invalid := by
  unfold markupString? at h
  split at h
  · split_ifs at h
    dsimp only at h
    split at h <;> cases h
    · exact .inl ⟨_, rfl⟩
    · exact .inr (invalid_token _)
  · cases h

/-- The value of an attribute takes its quotes and what stands between them. -/
lemma takes_markupString? {l : Lexeme} (h : markupString? t = some l) (hl : l.token ≠ .invalid) :
    l.Takes t := by
  unfold markupString? at h
  split at h
  · next quote r =>
    split_ifs at h with hquote
    dsimp only at h
    split at h
    · next c rest hdrop =>
      cases h
      refine ⟨?_, by simp⟩
      have hsize : quote.utf8Size = 1 := by rcases hquote with rfl | rfl <;> rfl
      -- The run of the value stops at the first quote of its kind.
      have hc : c = quote := by
        have hstops := (runs_takeWhile (· != quote) r).stops c
        rw [← drop_takeWhile, hdrop] at hstops
        simpa using hstops rfl
      have hvalue := dropBytes?_takeWhile (· != quote) r
      rw [hdrop] at hvalue
      have hrest := dropBytes?_cons quote (dropBytes?_add hvalue (dropBytes?_append [c] rest))
      rw [byteLength_cons, byteLength_nil, hc, hsize] at hrest
      exact hrest
    · cases h
      exact absurd (invalid_token _) hl
  · cases h

end Lexeme

end ComponentMigration.Script
