import ComponentMigration.Jsx.Printer
import ComponentMigration.Json
import ComponentMigration.Proofs.Text.Search
import Mathlib.Data.List.Basic

/-!
Arbitrary text inside of printed markup.

* **Text.** `readText?` reads JSX text: a character as it is, or one in a string container. It
  refuses the four characters that cannot stand there as they are.
* **Literals.** `readLiteral?` reads the value of an attribute and what stands behind it: what is
  between two quotes, as it is, or a string in braces.
* **Comments.** A comment goes up to the first end of comment behind its opening.
* **Main statement.** `markup_closes`: whatever the text, what is printed for it ends where it is
  meant to end, and is read as that text.

Character references are not looked at: an ampersand is a character like others.
-/

namespace ComponentMigration

/-! ### Quoted text -/

namespace Json

variable {c : Char} {t rest : Text} {us : List Nat}

/-- A control character is written by two hexadecimal digits. -/
lemma unit?_digitChar : ∀ n < 0x20,
    unit? '0' '0' (Nat.digitChar (n / 16)) (Nat.digitChar (n % 16)) = some n := by
  decide +kernel

/-- A letter behind a backslash stands for one character. -/
lemma units?_letter {letter : Char} (hletter : escaped? letter = some c) (hu : letter ≠ 'u')
    (h : units? t = some (us, rest)) :
    units? ('\\' :: letter :: t) = some (c.toNat :: us, rest) := by
  simp [units?, hu, hletter, h]

/-- A character is one unit of a string, however it is written. -/
lemma units?_escaped_append (c : Char) (h : units? t = some (us, rest)) :
    units? (Text.escaped c ++ t) = some (c.toNat :: us, rest) := by
  unfold Text.escaped
  split_ifs with hquote hbackslash hb hf hn hr ht hcontrol
  · exact units?_letter (by rw [hquote]; rfl) (by decide) h
  · exact units?_letter (by rw [hbackslash]; rfl) (by decide) h
  · exact units?_letter (by rw [hb]; rfl) (by decide) h
  · exact units?_letter (by rw [hf]; rfl) (by decide) h
  · exact units?_letter (by rw [hn]; rfl) (by decide) h
  · exact units?_letter (by rw [hr]; rfl) (by decide) h
  · exact units?_letter (by rw [ht]; rfl) (by decide) h
  · simp [units?, unit?_digitChar c.toNat hcontrol, h]
  · simp [units?, hbackslash, hcontrol, h]

/-- The units of a quoted text are its characters. -/
lemma units?_quoted (t rest : Text) :
    units? (t.flatMap Text.escaped ++ '"' :: rest) = some (t.map Char.toNat, rest) := by
  induction t with
  | nil => rfl
  | cons c t ih =>
      rw [List.flatMap_cons, List.append_assoc, units?_escaped_append c ih, List.map_cons]

/-- No character is half of a surrogate pair. -/
lemma decode?_map_toNat (t : Text) : decode? (t.map Char.toNat) = some t := by
  induction t with
  | nil => rfl
  | cons c t ih =>
      have hvalid : c.toNat < 0xD800 ∨ 0xDFFF < c.toNat := c.valid.imp id And.left
      rw [List.map_cons, decode?.eq_def]
      dsimp only
      rw [if_neg (by omega), if_neg (by omega), ih, Option.map_some, Char.ofNat_toNat]

/-- A quoted text is read back, up to its closing quote. -/
lemma string?_quoted (t rest : Text) :
    string? (t.flatMap Text.escaped ++ '"' :: rest) = some (some t, rest) := by
  rw [string?, units?_quoted]
  exact congrArg (fun o => some (o, rest)) (decode?_map_toNat t)

end Json

namespace Jsx

/-! ### Text -/

/-- The text that JSX text stands for. It holds characters as they are, and strings of one
character in braces; braces and angle brackets cannot stand for themselves. -/
def readText? : Text → Option Text
  | [] => some []
  | '{' :: '"' :: c :: '"' :: '}' :: t =>
      if c = '"' ∨ c = '\\' ∨ c = '\n' ∨ c = '\r' then none else (readText? t).map (c :: ·)
  | c :: t =>
      if c = '{' ∨ c = '}' ∨ c = '<' ∨ c = '>' then none else (readText? t).map (c :: ·)

lemma readText?_charMarkup_append (c : Char) (t : Text) :
    readText? (charMarkup c ++ t) = (readText? t).map (c :: ·) := by
  unfold charMarkup
  split_ifs with h
  · rcases h with rfl | rfl | rfl | rfl <;> rfl
  · simp only [not_or] at h
    simp [readText?, h]

lemma readText?_textMarkup (t : Text) : readText? (textMarkup t) = some t := by
  induction t with
  | nil => rfl
  | cons c t ih =>
      rw [textMarkup, List.flatMap_cons, readText?_charMarkup_append]
      exact congrArg (Option.map (c :: ·)) ih

/-! ### Literals -/

/-- The value at the head of a text, and the text behind it: the characters between two quotes,
or a string in braces. -/
def readLiteral? : Text → Option (Text × Text)
  | '"' :: t => Text.cutAt? ['"'] t
  | '\'' :: t => Text.cutAt? ['\''] t
  | '{' :: '"' :: t => match Json.string? t with
      | some (some value, '}' :: rest) => some (value, rest)
      | _ => none
  | _ => none

/-- A literal without one of the two quotes stands between two of these. -/
lemma exists_literalMarkup_eq {v : Text} (h : '"' ∉ v ∨ '\'' ∉ v) :
    ∃ quote, (quote = '"' ∨ quote = '\'') ∧ quote ∉ v ∧
      literalMarkup v = quote :: (v ++ [quote]) := by
  by_cases hdouble : '"' ∈ v
  · have hsingle := h.resolve_left (not_not_intro hdouble)
    exact ⟨'\'', .inr rfl, hsingle, by simp [literalMarkup, hdouble, hsingle]⟩
  · exact ⟨'"', .inl rfl, hdouble, by simp [literalMarkup, hdouble]⟩

/-- A literal with both quotes is a string in braces. -/
lemma literalMarkup_of_mem {v : Text} (hdouble : '"' ∈ v) (hsingle : '\'' ∈ v) :
    literalMarkup v = '{' :: '"' :: (v.flatMap Text.escaped ++ ['"', '}']) := by
  simp [literalMarkup, hdouble, hsingle, Text.quoted]

lemma readLiteral?_literalMarkup (value rest : Text) :
    readLiteral? (literalMarkup value ++ rest) = some (value, rest) := by
  by_cases h : '"' ∉ value ∨ '\'' ∉ value
  · obtain ⟨quote, hquote, hvalue, hmarkup⟩ := exists_literalMarkup_eq h
    have hcut : Text.cutAt? [quote] (value ++ ([quote] ++ rest)) = some (value, rest) :=
      (Text.cutAt?_eq_some_iff (by simp)).mpr ⟨rfl, Text.isFirst_singleton_iff.mpr hvalue⟩
    rw [hmarkup, List.cons_append, List.append_assoc]
    rcases hquote with rfl | rfl <;> exact hcut
  · simp only [not_or, not_not] at h
    have hstring := Json.string?_quoted value ('}' :: rest)
    rw [literalMarkup_of_mem h.1 h.2]
    simp only [List.cons_append, List.append_assoc, List.nil_append, readLiteral?, hstring]

lemma head?_literalMarkup (value : Text) :
    (literalMarkup value).head? = some '{' ↔ '"' ∈ value ∧ '\'' ∈ value := by
  by_cases h : '"' ∉ value ∨ '\'' ∉ value
  · obtain ⟨quote, hquote, -, hmarkup⟩ := exists_literalMarkup_eq h
    refine iff_of_false ?_ (by tauto)
    rw [hmarkup]
    rcases hquote with rfl | rfl <;> simp
  · simp only [not_or, not_not] at h
    exact iff_of_true (by rw [literalMarkup_of_mem h.1 h.2]; rfl) h

/-! ### Comments -/

lemma head?_commentBody (c : Char) (t : Text) : (commentBody (c :: t)).head? = some c := by
  cases t with
  | nil => rfl
  | cons d t =>
      rw [commentBody]
      split_ifs with h
      · rw [h.1, List.head?_cons]
      · rfl

/-- No end of comment begins inside of the body of a comment. -/
lemma isFirst_commentBody (content : Text) : Text.IsFirst ['*', '/'] (commentBody content) := by
  fun_induction commentBody content with
  | case1 => exact Text.isFirst_nil _
  | case2 c => simp [Text.isFirst_cons_iff, Text.isFirst_nil, List.cons_prefix_cons]
  | case3 c d t hend ih => simp [Text.isFirst_cons_iff, ih, List.cons_prefix_cons]
  | case4 c d t hend ih =>
      refine Text.isFirst_cons_iff.mpr ⟨fun h => hend ?_, ih⟩
      obtain ⟨b, hb⟩ := List.head?_eq_some_iff.mp (head?_commentBody d t)
      rw [hb] at h
      simp only [List.cons_append, List.cons_prefix_cons] at h
      exact ⟨h.1.symm, h.2.1.symm⟩

/-- **What is printed for a text ends where it is meant to end**: JSX text is read as the text,
a literal is read as its value whatever follows, and the first end of comment behind the opening of
a comment is its own. -/
theorem markup_closes :
    (∀ content, readText? (Node.text content).markup = some content) ∧
    (∀ name value, ∃ printed, (Property.literal name value).markup = name ++ '=' :: printed ∧
      (∀ rest, readLiteral? (printed ++ rest) = some (value, rest)) ∧
      (printed.head? = some '{' ↔ '"' ∈ value ∧ '\'' ∈ value)) ∧
    ∀ content, ∃ body,
      (Node.expression (.comment content)).markup = ['{', '/', '*'] ++ (body ++ ['*', '/', '}']) ∧
      (Expr.comment content).code = "null /*" ++ (body ++ ['*', '/']) ∧
      ∀ rest, Text.cutAt? ['*', '/'] (body ++ (['*', '/'] ++ rest)) = some (body, rest) := by
  refine ⟨readText?_textMarkup, fun name value => ⟨literalMarkup value, ?_,
    readLiteral?_literalMarkup value, head?_literalMarkup value⟩, fun content =>
    ⟨commentBody content, ?_, ?_, fun rest => ?_⟩⟩
  · simp [Property.markup]
  · simp [Node.markup]
  · simp [Expr.code]
  · exact (Text.cutAt?_eq_some_iff (by simp)).mpr ⟨rfl, isFirst_commentBody content⟩

/-- Quotes of both kinds, a backslash and a line feed, and text that looks like markup. -/
example : (Property.literal "a" "'\"\\\n").markup = "a=\x7b\"'\\\"\\\\\\n\"\x7d".toList ∧
    (Node.text "\x7b<").markup = "\x7b\"\x7b\"\x7d\x7b\"<\"\x7d".toList ∧
    (Expr.comment "**//*").code = "null /*** //**/".toList := by
  decide +kernel

end Jsx

end ComponentMigration
