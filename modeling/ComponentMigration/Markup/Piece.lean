import ComponentMigration.Markup.Cursor
import ComponentMigration.Markup.Directive

/-!
Pieces: a template as the flat sequence of its tags, comments, interpolations
and texts.

* **Kinds.** `startsMarkup` tells where anything but text begins: `</`, `<!--`,
  `<` with an ASCII letter, and two opening braces. A text runs up to the next
  such place.
* **Reading.** `Token.read` reads the token at a cursor, `readProperties` the
  properties of a start tag. Every token takes at least one character
  (`Token.read_shorter`), so `pieces` ends on every text: with all the pieces,
  or with those in front of the first fault and the fault.
-/

namespace ComponentMigration.Markup

/-! ### Kinds of pieces -/

/-- What a piece is. -/
inductive Token where
  /-- A start tag; `isClosed` when it ends in `/>`. -/
  | startTag (tag : Text) (properties : List Property) (isClosed : Bool)
  | endTag (tag : Text)
  | comment (content : Text)
  | interpolation (expression : Text)
  | text (content : Text)
  deriving DecidableEq, Repr

/-- A token with its place, the text it was read from and the text behind it. -/
structure Piece where
  token : Token
  location : Location
  source : Text
  rest : Text
  deriving DecidableEq, Repr

/-- Whether a tag is open at the head of a text. -/
def startsTag : Text → Bool
  | '<' :: c :: _ => Text.isLetter c
  | _ => false

/-- Whether anything but text begins at the head of a text. -/
def startsMarkup (t : Text) : Bool :=
  Text.startsWith t ['<', '/'] || Text.startsWith t ['<', '!', '-', '-'] ||
    Text.startsWith t ['{', '{'] || startsTag t

/-- The characters in front of the next markup. -/
def untilMarkup : Text → Text
  | [] => []
  | c :: t => if startsMarkup (c :: t) then [] else c :: untilMarkup t

/-! ### Properties of a start tag -/

/-- A character of an attribute's name. -/
def isAttributeChar (c : Char) : Bool :=
  !Text.isBlank c && c != '=' && c != '>' && c != '/'

/-- A character of a value without quotes. -/
def isUnquotedChar (c : Char) : Bool := !Text.isBlank c && c != '>'

/-- A character of a tag's name. -/
def isTagChar (c : Char) : Bool := !Text.isBlank c && c != '/' && c != '>'

/-- The value at `c` of the attribute that began at `start`. -/
def readValue (start c : Cursor) : Except Diagnostic (Text × Cursor) :=
  match c.rest with
  | [] => .ok ([], c)
  | quote :: t =>
      if quote = '"' ∨ quote = '\'' then
        match Text.cutAt? [quote] t with
        | some (value, _) => .ok (value, c.drop (value.length + 2))
        | none => .error (start.diagnose .unclosedAttributeValue)
      else .ok (c.rest.takeWhile isUnquotedChar, c.dropWhile isUnquotedChar)

/-- The value behind the name of the attribute that began at `start`, if there is
one; blanks may stand around the equals sign. -/
def readValue? (start c : Cursor) : Except Diagnostic (Option Text × Cursor) :=
  if c.dropBlanks.rest.head? = some '=' then
    (readValue start (c.dropBlanks.drop 1).dropBlanks).map fun (value, c) => (some value, c)
  else .ok (none, c)

/-- The property at a cursor. -/
def readProperty (c : Cursor) : Except Diagnostic (Property × Cursor) :=
  let name := c.rest.takeWhile isAttributeChar
  if name = [] then .error (c.diagnose .missingAttributeName)
  else match readValue? c (c.dropWhile isAttributeChar) with
    | .error d => .error d
    | .ok (value, stop) =>
        (Property.ofRaw name value c.location (c.upTo stop)).map fun p => (p, stop)

theorem length_rest_readValue_le {start c c' : Cursor} {value : Text}
    (h : readValue start c = .ok (value, c')) : c'.rest.length ≤ c.rest.length := by
  unfold readValue at h
  split at h
  · simp only [Except.ok.injEq, Prod.mk.injEq] at h
    exact h.2 ▸ Nat.le_refl _
  · split at h
    · split at h
      · simp only [Except.ok.injEq, Prod.mk.injEq] at h
        rw [← h.2, Cursor.length_rest_drop]; omega
      · exact absurd h (by simp)
    · simp only [Except.ok.injEq, Prod.mk.injEq] at h
      rw [← h.2]; exact Cursor.length_rest_dropWhile_le _ _

theorem length_rest_readValue?_le {start c c' : Cursor} {value : Option Text}
    (h : readValue? start c = .ok (value, c')) : c'.rest.length ≤ c.rest.length := by
  unfold readValue? at h
  split at h
  · cases hv : readValue start (c.dropBlanks.drop 1).dropBlanks with
    | error d => rw [hv] at h; exact absurd h (by simp [Except.map])
    | ok r =>
        obtain ⟨v, c₁⟩ := r
        rw [hv] at h
        simp only [Except.map, Except.ok.injEq, Prod.mk.injEq] at h
        have h₁ := length_rest_readValue_le hv
        have h₂ := Cursor.length_rest_dropWhile_le (c.dropBlanks.drop 1) Text.isBlank
        have h₃ := Cursor.length_rest_dropWhile_le c Text.isBlank
        have h₄ := Cursor.length_rest_drop c.dropBlanks 1
        rw [← h.2]
        simp only [Cursor.dropBlanks] at h₁ h₂ h₃ h₄ ⊢
        omega
  · simp only [Except.ok.injEq, Prod.mk.injEq] at h
    exact h.2 ▸ Nat.le_refl _

/-- A property takes at least one character. -/
theorem readProperty_shorter {c c' : Cursor} {p : Property}
    (h : readProperty c = .ok (p, c')) : c'.rest.length < c.rest.length := by
  unfold readProperty at h
  simp only at h
  split at h
  · exact absurd h (by simp)
  · rename_i hname
    split at h
    · exact absurd h (by simp)
    · rename_i value stop hstop
      have hstop' := length_rest_readValue?_le hstop
      have hc' : stop = c' := by
        cases hp : Property.ofRaw (c.rest.takeWhile isAttributeChar) value c.location
            (c.upTo stop) with
        | error d => rw [hp] at h; exact absurd h (by simp [Except.map])
        | ok q =>
            rw [hp] at h
            simp only [Except.map, Except.ok.injEq, Prod.mk.injEq] at h
            exact h.2
      have hpos : 0 < (c.rest.takeWhile isAttributeChar).length := by
        cases hn : c.rest.takeWhile isAttributeChar with
        | nil => exact absurd hn hname
        | cons _ _ => simp
      have hle : (c.rest.takeWhile isAttributeChar).length ≤ c.rest.length :=
        (List.takeWhile_prefix _).length_le
      rw [← hc']
      simp only [Cursor.dropWhile, Cursor.length_rest_drop] at hstop'
      omega

/-- The properties from a cursor to the end of the start tag, and whether the tag
is closed there. `start` is the cursor in front of the tag. -/
def readProperties (start : Cursor) (tag : Text) (c : Cursor) :
    Except Diagnostic (List Property × Bool × Cursor) :=
  match _hrest : c.dropBlanks.rest with
  | [] => .error (start.diagnose (.unclosedStartTag tag))
  | '/' :: '>' :: _ => .ok ([], true, c.dropBlanks.drop 2)
  | '>' :: _ => .ok ([], false, c.dropBlanks.drop 1)
  | '/' :: _ => readProperties start tag (c.dropBlanks.drop 1)
  | _ :: _ =>
      match _hp : readProperty c.dropBlanks with
      | .error d => .error d
      | .ok (p, c') =>
          match readProperties start tag c' with
          | .error d => .error d
          | .ok (ps, result) => .ok (p :: ps, result)
termination_by c.rest.length
decreasing_by
  · have h₁ := Cursor.length_rest_dropWhile_le c Text.isBlank
    have h₂ : 0 < c.dropBlanks.rest.length := by rw [_hrest]; simp
    simp only [Cursor.length_rest_drop]
    simp only [Cursor.dropBlanks] at h₁ h₂ ⊢
    omega
  · have h₁ := Cursor.length_rest_dropWhile_le c Text.isBlank
    have h₂ := readProperty_shorter _hp
    simp only [Cursor.dropBlanks] at h₁ h₂
    omega

/-! ### Pieces -/

/-- The token at the head of a text that is not empty, and the cursor behind it. -/
def Token.read (c : Cursor) : Except Diagnostic (Token × Cursor) :=
  if Text.startsWith c.rest ['<', '/'] then
    let name := (c.rest.drop 2).takeWhile fun x => !Text.isBlank x && x != '>'
    let behind := (c.drop (2 + name.length)).dropBlanks
    .ok (.endTag name, if behind.rest.head? = some '>' then behind.drop 1 else behind)
  else if Text.startsWith c.rest ['<', '!', '-', '-'] then
    match Text.cutAt? ['-', '-', '>'] (c.rest.drop 4) with
    | some (content, _) => .ok (.comment content, c.drop (content.length + 7))
    | none => .error (c.diagnose .unclosedComment)
  else if startsTag c.rest then
    let tag := (c.rest.drop 1).takeWhile isTagChar
    match readProperties c tag (c.drop (1 + tag.length)) with
    | .ok (properties, isClosed, c') => .ok (.startTag tag properties isClosed, c')
    | .error d => .error d
  else if Text.startsWith c.rest ['{', '{'] then
    match Text.cutAt? ['}', '}'] (c.rest.drop 2) with
    | some (content, _) => .ok (.interpolation (Text.trim content), c.drop (content.length + 4))
    | none => .error (c.diagnose .unclosedInterpolation)
  else
    let content := c.rest.take 1 ++ untilMarkup (c.rest.drop 1)
    .ok (.text content, c.drop content.length)

theorem length_rest_readProperties_le {start c c' : Cursor} {tag : Text}
    {ps : List Property} {isClosed : Bool}
    (h : readProperties start tag c = .ok (ps, isClosed, c')) :
    c'.rest.length ≤ c.rest.length := by
  have hb := Cursor.length_rest_dropWhile_le c Text.isBlank
  fun_induction readProperties start tag c generalizing ps isClosed with
  | case1 => exact absurd h (by simp)
  | case2 c _ _ =>
      simp only [Except.ok.injEq, Prod.mk.injEq] at h
      rw [← h.2.2, Cursor.length_rest_drop]
      simp only [Cursor.dropBlanks] at hb ⊢
      omega
  | case3 c _ _ =>
      simp only [Except.ok.injEq, Prod.mk.injEq] at h
      rw [← h.2.2, Cursor.length_rest_drop]
      simp only [Cursor.dropBlanks] at hb ⊢
      omega
  | case4 c _ _ _ ih =>
      have ih := ih h (Cursor.length_rest_dropWhile_le _ _)
      have hd := Cursor.length_rest_drop c.dropBlanks 1
      simp only [Cursor.dropBlanks] at hb ih hd ⊢
      omega
  | case5 => exact absurd h (by simp)
  | case6 => exact absurd h (by simp)
  | case7 c _ _ _ _ _ _ p c₁ hp ps₁ r₁ hr ih =>
      have hlt := readProperty_shorter hp
      simp only [Except.ok.injEq, Prod.mk.injEq] at h
      obtain ⟨_, hr₁⟩ := h
      subst hr₁
      have ih := ih hr (Cursor.length_rest_dropWhile_le _ _)
      simp only [Cursor.dropBlanks] at hb hlt ih ⊢
      omega

/-- A token takes at least one character. -/
theorem Token.read_shorter {c c' : Cursor} {t : Token} (hc : c.rest ≠ [])
    (h : Token.read c = .ok (t, c')) : c'.rest.length < c.rest.length := by
  have hpos : 0 < c.rest.length := List.length_pos_iff.mpr hc
  unfold Token.read at h
  split at h
  · simp only [Except.ok.injEq, Prod.mk.injEq] at h
    have hd := Cursor.length_rest_drop c
      (2 + ((c.rest.drop 2).takeWhile fun x => !Text.isBlank x && x != '>').length)
    have hb := Cursor.length_rest_dropWhile_le (c.drop
      (2 + ((c.rest.drop 2).takeWhile fun x => !Text.isBlank x && x != '>').length)) Text.isBlank
    rw [← h.2]
    split
    · rw [Cursor.length_rest_drop]
      simp only [Cursor.dropBlanks] at hb hd ⊢
      omega
    · simp only [Cursor.dropBlanks] at hb hd ⊢
      omega
  · split at h
    · split at h
      · simp only [Except.ok.injEq, Prod.mk.injEq] at h
        rw [← h.2, Cursor.length_rest_drop]; omega
      · exact absurd h (by simp)
    · split at h
      · simp only at h
        split at h
        · rename_i hps
          simp only [Except.ok.injEq, Prod.mk.injEq] at h
          have hle := length_rest_readProperties_le hps
          rw [Cursor.length_rest_drop] at hle
          rw [← h.2]; omega
        · exact absurd h (by simp)
      · split at h
        · split at h
          · simp only [Except.ok.injEq, Prod.mk.injEq] at h
            rw [← h.2, Cursor.length_rest_drop]; omega
          · exact absurd h (by simp)
        · simp only [Except.ok.injEq, Prod.mk.injEq] at h
          have hone : 0 < (c.rest.take 1 ++ untilMarkup (c.rest.drop 1)).length := by
            simp only [List.length_append, List.length_take]; omega
          rw [← h.2, Cursor.length_rest_drop]; omega

/-- The pieces from a cursor on, up to the end of the text or to the first fault,
and that fault. -/
def pieces (c : Cursor) : List Piece × Option Diagnostic :=
  if _hc : c.rest = [] then ([], none)
  else match _ht : Token.read c with
    | .error d => ([], some d)
    | .ok (token, c') =>
        (⟨token, c.location, c.upTo c', c'.rest⟩ :: (pieces c').1, (pieces c').2)
termination_by c.rest.length
decreasing_by all_goals exact Token.read_shorter _hc _ht

end ComponentMigration.Markup
