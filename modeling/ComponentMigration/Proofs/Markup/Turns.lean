import ComponentMigration.Proofs.Markup.Placement

/-!
Reading a template turn by turn.

* **Steps.** `text.IsStep start stop s`: the offset `stop` is a later one, between two characters
  of the text, and `s` is what stands between the two. `c.Advances text c'` says so of cursors.
* **Turns.** A `Turn` takes a token of the text or, within a start tag, a property or a lone
  slash. Reading the properties of a start tag is nothing but such turns (`readProperties_eq`),
  and so is reading the pieces of a text (`pieces_isChain`). No turn stands still
  (`Turn.advances`), so there are at most as many as there are characters.
* **Cuts.** `Token.IsCut` and `Property.IsCut`: what a token or a property holds has been cut out
  of the text between two of its characters.
* **Main statement.** `parse_ends`: reading ends on every text, with nodes or with a fault.
-/

namespace ComponentMigration

/-! ### Steps -/

/-- From an offset of the text to a later one that is between two characters, over `s`. -/
structure Text.IsStep (text : Text) (start stop : Nat) (s : Text) : Prop where
  lt : start < stop
  le : stop ≤ text.byteLength
  boundary : text.IsBoundary stop
  slice : text.IsSlice start stop s

variable {text pre post s : Text}

lemma Text.isStep_of_eq (h : text = pre ++ (s ++ post)) (hs : s ≠ []) :
    text.IsStep pre.byteLength (pre ++ s).byteLength s := by
  have hpos : 0 < s.byteLength := Nat.pos_of_ne_zero fun h => hs (byteLength_eq_zero_iff.mp h)
  have hboundary : text.IsBoundary (pre ++ s).byteLength :=
    isBoundary_iff.mpr ⟨pre ++ s, post, by rw [h, List.append_assoc], rfl⟩
  have hlt : pre.byteLength < (pre ++ s).byteLength := by
    rw [byteLength_append]
    omega
  exact ⟨hlt, hboundary.le_byteLength, hboundary, isSlice_of_eq h⟩

namespace Markup

namespace Cursor

variable {c c' : Cursor}

/-- The number of bytes of the text in front of a cursor. -/
def offset (text : Text) (c : Cursor) : Nat := text.byteLength - c.rest.byteLength

lemma offset_eq (h : text = pre ++ c.rest) : c.offset text = pre.byteLength := by
  rw [offset, h, Text.byteLength_append, Nat.add_sub_cancel]

/-- The cursor goes on in the text, over what stands between the two places. -/
structure Advances (text : Text) (c c' : Cursor) : Prop where
  isIn : c'.IsIn text
  step : text.IsStep (c.offset text) (c'.offset text) (c.upTo c')

/-- A cursor in a text stands behind some of it. -/
lemma IsIn.exists_append (h : c.IsIn text) (hp : c.Passes s c') :
    ∃ pre, text = pre ++ (s ++ c'.rest) ∧ c.location = Location.first.after pre ∧
      c.offset text = pre.byteLength ∧ c'.offset text = (pre ++ s).byteLength := by
  obtain ⟨pre, htext, hl⟩ := h
  have hsplit := htext
  rw [hp.rest] at hsplit
  exact ⟨pre, hsplit, hl, offset_eq htext, offset_eq (by rw [hsplit, List.append_assoc])⟩

/-- A cursor that passes some text goes on. -/
lemma IsIn.advances (h : c.IsIn text) (hp : c.Passes s c') (hs : s ≠ []) : c.Advances text c' := by
  obtain ⟨pre, htext, -, hstart, hstop⟩ := h.exists_append hp
  refine ⟨h.passes hp, ?_⟩
  rw [hstart, hstop, hp.upTo_eq]
  exact Text.isStep_of_eq htext hs

end Cursor

/-! ### Turns -/

/-- What a turn over the properties of a start tag comes to. -/
inductive TagTurn where
  /-- The text is at its end. -/
  | unclosed
  | closes (isClosed : Bool) (behind : Cursor)
  | fails (d : Diagnostic)
  /-- A property has been read, or a lone slash, and there is more to read. -/
  | goesOn (p : Option Property) (behind : Cursor)
  deriving DecidableEq

/-- The turn over the properties of a start tag that begins at a cursor. -/
def tagTurn (c : Cursor) : TagTurn :=
  match c.dropBlanks.rest with
  | [] => .unclosed
  | '/' :: '>' :: _ => .closes true (c.dropBlanks.drop 2)
  | '>' :: _ => .closes false (c.dropBlanks.drop 1)
  | '/' :: _ => .goesOn none (c.dropBlanks.drop 1)
  | _ :: _ =>
      match readProperty c.dropBlanks with
      | .error d => .fails d
      | .ok (p, c') => .goesOn (some p) c'

/-- What is read from a start tag that begins at `start`, with this turn first. -/
def TagTurn.result (start : Cursor) (tag : Text) :
    TagTurn → Except Diagnostic (List Property × Bool × Cursor)
  | unclosed => .error (start.diagnose (.unclosedStartTag tag))
  | closes isClosed c' => .ok ([], isClosed, c')
  | fails d => .error d
  | goesOn p c' => (readProperties start tag c').map fun r => (p.toList ++ r.1, r.2)

/-- The properties of a start tag are read turn by turn. -/
lemma readProperties_eq (start : Cursor) (tag : Text) (c : Cursor) :
    readProperties start tag c = (tagTurn c).result start tag := by
  fun_cases readProperties start tag c with
  | case1 h =>
      rw [tagTurn, h]
      rfl
  | case2 t h =>
      rw [tagTurn, h]
      rfl
  | case3 t h =>
      rw [tagTurn, h]
      rfl
  | case4 t hopen h =>
      have hturn : tagTurn c = .goesOn none (c.dropBlanks.drop 1) := by simp [tagTurn, h]
      rw [hturn, TagTurn.result]
      cases readProperties start tag (c.dropBlanks.drop 1) <;> rfl
  | case5 x t _ _ _ h d hp =>
      have hturn : tagTurn c = .fails d := by simp [tagTurn, h, hp]
      rw [hturn, TagTurn.result]
  | case6 x t _ _ _ h p c' hp d hd =>
      have hturn : tagTurn c = .goesOn (some p) c' := by simp [tagTurn, h, hp]
      rw [hturn, TagTurn.result, hd]
      rfl
  | case7 x t _ _ _ h p c' hp ps r hr =>
      have hturn : tagTurn c = .goesOn (some p) c' := by simp [tagTurn, h, hp]
      rw [hturn, TagTurn.result, hr]
      rfl

/-- One turn of reading that does not end there: over a token, or within a start tag. -/
inductive Turn : Cursor → Cursor → Prop
  | token {c c' : Cursor} {t : Token} (hc : c.rest ≠ []) (h : Token.read c = .ok (t, c')) :
      Turn c c'
  | property {c c' : Cursor} {p : Option Property} (h : tagTurn c = .goesOn p c') : Turn c c'

namespace Turn

variable {c c' : Cursor}

/-- A turn within a start tag is over blanks and a slash, or over blanks and a property. -/
lemma of_goesOn {p : Option Property} (h : tagTurn c = .goesOn p c') :
    ∃ s, c.dropBlanks.Passes s c' ∧ s ≠ [] := by
  rw [tagTurn] at h
  split at h
  · cases h
  · cases h
  · cases h
  · next t ht =>
      cases h
      exact ⟨['/'], (Cursor.passes_drop ht rfl).1, List.cons_ne_nil _ _⟩
  · split at h
    · cases h
    · next hp =>
        cases h
        obtain ⟨s, hpass, hread⟩ := readProperty_eq_ok_iff.mp hp
        obtain ⟨x, t, rfl, -⟩ := hread.exists_eq_cons
        exact ⟨_, hpass, List.cons_ne_nil _ _⟩

/-- Every turn passes some text. -/
lemma exists_passes (h : Turn c c') : ∃ s, c.Passes s c' ∧ s ≠ [] := by
  cases h with
  | token hc h =>
      obtain ⟨s, hpass, hread⟩ := (Token.read_eq_ok_iff hc).mp h
      exact ⟨s, hpass, hread.ne_nil⟩
  | property h =>
      obtain ⟨s, hpass, hne⟩ := of_goesOn h
      exact ⟨_, c.passes_dropBlanks.1.trans hpass, List.append_ne_nil_of_right_ne_nil _ hne⟩

/-- No turn stands still. -/
lemma advances (h : Turn c c') (hc : c.IsIn text) : c.Advances text c' := by
  obtain ⟨s, hpass, hne⟩ := h.exists_passes
  exact hc.advances hpass hne

lemma length_lt (h : Turn c c') : c'.rest.length < c.rest.length := by
  obtain ⟨s, hpass, hne⟩ := h.exists_passes
  have hpos := List.length_pos_iff.mpr hne
  rw [hpass.rest, List.length_append]
  omega

/-- There are at most as many turns one after the other as there are characters to read. -/
lemma length_le_of_isChain {cs : List Cursor} (h : (c :: cs).IsChain Turn) :
    cs.length ≤ c.rest.length := by
  induction cs generalizing c with
  | nil => exact Nat.zero_le _
  | cons c' cs ih =>
      obtain ⟨hturn, hrest⟩ := List.isChain_cons_cons.mp h
      exact Nat.lt_of_le_of_lt (ih hrest) hturn.length_lt

end Turn

/-- The cursor behind a piece. -/
def Piece.behind (p : Piece) : Cursor := ⟨p.rest, p.location.after p.source⟩

/-- The pieces of a text are read turn by turn. -/
lemma pieces_isChain (c : Cursor) : (c :: (pieces c).1.map Piece.behind).IsChain Turn := by
  fun_induction pieces c with
  | case1 c hc => exact .singleton c
  | case2 c hc d hd => exact .singleton c
  | case3 c hc token c' hread ih =>
      obtain ⟨s, hpass, -⟩ := (Token.read_eq_ok_iff hc).mp hread
      have hbehind : Piece.behind ⟨token, c.location, c.upTo c', c'.rest⟩ = c' := by
        rw [Piece.behind, hpass.upTo_eq, ← hpass.location]
      rw [List.map_cons, hbehind]
      exact .cons_cons (.token hc hread) ih

/-! ### Cuts -/

/-- What a token holds is cut out of the bytes that it has been read from. -/
inductive Token.IsCut (text : Text) : Token → Nat → Nat → Prop
  | startTag {tag : Text} {ps : List Property} {isClosed : Bool} {start stop : Nat}
      (h : IsStartTag text tag ps isClosed start stop) :
      IsCut text (.startTag tag ps isClosed) start stop
  | endTag {tag : Text} {start stop : Nat} (h : IsEndTag text tag start stop) :
      IsCut text (.endTag tag) start stop
  | comment {content : Text} {start a b stop : Nat}
      (hopen : text.IsSlice start a ['<', '!', '-', '-']) (h : text.IsSlice a b content)
      (hclose : text.IsSlice b stop ['-', '-', '>']) : IsCut text (.comment content) start stop
  | interpolation {content : Text} {start a b stop : Nat}
      (hopen : text.IsSlice start a ['\x7b', '\x7b']) (h : text.IsSlice a b content)
      (hclose : text.IsSlice b stop ['\x7d', '\x7d']) :
      IsCut text (.interpolation (Text.trim content)) start stop
  | text {content : Text} {start stop : Nat} (h : text.IsSlice start stop content) :
      IsCut text (.text content) start stop

/-- A property has its name, its value if there is one, and its source cut out of the bytes that
it has been read from. -/
def Property.IsCut (text : Text) (p : Property) (start stop : Nat) : Prop :=
  ∃ name value source l a, text.IsSlice start a name ∧
    (∀ v ∈ value, ∃ b b', a ≤ b ∧ b' ≤ stop ∧ text.IsSlice b b' v) ∧
      IsFrom text source l start stop ∧ Property.ofRaw name value l source = .ok p

section Cuts

variable {c c' : Cursor} {r : Text}

/-- What stands between two marks is cut out between them. -/
lemma isSlice_between {o e : Text} (h : text = pre ++ ((o ++ (s ++ e)) ++ post)) :
    ∃ a b, text.IsSlice pre.byteLength a o ∧ text.IsSlice a b s ∧
      text.IsSlice b (pre ++ (o ++ (s ++ e))).byteLength e := by
  have hopen := Text.isSlice_of_eq (t := text) (p := pre) (s := o) (r := s ++ (e ++ post))
    (by simp [h])
  have hcontent := Text.isSlice_of_eq (t := text) (p := pre ++ o) (s := s) (r := e ++ post)
    (by simp [h])
  have hclose := Text.isSlice_of_eq (t := text) (p := pre ++ o ++ s) (s := e) (r := post)
    (by simp [h])
  exact ⟨_, _, hopen, hcontent, by simpa only [List.append_assoc] using hclose⟩

lemma ReadsToken.isCut {token : Token} (h : ReadsToken s (Location.first.after pre) token post)
    (ht : text = pre ++ (s ++ post)) :
    token.IsCut text pre.byteLength (pre ++ s).byteLength := by
  cases token with
  | startTag tag ps isClosed => exact .startTag (h.isStartTag ht)
  | endTag tag => exact .endTag (h.isEndTag ht)
  | comment content =>
      cases h with
      | comment _ =>
          obtain ⟨a, b, hopen, hcontent, hclose⟩ := isSlice_between ht
          exact .comment hopen hcontent hclose
  | interpolation expression =>
      cases h with
      | interpolation _ =>
          obtain ⟨a, b, hopen, hcontent, hclose⟩ := isSlice_between ht
          exact .interpolation hopen hcontent hclose
  | text content =>
      rw [h.content_eq]
      exact .text (Text.isSlice_of_eq ht)

/-- What a token holds is cut out of what the cursor passes. -/
lemma isCut_of_read (hc : c.IsIn text) (hne : c.rest ≠ []) {token : Token}
    (h : Token.read c = .ok (token, c')) : token.IsCut text (c.offset text) (c'.offset text) := by
  obtain ⟨s, hpass, hread⟩ := (Token.read_eq_ok_iff hne).mp h
  obtain ⟨pre, htext, hl, hstart, hstop⟩ := hc.exists_append hpass
  rw [hl] at hread
  rw [hstart, hstop]
  exact hread.isCut htext

/-- A value is part of the text behind the name. -/
lemma ReadsOptional.isInfix {value : Option Text} (h : ReadsOptional s value r) :
    ∀ v ∈ value, v <:+: s := by
  cases h with
  | none _ => exact nofun
  | @some b b' s v r _ _ h =>
      rintro _ ⟨⟩
      cases h with
      | @quoted quote v r _ _ => exact ⟨b ++ '=' :: (b' ++ [quote]), [quote], by simp⟩
      | unquoted _ _ => exact ⟨b ++ '=' :: b', [], by simp⟩

/-- The parts of a property are cut out of what the cursor passes. -/
lemma isCut_of_readProperty (hc : c.IsIn text) {p : Property}
    (h : readProperty c = .ok (p, c')) : p.IsCut text (c.offset text) (c'.offset text) := by
  obtain ⟨s, hpass, hread⟩ := readProperty_eq_ok_iff.mp h
  obtain ⟨pre, htext, hl, hstart, hstop⟩ := hc.exists_append hpass
  rw [hl] at hread
  rw [hstart, hstop]
  obtain @⟨name, s, r, value, l, p, -, -, hvalue, hp⟩ := hread
  have hname : text = pre ++ (name ++ (s ++ c'.rest)) := by rw [htext, List.append_assoc]
  refine ⟨name, value, name ++ s, _, _, Text.isSlice_of_eq hname, fun v hv => ?_,
    isFrom_of_eq htext, hp⟩
  -- The value stands within what was read behind the name, in quotes or without them.
  obtain ⟨d, e, rfl⟩ := hvalue.isInfix v hv
  have hslice := Text.isSlice_of_eq (t := text) (p := pre ++ name ++ d) (s := v) (r := e ++ c'.rest)
    (by simp [htext])
  refine ⟨_, _, ?_, ?_, hslice⟩
  · simp only [Text.byteLength_append]
    omega
  · simp only [Text.byteLength_append]
    omega

end Cuts

/-- An argument in square brackets is cut out between them. -/
lemma eq_of_unbracketed {argument : Text} (h : (unbracketed argument).2 = true) :
    argument = '[' :: ((unbracketed argument).1 ++ [']']) := by
  rw [unbracketed] at h ⊢
  split_ifs at h ⊢ with hbrackets
  obtain ⟨hhead, hlast, hlength⟩ := hbrackets
  obtain ⟨t, rfl⟩ := List.head?_eq_some_iff.mp hhead
  have hne : t ≠ [] := by
    rintro rfl
    simp at hlength
  rw [List.getLast?_cons_of_ne_nil hne] at hlast
  rw [List.tail_cons, List.dropLast_append_getLast? _ hlast]

/-! ### Siblings -/

/-- The pieces of a text are read from its beginning on, up to the fault if there is one. -/
lemma pieces_isReadFrom (c : Cursor) : ∃ post, c.rest = sourceOf (pieces c).1 ++ post ∧
    IsReadFrom post c.location (pieces c).1 := by
  fun_induction pieces c with
  | case1 c hc => exact ⟨c.rest, rfl, trivial⟩
  | case2 c hc d hd => exact ⟨c.rest, rfl, trivial⟩
  | case3 c hc token c' hread ih =>
      obtain ⟨s, hpass, htoken⟩ := (Token.read_eq_ok_iff hc).mp hread
      obtain ⟨post, hpost, hbehind⟩ := ih
      rw [hpass.location] at hbehind
      rw [hpost] at htoken
      rw [hpass.upTo_eq, sourceOf_cons, hpass.rest, hpost]
      exact ⟨post, (List.append_assoc _ _ _).symm, rfl, htoken, hbehind⟩

/-- A sibling begins where its pieces begin, which are not empty. -/
lemma Nests.head {ps qs : List Piece} {n : Node} {l : Location} (h : Nests ps [n])
    (hread : IsReadFrom post l (ps ++ qs)) : n.location = l ∧ sourceOf ps ≠ [] := by
  cases h with
  | leaf hp _ =>
      obtain ⟨hl, htoken, -⟩ := hread
      rw [sourceOf_cons]
      exact ⟨hp.origin.2.trans hl, List.append_ne_nil_of_left_ne_nil htoken.ne_nil _⟩
  | element _ _ _ _ _ =>
      obtain ⟨hl, htoken, -⟩ := hread
      rw [List.cons_append, sourceOf_cons]
      exact ⟨hl, List.append_ne_nil_of_left_ne_nil htoken.ne_nil _⟩

/-- A turn over the pieces of a sibling is a step over its source, and adds it to the forest. -/
lemma Nests.isStep {before ps behind : List Piece} {n : Node} (h : Nests ps [n])
    (hpieces : (pieces (.ofText text)).1 = before ++ (ps ++ behind)) :
    text.IsStep (sourceOf before).byteLength (sourceOf (before ++ ps)).byteLength n.source ∧
      Location.ofOffset? text (sourceOf before).byteLength = some n.location ∧
        ∀ f : Forest, ps.foldlM Forest.step f = .ok (f.add n.source n) := by
  obtain ⟨r, hr, hread⟩ := pieces_isReadFrom (.ofText text)
  rw [hpieces] at hread hr
  obtain ⟨hl, hne⟩ := h.head (isReadFrom_append.mp hread).2
  have hsource : n.source = sourceOf ps := by simpa using h.flatMap_source
  -- The whole text is what is in front of the node, its source, and what is behind it.
  have htext : text = sourceOf before ++ (sourceOf ps ++ (sourceOf behind ++ r)) := by
    rw [sourceOf_append, sourceOf_append, List.append_assoc, List.append_assoc] at hr
    exact hr
  refine ⟨?_, ?_, fun f => h.foldlM_step f⟩
  · rw [hsource, sourceOf_append]
    exact Text.isStep_of_eq htext hne
  · rw [hl]
    have hlocation := Location.ofOffset?_byteLength (sourceOf before)
      (sourceOf ps ++ (sourceOf behind ++ r))
    rwa [← htext] at hlocation

/-! ### The main statement -/

/-- **Reading a template ends** on every text. Each turn, over a token, over a property or a
lone slash of a start tag, and over a sibling with all its pieces, goes on to a later offset that
is between two characters; there are at most as many turns as characters. All that is cut out
stands in the text between two of its characters. What comes out are nodes, or a fault with one
of two codes. -/
theorem parse_ends (text file : Text) :
    (∀ c c', c.IsIn text → Turn c c' → c.Advances text c') ∧
      ((Cursor.ofText text :: (pieces (.ofText text)).1.map Piece.behind).IsChain Turn ∧
        (∀ start tag c, readProperties start tag c = (tagTurn c).result start tag) ∧
          ∀ cs, (Cursor.ofText text :: cs).IsChain Turn → cs.length ≤ text.length) ∧
      (∀ before ps behind n, (pieces (.ofText text)).1 = before ++ (ps ++ behind) → Nests ps [n] →
        text.IsStep (sourceOf before).byteLength (sourceOf (before ++ ps)).byteLength n.source ∧
          Location.ofOffset? text (sourceOf before).byteLength = some n.location ∧
            ∀ f : Forest, ps.foldlM Forest.step f = .ok (f.add n.source n)) ∧
      ((∀ c token c', c.IsIn text → c.rest ≠ [] → Token.read c = .ok (token, c') →
          token.IsCut text (c.offset text) (c'.offset text)) ∧
        (∀ c p c', c.IsIn text → readProperty c = .ok (p, c') →
          p.IsCut text (c.offset text) (c'.offset text)) ∧
        ∀ argument, (unbracketed argument).2 = true →
          argument = '[' :: ((unbracketed argument).1 ++ [']'])) ∧
      ((∃ nodes, parseFile text file = .ok nodes) ∨
        ∃ d, parseFile text file = .error d ∧
          (d.cause.code = "MIG-ERR-PARSE-001".toList ∨ d.cause.code = "MIG-ERR-FOR-002".toList) ∧
            ∃ s, d.context = some s ∧ text.ShowsAt d.location s) := by
  refine ⟨fun c c' hc h => h.advances hc,
    ⟨pieces_isChain _, readProperties_eq, fun cs h => Turn.length_le_of_isChain h⟩,
    fun before ps behind n hpieces h => h.isStep hpieces,
    ⟨fun c token c' hc hne h => isCut_of_read hc hne h,
      fun c p c' hc h => isCut_of_readProperty hc h, fun argument h => eq_of_unbracketed h⟩, ?_⟩
  -- A template that is refused has one fault, with the place and the text it is about.
  cases hparse : parse text with
  | ok nodes => exact .inl ⟨nodes, by rw [parseFile, hparse]; rfl⟩
  | error d =>
      have hfault := parse_failsOnly text d hparse
      refine .inr ⟨d.inFile file, by rw [parseFile, hparse]; rfl, ?_⟩
      rw [Diagnostic.inFile, if_pos hfault.file]
      exact ⟨hfault.code, hfault.context⟩

/-- A start tag with a lone slash, an element, and a start tag that breaks off. -/
def brokenOff : Text := "<p / x><b>é</b><i"

/-- The pieces in front of the fault. -/
def brokenOffPieces : List Piece := [
  ⟨.startTag "p" [.plain ⟨"x", none, ⟨1, 6⟩⟩] false, ⟨1, 1⟩, "<p / x>", "<b>é</b><i"⟩,
  ⟨.startTag "b" [] false, ⟨1, 8⟩, "<b>", "é</b><i"⟩,
  ⟨.text "é", ⟨1, 11⟩, "é", "</b><i"⟩,
  ⟨.endTag "b", ⟨1, 12⟩, "</b>", "<i"⟩]

/-- The turn over the lone slash, the one over the element, and the fault. -/
theorem parse_ends_brokenOff :
    (∃ c c', c.IsIn brokenOff ∧ tagTurn c = .goesOn none c' ∧ c.Advances brokenOff c' ∧
        c.offset brokenOff = 2 ∧ c'.offset brokenOff = 4) ∧
      (∃ before ps n, (pieces (.ofText brokenOff)).1 = before ++ (ps ++ []) ∧ Nests ps [n] ∧
        brokenOff.IsStep 7 16 n.source ∧ Location.ofOffset? brokenOff 7 = some n.location) ∧
      ∃ d, parseFile brokenOff "a.vue" = .error d ∧ d.cause.code = "MIG-ERR-PARSE-001".toList ∧
        ∃ s, d.context = some s ∧ brokenOff.ShowsAt d.location s := by
  obtain ⟨hturn, -, hsibling, -, hresult⟩ := parse_ends brokenOff "a.vue"
  have hpieces : (pieces (.ofText brokenOff)).1
      = brokenOffPieces.take 1 ++ (brokenOffPieces.drop 1 ++ []) := by
    decide +kernel
  have hinner : Nests ((brokenOffPieces.drop 2).take 1) [_] := .leaf (.text rfl) .nil
  have hnests : Nests (brokenOffPieces.drop 1) [_] := .element rfl rfl rfl hinner .nil
  refine ⟨⟨(Cursor.ofText brokenOff).drop 2, ⟨" x><b>é</b><i", ⟨1, 5⟩⟩, ?_⟩,
    ⟨_, _, _, hpieces, hnests, ?_⟩, ?_⟩
  · have hin := (Cursor.isIn_ofText brokenOff).drop 2
    have hslash : tagTurn ((Cursor.ofText brokenOff).drop 2)
        = .goesOn none ⟨" x><b>é</b><i", ⟨1, 5⟩⟩ := by
      decide
    exact ⟨hin, hslash, hturn _ _ hin (.property hslash), by decide, by decide⟩
  · obtain ⟨hstep, hlocation, -⟩ := hsibling _ _ _ _ hpieces hnests
    exact ⟨hstep, hlocation⟩
  · have hcode : parseFile brokenOff "a.vue"
        = .error ⟨.unclosedStartTag "i", "a.vue", ⟨1, 16⟩, some "<i", []⟩ := by
      with_unfolding_all rfl
    obtain ⟨nodes, hnodes⟩ | ⟨d, hd, -, hshows⟩ := hresult
    · cases hcode.symm.trans hnodes
    · cases hcode.symm.trans hd
      exact ⟨_, hcode, rfl, hshows⟩

end Markup

end ComponentMigration
