import ComponentMigration.Proofs.Script.Parallel

/-!
What parsers pass.

* **Sound texts.** `IsSound`: a text has a valid first token and no open comment in front of it.
* **Passing.** `F.Passes p t a t'`: the parser `p` reads `a` from `t`, up to `t'`. A `Steady`
  parser goes from one state of a frame to another; for steady parsers passing is computed part by
  part (`passes_bind_iff`).
* **Lists.** `Upto` and `Ends` are elements behind commas and the end of their list.
  `passes_separated`: what the parser of a list passes.
-/

namespace ComponentMigration.Script

open Text Script.Parser

/-! ### Sound texts -/

/-- A text begins with a token, and no comment in front of it is left open. -/
def IsSound (t : Text) : Prop := (skipTrivia .space false 0 t).2.2.2 = true ∧ peek t ≠ .invalid

/-- A text that shows a valid token is sound. -/
lemma Shows.isSound {t r : Text} {tok : Token} {fresh : Bool} (h : Shows t tok fresh r)
    (hvalid : tok ≠ .invalid) : IsSound t := by
  refine ⟨?_, by rwa [h.fromToken_eq.2]⟩
  obtain ⟨g, w, rfl, hgap, htoken, -⟩ := h
  rw [skipTrivia_of_gap hgap htoken]

/-- A gap in front of a text is skipped. -/
lemma fromToken_gap_append {g : Text} {fresh : Bool} (hgap : Gap .space false g fresh) (t : Text) :
    fromToken (g ++ t) = fromToken t ∧ (IsSound (g ++ t) ↔ IsSound t) := by
  have hskip := skipTrivia_gap_append hgap t 0
  rw [skipTrivia_offset .space fresh] at hskip
  have hfresh := skipTrivia_fresh .space fresh false 0 t
  have hfrom : fromToken (g ++ t) = fromToken t := by
    rw [fromToken, hskip]
    exact hfresh.1
  refine ⟨hfrom, ?_⟩
  rw [IsSound, IsSound, peek, peek, hfrom, hskip, hfresh.2]

/-- A line end in front of a text is skipped. -/
lemma fromToken_newline (t : Text) :
    fromToken ('\n' :: t) = fromToken t ∧ (IsSound ('\n' :: t) ↔ IsSound t) :=
  fromToken_gap_append (.lineEnd rfl .nil) t

/-- A text that begins with a plain token is sound. -/
lemma isSound_of_isPlain {t : Text} (h : (peek t).isPlain = true) : IsSound t := by
  obtain ⟨r, hr⟩ := exists_shows h
  exact hr.isSound (Token.ne_invalid h)

/-- What stands behind a token stands at the end of the text. -/
lemma Shows.suffix {t r : Text} {tok : Token} {fresh : Bool} (h : Shows t tok fresh r) :
    r <:+ t := by
  obtain ⟨g, w, rfl, -⟩ := h
  exact ⟨g ++ w, List.append_assoc _ _ _⟩

namespace Frame

variable {F : Frame} {fl fl' : Bool} {t t' t'' : Text}

/-- A state is free of faults if it was so before and the text behind it is sound. -/
lemma state_isFlawed_eq_false_iff :
    (F.state fl t).isFlawed = false ↔ fl = false ∧ IsSound t := by
  rw [Frame.state_isFlawed, IsSound]
  simp [and_assoc]

/-- A frame that holds a text holds what is left of it. -/
lemma Holds.of_suffix (hF : F.Holds t) (h : t' <:+ t) : F.Holds t' := by
  obtain ⟨w, rfl⟩ := h
  exact hF.of_append

/-- States of one text tell what is left of it. -/
lemma state_inj (hF : F.Holds t) (h : t' <:+ t) (h' : t'' <:+ t)
    (heq : F.state fl t' = F.state fl' t'') : t' = t'' := by
  have hstop := congrArg State.lastStop heq
  rw [state_lastStop, state_lastStop] at hstop
  have hle := (hF.of_suffix h).size
  have hle' := (hF.of_suffix h').size
  obtain ⟨w, rfl⟩ := h
  obtain ⟨w', hw'⟩ := h'
  have hlength := congrArg byteLength hw'
  rw [byteLength_append, byteLength_append] at hlength
  exact (Text.append_inj_of_byteLength hw'.symm (by omega)).2

end Frame

/-! ### Passing -/

/-- A parser leads from one text to a text behind it. -/
structure Frame.Passes {α : Type} (F : Frame) (p : Parser α) (t : Text) (a : α) (t' : Text) :
    Prop where
  holds : F.Holds t
  suffix : t' <:+ t
  run : p (F.state false t) = some (a, F.state false t')

/-- A parser only goes on to texts behind, and a fault stays. -/
def Steady {α : Type} (p : Parser α) : Prop :=
  ∀ ⦃F : Frame⦄ ⦃fl : Bool⦄ ⦃t : Text⦄ ⦃a : α⦄ ⦃s : State⦄, F.Holds t →
    p (F.state fl t) = some (a, s) →
    ∃ fl' t', t' <:+ t ∧ s = F.state fl' t' ∧ ((F.state fl t).isFlawed = true → s.isFlawed = true)

namespace Steady

variable {α β : Type} {p q : Parser α} {f : α → Parser β}

/-- Steady parsers one behind the other are steady. -/
lemma bind (hp : Steady p) (hf : ∀ a, Steady (f a)) : Steady (p >>= f) := by
  intro F fl t b s hF h
  rw [run_bind] at h
  obtain ⟨⟨a, s₁⟩, h₁, h₂⟩ := Option.bind_eq_some_iff.mp h
  obtain ⟨fl₁, u, hu, rfl, hflawed⟩ := hp hF h₁
  obtain ⟨fl', t', ht', hs, hflawed'⟩ := hf a (hF.of_suffix hu) h₂
  exact ⟨fl', t', ht'.trans hu, hs, fun hfl => hflawed' (hflawed hfl)⟩

/-- A parser that stays, or passes a plain token. -/
lemma of_next (h : ∀ s a s', p s = some (a, s') → s' = s ∨ s.token.isPlain = true ∧
    ∃ b, s' = State.next { s with isFlawed := s.isFlawed || b }) : Steady p := by
  intro F fl t a s hF hp
  rcases h _ _ _ hp with rfl | ⟨hplain, b, rfl⟩
  · exact ⟨fl, t, List.suffix_refl t, rfl, id⟩
  · rw [Frame.state_token] at hplain
    obtain ⟨r, hr⟩ := exists_shows hplain
    have hvalid := Token.ne_invalid hplain
    refine ⟨fl || b, r, hr.suffix, Frame.state_next_flawed hF hr hvalid, fun hfl => ?_⟩
    rw [Frame.state_next_flawed hF hr hvalid, Frame.state_isFlawed]
    rw [(Frame.state_of_shows hF hr hvalid).2.2] at hfl
    rw [hfl]
    rfl

/-- A parser that only looks is steady. -/
lemma look {g : State → α} (h : ∀ s, p s = some (g s, s)) : Steady p :=
  of_next fun s a s' hs => .inl (by rw [h] at hs; cases hs; rfl)

lemma pure (a : α) : Steady (Pure.pure a : Parser α) := look fun _ => rfl

lemma require (b : Bool) : Steady (Parser.require b) := by
  cases b
  · intro F fl t a s _ h
    cases h
  · exact pure ()

/-- A choice between steady parsers is steady. -/
lemma ite {b : Prop} [Decidable b] (hp : Steady p) (hq : Steady q) :
    Steady (if b then p else q) := by
  split_ifs
  · exact hp
  · exact hq

/-- A plain punctuator is passed steadily. -/
lemma expect {w : Text} (hplain : (Token.punctuator w).isPlain = true) :
    Steady (Parser.expect w) := by
  refine of_next fun s a s' hs => ?_
  rw [run_expect] at hs
  split_ifs at hs with htoken
  cases hs
  exact .inr ⟨htoken ▸ hplain, false, by rw [Bool.or_false]⟩

/-- A word is passed steadily. -/
lemma expectWord (w : Text) : Steady (Parser.expectWord w) := by
  refine of_next fun s a s' hs => ?_
  rw [run_expectWord] at hs
  split_ifs at hs with htoken
  cases hs
  exact .inr ⟨htoken ▸ rfl, false, by rw [Bool.or_false]⟩

/-- A plain punctuator that may be missing is passed steadily. -/
lemma eat {w : Text} (hplain : (Token.punctuator w).isPlain = true) : Steady (Parser.eat w) := by
  refine of_next fun s a s' hs => ?_
  rw [run_eat] at hs
  split_ifs at hs with htoken
  · cases hs
    exact .inr ⟨htoken ▸ hplain, false, by rw [Bool.or_false]⟩
  · cases hs
    exact .inl rfl

/-- A loop of steady steps is steady. -/
lemma repeatUpTo {step : α → Parser (Option α)} (h : ∀ a, Steady (step a)) (n : Nat) (a : α) :
    Steady (Parser.repeatUpTo step n a) := by
  induction n generalizing a with
  | zero =>
      intro F fl t a s _ h
      cases h
  | succ n ih =>
      refine bind (h a) fun o => ?_
      cases o with
      | none => exact pure a
      | some a' => exact ih a'

lemma repeatWhile {step : α → Parser (Option α)} (h : ∀ a, Steady (step a)) (a : α) :
    Steady (Parser.repeatWhile step a) :=
  bind (look run_get) fun s => repeatUpTo h s.bound a

end Steady

namespace Frame

variable {α β : Type} {F : Frame} {p : Parser α} {f : α → Parser β} {t u t' : Text}

/-- What parsers pass one behind the other, they pass together. -/
lemma Passes.bind {a : α} {b : β} (h : F.Passes p t a u) (h' : F.Passes (f a) u b t') :
    F.Passes (p >>= f) t b t' :=
  ⟨h.holds, h'.suffix.trans h.suffix, by rw [run_bind, h.run, Option.bind_some, h'.run]⟩

/-- A text is sound if what is left of it is. -/
lemma Passes.isSound {a : α} (h : F.Passes p t a t') (hp : Steady p) (ht' : IsSound t') :
    IsSound t := by
  obtain ⟨_, _, -, -, hflawed⟩ := hp h.holds h.run
  cases hfl : (F.state false t).isFlawed with
  | false => exact (state_isFlawed_eq_false_iff.mp hfl).2
  | true =>
      have hend := hflawed hfl
      rw [state_isFlawed_eq_false_iff.mpr ⟨rfl, ht'⟩] at hend
      cases hend

/-- What one parser passes behind another. -/
lemma passes_bind_iff {b : β} (hp : Steady p) (hf : ∀ a, Steady (f a)) (ht' : IsSound t') :
    F.Passes (p >>= f) t b t' ↔ ∃ a u, IsSound u ∧ F.Passes p t a u ∧ F.Passes (f a) u b t' := by
  refine ⟨fun h => ?_, fun ⟨a, u, _, h, h'⟩ => h.bind h'⟩
  have hrun := h.run
  rw [run_bind] at hrun
  obtain ⟨⟨a, s₁⟩, h₁, h₂⟩ := Option.bind_eq_some_iff.mp hrun
  -- In between there is a state of the same frame, as the first parser is steady.
  obtain ⟨fl₁, u, hu, rfl, -⟩ := hp h.holds h₁
  dsimp only at h₂
  obtain ⟨fl', v, hv, hs, hflawed⟩ := hf a (h.holds.of_suffix hu) h₂
  obtain rfl := state_inj h.holds (hv.trans hu) h.suffix hs.symm
  -- A fault in between would still be there at the end, where the text is sound.
  have hsound : (F.state fl₁ u).isFlawed = false := by
    cases hfl : (F.state fl₁ u).isFlawed with
    | false => rfl
    | true => exact absurd (hflawed hfl) (by
        rw [state_isFlawed_eq_false_iff.mpr ⟨rfl, ht'⟩]
        exact Bool.false_ne_true)
  obtain ⟨rfl, hu'⟩ := state_isFlawed_eq_false_iff.mp hsound
  exact ⟨a, u, hu', ⟨h.holds, hu, h₁⟩, h.holds.of_suffix hu, hv, h₂⟩

/-- A test in front of a parser. -/
lemma passes_look_iff {g : State → α} {b : β} (h : ∀ s, p s = some (g s, s)) :
    F.Passes (p >>= f) t b t' ↔ F.Passes (f (g (F.state false t))) t b t' := by
  constructor
  · rintro ⟨hF, hsuffix, hrun⟩
    rw [run_bind, h, Option.bind_some] at hrun
    exact ⟨hF, hsuffix, hrun⟩
  · rintro ⟨hF, hsuffix, hrun⟩
    exact ⟨hF, hsuffix, by rw [run_bind, h, Option.bind_some, hrun]⟩

/-- A parser that only looks answers what it sees. -/
lemma passes_look {g : State → α} {a : α} (h : ∀ s, p s = some (g s, s)) :
    F.Passes p t a t' ↔ F.Holds t ∧ a = g (F.state false t) ∧ t' = t := by
  constructor
  · rintro ⟨hF, hsuffix, hrun⟩
    rw [h] at hrun
    obtain ⟨rfl, hs⟩ := Prod.mk.inj (Option.some.inj hrun)
    exact ⟨hF, rfl, (state_inj hF (List.suffix_refl t) hsuffix hs).symm⟩
  · rintro ⟨hF, rfl, rfl⟩
    exact ⟨hF, List.suffix_refl _, h _⟩

lemma passes_pure {a b : α} :
    F.Passes (pure a) t b t' ↔ F.Holds t ∧ b = a ∧ t' = t :=
  passes_look fun _ => rfl

/-- A node ends where the text behind it begins, up to the gap in front. -/
lemma passes_node {g : Form} {n : Nat} {ps : List Tree} {x : Tree} :
    F.Passes (node g n ps) t x t' ↔
      F.Holds t ∧ x = .node g ⟨n, F.size - byteLength t⟩ ps ∧ t' = t :=
  passes_look fun _ => rfl

/-- A condition is met, or nothing is passed. -/
lemma passes_require_iff {b : Bool} {k : Parser β} {c : β} :
    F.Passes (require b >>= fun _ => k) t c t' ↔ b = true ∧ F.Passes k t c t' := by
  cases b with
  | false =>
      refine ⟨fun h => ?_, fun h => by cases h.1⟩
      have := h.run
      rw [run_bind, run_require] at this
      cases this
  | true => exact (passes_look_iff (g := fun _ => ()) fun _ => rfl).trans (by simp)

/-- A plain token is passed. -/
lemma passes_next_iff {tok : Token} {a b : α} (hplain : tok.isPlain = true)
    (h : ∀ s, p s = if s.token = tok then some (a, s.next) else none) :
    F.Passes p t b t' ↔ F.Holds t ∧ b = a ∧ ∃ fresh, Shows t tok fresh t' := by
  have hvalid := Token.ne_invalid hplain
  constructor
  · rintro ⟨hF, hsuffix, hrun⟩
    rw [h] at hrun
    split_ifs at hrun with htoken
    rw [state_token] at htoken
    subst htoken
    obtain ⟨r, hr⟩ := exists_shows hplain
    rw [state_next hF hr hvalid] at hrun
    obtain ⟨rfl, hs⟩ := Prod.mk.inj (Option.some.inj hrun)
    obtain rfl := state_inj hF hr.suffix hsuffix hs
    exact ⟨hF, rfl, _, hr⟩
  · rintro ⟨hF, rfl, fresh, hr⟩
    refine ⟨hF, hr.suffix, ?_⟩
    rw [h, if_pos (by rw [state_token, hr.fromToken_eq.2]), state_next hF hr hvalid]

/-- A punctuator that has to be there is the first token. -/
lemma passes_expect {w : Text} {a : Unit} (hplain : (Token.punctuator w).isPlain = true) :
    F.Passes (expect w) t a t' ↔ F.Holds t ∧ ∃ fresh, Shows t (.punctuator w) fresh t' := by
  rw [passes_next_iff hplain fun s => run_expect s w]
  simp

/-- A word that has to be there is the first token. -/
lemma passes_expectWord {w : Text} {a : Unit} :
    F.Passes (expectWord w) t a t' ↔ F.Holds t ∧ ∃ fresh, Shows t (.word w false) fresh t' := by
  rw [passes_next_iff rfl fun s => run_expectWord s w]
  simp

/-- The name of an export is the first token, a word or a string. -/
lemma passes_exportName {w : Text} :
    F.Passes Grammar.exportName t w t' ↔
      F.Holds t ∧ ∃ tok fresh, Shows t tok fresh t' ∧ tok.name? = some w := by
  constructor
  · rintro ⟨hF, hsuffix, hrun⟩
    rw [Grammar.run_exportName, state_token] at hrun
    obtain ⟨w', hw', heq⟩ := Option.map_eq_some_iff.mp hrun
    have hplain : (peek t).isPlain = true :=
      Token.isPlain_of_isName (Option.isSome_iff_exists.mpr ⟨w', hw'⟩)
    obtain ⟨r, hr⟩ := exists_shows hplain
    rw [state_next hF hr (Token.ne_invalid hplain)] at heq
    obtain ⟨rfl, hs⟩ := Prod.mk.inj heq
    obtain rfl := state_inj hF hr.suffix hsuffix hs
    exact ⟨hF, _, _, hr, hw'⟩
  · rintro ⟨hF, tok, fresh, hr, hw⟩
    have hplain := Token.isPlain_of_isName (Option.isSome_iff_exists.mpr ⟨w, hw⟩)
    refine ⟨hF, hr.suffix, ?_⟩
    rw [Grammar.run_exportName, state_token, hr.fromToken_eq.2, hw,
      state_next hF hr (Token.ne_invalid hplain)]
    rfl

/-- An identifier is passed that is no operator. -/
lemma passes_identifier {w : Text} (ht' : IsSound t') :
    F.Passes identifier t w t' ↔ F.Holds t ∧ isIdentifierWord w = true ∧
      isOperatorWord {} w = false ∧ ∃ isEscaped fresh, Shows t (.word w isEscaped) fresh t' := by
  constructor
  · rintro ⟨hF, hsuffix, hrun⟩
    by_cases hword : ∃ v isEscaped, peek t = .word v isEscaped
    · obtain ⟨v, isEscaped, hpeek⟩ := hword
      rw [run_identifier_word _ (by rw [state_token, hpeek])] at hrun
      split_ifs at hrun with hidentifier
      have hplain : (peek t).isPlain = true := by rw [hpeek]; rfl
      obtain ⟨r, hr⟩ := exists_shows hplain
      obtain ⟨rfl, hs⟩ := Prod.mk.inj (Option.some.inj hrun)
      rw [state_next_flawed hF hr (Token.ne_invalid hplain)] at hs
      -- An operator would be a fault, and the state behind it is free of faults.
      obtain rfl := state_inj hF hr.suffix hsuffix hs
      have hflawed := congrArg State.isFlawed hs
      rw [state_isFlawed_eq_false_iff.mpr ⟨rfl, ht'⟩, state_isFlawed_eq_false_iff] at hflawed
      exact ⟨hF, hidentifier, hflawed.1, isEscaped, _, hpeek ▸ hr⟩
    · rw [run_identifier_of_ne] at hrun
      · cases hrun
      · rintro v isEscaped h
        rw [state_token] at h
        exact hword ⟨v, isEscaped, h⟩
  · rintro ⟨hF, hidentifier, hoperator, isEscaped, fresh, hr⟩
    refine ⟨hF, hr.suffix, ?_⟩
    have hoperator' : isOperatorWord (F.state false t).context w = false := hoperator
    rw [run_identifier_word _ (by rw [state_token, hr.fromToken_eq.2]), if_pos hidentifier,
      hoperator', state_next_flawed hF hr (by simp)]
    rfl

/-! ### Elements between commas -/

/-- Elements, each behind a comma, up to a text. -/
inductive Upto (F : Frame) (element : Parser Tree) : Text → List Tree → Text → Prop
  | nil {t : Text} : F.Upto element t [] t
  | cons {t r u e : Text} {fresh : Bool} {x : Tree} {xs : List Tree}
      (hcomma : Shows t (.punctuator ",") fresh r) (hopen : peek r ≠ .punctuator "\x7d")
      (hx : F.Passes element r x u) (hxs : F.Upto element u xs e) : F.Upto element t (x :: xs) e

/-- The end of elements in braces behind the last one, with a comma or without. -/
inductive Ends : Text → Bool → Text → Prop
  | plain {e : Text} (h : peek e = .punctuator "\x7d") : Ends e false e
  | trailing {e t' : Text} {fresh : Bool} (hcomma : Shows e (.punctuator ",") fresh t')
      (h : peek t' = .punctuator "\x7d") : Ends e true t'

/-- Elements go on behind others. -/
lemma Upto.append {element : Parser Tree} {t u e : Text} {xs ys : List Tree}
    (h : F.Upto element t xs u) (h' : F.Upto element u ys e) : F.Upto element t (xs ++ ys) e := by
  induction h with
  | nil => exact h'
  | cons hcomma hopen hx _ ih => exact .cons hcomma hopen hx (ih h')

/-- Elements lead to a text at the end of theirs. -/
lemma Upto.suffix {element : Parser Tree} {t e : Text} {xs : List Tree}
    (h : F.Upto element t xs e) : e <:+ t := by
  induction h with
  | nil => exact List.suffix_refl _
  | cons hcomma _ hx _ ih => exact ih.trans (hx.suffix.trans hcomma.suffix)

/-- A comma at the end is passed. -/
lemma Ends.suffix {e t' : Text} {isTrailing : Bool} (h : Ends e isTrailing t') : t' <:+ e := by
  cases h with
  | plain _ => exact List.suffix_refl _
  | trailing hcomma _ => exact hcomma.suffix

/-- What a step takes between commas. -/
lemma Upto.length_le {element : Parser Tree} {t e : Text} {xs : List Tree}
    (h : F.Upto element t xs e) : xs.length + e.length ≤ t.length := by
  induction h with
  | nil => simp
  | cons hcomma _ hx _ ih =>
      have hlt := hcomma.lt_length rfl
      have hle := hx.suffix.length_le
      rw [List.length_cons]
      omega

end Frame

/-- The step that looks for more elements between commas. -/
def furtherElement (element : Parser Tree) :
    List Tree × Bool → Parser (Option (List Tree × Bool)) := fun (elements, isTrailing) => do
  if isTrailing then return none
  if ← isAt "\x7d" then return none
  expect ","
  if ← isAt "\x7d" then return some (elements, true)
  return some ((← element) :: elements, false)

/-- A list is its first element and a loop over the others. -/
lemma separated_eq (element : Parser Tree) : separated "\x7d" "," element = (do
    if ← isAt "\x7d" then return ([], false)
    let first ← element
    let found ← repeatWhile (furtherElement element) ([first], false)
    return (found.1.reverse, found.2)) := rfl

/-- A step of the loop is steady if the element is. -/
lemma Steady.furtherElement {element : Parser Tree} (h : Steady element)
    (found : List Tree × Bool) :
    Steady (furtherElement element found) := by
  obtain ⟨elements, isTrailing⟩ := found
  refine .ite (.pure _) (.bind (.look fun s => run_isAt s _) fun _ => .ite (.pure _) ?_)
  refine .bind (.expect rfl) fun _ => .bind (.look fun s => run_isAt s _) fun _ => ?_
  exact .ite (.pure _) (.bind h fun _ => .pure _)

/-- A list is steady if its element is. -/
lemma Steady.separated {element : Parser Tree} (h : Steady element) :
    Steady (separated "\x7d" "," element) := by
  rw [separated_eq]
  refine .bind (.look fun s => run_isAt s _) fun _ => .ite (.pure _) (.bind h fun _ => ?_)
  exact .bind (.repeatWhile h.furtherElement _) fun _ => .pure _

namespace Frame

variable {F : Frame} {element : Parser Tree} {t u t' : Text} {acc : List Tree}

/-- A choice passes what its branch passes. -/
lemma passes_ite_iff {α : Type} {p q : Parser α} {b : Bool} {a : α} :
    F.Passes (if b = true then p else q) t a t' ↔
      b = true ∧ F.Passes p t a t' ∨ b = false ∧ F.Passes q t a t' := by
  cases b <;> simp

/-- What a step of the loop passes: nothing at the closing brace, a comma in front of it, or a
comma and an element. -/
lemma passes_furtherElement (h : Steady element) (hu : IsSound u)
    {found : Option (List Tree × Bool)} :
    F.Passes (furtherElement element (acc, false)) t found u ↔
      F.Holds t ∧ (found = none ∧ u = t ∧ peek t = .punctuator "\x7d" ∨
        (found = some (acc, true) ∧ peek u = .punctuator "\x7d" ∧
          ∃ fresh, Shows t (.punctuator ",") fresh u) ∨
        ∃ x r fresh, found = some (x :: acc, false) ∧ Shows t (.punctuator ",") fresh r ∧
          peek r ≠ .punctuator "\x7d" ∧ F.Passes element r x u) := by
  -- Behind the comma the list is over, or an element follows.
  have hbehind : ∀ r, F.Passes (do
      if ← isAt "\x7d" then return some (acc, true)
      return some ((← element) :: acc, false)) r found u ↔
        peek r = .punctuator "\x7d" ∧ F.Holds r ∧ found = some (acc, true) ∧ u = r ∨
          peek r ≠ .punctuator "\x7d" ∧
            ∃ x, F.Passes element r x u ∧ found = some (x :: acc, false) := by
    intro r
    rw [passes_look_iff fun s => run_isAt s _, passes_ite_iff, passes_pure, state_token, beq_iff_eq,
      beq_eq_false_iff_ne, passes_bind_iff h (fun _ => .pure _) hu]
    simp only [passes_pure]
    refine or_congr_right (and_congr_right fun _ => ⟨?_, ?_⟩)
    · rintro ⟨x, v, -, hx, -, rfl, rfl⟩
      exact ⟨x, hx, rfl⟩
    · rintro ⟨x, hx, rfl⟩
      exact ⟨x, u, hu, hx, hx.holds.of_suffix hx.suffix, rfl, rfl⟩
  rw [furtherElement, if_neg Bool.false_ne_true, passes_look_iff fun s => run_isAt s _,
    passes_ite_iff, passes_pure, state_token, beq_iff_eq, beq_eq_false_iff_ne,
    passes_bind_iff (.expect rfl) (fun _ => ?steady) hu]
  case steady =>
    exact .bind (.look fun s => run_isAt s _) fun _ => .ite (.pure _) (.bind h fun _ => .pure _)
  simp only [hbehind, passes_expect (show (Token.punctuator ",").isPlain = true from rfl)]
  constructor
  · rintro (⟨hclose, hF, hfound, hu⟩ | ⟨-, -, r, -, ⟨hF, fresh, hr⟩, h⟩)
    · exact ⟨hF, .inl ⟨hfound, hu, hclose⟩⟩
    · rcases h with ⟨hclose, -, hfound, rfl⟩ | ⟨hopen, x, hx, hfound⟩
      · exact ⟨hF, .inr (.inl ⟨hfound, hclose, fresh, hr⟩)⟩
      · exact ⟨hF, .inr (.inr ⟨x, r, fresh, hfound, hr, hopen, hx⟩)⟩
  -- Where a comma stands, no brace does.
  · have hcomma : ∀ r fresh, Shows t (.punctuator ",") fresh r → peek t ≠ .punctuator "\x7d" := by
      intro r fresh hr
      rw [hr.fromToken_eq.2]
      decide
    rintro ⟨hF, ⟨hfound, hu, hclose⟩ | ⟨hfound, hclose, fresh, hr⟩ |
      ⟨x, r, fresh, hfound, hr, hopen, hx⟩⟩
    · exact .inl ⟨hclose, hF, hfound, hu⟩
    · exact .inr ⟨hcomma u fresh hr, (), u, hu, ⟨hF, fresh, hr⟩,
        .inl ⟨hclose, hF.of_suffix hr.suffix, hfound, rfl⟩⟩
    · refine .inr ⟨hcomma r fresh hr, (), r, ?_, ⟨hF, fresh, hr⟩, .inr ⟨hopen, x, hx, hfound⟩⟩
      exact hx.isSound h hu

/-- Elements begin with a comma, and so with a sound text. -/
lemma Upto.isSound {e : Text} {xs : List Tree} (h : F.Upto element t xs e) (he : IsSound e) :
    IsSound t := by
  cases h with
  | nil => exact he
  | cons hcomma _ _ _ => exact hcomma.isSound (by simp)

/-- The end of a list is a comma or the closing brace. -/
lemma Ends.isSound {e : Text} {isTrailing : Bool} (h : Ends e isTrailing t') : IsSound e := by
  cases h with
  | plain h => exact isSound_of_isPlain (h ▸ rfl)
  | trailing hcomma _ => exact hcomma.isSound (by simp)

/-- A comma at the end takes a character. -/
lemma Ends.toNat_le {e : Text} {isTrailing : Bool} (h : Ends e isTrailing t') :
    isTrailing.toNat ≤ e.length := by
  cases h with
  | plain _ => simp
  | trailing hcomma _ =>
      have := hcomma.lt_length rfl
      rw [Bool.toNat_true]
      omega

/-- Behind a comma at the end no element is looked for. -/
lemma passes_repeat_trailing {n : Nat} {found : List Tree × Bool} :
    F.Passes (repeatUpTo (furtherElement element) n (acc, true)) t found t' ↔
      n ≠ 0 ∧ F.Holds t ∧ found = (acc, true) ∧ t' = t := by
  cases n with
  | zero =>
      refine ⟨fun h => ?_, fun h => absurd rfl h.1⟩
      cases h.run
  | succ n =>
      rw [repeatUpTo, passes_look_iff (p := furtherElement element (acc, true)) fun _ => rfl,
        passes_pure]
      simp

/-- What the loop passes are elements, and the end of the list. -/
lemma exists_upto_of_passes {n : Nat} {found : List Tree × Bool} (h : Steady element)
    (ht' : IsSound t')
    (hp : F.Passes (repeatUpTo (furtherElement element) n (acc, false)) t found t') :
    ∃ xs e, F.Upto element t xs e ∧ Ends e found.2 t' ∧ found.1 = xs.reverse ++ acc := by
  induction n generalizing acc t with
  | zero => cases hp.run
  | succ n ih =>
      rw [repeatUpTo, passes_bind_iff (h.furtherElement _) (fun o => ?steady) ht'] at hp
      case steady =>
        cases o with
        | none => exact .pure _
        | some found => exact .repeatUpTo h.furtherElement n found
      obtain ⟨o, u, hu, hstep, hrest⟩ := hp
      rw [passes_furtherElement h hu] at hstep
      obtain ⟨-, ⟨rfl, rfl, hclose⟩ | ⟨rfl, hclose, fresh, hr⟩ |
        ⟨x, r, fresh, rfl, hr, hopen, hx⟩⟩ := hstep
      -- The list is over.
      · obtain ⟨-, rfl, rfl⟩ := passes_pure.mp hrest
        exact ⟨[], t', .nil, .plain hclose, rfl⟩
      -- A comma was the end of it, so the next step answers nothing.
      · obtain ⟨-, -, rfl, rfl⟩ := passes_repeat_trailing.mp hrest
        exact ⟨[], t, .nil, .trailing hr hclose, rfl⟩
      -- One more element, and the others by induction.
      · obtain ⟨xs, e, hxs, hend, hfound⟩ := ih hrest
        exact ⟨x :: xs, e, .cons hr hopen hx hxs, hend, by rw [hfound]; simp⟩

/-- Elements and the end of their list are what the loop passes, if it goes on long enough. -/
lemma Upto.passes_repeat {n : Nat} {xs : List Tree} {e : Text} {isTrailing : Bool}
    (h : Steady element) (hF : F.Holds t) (hxs : F.Upto element t xs e)
    (hend : Ends e isTrailing t')
    (hn : xs.length + isTrailing.toNat < n) :
    F.Passes (repeatUpTo (furtherElement element) n (acc, false)) t
      (xs.reverse ++ acc, isTrailing) t' := by
  obtain ⟨n, rfl⟩ := Nat.exists_eq_add_one_of_ne_zero (Nat.ne_zero_of_lt hn)
  induction hxs generalizing acc n with
  | @nil t =>
      cases hend with
      | plain hclose =>
          refine Passes.bind (a := none) ?_ (passes_pure.mpr ⟨hF, rfl, rfl⟩)
          exact (passes_furtherElement h (Ends.plain hclose).isSound).mpr
            ⟨hF, .inl ⟨rfl, rfl, hclose⟩⟩
      | trailing hcomma hclose =>
          refine Passes.bind (a := some (acc, true)) (u := t') ?_ (passes_repeat_trailing.mpr ?_)
          · exact (passes_furtherElement h (Ends.plain hclose).isSound).mpr
              ⟨hF, .inr (.inl ⟨rfl, hclose, _, hcomma⟩)⟩
          · refine ⟨?_, hF.of_suffix hcomma.suffix, rfl, rfl⟩
            simp only [List.length_nil, Bool.toNat_true] at hn
            omega
  | @cons t r u e fresh x xs hcomma hopen hx hxs ih =>
      rw [List.length_cons] at hn
      obtain ⟨n, rfl⟩ := Nat.exists_eq_add_one_of_ne_zero (n := n) (by omega)
      refine Passes.bind (a := some (x :: acc, false)) (u := u) ?_ ?_
      · exact (passes_furtherElement h (hxs.isSound hend.isSound)).mpr
          ⟨hF, .inr (.inr ⟨x, r, _, rfl, hcomma, hopen, hx⟩)⟩
      · rw [List.reverse_cons, List.append_assoc, List.singleton_append]
        exact ih (hx.holds.of_suffix hx.suffix) hend n (by omega)

/-- Elements in braces: none, or a first one and others behind commas. -/
lemma passes_separated {found : List Tree × Bool} (h : Steady element) (ht' : IsSound t') :
    F.Passes (separated "\x7d" "," element) t found t' ↔
      F.Holds t ∧ found = ([], false) ∧ t' = t ∧ peek t = .punctuator "\x7d" ∨
        peek t ≠ .punctuator "\x7d" ∧ ∃ x u xs e, F.Passes element t x u ∧
          F.Upto element u xs e ∧ Ends e found.2 t' ∧ found.1 = x :: xs := by
  rw [separated_eq, passes_look_iff fun s => run_isAt s _, passes_ite_iff, passes_pure, state_token,
    beq_iff_eq, beq_eq_false_iff_ne,
    passes_bind_iff h (fun _ => .bind (.repeatWhile h.furtherElement _) fun _ => .pure _) ht']
  -- Behind the first element the loop collects the others, with the last one first.
  have hfound : ∀ x u, F.Passes (do
      let found ← repeatWhile (furtherElement element) ([x], false)
      return (found.1.reverse, found.2)) u found t' ↔
        F.Holds u ∧ ∃ xs e, F.Upto element u xs e ∧ Ends e found.2 t' ∧ found.1 = x :: xs := by
    intro x u
    rw [passes_bind_iff (.repeatWhile h.furtherElement _) (fun _ => .pure _) ht']
    simp only [passes_pure]
    constructor
    · rintro ⟨⟨xs, isTrailing⟩, v, -, hrepeat, -, rfl, rfl⟩
      rw [repeatWhile, passes_look_iff run_get] at hrepeat
      obtain ⟨ys, e, hys, hend, rfl⟩ := exists_upto_of_passes h ht' hrepeat
      exact ⟨hrepeat.holds, ys, e, hys, hend, by simp⟩
    · rintro ⟨hF, xs, e, hxs, hend, hfound⟩
      -- Each element takes a comma, so there are fewer elements than characters, and the bound
      -- is no obstacle.
      have hlength := hxs.length_le
      have hbound := hF.bound
      refine ⟨(xs.reverse ++ [x], found.2), t', ht', ?_,
        hF.of_suffix (hend.suffix.trans hxs.suffix), Prod.ext (by simp [hfound]) rfl, rfl⟩
      rw [repeatWhile, passes_look_iff run_get]
      refine hxs.passes_repeat h hF hend (Nat.lt_of_le_of_lt ?_ hbound)
      exact Nat.le_trans (Nat.add_le_add_left hend.toNat_le _) hlength
  simp only [hfound]
  constructor
  · rintro (⟨hclose, hF, hfound, rfl⟩ | ⟨hopen, x, u, -, hx, -, xs, e, hxs, hend, hfound⟩)
    · exact .inl ⟨hF, hfound, rfl, hclose⟩
    · exact .inr ⟨hopen, x, u, xs, e, hx, hxs, hend, hfound⟩
  · rintro (⟨hF, hfound, rfl, hclose⟩ | ⟨hopen, x, u, xs, e, hx, hxs, hend, hfound⟩)
    · exact .inl ⟨hclose, hF, hfound, rfl⟩
    · exact .inr ⟨hopen, x, u, hxs.isSound hend.isSound, hx, hx.holds.of_suffix hx.suffix, xs, e,
        hxs, hend, hfound⟩

end Frame

end ComponentMigration.Script
