import ComponentMigration.Proofs.Script.Extent

/-!
Parsers go on.

* **States.** `State.Within`: the offsets of a state count from the head of a text, and what stands
  here and behind is at these offsets. The next token leads to such a state, and so does a token
  that is read again.
* **Parsers.** `Onward`: a parser leads from such states to such states. The class follows the ways
  in which parsers are composed, so that it is found for a parser from its parts.
-/

namespace ComponentMigration.Script

open Text Script.Parser

variable {t : Text}

/-- The first token stands at the end of the text, with the gap left out. -/
lemma fromToken_suffix (t : Text) : fromToken t <:+ t :=
  suffix_of_dropBytes? (dropBytes?_gapLength t)

/-! ### Where a state stands -/

namespace State

/-- A state stands as among the children of markup, where text that belongs to no token counts. No
statement ends there but at the end of the text. -/
structure IsInMarkup (s : State) : Prop where
  isFresh : s.isFresh = false
  token : s.token ≠ .punctuator "\x7d"
  here : s.token = .endOfText → s.here = []

/-- A state stands in a text, from whose head on its offsets count. Behind the token before there
is a gap, unless it was passed in markup. -/
structure Stands (s : State) (t : Text) : Prop where
  here : t.dropBytes? s.start = some s.here
  rest : t.dropBytes? s.stop = some s.rest
  begins : ∀ p, s.token = .punctuator p → p <+: s.here
  last : ∃ e, t.dropBytes? s.lastStop = some e ∧
    (s.here = fromToken e ∧ IsSound e ∨ s.here = e ∧ s.IsInMarkup)

/-- A state stands in a text, unless a fault was passed over. -/
def Within (s : State) (t : Text) : Prop := s.isFlawed = false → s.Stands t

variable {s : State}

/-- The next state, field by field. -/
lemma next_eq (s : State) : s.next = ({ s with
    lastStop := s.stop
    isFlawed := s.isFlawed || !(skipTrivia .space false 0 s.rest).2.2.2 } : State).load
      (fromToken s.rest) (s.stop + gapLength s.rest) (Lexeme.read (fromToken s.rest))
      (startsFresh s.rest) := by
  rw [next]
  dsimp only
  rw [skipTrivia_offset]
  rfl

/-- The next token stands behind a gap. -/
lemma within_next_of_rest (h : s.isFlawed = false → t.dropBytes? s.stop = some s.rest) :
    s.next.Within t := by
  rw [next_eq]
  intro hflawed
  simp only [load, Bool.or_eq_false_iff, Bool.not_eq_false', beq_eq_false_iff_ne] at hflawed
  obtain ⟨⟨hflawed, hclosed⟩, hvalid⟩ := hflawed
  have hhere := dropBytes?_add (h hflawed) (dropBytes?_gapLength s.rest)
  have htakes := Lexeme.takes_read hvalid
  exact ⟨hhere, dropBytes?_add hhere htakes.rest, htakes.begins,
    s.rest, h hflawed, .inl ⟨rfl, hclosed, hvalid⟩⟩

/-- The next token is at its place in the text. -/
lemma Within.next (h : s.Within t) : s.next.Within t :=
  within_next_of_rest fun hflawed => (h hflawed).rest

/-- The token behind the last one, read in markup. -/
lemma Within.load {l : Lexeme} (h : s.Within t) (hl : l.token ≠ .invalid → l.Takes s.rest)
    (hbrace : l.token ≠ .punctuator "\x7d") (hend : l.token = .endOfText → s.rest = []) :
    (({ s with lastStop := s.stop } : State).load s.rest s.stop l false).Within t := by
  intro hflawed
  simp only [State.load, Bool.or_eq_false_iff, beq_eq_false_iff_ne] at hflawed
  have hrest := (h hflawed.1).rest
  have htakes := hl hflawed.2
  exact ⟨hrest, dropBytes?_add hrest htakes.rest, htakes.begins, s.rest, hrest,
    .inr ⟨rfl, rfl, hbrace, hend⟩⟩

/-- The token read again. -/
lemma Within.reload {l : Lexeme} (h : s.Within t)
    (hl : s.Stands t → l.token ≠ .invalid → l.Takes s.here)
    (hbrace : l.token ≠ .punctuator "\x7d") (hend : l.token ≠ .endOfText) :
    (s.reload l).Within t := by
  intro hflawed
  simp only [State.reload, State.load, Bool.or_eq_false_iff, beq_eq_false_iff_ne] at hflawed
  have htakes := hl (h hflawed.1) hflawed.2
  obtain ⟨hhere, -, -, e, he, hlast⟩ := h hflawed.1
  refine ⟨hhere, dropBytes?_add hhere htakes.rest, htakes.begins, e, he, ?_⟩
  rcases hlast with hgap | ⟨heq, hmarkup⟩
  · exact .inl hgap
  · exact .inr ⟨heq, hmarkup.isFresh, hbrace, fun h => absurd h hend⟩

/-- The context does not matter. -/
lemma Within.inContext (h : s.Within t) (c : Context) :
    ({ s with context := c } : State).Within t := by
  intro hflawed
  obtain ⟨hhere, hrest, hbegins, e, he, hlast⟩ := h hflawed
  refine ⟨hhere, hrest, hbegins, e, he, ?_⟩
  rcases hlast with hgap | ⟨heq, hmarkup⟩
  · exact .inl hgap
  · exact .inr ⟨heq, hmarkup.isFresh, hmarkup.token, hmarkup.here⟩

/-- The first token is at its place in the text. -/
lemma within_first (t : Text) (hasMarkup : Bool) : (first [] t hasMarkup).Within t :=
  within_next_of_rest fun _ => by cases t <;> rfl

end State

/-! ### Going on -/

/-- A parser goes on in the text that it stands in. -/
class Onward {α : Type} (p : Parser α) : Prop where
  keeps : ∀ ⦃t : Text⦄ ⦃s s' : State⦄ ⦃a : α⦄, s.Within t → p s = some (a, s') → s'.Within t

namespace Onward

variable {α β γ : Type} {p q : Parser α} {f : α → Parser β}

instance bind [hp : Onward p] [h : ∀ a, Onward (f a)] : Onward (p >>= f) where
  keeps t s s' b hs hrun := by
    rw [run_bind] at hrun
    obtain ⟨⟨a, s₁⟩, h₁, h₂⟩ := Option.bind_eq_some_iff.mp hrun
    exact (h a).keeps (hp.keeps hs h₁) h₂

/-- What follows a token is told by its kind. -/
instance (priority := low) bind_token {p : Parser Token} {f : Token → Parser β} [Onward p]
    [Onward (f .endOfText)]
    [hplain : ∀ w, Onward (f (.word w false))] [hescaped : ∀ w, Onward (f (.word w true))]
    [∀ w, Onward (f (.privateWord w))] [∀ b, Onward (f (.number b))] [∀ w, Onward (f (.string w))]
    [hlast : ∀ b, Onward (f (.template true b))] [hpiece : ∀ b, Onward (f (.template false b))]
    [Onward (f .regex)] [Onward (f .markupText)] [∀ w, Onward (f (.punctuator w))]
    [Onward (f .invalid)] : Onward (p >>= f) := by
  refine bind (h := fun tok => ?_)
  cases tok with
  | word w isEscaped => cases isEscaped <;> infer_instance
  | template isLast isBad => cases isLast <;> infer_instance
  | _ => infer_instance

instance (priority := low) bind_list {p : Parser (List α)} {f : List α → Parser β} [Onward p]
    [Onward (f [])]
    [∀ a, Onward (f [a])] [hmany : ∀ a b as, Onward (f (a :: b :: as))] : Onward (p >>= f) := by
  refine bind (h := fun found => ?_)
  match found with
  | [] | [a] | a :: b :: as => infer_instance

instance (priority := low) bind_bool {p : Parser Bool} {f : Bool → Parser β} [Onward p]
    [Onward (f true)] [Onward (f false)] : Onward (p >>= f) := by
  refine bind (h := fun b => ?_)
  cases b <;> infer_instance

instance (priority := low) bind_option {p : Parser (Option α)} {f : Option α → Parser β} [Onward p]
    [Onward (f none)] [∀ a, Onward (f (some a))] : Onward (p >>= f) := by
  refine bind (h := fun found => ?_)
  cases found <;> infer_instance

/-- A parser that only looks goes on from where it is. -/
lemma look {g : State → α} (h : ∀ s, p s = some (g s, s)) : Onward p where
  keeps t s s' a hs hrun := by
    rw [h] at hrun
    cases hrun
    exact hs

/-- A change of the state that keeps its places. -/
lemma change {g : State → State} (h : ∀ (t : Text) (s : State), s.Within t → (g s).Within t) :
    Onward (modify g : Parser PUnit) where
  keeps t s s' a hs hrun := by
    cases hrun
    exact h _ _ hs

instance pure (a : α) : Onward (Pure.pure a : Parser α) := look fun _ => rfl

instance failure : Onward (failure : Parser α) where
  keeps t s s' a hs h := by cases h

instance ite {b : Prop} [Decidable b] [hp : Onward p] [hq : Onward q] :
    Onward (if b then p else q) := by
  split_ifs
  · exact hp
  · exact hq

instance require (b : Bool) : Onward (Parser.require b) := by
  unfold Parser.require
  infer_instance

instance flaw : Onward Parser.flaw := change fun _ _ _ h => by cases h

instance flawIf (b : Bool) : Onward (Parser.flawIf b) := by
  unfold Parser.flawIf
  infer_instance

instance attempt [hp : Onward p] : Onward (Parser.attempt p) where
  keeps t s s' a hs h := by
    rw [Parser.attempt] at h
    split at h
    · next hrun =>
      cases h
      exact hp.keeps hs hrun
    · cases h
      exact hs

instance ahead (p : Parser Bool) : Onward (Parser.ahead p) := look fun s => run_ahead s p

instance get : Onward (MonadState.get : Parser State) := look run_get

instance within (g : Context → Context) [Onward p] : Onward (Parser.within g p) := by
  have hcontext : ∀ g : State → Context,
      Onward (modify fun s => { s with context := g s } : Parser PUnit) := fun g =>
    change fun _ _ hs => hs.inContext _
  unfold Parser.within
  infer_instance

instance repeatUpTo {step : α → Parser (Option α)} [h : ∀ a, Onward (step a)] (n : Nat) (a : α) :
    Onward (Parser.repeatUpTo step n a) := by
  induction n generalizing a with
  | zero => exact failure
  | succ n ih =>
      refine bind (h := fun o => ?_)
      cases o with
      | none => exact pure a
      | some a' => exact ih a'

instance repeatWhile {step : α → Parser (Option α)} [h : ∀ a, Onward (step a)] (a : α) :
    Onward (Parser.repeatWhile step a) := by
  unfold Parser.repeatWhile
  infer_instance

/-! ### Tokens -/

instance advance : Onward Parser.advance := change fun _ _ hs => hs.next

instance token : Onward Parser.token := look run_token

instance place : Onward Parser.place := look run_place

instance isFresh : Onward Parser.isFresh := look run_isFresh

instance isAt (w : Text) : Onward (Parser.isAt w) := look fun s => run_isAt s w

instance isAtAny (ws : List Text) : Onward (Parser.isAtAny ws) := look fun s => run_isAtAny s ws

instance isAtWord (w : Text) : Onward (Parser.isAtWord w) := look fun s => run_isAtWord s w

instance isAtEnd : Onward Parser.isAtEnd := look run_isAtEnd

instance eat (w : Text) : Onward (Parser.eat w) := by
  unfold Parser.eat
  infer_instance

instance eatWord (w : Text) : Onward (Parser.eatWord w) := by
  unfold Parser.eatWord
  infer_instance

instance expect (w : Text) : Onward (Parser.expect w) := by
  unfold Parser.expect
  infer_instance

instance expectWord (w : Text) : Onward (Parser.expectWord w) := by
  unfold Parser.expectWord
  infer_instance

instance node (f : Form) (n : Nat) (ps : List Tree) : Onward (Parser.node f n ps) := by
  unfold Parser.node
  infer_instance

set_option synthInstance.maxSize 512 in
instance separated {element : Parser Tree} [Onward element] (close separator : Text) :
    Onward (Parser.separated close separator element) := by
  unfold Parser.separated
  infer_instance

instance sequenceUntil {element : Parser (List Tree)} [Onward element] (close : Text) :
    Onward (Parser.sequenceUntil close element) := by
  unfold Parser.sequenceUntil
  infer_instance

instance endStatement : Onward (Parser.endStatement) := by
  unfold Parser.endStatement
  infer_instance

/-- Looks at the token. -/
lemma get_token {f : State → Parser α} (h : ∀ s, Onward (f s)) :
    Onward (MonadState.get >>= f) := bind

instance isAtAnyWord (ws : List Text) : Onward (Parser.isAtAnyWord ws) := by
  unfold Parser.isAtAnyWord
  refine get_token fun s => ?_
  split <;> infer_instance

instance isAtIdentifier : Onward Parser.isAtIdentifier := by
  unfold Parser.isAtIdentifier
  refine get_token fun s => ?_
  split <;> infer_instance

instance isAtName : Onward Parser.isAtName := by
  unfold Parser.isAtName
  refine get_token fun s => ?_
  split <;> infer_instance

instance identifier : Onward Parser.identifier := by
  unfold Parser.identifier
  refine get_token fun s => ?_
  split <;> infer_instance

instance name : Onward Parser.name := by
  unfold Parser.name
  refine get_token fun s => ?_
  split <;> infer_instance

instance bindingName (b : Binder) : Onward (Parser.bindingName b) := by
  unfold Parser.bindingName
  infer_instance

instance referenceName (b : Space) : Onward (Parser.referenceName b) := by
  unfold Parser.referenceName
  infer_instance

/-! ### Tokens that depend on their place -/

/-- A regular expression is only read at a slash. -/
instance asRegex {f : Unit → Parser α} {q : Parser α} [h : ∀ u, Onward (f u)] [hq : Onward q] :
    Onward (Parser.isAtAny ["/", "/="] >>= fun isSlash =>
      if isSlash = true then Parser.asRegex >>= f else q) where
  keeps t s s' a hs hrun := by
    rw [run_bind, run_isAtAny, Option.bind_some] at hrun
    split_ifs at hrun with hslash
    · refine (h ()).keeps
        (hs.reload (l := Lexeme.regex s.here) (fun hstands hvalid => ?_) ?_ ?_) hrun
      · obtain ⟨u, hu⟩ : ∃ u, s.here = '/' :: u := by
          split at hslash
          · next p htoken =>
            obtain ⟨r, hr⟩ := hstands.begins p htoken
            simp only [List.contains_cons, List.contains_nil, Bool.or_false, Bool.or_eq_true,
              beq_iff_eq] at hslash
            rcases hslash with rfl | rfl <;> exact ⟨_, hr.symm⟩
          · cases hslash
        rw [hu] at hvalid ⊢
        exact Lexeme.takes_regex hvalid
      all_goals rcases Lexeme.regex_token s.here with htoken | htoken <;> simp [htoken]
    · exact hq.keeps hs hrun

/-- A template goes on behind a closing brace only. -/
instance asTemplateRest {f : Unit → Parser α} [h : ∀ u, Onward (f u)] :
    Onward (Parser.isAt "\x7d" >>= fun isBrace =>
      Parser.require isBrace >>= fun _ => Parser.asTemplateRest >>= f) where
  keeps t s s' a hs hrun := by
    rw [run_bind, run_isAt, Option.bind_some, run_bind, run_require] at hrun
    dsimp only at hrun
    split_ifs at hrun with hbrace
    · refine (h ()).keeps (hs.reload (l := Lexeme.templateRest (s.here.drop 1))
        (fun hstands hvalid => ?_) ?_ ?_) hrun
      · obtain ⟨r, hr⟩ := hstands.begins _ (eq_of_beq hbrace)
        rw [← hr] at hvalid ⊢
        exact Lexeme.takes_templateRest rfl hvalid
      all_goals
        rcases templateRest_cases (s.here.drop 1) with ⟨_, _, htoken⟩ | htoken
        all_goals
          rw [htoken]
          simp
    · cases hrun

instance asMarkupName : Onward Parser.asMarkupName := change fun _ s hs =>
  hs.reload (fun _ _ => Lexeme.takes_markupName s.here) (by simp [Lexeme.markupName])
    (by simp [Lexeme.markupName])

/-- The operators that begin with an angle bracket are written in ASCII. -/
lemma angleOperators_narrow : ∀ p ∈ angleOperators, byteLength p = p.length ∧ p ≠ "\x7d" := by
  decide +kernel

instance joinAngle : Onward Parser.joinAngle := change fun _ s hs => by
  split_ifs
  · split
    · next p hfind =>
      obtain ⟨hsize, hbrace⟩ := angleOperators_narrow p (List.mem_of_find?_eq_some hfind)
      have hp := List.isPrefixOf_iff_prefix.mp (List.find?_some (p := (startsWith s.here ·)) hfind)
      exact hs.reload (fun _ _ => Lexeme.takes_of_prefix hp hsize)
        (fun h => hbrace (Token.punctuator.inj h)) (by simp)
    · exact hs
  · exact hs

instance splitAngle : Onward Parser.splitAngle := change fun _ s hs => by
  split_ifs with h
  · refine hs.reload (fun hstands _ => ?_) (by simp) (by simp)
    have hp := hstands.begins _ (eq_of_beq h)
    exact Lexeme.takes_of_prefix (p := ['<']) ((List.prefix_append ['<'] ['<']).trans hp) rfl
  · exact hs

instance advanceInMarkup : Onward Parser.advanceInMarkup := change fun _ s hs =>
  hs.load Lexeme.takes_markupChild (Lexeme.markupChild_token s.rest).1
    (Lexeme.markupChild_token s.rest).2

instance advanceToAttributeValue : Onward Parser.advanceToAttributeValue := change fun _ s hs => by
  split
  · next h =>
    refine hs.load (Lexeme.takes_markupString? h) ?_ ?_ <;>
      rcases Lexeme.markupString?_token h with ⟨value, hvalue⟩ | hvalue <;> simp [hvalue]
  · exact hs.next

instance expectInMarkup (w : Text) : Onward (Parser.expectInMarkup w) := by
  unfold Parser.expectInMarkup
  infer_instance

/-- The state as it was is a text behind. -/
lemma restore {f : State → Parser α}
    (h : ∀ s t s' a, s.Within t → f s s = some (a, s') → s'.Within t) :
    Onward (MonadState.get >>= f) where
  keeps t s s' a hs hrun := h s t s' a hs hrun

end Onward

end ComponentMigration.Script
