import ComponentMigration.Proofs.Script.Cursor
import Mathlib.Data.Option.Basic

/-!
Specifiers that are read from two texts.

* **Trees.** `Tree.SameAs`: two trees differ in their places only.
* **Names.** `SameNames`: two texts show the same words and strings up to some point. The state of
  one is `Beside` the state of the other.
* **Main statement.** Parsers are `Parallel` if they do the same in such states.
  `Parallel.importSpecifier`: the parser of a specifier is, for it only looks at names.
-/

namespace ComponentMigration.Script

open Text Script.Parser

mutual

/-- The tree without its places. -/
def Tree.unplaced : Tree → Tree
  | .node f _ ps => .node f ⟨0, 0⟩ (unplacedAll ps)

/-- The trees without their places. -/
def unplacedAll : List Tree → List Tree
  | [] => []
  | t :: ts => t.unplaced :: unplacedAll ts

end

lemma unplacedAll_eq_map (ts : List Tree) : unplacedAll ts = ts.map Tree.unplaced := by
  induction ts with
  | nil => rfl
  | cons t ts ih => rw [unplacedAll, ih, List.map_cons]

/-- The trees differ in their places only. -/
def Tree.SameAs (t t' : Tree) : Prop := t.unplaced = t'.unplaced

/-- Nodes are the same up to places if their parts are. -/
lemma Tree.SameAs.node {ps ps' : List Tree} (h : List.Forall₂ Tree.SameAs ps ps') (f : Form)
    (s s' : Span) : (Tree.node f s ps).SameAs (.node f s' ps') := by
  have h : ps.map Tree.unplaced = ps'.map Tree.unplaced := by
    induction h with
    | nil => rfl
    | cons h _ ih => rw [List.map_cons, List.map_cons, ih, h]
  rw [SameAs, unplaced, unplaced, unplacedAll_eq_map, unplacedAll_eq_map, h]

/-- The next state of a frame keeps a fault that is marked in between. -/
lemma Frame.state_next_flawed {F : Frame} {fl b : Bool} {t r : Text} {tok : Token} {fresh : Bool}
    (hF : F.Holds t) (h : Shows t tok fresh r) (hvalid : tok ≠ .invalid) :
    State.next { F.state fl t with isFlawed := (F.state fl t).isFlawed || b }
      = F.state (fl || b) r := by
  obtain ⟨hrest, hstop, hflawed⟩ := @Frame.state_of_shows F fl t tok fresh r hF h hvalid
  refine State.next_congr hstop hrest ?_ rfl rfl rfl
  dsimp only
  rw [hflawed]

namespace Parser

variable (s : State)

@[simp] lemma run_get : (get : Parser State) s = some (s, s) := rfl

@[simp] lemma run_flawIf (b : Bool) :
    flawIf b s = some ((), { s with isFlawed := s.isFlawed || b }) := by
  cases b
  · simp [flawIf]
  · rw [Bool.or_true]
    rfl

/-- Whether a word that can be an identifier is an operator in a context. -/
def isOperatorWord (c : Context) (w : Text) : Bool :=
  w == "await".toList && c.allowsAwait || w == "yield".toList && c.allowsYield

/-- At a word that can be an identifier it is passed; an operator is marked as a fault. -/
lemma run_identifier_word {w : Text} {isEscaped : Bool} (h : s.token = .word w isEscaped) :
    identifier s = if isIdentifierWord w = true then
      some (w, State.next { s with isFlawed := s.isFlawed || isOperatorWord s.context w })
    else none := by
  simp only [identifier, run_bind, run_get, Option.bind_some, h, run_require]
  split_ifs
  · simp only [Option.bind_some, run_flawIf, run_advance, run_pure, Bool.or_assoc, isOperatorWord,
      Option.some.injEq, Prod.mk.injEq, true_and]
    exact State.next_congr rfl rfl rfl rfl rfl rfl
  · rfl

/-- At no word there is no identifier. -/
lemma run_identifier_of_ne (h : ∀ w isEscaped, s.token ≠ .word w isEscaped) :
    identifier s = none := by
  simp only [identifier, run_bind, run_get, Option.bind_some]
  rfl

end Parser

/-- The text of a word or of a string. -/
def Token.name? : Token → Option Text
  | .word w _ | .string w => some w
  | _ => none

/-- A word or a string. -/
def Token.isName (tok : Token) : Bool := tok.name?.isSome

/-- A string. -/
def Token.isText : Token → Bool
  | .string _ => true
  | _ => false

/-- A string is one of the names of an export. -/
lemma Token.isText_of_isName {tok : Token} (h : tok.isName = false) : tok.isText = false := by
  cases tok <;> first | rfl | cases h

namespace Grammar

/-- A specifier from its name on. -/
def namedSpecifier (binder : Binder) (isType isText : Bool) (start nameStart : Nat) :
    Parser Tree := do
  let imported ← exportName
  if ← eatWord "as" then
    let declared ← bindingName binder
    node (.namedImport imported isType) start [declared]
  else
    require (!isText && isIdentifierWord imported)
    let declared ← node (.binding imported binder none) nameStart []
    node (.namedImport imported isType) start [declared]

/-- A specifier is what may stand in front of its name, and the name with what follows. -/
lemma importSpecifier_eq (b : Binder) : importSpecifier b = (do
    let start ← place
    let isType ← isTypeSpecifier
    if isType then advance
    let nameStart ← place
    let tok ← token
    namedSpecifier (if isType then .type else b) isType tok.isText start nameStart) := by
  -- Whether the name is a string is told by the token alone.
  have hname : ∀ (binder : Binder) (isType : Bool) (start : Nat), (do
      let nameStart ← place
      let isText ← match ← token with
        | .string _ => pure true
        | _ => pure false
      namedSpecifier binder isType isText start nameStart) = (do
      let nameStart ← place
      let tok ← token
      namedSpecifier binder isType tok.isText start nameStart) := by
    intro binder isType start
    congr 1
    funext nameStart
    congr 1
    funext tok
    cases tok <;> rfl
  rw [importSpecifier]
  congr 1
  funext start
  congr 1
  funext isType
  cases isType with
  | false => exact hname _ _ _
  | true => exact congrArg (advance >>= ·) (funext fun _ => hname _ _ _)

variable (s : State)

@[simp] lemma run_isAtExportName : isAtExportName s = some (s.token.isName, s) := by
  rw [isAtExportName, Parser.run_bind, Parser.run_token, Option.bind_some]
  cases s.token <;> rfl

@[simp] lemma run_exportName : exportName s = s.token.name?.map fun w => (w, s.next) := by
  rw [exportName, Parser.run_bind, Parser.run_token, Option.bind_some]
  cases h : s.token <;> simp [Parser.name, h, Token.name?]

/-- Whether a specifier is one of a type is seen without passing a token. -/
lemma run_isTypeSpecifier : ∃ b, isTypeSpecifier s = some (b, s) ∧
    (b = true → s.token = .word "type".toList false) := by
  simp only [isTypeSpecifier, Parser.run_bind, Parser.run_isAtWord, Option.bind_some]
  cases htype : s.token == .word "type".toList false
  · exact ⟨false, rfl, fun h => by cases h⟩
  · exact ⟨_, Parser.run_ahead s _, fun _ => eq_of_beq htype⟩

end Grammar

/-- The name of an export is a plain token. -/
lemma Token.isPlain_of_isName {tok : Token} (h : tok.isName = true) : tok.isPlain = true := by
  cases tok <;> first | rfl | cases h

/-- A plain token is valid. -/
lemma Token.ne_invalid {tok : Token} (h : tok.isPlain = true) : tok ≠ .invalid := by
  rintro rfl
  cases h

/-- A frame that holds a text holds what stands behind its first token. -/
lemma Frame.Holds.of_shows {F : Frame} {t r : Text} {tok : Token} {fresh : Bool} (hF : F.Holds t)
    (h : Shows t tok fresh r) (hplain : tok.isPlain = true) : F.Holds r := by
  obtain ⟨w, -, rfl, -⟩ := h.goesOn hplain
  exact hF.of_append

/-- Two texts show the same words and strings, and then other tokens in front of `e` and `e'`. -/
inductive SameNames (e e' : Text) : Text → Text → Prop
  | stop (h : (peek e).isName = false) (h' : (peek e').isName = false) : SameNames e e' e e'
  | name {t t' r r' : Text} {tok : Token} {fresh : Bool} (h : Shows t tok fresh r)
      (h' : Shows t' tok fresh r') (hname : tok.isName = true) (hrest : SameNames e e' r r') :
      SameNames e e' t t'

section

variable (F F' : Frame) (fl fl' : Bool) (e e' : Text)

/-- Two states show the same words and strings, and have passed the same faults. -/
def Beside (s s' : State) : Prop :=
  ∃ x t t', s = F.state (fl || x) t ∧ s' = F'.state (fl' || x) t' ∧ SameNames e e' t t' ∧
    F.Holds t ∧ F'.Holds t'

/-- Two parsers do the same in such states. -/
def Parallel {α β : Type} (R : α → β → Prop) (p : Parser α) (p' : Parser β) : Prop :=
  ∀ s s', Beside F F' fl fl' e e' s s' →
    Option.Rel (fun x x' => R x.1 x'.1 ∧ Beside F F' fl fl' e e' x.2 x'.2) (p s) (p' s')

variable {F F' fl fl' e e'}

/-- States beside each other show the same name, or both show no name. -/
lemma Beside.token {s s' : State} (h : Beside F F' fl fl' e e' s s') :
    s.token = s'.token ∧ s.token.isName = true ∧ Beside F F' fl fl' e e' s.next s'.next ∨
      s.token.isName = false ∧ s'.token.isName = false := by
  obtain ⟨x, t, t', rfl, rfl, hsame, hF, hF'⟩ := h
  cases hsame with
  | stop h h' =>
    right
    simp only [Frame.state_token]
    exact ⟨h, h'⟩
  | name h h' hname hrest =>
    left
    have hplain := Token.isPlain_of_isName hname
    rw [Frame.state_token, Frame.state_token, h.fromToken_eq.2, h'.fromToken_eq.2,
      Frame.state_next hF h (Token.ne_invalid hplain),
      Frame.state_next hF' h' (Token.ne_invalid hplain)]
    exact ⟨rfl, hname, x, _, _, rfl, rfl, hrest, hF.of_shows h hplain, hF'.of_shows h' hplain⟩

/-- Another fault is passed in both. -/
lemma Beside.next_flawed {s s' : State} (h : Beside F F' fl fl' e e' s s')
    (hname : s.token.isName = true) (b : Bool) :
    Beside F F' fl fl' e e' { s with isFlawed := s.isFlawed || b }.next
      { s' with isFlawed := s'.isFlawed || b }.next := by
  obtain ⟨x, t, t', rfl, rfl, hsame, hF, hF'⟩ := h
  cases hsame with
  | stop h _ =>
      rw [Frame.state_token, h] at hname
      cases hname
  | name h h' hname hrest =>
      have hplain := Token.isPlain_of_isName hname
      refine ⟨x || b, _, _, ?_, ?_, hrest, hF.of_shows h hplain, hF'.of_shows h' hplain⟩
      · rw [Frame.state_next_flawed hF h (Token.ne_invalid hplain), Bool.or_assoc]
      · rw [Frame.state_next_flawed hF' h' (Token.ne_invalid hplain), Bool.or_assoc]

/-- What is no name is no word either. -/
lemma not_isAtWord {tok : Token} (h : tok.isName = false) (w : Text) :
    (tok == .word w false) = false := by
  rw [beq_eq_false_iff_ne]
  rintro rfl
  cases h

namespace Parallel

variable {α β γ δ : Type} {R : α → β → Prop} {Q : γ → δ → Prop}

lemma pure {a : α} {b : β} (h : R a b) : Parallel F F' fl fl' e e' R (Pure.pure a) (Pure.pure b) :=
  fun _ _ hs => .some ⟨h, hs⟩

/-- Parallel parsers one behind the other are parallel. -/
lemma bind {p : Parser α} {p' : Parser β} {f : α → Parser γ} {f' : β → Parser δ}
    (hp : Parallel F F' fl fl' e e' R p p')
    (hf : ∀ a b, R a b → Parallel F F' fl fl' e e' Q (f a) (f' b)) :
    Parallel F F' fl fl' e e' Q (p >>= f) (p' >>= f') := by
  intro s s' hs
  have h := hp s s' hs
  rw [Parser.run_bind, Parser.run_bind]
  generalize p s = x at h
  generalize p' s' = x' at h
  cases h with
  | none => exact .none
  | some h => exact hf _ _ h.1 _ _ h.2

lemma place : Parallel F F' fl fl' e e' (fun _ _ => True) Parser.place Parser.place :=
  fun _ _ hs => .some ⟨trivial, hs⟩

lemma require (b : Bool) : Parallel F F' fl fl' e e' Eq (Parser.require b) (Parser.require b) := by
  intro s s' hs
  cases b
  · exact .none
  · exact .some ⟨rfl, hs⟩

/-- What follows a token is parallel if it is so for equal names, and for any two tokens that are
none. -/
lemma token {β : Type} {f f' : Token → Parser β} {R : β → β → Prop}
    (hname : ∀ tok, tok.isName = true → Parallel F F' fl fl' e e' R (f tok) (f' tok))
    (hother : ∀ tok tok', tok.isName = false → tok'.isName = false →
      Parallel F F' fl fl' e e' R (f tok) (f' tok')) :
    Parallel F F' fl fl' e e' R (Parser.token >>= f) (Parser.token >>= f') := by
  intro s s' hs
  rw [Parser.run_bind, Parser.run_bind]
  rcases hs.token with ⟨heq, hn, -⟩ | ⟨h, h'⟩
  · rw [Parser.run_token, Parser.run_token, ← heq]
    exact hname _ hn s s' hs
  · exact hother _ _ h h' s s' hs

/-- A word is passed in both texts, or in neither. -/
lemma eatWord (w : Text) :
    Parallel F F' fl fl' e e' Eq (Parser.eatWord w) (Parser.eatWord w) := by
  intro s s' hs
  rw [Parser.run_eatWord, Parser.run_eatWord]
  rcases hs.token with ⟨heq, hname, hnext⟩ | ⟨h, h'⟩
  · rw [← heq]
    split_ifs
    · exact .some ⟨rfl, hnext⟩
    · exact .some ⟨rfl, hs⟩
  · rw [if_neg (by rintro hw; rw [hw] at h; cases h),
      if_neg (by rintro hw; rw [hw] at h'; cases h')]
    exact .some ⟨rfl, hs⟩

/-- The name of an export stands in both texts, or in neither. -/
lemma isAtExportName :
    Parallel F F' fl fl' e e' Eq Grammar.isAtExportName Grammar.isAtExportName := by
  intro s s' hs
  rw [Grammar.run_isAtExportName, Grammar.run_isAtExportName]
  refine .some ⟨?_, hs⟩
  rcases hs.token with ⟨heq, -, -⟩ | ⟨h, h'⟩
  · rw [heq]
  · rw [h, h']

/-- The names that are passed are the same. -/
lemma exportName : Parallel F F' fl fl' e e' Eq Grammar.exportName Grammar.exportName := by
  intro s s' hs
  rw [Grammar.run_exportName, Grammar.run_exportName]
  rcases hs.token with ⟨heq, hname, hnext⟩ | ⟨h, h'⟩
  · obtain ⟨w, hw⟩ := Option.isSome_iff_exists.mp hname
    rw [← heq, hw]
    exact .some ⟨rfl, hnext⟩
  · rw [Token.isName, Option.isSome_eq_false_iff, Option.isNone_iff_eq_none] at h h'
    rw [h, h']
    exact .none

/-- A node differs in its place only. -/
lemma node {ps ps' : List Tree} (h : List.Forall₂ Tree.SameAs ps ps') (f : Form) (n n' : Nat) :
    Parallel F F' fl fl' e e' Tree.SameAs (Parser.node f n ps) (Parser.node f n' ps') :=
  fun _ _ hs => .some ⟨.node h f _ _, hs⟩

/-- The identifiers that are passed are the same, and so are the faults. -/
lemma identifier : Parallel F F' fl fl' e e' Eq Parser.identifier Parser.identifier := by
  intro s s' hs
  have hcontext : s.context = s'.context := by
    obtain ⟨x, t, t', rfl, rfl, -⟩ := hs
    rfl
  -- The same name is an identifier in both texts or in neither; with no name in sight both
  -- parsers fail.
  rcases hs.token with ⟨heq, hname, -⟩ | ⟨h, h'⟩
  · cases htoken : s.token with
    | word w isEscaped =>
        rw [Parser.run_identifier_word s htoken, Parser.run_identifier_word s' (heq ▸ htoken)]
        split_ifs
        · have hcontext := congrArg (Parser.isOperatorWord · w) hcontext
          rw [← hcontext]
          exact .some ⟨rfl, hs.next_flawed hname _⟩
        · exact .none
    | _ =>
        rw [Parser.run_identifier_of_ne s (by simp [htoken]),
          Parser.run_identifier_of_ne s' (by simp [← heq, htoken])]
        exact .none
  · rw [Parser.run_identifier_of_ne s (by rintro w _ hw; rw [hw] at h; cases h),
      Parser.run_identifier_of_ne s' (by rintro w _ hw; rw [hw] at h'; cases h')]
    exact .none

/-- A name that is declared differs in its place only. -/
lemma bindingName (b : Binder) :
    Parallel F F' fl fl' e e' Tree.SameAs (Parser.bindingName b) (Parser.bindingName b) := by
  refine bind place fun n n' _ => bind identifier ?_
  rintro w _ rfl
  exact node .nil _ n n'

/-- A choice by the same test is parallel if its branches are. -/
lemma ite {p q p' q' : Parser α} {R : α → α → Prop} (b : Bool)
    (hp : Parallel F F' fl fl' e e' R p p') (hq : Parallel F F' fl fl' e e' R q q') :
    Parallel F F' fl fl' e e' R (if b = true then p else q) (if b = true then p' else q') := by
  cases b
  · exact hq
  · exact hp

/-- A look behind a word that both stand at. -/
lemma aheadWord (w : Text) {p p' : Parser Bool} (hp : Parallel F F' fl fl' e e' Eq p p') :
    Parallel F F' fl fl' e e' Eq
      (do if ← Parser.isAtWord w then Parser.ahead (do Parser.advance; p) else return false)
      (do if ← Parser.isAtWord w then Parser.ahead (do Parser.advance; p') else return false) := by
  intro s s' hs
  simp only [Parser.run_bind, Parser.run_isAtWord, Option.bind_some]
  rcases hs.token with ⟨heq, -, hnext⟩ | ⟨h, h'⟩
  · rw [← heq]
    -- Ahead of the word the states are beside each other again, and the look ahead brings them
    -- back.
    cases s.token == .word w false
    · exact .some ⟨rfl, hs⟩
    · have h := hp _ _ hnext
      simp only [if_true, Parser.run_ahead, Parser.run_bind, Parser.run_advance, Option.bind_some]
      generalize p s.next = x at h
      generalize p' s'.next = x' at h
      cases h with
      | none => exact .some ⟨rfl, hs⟩
      | some h => exact .some ⟨by simp [h.1], hs⟩
  · rw [not_isAtWord h, not_isAtWord h']
    exact .some ⟨rfl, hs⟩

/-- Whether the word `type` is a modifier is told by names alone. -/
lemma isTypeSpecifier :
    Parallel F F' fl fl' e e' Eq Grammar.isTypeSpecifier Grammar.isTypeSpecifier := by
  refine aheadWord _ (bind (eatWord _) ?_)
  rintro b _ rfl
  refine ite b (bind (eatWord _) ?_) isAtExportName
  rintro b _ rfl
  refine ite b isAtExportName (bind isAtExportName ?_)
  rintro b _ rfl
  exact pure rfl

/-- Behind the word `type`, if it makes a specifier one of a type. -/
lemma passType {k k' : Bool → Parser α} {R : α → α → Prop}
    (hk : ∀ b, Parallel F F' fl fl' e e' R (k b) (k' b)) :
    Parallel F F' fl fl' e e' R
      (Grammar.isTypeSpecifier >>= fun b =>
        if b = true then Parser.advance >>= fun _ => k b else k b)
      (Grammar.isTypeSpecifier >>= fun b =>
        if b = true then Parser.advance >>= fun _ => k' b else k' b) := by
  intro s s' hs
  have h := isTypeSpecifier s s' hs
  obtain ⟨b, hb, htype⟩ := Grammar.run_isTypeSpecifier s
  obtain ⟨b', hb', -⟩ := Grammar.run_isTypeSpecifier s'
  rw [hb, hb'] at h
  obtain rfl : b = b' := by
    cases h with
    | some h => exact h.1
  rw [Parser.run_bind, Parser.run_bind, hb, hb', Option.bind_some, Option.bind_some]
  cases b with
  | false => exact hk false s s' hs
  | true =>
      -- The modifier is passed only where it was found, so the first token is a name.
      have hnext : Beside F F' fl fl' e e' s.next s'.next := by
        rcases hs.token with ⟨-, -, hnext⟩ | ⟨hn, -⟩
        · exact hnext
        · rw [htype rfl] at hn
          cases hn
      exact hk true _ _ hnext

/-- The name of a specifier and the one it declares. -/
lemma namedSpecifier (b : Binder) (isType isText : Bool) (n n' m m' : Nat) :
    Parallel F F' fl fl' e e' Tree.SameAs (Grammar.namedSpecifier b isType isText n m)
      (Grammar.namedSpecifier b isType isText n' m') := by
  refine bind exportName ?_
  rintro imported _ rfl
  refine bind (eatWord _) ?_
  rintro hasAlias _ rfl
  refine ite hasAlias (bind (bindingName _) fun d d' hd => node (.cons hd .nil) _ n n') ?_
  refine bind (require _) fun _ _ _ => bind (node .nil _ m m') fun d d' hd => ?_
  exact node (.cons hd .nil) _ n n'

lemma importSpecifier (b : Binder) :
    Parallel F F' fl fl' e e' Tree.SameAs (Grammar.importSpecifier b)
      (Grammar.importSpecifier b) := by
  rw [Grammar.importSpecifier_eq]
  refine bind place fun n n' _ => passType fun isType => bind place fun m m' _ => ?_
  refine token (fun tok _ => namedSpecifier _ _ _ n n' m m') fun tok tok' h h' => ?_
  rw [Token.isText_of_isName h, Token.isText_of_isName h']
  exact namedSpecifier _ _ _ n n' m m'

end Parallel

end

end ComponentMigration.Script
