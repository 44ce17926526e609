import ComponentMigration.Jsx.Printer
import Mathlib.Computability.StateTransition
import Mathlib.Tactic.Lemma

/-!
The grammar of printed expressions, and why it is unambiguous.

* **Tokens.** A `Token` is an operand, a name or a mark. An `Operand` is what the grammar does
  not look into: a snippet with its class, markup, or a comment. A text `Spells` tokens if it
  is their spellings with spaces between.
* **Trees.** `Parses least ts t` derives the tree `t` from the tokens `ts` in a place that
  demands the class `least`: member accesses and calls, `&&` to the left, `?:`, arrows, `=` to
  the right, and parentheses.
* **Reading.** `Reader.step` reads tokens from left to right. A derivation is a run of it
  (`Parses.reaches`), and a run is determined by its start.
* **Main statement.** `Parses.unique`: tokens have at most one tree.
-/

namespace ComponentMigration

namespace Precedence

lemma le_refl (p : Precedence) : p ≤ p := Nat.le_refl p.rank

lemma le_trans {p q r : Precedence} (h : p ≤ q) (h' : q ≤ r) : p ≤ r := Nat.le_trans h h'

lemma le_of_not_lt {p q : Precedence} (h : ¬ p < q) : q ≤ p := Nat.le_of_not_lt h

/-- The lowest class is demanded of what stands alone. -/
lemma sequence_le (p : Precedence) : sequence ≤ p := Nat.zero_le p.rank

/-- The highest class is that of an access. -/
lemma le_member (p : Precedence) : p ≤ member := by cases p <;> decide

end Precedence

namespace Jsx

/-! ### Tokens -/

/-- What stands in an expression as a whole. -/
inductive Operand where
  | snippet (s : Snippet)
  | markup (n : Node)
  | comment (content : Text)

/-- The class of an operand. -/
def Operand.precedence : Operand → Precedence
  | snippet s => s.precedence
  | markup _ | comment _ => .member

/-- The text of an operand. -/
def Operand.code : Operand → Text
  | snippet s => s.code
  | markup n => n.code
  | comment content => (Expr.comment content).code

/-- A token of an expression. -/
inductive Token where
  | operand (o : Operand)
  | name (text : Text)
  | dot
  | comma
  | semicolon
  | question
  | colon
  | ampersands
  | equals
  | arrow
  | openParen
  | closeParen
  | openBrace
  | closeBrace

/-- The text of a token. -/
def Token.spelling : Token → Text
  | operand o => o.code
  | name text => text
  | dot => ['.']
  | comma => [',']
  | semicolon => [';']
  | question => ['?']
  | colon => [':']
  | ampersands => ['&', '&']
  | equals => ['=']
  | arrow => ['=', '>']
  | openParen => ['(']
  | closeParen => [')']
  | openBrace => ['{']
  | closeBrace => ['}']

/-- A text is the spellings of tokens, with spaces between. -/
inductive Spells : Text → List Token → Prop
  | nil : Spells [] []
  | space {t ts} (h : Spells t ts) : Spells (' ' :: t) ts
  | token {t ts} (k : Token) (h : Spells t ts) : Spells (k.spelling ++ t) (k :: ts)

/-- Token lists with commas between. -/
def separated : List (List Token) → List Token
  | [] => []
  | [ts] => ts
  | ts :: tss => ts ++ .comma :: separated tss

/-- The first of the lists comes first. -/
lemma exists_separated_cons (ts : List Token) (tss : List (List Token)) :
    ∃ us, separated (ts :: tss) = ts ++ us := by
  cases tss with
  | nil => exact ⟨[], (List.append_nil ts).symm⟩
  | cons us uss => exact ⟨_, rfl⟩

/-- The parameters of an arrow function. -/
def parameterTokens (params : List Text) : List Token := separated (params.map ([.name ·]))

/-! ### Trees -/

/-- How an expression is read. -/
inductive Tree where
  | operand (o : Operand)
  | name (text : Text)
  | member (object : Tree) (property : Text)
  | call (callee : Tree) (arguments : List Tree)
  | arrow (params : List Text) (body : Tree)
  | procedure (params : List Text) (statements : List Tree)
  | conditional (test consequent alternate : Tree)
  | logicalAnd (left right : Tree)
  | assign (target value : Tree)
  | parentheses (inner : Tree)

/-- The tree of tokens in a place that demands the class `least`. -/
inductive Parses : Precedence → List Token → Tree → Prop
  | operand {least o} (h : least ≤ o.precedence) : Parses least [.operand o] (.operand o)
  | name {least text} : Parses least [.name text] (.name text)
  | parentheses {least ts t} (h : Parses .sequence ts t) :
      Parses least (.openParen :: ts ++ [.closeParen]) (.parentheses t)
  | member {least ts t property} (h : Parses .member ts t) :
      Parses least (ts ++ [.dot, .name property]) (.member t property)
  | call {least ts t} {arguments : List (List Token × Tree)} (h : Parses .member ts t)
      (harguments : ∀ a ∈ arguments, Parses .assignment a.1 a.2) :
      Parses least (ts ++ .openParen :: separated (arguments.map (·.1)) ++ [.closeParen])
        (.call t (arguments.map (·.2)))
  | logicalAnd {least ls l rs r} (hleast : least ≤ .logicalAnd) (hl : Parses .logicalAnd ls l)
      (hr : Parses .binary rs r) :
      Parses least (ls ++ .ampersands :: rs) (.logicalAnd l r)
  | conditional {least ts t cs c as a} (hleast : least ≤ .conditional)
      (ht : Parses .coalesce ts t) (hc : Parses .assignment cs c) (ha : Parses .assignment as a) :
      Parses least (ts ++ .question :: cs ++ .colon :: as) (.conditional t c a)
  | arrow {least params ts t} (hleast : least ≤ .assignment) (h : Parses .assignment ts t) :
      Parses least (.openParen :: parameterTokens params ++ .closeParen :: .arrow :: ts)
        (.arrow params t)
  | procedure {least params} {statements : List (List Token × Tree)}
      (hleast : least ≤ .assignment)
      (hstatements : ∀ s ∈ statements, Parses .sequence s.1 s.2) :
      Parses least (.openParen :: parameterTokens params ++ .closeParen :: .arrow :: .openBrace ::
          statements.flatMap (fun s => s.1 ++ [.semicolon]) ++ [.closeBrace])
        (.procedure params (statements.map (·.2)))
  | assign {least ts t vs v} (hleast : least ≤ .assignment) (ht : Parses .member ts t)
      (hv : Parses .assignment vs v) :
      Parses least (ts ++ .equals :: vs) (.assign t v)

/-- What is derived in a place can stand in every place that demands less. -/
lemma Parses.weaken {p q : Precedence} {ts : List Token} {t : Tree} (h : Parses q ts t)
    (hpq : p ≤ q) : Parses p ts t := by
  cases h with
  | operand h => exact .operand (Precedence.le_trans hpq h)
  | name => exact .name
  | parentheses h => exact .parentheses h
  | member h => exact .member h
  | call h harguments => exact .call h harguments
  | logicalAnd hleast hl hr => exact .logicalAnd (Precedence.le_trans hpq hleast) hl hr
  | conditional hleast ht hc ha => exact .conditional (Precedence.le_trans hpq hleast) ht hc ha
  | arrow hleast h => exact .arrow (Precedence.le_trans hpq hleast) h
  | procedure hleast hstatements => exact .procedure (Precedence.le_trans hpq hleast) hstatements
  | assign hleast ht hv => exact .assign (Precedence.le_trans hpq hleast) ht hv

/-! ### The first tokens -/

/-- Whether an expression can begin with a token. -/
def Token.Opens : Token → Prop
  | operand _ | name _ | openParen => True
  | _ => False

/-- Whether a token continues an expression in a place that demands the class `least`. -/
def Token.Continues (least : Precedence) : Token → Prop
  | dot | openParen => True
  | ampersands => least ≤ .logicalAnd
  | question => least ≤ .conditional
  | equals => least ≤ .assignment
  | _ => False

instance (least : Precedence) : (c : Token) → Decidable (c.Continues least)
  | .dot | .openParen => isTrue trivial
  | .ampersands => inferInstanceAs (Decidable (least ≤ .logicalAnd))
  | .question => inferInstanceAs (Decidable (least ≤ .conditional))
  | .equals => inferInstanceAs (Decidable (least ≤ .assignment))
  | .operand _ | .name _ | .comma | .semicolon | .colon | .arrow | .closeParen | .openBrace
  | .closeBrace => isFalse id

/-- An expression begins with a token that opens one, and behind a leading name it goes on with
a token that continues one. -/
def Begins (ts : List Token) : Prop :=
  ∃ c cs, ts = c :: cs ∧ c.Opens ∧ ∀ x, c = .name x → ∀ d ∈ cs.head?, d.Continues .sequence

/-- What begins an expression begins a longer one that goes on with an operator. -/
lemma Begins.append {ts us : List Token} (h : Begins ts)
    (hus : ∀ d ∈ us.head?, d.Continues .sequence) : Begins (ts ++ us) := by
  obtain ⟨c, cs, rfl, hc, hcs⟩ := h
  refine ⟨c, cs ++ us, rfl, hc, fun x hx d hd => ?_⟩
  cases cs with
  | nil => exact hus d hd
  | cons e es => exact hcs x hx d hd

/-- Whatever is derived begins as an expression does. -/
lemma Parses.begins {least : Precedence} {ts : List Token} {t : Tree} (h : Parses least ts t) :
    Begins ts := by
  induction h with
  | operand _ => exact ⟨_, _, rfl, trivial, by simp⟩
  | name => exact ⟨_, _, rfl, trivial, by simp⟩
  | parentheses _ _ => exact ⟨_, _, rfl, trivial, by simp⟩
  -- In the other cases the left part begins the whole, and an operator follows it.
  | member _ ih => exact ih.append (by simp [Token.Continues])
  | call _ _ ih _ =>
      rw [List.append_assoc]
      exact ih.append (by simp [Token.Continues])
  | logicalAnd _ _ _ ih _ => exact ih.append (by simp [Token.Continues]; decide)
  | conditional _ _ _ _ ih _ _ =>
      rw [List.append_assoc]
      exact ih.append (by simp [Token.Continues]; decide)
  | arrow _ _ _ => exact ⟨_, _, rfl, trivial, by simp⟩
  | procedure _ _ _ => exact ⟨_, _, rfl, trivial, by simp⟩
  | assign _ _ _ ih _ => exact ih.append (by simp [Token.Continues]; decide)

/-! ### The reader -/

/-- The parameters at the head of some tokens, if an arrow follows them. -/
def arrowHead? : List Token → Option (List Text × List Token)
  | .closeParen :: .arrow :: ts => some ([], ts)
  | .name x :: .closeParen :: .arrow :: ts => some ([x], ts)
  | .name x :: .comma :: ts => (arrowHead? ts).map fun (params, ts) => (x :: params, ts)
  | _ => none

/-- The parameters of an arrow are found as such. -/
lemma arrowHead?_parameterTokens (params : List Text) (ts : List Token) :
    arrowHead? (parameterTokens params ++ .closeParen :: .arrow :: ts) = some (params, ts) := by
  induction params with
  | nil => rfl
  | cons x xs ih =>
      cases xs with
      | nil => rfl
      | cons y ys =>
          have hcons : parameterTokens (x :: y :: ys)
              = .name x :: .comma :: parameterTokens (y :: ys) := rfl
          rw [hcons, List.cons_append, List.cons_append, arrowHead?, ih, Option.map_some]

/-- An expression in parentheses is not the head of an arrow function. -/
lemma Begins.arrowHead?_eq_none {ts rest : List Token} (h : Begins ts)
    (hrest : rest.head? ≠ some .arrow) : arrowHead? (ts ++ .closeParen :: rest) = none := by
  obtain ⟨c, cs, rfl, hc, hcs⟩ := h
  cases c with
  | operand o => rfl
  | openParen => rfl
  -- Only names can be parameters; a name alone needs the arrow, and a longer expression goes on
  -- with an operator, never with a comma.
  | name x =>
      cases cs with
      | nil =>
          cases rest with
          | nil => rfl
          | cons d ds =>
              cases d with
              | arrow => exact absurd rfl hrest
              | _ => rfl
      | cons d ds =>
          have hd := hcs x rfl d rfl
          cases d with
          | dot => rfl
          | openParen => rfl
          | ampersands => rfl
          | question => rfl
          | equals => rfl
          | _ => exact hd.elim
  | _ => exact hc.elim

/-- An expression of which a part has been read. -/
inductive Frame where
  | parentheses
  | argument (callee : Tree) (before : List Tree)
  | right (left : Tree)
  | consequent (test : Tree)
  | alternate (test consequent : Tree)
  | value (target : Tree)
  | body (params : List Text)
  | statement (params : List Text) (before : List Tree)

/-- The class that the next part demands. -/
def Frame.least : Frame → Precedence
  | parentheses | statement _ _ => .sequence
  | argument _ _ | consequent _ | alternate _ _ | value _ | body _ => .assignment
  | right _ => .binary

/-- The class that the innermost frame demands. -/
def leastOf : List Frame → Precedence
  | [] => .sequence
  | f :: _ => f.least

/-- How far tokens have been read: up to the begin of an expression, or up to the end of one
that may go on. -/
inductive Reader where
  | expecting (frames : List Frame) (rest : List Token)
  | holding (t : Tree) (frames : List Frame) (rest : List Token)

namespace Reader

/-- The tree that is held is the next part of the innermost frame. -/
def close (t : Tree) : List Frame → List Token → Option Reader
  | .parentheses :: fs, .closeParen :: ts => some (holding (.parentheses t) fs ts)
  | .argument c before :: fs, .comma :: ts =>
      some (expecting (.argument c (before ++ [t]) :: fs) ts)
  | .argument c before :: fs, .closeParen :: ts => some (holding (.call c (before ++ [t])) fs ts)
  | .right l :: fs, ts => some (holding (.logicalAnd l t) fs ts)
  | .consequent test :: fs, .colon :: ts => some (expecting (.alternate test t :: fs) ts)
  | .alternate test c :: fs, ts => some (holding (.conditional test c t) fs ts)
  | .value target :: fs, ts => some (holding (.assign target t) fs ts)
  | .body params :: fs, ts => some (holding (.arrow params t) fs ts)
  | .statement params before :: fs, .semicolon :: .closeBrace :: ts =>
      some (holding (.procedure params (before ++ [t])) fs ts)
  | .statement params before :: fs, .semicolon :: ts =>
      some (expecting (.statement params (before ++ [t]) :: fs) ts)
  | _, _ => none

/-- The begin of the expression at the head of the tokens. -/
def open? (fs : List Frame) : List Token → Option Reader
  | .operand o :: ts => some (holding (.operand o) fs ts)
  | .name x :: ts => some (holding (.name x) fs ts)
  | .openParen :: ts =>
      match arrowHead? ts with
      | none => some (expecting (.parentheses :: fs) ts)
      | some (params, .openBrace :: .closeBrace :: ts) =>
          some (holding (.procedure params []) fs ts)
      | some (params, .openBrace :: ts) => some (expecting (.statement params [] :: fs) ts)
      | some (params, ts) => some (expecting (.body params :: fs) ts)
  | _ => none

/-- One step further. -/
def step : Reader → Option Reader
  | expecting fs ts => open? fs ts
  | holding t fs (.dot :: .name x :: ts) => some (holding (.member t x) fs ts)
  | holding t fs (.openParen :: .closeParen :: ts) => some (holding (.call t []) fs ts)
  | holding t fs (.openParen :: ts) => some (expecting (.argument t [] :: fs) ts)
  | holding t fs (.ampersands :: ts) =>
      if leastOf fs ≤ .logicalAnd then some (expecting (.right t :: fs) ts)
      else close t fs (.ampersands :: ts)
  | holding t fs (.question :: ts) =>
      if leastOf fs ≤ .conditional then some (expecting (.consequent t :: fs) ts)
      else close t fs (.question :: ts)
  | holding t fs (.equals :: ts) =>
      if leastOf fs ≤ .assignment then some (expecting (.value t :: fs) ts)
      else close t fs (.equals :: ts)
  | holding t fs ts => close t fs ts

/-- A tree is a part of the innermost frame unless the next token continues it. -/
lemma step_holding {t : Tree} {fs : List Frame} {ts : List Token}
    (h : ∀ c ∈ ts.head?, ¬ c.Continues (leastOf fs)) : (holding t fs ts).step = close t fs ts := by
  cases ts with
  | nil => rfl
  | cons c cs =>
      have hc := h c rfl
      cases c with
      | dot => exact absurd trivial hc
      | openParen => exact absurd trivial hc
      | ampersands => exact if_neg hc
      | question => exact if_neg hc
      | equals => exact if_neg hc
      | _ => rfl

end Reader

/-! ### Derivations are runs -/

open StateTransition (Reaches)
open Relation (ReflTransGen)

/-- What may follow an expression of a place that demands the class `least`: nothing that
continues the last part of it. -/
def Ends (least : Precedence) (rest : List Token) : Prop :=
  ∀ c ∈ rest.head?, c ≠ .arrow ∧ (least ≤ .logicalAnd → ¬ c.Continues .binary) ∧
    (least ≤ .conditional → ¬ c.Continues .assignment)

/-- A token ends an operand if it is no operator that could go on with it. -/
lemma ends_cons {least : Precedence} {c : Token} {rest : List Token} (harrow : c ≠ .arrow)
    (hbinary : least ≤ .logicalAnd → ¬ c.Continues .binary)
    (hassignment : least ≤ .conditional → ¬ c.Continues .assignment) : Ends least (c :: rest) := by
  intro d hd
  cases hd
  exact ⟨harrow, hbinary, hassignment⟩

/-- Behind an operand of `&&` less is asked. -/
lemma Ends.binary {least : Precedence} {rest : List Token} (h : Ends least rest) :
    Ends .binary rest := fun c hc => ⟨(h c hc).1, fun h => absurd h (by decide),
      fun h => absurd h (by decide)⟩

/-- Behind the last part of a choice, an arrow or an assignment the same is asked. -/
lemma Ends.assignment {least : Precedence} {rest : List Token} (h : Ends least rest)
    (hle : least ≤ .conditional) : Ends .assignment rest := fun c hc =>
  ⟨(h c hc).1, fun _ => (h c hc).2.1 (Precedence.le_trans hle (by decide)),
    fun _ => (h c hc).2.2 hle⟩

/-- The tokens `ts` are read as `t`, whatever is around them, if they end. -/
def IsRead (least : Precedence) (ts : List Token) (t : Tree) : Prop :=
  ∀ fs rest, leastOf fs ≤ least → Ends least rest →
    Reaches Reader.step (.expecting fs (ts ++ rest)) (.holding t fs rest)

namespace IsRead

variable {least : Precedence} {ts : List Token} {t : Tree} {fs : List Frame} {rest : List Token}

/-- The part of a frame is read and taken into it, if a token follows that continues nothing. -/
lemma reaches_close (h : IsRead least ts t) (fs : List Frame) (hfs : leastOf fs = least)
    (hrest : Ends least rest) (hstop : ∀ c ∈ rest.head?, ¬ c.Continues least) {s : Reader}
    (hs : Reader.close t fs rest = some s) :
    Reaches Reader.step (.expecting fs (ts ++ rest)) s := by
  refine (h fs rest (hfs ▸ Precedence.le_refl _) hrest).tail ?_
  rw [Option.mem_def, Reader.step_holding (by rwa [hfs]), hs]

/-- The part of a frame is read and taken into it, if a mark of the frame follows. -/
lemma reaches_mark (h : IsRead least ts t) (fs : List Frame) (hfs : leastOf fs = least)
    (c : Token) (rest : List Token) (hc : c ≠ .arrow) (hstop : ∀ p, ¬ c.Continues p) {s : Reader}
    (hs : Reader.close t fs (c :: rest) = some s) :
    Reaches Reader.step (.expecting fs (ts ++ c :: rest)) s :=
  h.reaches_close fs hfs (ends_cons hc (fun _ => hstop _) fun _ => hstop _)
    (by simpa using hstop _) hs

/-- The arguments of a call are read one by one, each up to its comma and the last up to the
parenthesis. -/
lemma arguments {c : Tree} {arguments : List (List Token × Tree)} (hne : arguments ≠ [])
    (h : ∀ a ∈ arguments, IsRead .assignment a.1 a.2) (before : List Tree) :
    Reaches Reader.step
      (.expecting (.argument c before :: fs)
        (separated (arguments.map (·.1)) ++ .closeParen :: rest))
      (.holding (.call c (before ++ arguments.map (·.2))) fs rest) := by
  induction arguments generalizing before with
  | nil => exact absurd rfl hne
  -- The last argument is read up to the parenthesis, and every other one up to its comma.
  | cons a as ih =>
      rw [List.forall_mem_cons] at h
      cases as with
      | nil => exact h.1.reaches_mark _ rfl _ _ (by simp) (fun _ => id) rfl
      | cons b bs =>
          have hfirst := h.1.reaches_mark (.argument c before :: fs) rfl .comma
            (separated ((b :: bs).map (·.1)) ++ .closeParen :: rest) (by simp) (fun _ => id) rfl
          have hothers := ih (by simp) h.2 (before ++ [a.2])
          simp only [List.map_cons, separated, List.append_assoc, List.cons_append]
            at hfirst hothers ⊢
          exact hfirst.trans hothers

/-- The statements of a procedure are read one by one, each up to its semicolon. -/
lemma statements {params : List Text} {statements : List (List Token × Tree)}
    (hne : statements ≠ []) (h : ∀ s ∈ statements, IsRead .sequence s.1 s.2 ∧ Begins s.1)
    (before : List Tree) :
    Reaches Reader.step
      (.expecting (.statement params before :: fs)
        (statements.flatMap (fun s => s.1 ++ [.semicolon]) ++ .closeBrace :: rest))
      (.holding (.procedure params (before ++ statements.map (·.2))) fs rest) := by
  induction statements generalizing before with
  | nil => exact absurd rfl hne
  | cons s ss ih =>
      rw [List.forall_mem_cons] at h
      cases ss with
      | nil =>
          rw [List.flatMap_singleton, List.append_assoc]
          exact h.1.1.reaches_mark _ rfl _ _ (by simp) (fun _ => id) rfl
      | cons r rs =>
          have hothers := ih (by simp) h.2 (before ++ [s.2])
          obtain ⟨c, cs, hr, hc, -⟩ := (h.2 r (by simp)).2
          -- the next statement does not begin with the brace that ends them
          have hfirst := h.1.1.reaches_mark (.statement params before :: fs) rfl .semicolon
            ((r :: rs).flatMap (fun s => s.1 ++ [.semicolon]) ++ .closeBrace :: rest)
            (s := .expecting (.statement params (before ++ [s.2]) :: fs)
              ((r :: rs).flatMap (fun s => s.1 ++ [.semicolon]) ++ .closeBrace :: rest))
            (by simp) (fun _ => id) (by
              rw [List.flatMap_cons, hr]
              cases c <;> first | rfl | exact hc.elim)
          simp only [List.flatMap_cons, List.map_cons, List.append_assoc, List.cons_append,
            List.nil_append] at hfirst hothers ⊢
          exact hfirst.trans hothers

/-- An expression in parentheses is no head of an arrow, and so is read as what it is. -/
lemma parentheses (h : IsRead .sequence ts t) (hts : Begins ts) :
    IsRead least (.openParen :: ts ++ [.closeParen]) (.parentheses t) := by
  intro fs rest _ hrest
  have harrow : rest.head? ≠ some .arrow := fun h => (hrest _ h).1 rfl
  have hopen : Reader.step (.expecting fs (.openParen :: ts ++ [.closeParen] ++ rest))
      = some (.expecting (.parentheses :: fs) (ts ++ .closeParen :: rest)) := by
    simp only [List.cons_append, List.append_assoc, List.nil_append, Reader.step,
      Reader.open?, hts.arrowHead?_eq_none harrow]
  exact .head hopen (h.reaches_mark _ rfl _ _ (by simp) (fun _ => id) rfl)

/-- An access is read behind what is accessed. -/
lemma member {property : Text} (h : IsRead .member ts t) :
    IsRead least (ts ++ [.dot, .name property]) (.member t property) := by
  intro fs rest _ _
  rw [List.append_assoc]
  exact .tail (h fs _ (Precedence.le_member _) (ends_cons (by simp) (by decide) (by decide))) rfl

/-- A call is read behind what is called. -/
lemma call {arguments : List (List Token × Tree)} (h : IsRead .member ts t)
    (harguments : ∀ a ∈ arguments, IsRead .assignment a.1 a.2 ∧ Begins a.1) :
    IsRead least (ts ++ .openParen :: separated (arguments.map (·.1)) ++ [.closeParen])
      (.call t (arguments.map (·.2))) := by
  intro fs rest _ _
  have hcallee := h fs (.openParen :: (separated (arguments.map (·.1)) ++ .closeParen :: rest))
    (Precedence.le_member _) (ends_cons (by simp) (by decide) (by decide))
  rw [List.append_assoc, List.append_assoc]
  cases arguments with
  | nil => exact hcallee.tail rfl
  | cons a as =>
      have hstep : Reader.step (.holding t fs
          (.openParen :: (separated ((a :: as).map (·.1)) ++ .closeParen :: rest)))
          = some (.expecting (.argument t [] :: fs)
            (separated ((a :: as).map (·.1)) ++ .closeParen :: rest)) := by
        -- the first argument does not begin with the parenthesis that ends them
        obtain ⟨c, cs, ha, hc, -⟩ := (harguments a (by simp)).2
        obtain ⟨us, hus⟩ := exists_separated_cons a.1 (as.map (·.1))
        rw [List.map_cons, hus, ha]
        cases c <;> first | rfl | exact hc.elim
      exact (hcallee.tail hstep).trans
        (IsRead.arguments (by simp) (fun a ha => (harguments a ha).1) [])

/-- Behind the left operand the operator is told from the end of an operand by the class demanded.
-/
lemma logicalAnd {ls rs : List Token} {l r : Tree} (hleast : least ≤ .logicalAnd)
    (hl : IsRead .logicalAnd ls l) (hr : IsRead .binary rs r) :
    IsRead least (ls ++ .ampersands :: rs) (.logicalAnd l r) := by
  intro fs rest hfs hrest
  rw [List.append_assoc, List.cons_append]
  have hleft := hl fs (.ampersands :: (rs ++ rest)) (Precedence.le_trans hfs hleast)
    (ends_cons (by simp) (by decide) (by decide))
  have hstep : Reader.step (.holding l fs (.ampersands :: (rs ++ rest)))
      = some (.expecting (.right l :: fs) (rs ++ rest)) :=
    if_pos (Precedence.le_trans hfs hleast)
  have hright := hr.reaches_close (.right l :: fs) rfl hrest.binary
    (fun c hc => (hrest c hc).2.1 hleast) rfl
  exact (hleft.tail hstep).trans hright

/-- The parts of a conditional are told apart by their marks. -/
lemma conditional {cs as : List Token} {c a : Tree} (hleast : least ≤ .conditional)
    (ht : IsRead .coalesce ts t) (hc : IsRead .assignment cs c) (ha : IsRead .assignment as a) :
    IsRead least (ts ++ .question :: cs ++ .colon :: as) (.conditional t c a) := by
  intro fs rest hfs hrest
  simp only [List.append_assoc, List.cons_append]
  have htest := ht fs (.question :: (cs ++ .colon :: (as ++ rest)))
    (Precedence.le_trans (Precedence.le_trans hfs hleast) (by decide))
    (ends_cons (by simp) (by decide) (by decide))
  have hstep : Reader.step (.holding t fs (.question :: (cs ++ .colon :: (as ++ rest))))
      = some (.expecting (.consequent t :: fs) (cs ++ .colon :: (as ++ rest))) :=
    if_pos (Precedence.le_trans hfs hleast)
  have hconsequent := hc.reaches_mark (.consequent t :: fs) rfl .colon (as ++ rest)
    (by simp) (fun _ => id) rfl
  have halternate := ha.reaches_close (.alternate t c :: fs) rfl
    (hrest.assignment hleast) (fun c hc => (hrest c hc).2.2 hleast) rfl
  exact ((htest.tail hstep).trans hconsequent).trans halternate

/-- The body of an arrow goes as far as an assignment does. -/
lemma arrow {params : List Text} (hleast : least ≤ .assignment) (h : IsRead .assignment ts t)
    (hts : Begins ts) :
    IsRead least (.openParen :: parameterTokens params ++ .closeParen :: .arrow :: ts)
      (.arrow params t) := by
  intro fs rest _ hrest
  have hopen : Reader.step (.expecting fs
      (.openParen :: parameterTokens params ++ .closeParen :: .arrow :: ts ++ rest))
      = some (.expecting (.body params :: fs) (ts ++ rest)) := by
    obtain ⟨c, cs, rfl, hc, -⟩ := hts
    simp only [List.cons_append, List.append_assoc, Reader.step, Reader.open?,
      arrowHead?_parameterTokens]
    cases c <;> first | rfl | exact hc.elim
  have hle : least ≤ .conditional := Precedence.le_trans hleast (by decide)
  exact .head hopen (h.reaches_close (.body params :: fs) rfl
    (hrest.assignment hle) (fun c hc => (hrest c hc).2.2 hle) rfl)

/-- A procedure is its parameters and its statements, if it has any. -/
lemma procedure {params : List Text} {statements : List (List Token × Tree)}
    (h : ∀ s ∈ statements, IsRead .sequence s.1 s.2 ∧ Begins s.1) :
    IsRead least (.openParen :: parameterTokens params ++ .closeParen :: .arrow :: .openBrace ::
        statements.flatMap (fun s => s.1 ++ [.semicolon]) ++ [.closeBrace])
      (.procedure params (statements.map (·.2))) := by
  intro fs rest _ _
  cases statements with
  | nil =>
      refine .single ?_
      simp only [List.cons_append, List.append_assoc, List.flatMap_nil, List.nil_append,
        Reader.step, Reader.open?, arrowHead?_parameterTokens]
      rfl
  | cons s ss =>
      refine .head ?_ (IsRead.statements (by simp) h [])
      obtain ⟨c, cs, hs, hc, -⟩ := (h s (by simp)).2
      simp only [List.cons_append, List.append_assoc, Reader.step, Reader.open?,
        arrowHead?_parameterTokens, List.flatMap_cons, hs]
      cases c <;> first | rfl | exact hc.elim

/-- The value of an assignment goes as far as an assignment does. -/
lemma assign {vs : List Token} {v : Tree} (hleast : least ≤ .assignment)
    (ht : IsRead .member ts t) (hv : IsRead .assignment vs v) :
    IsRead least (ts ++ .equals :: vs) (.assign t v) := by
  intro fs rest hfs hrest
  rw [List.append_assoc, List.cons_append]
  have htarget := ht fs (.equals :: (vs ++ rest)) (Precedence.le_member _)
    (ends_cons (by simp) (by decide) (by decide))
  have hstep : Reader.step (.holding t fs (.equals :: (vs ++ rest)))
      = some (.expecting (.value t :: fs) (vs ++ rest)) :=
    if_pos (Precedence.le_trans hfs hleast)
  have hle : least ≤ .conditional := Precedence.le_trans hleast (by decide)
  have hvalue := hv.reaches_close (.value t :: fs) rfl (hrest.assignment hle)
    (fun c hc => (hrest c hc).2.2 hle) rfl
  exact (htarget.tail hstep).trans hvalue

end IsRead

/-- Every derivation is a run of the reader. -/
lemma Parses.isRead {least : Precedence} {ts : List Token} {t : Tree} (h : Parses least ts t) :
    IsRead least ts t := by
  induction h with
  | operand _ => exact fun fs rest _ _ => .single rfl
  | name => exact fun fs rest _ _ => .single rfl
  | parentheses h ih => exact ih.parentheses h.begins
  | member _ ih => exact ih.member
  | call _ harguments ih iharguments =>
      exact ih.call fun a ha => ⟨iharguments a ha, (harguments a ha).begins⟩
  | logicalAnd hleast _ _ ihl ihr => exact .logicalAnd hleast ihl ihr
  | conditional hleast _ _ _ iht ihc iha => exact .conditional hleast iht ihc iha
  | arrow hleast h ih => exact .arrow hleast ih h.begins
  | procedure _ hstatements ih =>
      exact .procedure fun s hs => ⟨ih s hs, (hstatements s hs).begins⟩
  | assign hleast _ _ iht ihv => exact .assign hleast iht ihv

/-- **The grammar is unambiguous**: tokens have at most one tree, in whatever place. -/
theorem Parses.unique {p q : Precedence} {ts : List Token} {t u : Tree} (ht : Parses p ts t)
    (hu : Parses q ts u) : t = u := by
  have hall : ∀ {p t}, Parses p ts t →
      .holding t [] [] ∈ StateTransition.eval Reader.step (.expecting [] ts) := by
    intro p t h
    have hrun := h.isRead [] [] (Precedence.sequence_le p) (by simp [Ends])
    rw [List.append_nil] at hrun
    exact StateTransition.mem_eval.mpr ⟨hrun, rfl⟩
  have heq := Part.mem_unique (hall ht) (hall hu)
  cases heq
  rfl

end Jsx

end ComponentMigration
