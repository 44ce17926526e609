import ComponentMigration.Proofs.Script.Splice

/-!
Operands without operators.

* **Runs.** A token with which a primary expression begins, and nothing else, `IsHead`; a token
  with which nothing goes on, `Closes`, or nothing but an assignment, `IsEnd`. Between the two a
  chain is the whole operand (`run_operand`), assignment (`run_assignment`) and expression
  (`run_expression`).
* **Links.** `run_nextLink?_dot` and `run_nextLink?_bracket` are the accesses of a chain, by name
  and in brackets.
* **Tokens.** `Heads` is a token with nothing in front of it, `IsGap` what may stand there. Words,
  dots, brackets, numbers and strings are read up to any text with which they do not go on.
-/

namespace ComponentMigration.Script

open Text Script.Parser

/-! ### Operands without operators -/

/-- The words that an expression looks for at its head. -/
def headWords : List Text := List.map String.toList [
  "async", "await", "yield", "typeof", "void", "delete", "super", "import", "new"]

/-- A name that is no operator at the head of an expression. -/
structure IsPlainName (w : Text) : Prop extends IsIdentifier w where
  isPlain : w ∉ headWords

/-- A token with which a primary expression begins, and nothing else. -/
structure Token.IsHead (tok : Token) : Prop where
  notPunctuator : ∀ p, tok ≠ .punctuator p
  notPrivate : ∀ w, tok ≠ .privateWord w
  notWord : ∀ w ∈ headWords, tok ≠ .word w false

/-- A token with which no expression goes on. -/
def Token.Closes (tok : Token) : Prop :=
  tok = .endOfText ∨ tok = .punctuator "]" ∨ tok = .punctuator ";"

/-- A token with which nothing goes on but an assignment. -/
def Token.IsEnd (tok : Token) : Prop := tok.Closes ∨ tok = .punctuator "="

/-- An identifier is no reserved word. -/
lemma IsIdentifier.not_isReserved {w : Text} (h : IsIdentifier w) : ¬ isReserved w = true := by
  simpa [isIdentifierWord] using h.isFree

/-- A plain name begins a primary expression, and nothing else. -/
lemma IsPlainName.isHead {w : Text} (h : IsPlainName w) : (Token.word w false).IsHead :=
  ⟨by simp, by simp, fun v hv heq => h.isPlain ((Token.word.inj heq).1 ▸ hv)⟩

namespace Token.IsHead

variable {s : State}

/-- At a head no punctuator is found. -/
lemma isAt (h : s.token.IsHead) (p : Text) : Parser.isAt p s = some (false, s) := by
  rw [run_isAt, beq_eq_false_iff_ne.mpr (h.notPunctuator p)]

/-- At a head none of some punctuators is found. -/
lemma isAtAny (h : s.token.IsHead) (ps : List Text) : Parser.isAtAny ps s = some (false, s) := by
  rw [run_isAtAny]
  cases htoken : s.token with
  | punctuator p => exact absurd htoken (h.notPunctuator p)
  | _ => rfl

/-- At a head none of the words is found that an expression looks for. -/
lemma isAtWord (h : s.token.IsHead) {w : Text} (hw : w ∈ headWords) :
    Parser.isAtWord w s = some (false, s) := by
  rw [run_isAtWord, beq_eq_false_iff_ne.mpr (h.notWord w hw)]

lemma eatWord (h : s.token.IsHead) {w : Text} (hw : w ∈ headWords) :
    Parser.eatWord w s = some (false, s) := by
  rw [run_eatWord, if_neg (h.notWord w hw)]

lemma isAtAnyWord (h : s.token.IsHead) (ws : List Text) (hws : ws ⊆ headWords) :
    Parser.isAtAnyWord ws s = some (false, s) := by
  simp only [Parser.isAtAnyWord, run_bind, run_get, Option.bind_some]
  cases htoken : s.token with
  | word w isEscaped =>
      cases isEscaped with
      | true => rfl
      | false =>
          have hw : w ∉ ws := fun hmem => h.notWord w (hws hmem) htoken
          simp [hw]
  | _ => rfl

end Token.IsHead

namespace Grammar

variable {G : Grammar} {s s' : State}

section Head

variable (h : s.token.IsHead)
include h

/-- At a head no `yield` begins. -/
lemma run_startsYield : startsYield s = some (false, s) := by
  simp only [startsYield, run_bind, h.isAtWord (w := "yield") (by decide), Option.bind_some,
    Bool.false_eq_true, if_false, run_pure]

/-- At a head no `await` begins. -/
lemma run_startsAwait : startsAwait s = some (false, s) := by
  simp only [startsAwait, run_bind, h.isAtWord (w := "await") (by decide), Option.bind_some,
    Bool.false_eq_true, if_false, run_pure]

/-- At a head no asynchronous arrow function begins. -/
lemma run_startsAsyncArrow : startsAsyncArrow s = some (false, s) := by
  simp only [startsAsyncArrow, run_bind, h.isAtWord (w := "async") (by decide), Option.bind_some,
    Bool.false_eq_true, if_false, run_pure]

/-- At a head no prefix operator stands. -/
lemma run_startsUnary : startsUnary s = some (false, s) := by
  simp only [startsUnary, run_bind, h.isAtAny, h.isAtAnyWord unaryWords (by decide),
    run_startsAwait h, Option.bind_some, run_pure, Bool.or_false]

/-- At a head no arrow function begins. -/
lemma run_arrowFunction? (b : Bool) : arrowFunction? G b s = some (none, s) := by
  have hlikelihood : arrowLikelihood s = some (.excluded, s) := by
    simp only [arrowLikelihood, run_bind, run_get, h.eatWord (w := "async") (by decide),
      Option.bind_some, run_isFresh, Bool.false_and, Bool.false_eq_true, if_false, h.isAt]
    rfl
  simp only [arrowFunction?, run_bind, hlikelihood, Option.bind_some, run_pure]

/-- At a head a chain begins with a primary expression. -/
lemma run_chainHead : chainHead G s = primary G s := by
  simp only [chainHead, run_bind, run_place, h.eatWord (w := "super") (by decide),
    h.isAtWord (w := "import") (by decide), h.isAtWord (w := "new") (by decide), Option.bind_some,
    Bool.false_eq_true, if_false]

/-- At a head an operand without a prefix operator begins. -/
lemma run_unary : unary G s = update G s := by
  simp only [unary, run_bind, run_place, h.isAtAny, h.isAtAnyWord unaryWords (by decide),
    run_startsAwait h, h.isAt, Option.bind_some, Bool.or_false, Bool.false_eq_true, if_false]

end Head

section End

variable (h : s.token.IsEnd)
include h

/-- An operator that is none of the ends does not stand there. -/
lemma isAtAny_of_isEnd (ps : List Text) (hps : ∀ p ∈ [[']'], [';'], ['=']], p ∉ ps) :
    isAtAny ps s = some (false, s) := by
  simp only [List.forall_mem_cons, List.not_mem_nil, false_imp_iff, implies_true, and_true] at hps
  rw [run_isAtAny]
  rcases h with (h | h | h) | h
  · rw [h]
  · simpa [h] using hps.1
  · simpa [h] using hps.2.1
  · simpa [h] using hps.2.2

/-- At an end no link follows. -/
lemma run_nextLink?_of_isEnd (start : Nat) (c : Chain) :
    nextLink? G start c s = some (none, s) := by
  have haccess : nextAccess? G start c s = some (none, s) := by
    rcases h with (h | h | h) | h
    · simp [nextAccess?, h]
    all_goals simp [nextAccess?, h, startsOptionalAccess, callTypeArguments?, run_isAtAny]
  rcases h with (h | h | h) | h <;> simp [nextLink?, haccess, h]

/-- At an end no operation follows. -/
lemma run_nextOperation?_of_isEnd (start least : Nat) (left : LeftOperand) :
    nextOperation? G start least left s = some (none, s) := by
  have hjoin : joinAngle s = some ((), s) := by
    change some ((), if s.token == .punctuator [ '>' ] then _ else s) = _
    rcases h with (h | h | h) | h <;> simp [h]
  have hrank : operatorRank? s = some (none, s) := by
    rcases h with (h | h | h) | h <;>
      simp only [operatorRank?, run_bind, run_get, Option.bind_some, h] <;> rfl
  simp only [nextOperation?, run_bind, hjoin, hrank, Option.bind_some, run_pure]

end End

/-- A loop whose step does not go on. -/
lemma run_repeatWhile_of_none {α : Type} {step : α → Parser (Option α)} {a : α}
    (h : step a s = some (none, s)) (hbound : 0 < s.bound) :
    repeatWhile step a s = some (a, s) := by
  obtain ⟨n, hn⟩ := Nat.exists_eq_succ_of_ne_zero hbound.ne'
  simp [repeatWhile, hn, repeatUpTo, h]

section Chain

variable {e : Tree} (h : s.token.IsHead) (hchain : chain G s = some (e, s'))
  (h' : s'.token.IsEnd)
include h hchain h'

/-- A chain in front of an end is the whole operand. -/
lemma run_operand (hbound : 0 < s'.bound) (least : Nat) :
    operand G least s = some (e, s') := by
  have hupdate : update G s = some (e, s') := by
    simp only [update, run_bind, run_place, h.isAtAny, Option.bind_some, Bool.false_eq_true,
      if_false, hchain, isAtAny_of_isEnd h' ["++", "--"] (by decide), run_isFresh,
      Bool.false_and, run_pure]
  have hloop := run_repeatWhile_of_none (run_nextOperation?_of_isEnd (G := G) h' s.start least
    (e, false)) hbound
  simp only [operand, run_bind, run_place, run_startsUnary h, Option.bind_some, run_token]
  cases htoken : s.token with
  | privateWord w => exact absurd htoken (h.notPrivate w)
  | _ => simp only [run_bind, run_unary h, hupdate, Option.bind_some, hloop, run_pure]

/-- What an assignment begins with. -/
lemma run_assignment (hbound : 0 < s'.bound) (b : Bool) :
    assignment G b s = assignmentFrom G s.start e b s' := by
  simp only [assignment, run_bind, run_place, run_startsYield h, Option.bind_some,
    Bool.false_eq_true, if_false, run_arrowFunction? h, run_startsAsyncArrow h,
    run_operand h hchain h' hbound]

end Chain

/-- Without an operator the operand is the whole. -/
lemma run_assignmentFrom_of_closes (h : s.token.Closes) (start : Nat) (e : Tree) (b : Bool) :
    assignmentFrom G start e b s = some (e, s) := by
  rcases h with h | h | h
  · simp [assignmentFrom, h, conditional]
  · simp [assignmentFrom, h, conditional, show [']'] ∉ assignmentOperators by decide]
  · simp [assignmentFrom, h, conditional, show [';'] ∉ assignmentOperators by decide]

/-- At a sign of equality the operand is assigned to. -/
lemma run_assignmentFrom_of_equals (h : s.token = .punctuator "=") (start : Nat) (e : Tree)
    (b : Bool) : assignmentFrom G start e b s = assignTo G start e "=" b s := by
  simp [assignmentFrom, h, show ['='] ∈ assignmentOperators by decide]

/-- What stands in front of the sign is assigned what stands behind it. -/
lemma run_assignTo {e v : Tree} {b : Bool} (he : toTarget? e = some e)
    (hv : G (.assignment b) s.next = some (v, s')) (start : Nat) :
    assignTo G start e "=" b s
      = some (.node (.assignment "=") ⟨start, s'.lastStop⟩ [e, v], s') := by
  simp only [assignTo, BEq.rfl, if_true, he, run_bind, run_advance, Option.bind_some, hv, run_node]

/-! ### Contexts -/

/-- A context that does not change leaves the parser as it is. -/
lemma run_within {α : Type} {change : Context → Context} (hs : change s.context = s.context)
    (p : Parser α) : within change p s
      = (p s).map fun x => (x.1, { x.2 with context := s.context }) := by
  have hchange : { s with context := change s.context } = s := by rw [hs]
  have hmodify : (modify fun s => { s with context := change s.context } : Parser Unit) s
      = some ((), s) := congrArg (fun s => some ((), s)) hchange
  simp only [within, run_bind, run_get, Option.bind_some, hmodify]
  cases p s <;> rfl

/-- An assignment that no comma follows is the whole expression. -/
lemma run_expression {e : Tree} (hs : s.context = {}) (hs' : s'.context = {})
    (h : assignment G true s = some (e, s')) (hcomma : s'.token ≠ .punctuator ",")
    (hbound : 0 < s'.bound) : expression G s = some (e, s') := by
  have hloop : repeatWhile (fun (found : List Tree) => do
      if ← eat "," then return some ((← G (.assignment true)) :: found) else return none)
      [e] s' = some ([e], s') := by
    refine run_repeatWhile_of_none ?_ hbound
    rw [run_bind, run_eat, if_neg hcomma, Option.bind_some]
    rfl
  have hcontext : { s' with context := s.context } = s' := by rw [hs, ← hs']
  rw [expression, run_bind, run_place, Option.bind_some, run_within (by rw [hs]), run_bind, h,
    Option.bind_some, run_bind, hloop]
  simp [hcontext]

/-! ### Links -/

/-- The access to a property by its name. -/
lemma run_nextLink?_dot {w : Text} {isEscaped : Bool} (h : s.token = .punctuator ".")
    (h' : s.next.token = .word w isEscaped) (start : Nat) (t : Tree) (b : Bool) :
    nextLink? G start (t, b) s
      = some (some (.node (.member w) ⟨start, s.next.next.lastStop⟩ [t], b), s.next.next) := by
  simp [nextLink?, nextAccess?, h, memberName, h', name]

/-- The access to a property in brackets. -/
lemma run_nextLink?_bracket {i : Tree} (h : s.token = .punctuator "[") (hs : s.context = {})
    (hi : G .expression s.next = some (i, s')) (hs' : s'.context = {})
    (h' : s'.token = .punctuator "]") (start : Nat) (t : Tree) (b : Bool) :
    nextLink? G start (t, b) s
      = some (some (.node .access ⟨start, s'.next.lastStop⟩ [t, i], b), s'.next) := by
  have hnext : s.next.context = {} := hs
  have hcontext : { s' with context := s.next.context } = s' := by rw [hnext, ← hs']
  have hindex : within Context.inBrackets (G .expression) s.next = some (i, s') := by
    rw [run_within (by rw [hnext]; rfl), hi, Option.map_some, hcontext]
  simp [nextLink?, nextAccess?, h, startsOptionalAccess, memberIndex, hindex, h', hs]

/-! ### Heads of chains -/

/-- A token that is an expression by itself is passed. -/
lemma run_chain_literal {f : Form} (h : s.token.IsHead)
    (hprimary : primary G s = literal f s) (h' : s.next.token.IsEnd)
    (hbound : 0 < s.next.bound) :
    chain G s = some (.node f ⟨s.start, s.next.lastStop⟩ [], s.next) := by
  have hloop := run_repeatWhile_of_none (run_nextLink?_of_isEnd (G := G) h' s.start
    (.node f ⟨s.start, s.next.lastStop⟩ [], false)) hbound
  simp only [chain, run_bind, run_place, Option.bind_some, run_chainHead h, hprimary, literal,
    run_advance, run_node, hloop, run_pure, Chain.close, Bool.false_eq_true, if_false]

/-- A plain name is a reference. -/
lemma run_chainHead_name {w : Text} (h : s.token = .word w false) (hw : IsPlainName w) :
    chainHead G s
      = some (.node (.reference w .value none) ⟨s.start, s.next.lastStop⟩ [], s.next) := by
  have hhead : s.token.IsHead := h ▸ hw.isHead
  have hword : ∀ v, isReserved v = true → isAtWord v s = some (false, s) := fun v hv => by
    rw [run_isAtWord, h, beq_eq_false_iff_ne.mpr fun heq => ?_]
    obtain rfl := (Token.word.inj heq).1
    exact hw.not_isReserved hv
  have hvalue : isAtAnyWord valueWords s = some (false, s) := by
    have hmem : w ∉ valueWords := fun hmem => hw.not_isReserved <|
      (show ∀ v ∈ valueWords, isReserved v = true by decide) w hmem
    simp [isAtAnyWord, h, hmem]
  have hasync : startsAsyncFunction s = some (false, s) := by
    simp only [startsAsyncFunction, run_bind, hhead.isAtWord (w := "async") (by decide),
      Option.bind_some, Bool.false_eq_true, if_false, run_pure]
  have hflawed : isOperatorWord s.context w = false := by
    have hawait : w ≠ "await".toList := fun heq => hw.isPlain (by rw [heq]; decide)
    have hyield : w ≠ "yield".toList := fun heq => hw.isPlain (by rw [heq]; decide)
    rw [isOperatorWord, beq_eq_false_iff_ne.mpr hawait, beq_eq_false_iff_ne.mpr hyield,
      Bool.false_and, Bool.false_and, Bool.or_false]
  have hidentifier : identifier s = some (w, s.next) := by
    rw [run_identifier_word s h, if_pos hw.isFree, hflawed, Bool.or_false]
  have hprimary : primary G s = wordExpression G s := by
    simp only [primary, run_bind, run_place, run_token, Option.bind_some, h]
  rw [run_chainHead hhead, hprimary]
  simp only [wordExpression, run_bind, run_place, Option.bind_some, hvalue, Bool.false_eq_true,
    if_false, hword "function" rfl, hword "class" rfl, hasync, referenceName, hidentifier, run_node]

end Grammar

/-! ### Tokens in front of any text -/

/-- White space and comments that can stand between two tokens. -/
def IsGap (g : Text) : Prop := ∃ fresh, Gap .space false g fresh

/-- A text begins with a token, and nothing stands in front of it. -/
def Heads (t : Text) (tok : Token) (r : Text) : Prop :=
  IsToken t ∧ ∃ w, t = w ++ r ∧ Lexeme.read t = ⟨tok, byteLength w, r⟩

lemma isGap_nil : IsGap [] := ⟨false, .nil⟩

lemma isGap_space : IsGap [' '] := ⟨false, .space rfl (by decide) .nil⟩

/-- At the end of the text a name ends. -/
lemma endsName_nil : EndsName [] := by simp [EndsName]

/-- Neither a word nor a number goes on with a text. -/
def EndsKey (r : Text) : Prop :=
  ∀ c ∈ r.head?, c ≠ '\\' ∧ isNamePart c = false ∧ isNameStart c = false ∧ c ≠ '.'

/-- What ends a number ends a name. -/
lemma EndsKey.endsName {r : Text} (h : EndsKey r) : EndsName r := fun c hc =>
  ⟨(h c hc).1, (h c hc).2.1⟩

/-- Nothing goes on with a gap, unless the gap is empty. -/
lemma IsGap.eq_nil_or {g : Text} (h : IsGap g) : g = [] ∨ ∀ t, EndsKey (g ++ t) := by
  have hends : ∀ {c : Char} {g : Text}, c ≠ '\\' ∧ isNamePart c = false ∧ isNameStart c = false ∧
      c ≠ '.' → ∀ t, EndsKey (c :: g ++ t) := by
    rintro c g hc t _ ⟨rfl⟩
    exact hc
  obtain ⟨fresh, hgap⟩ := h
  cases hgap with
  | nil => exact .inl rfl
  | lineEnd hc _ =>
      refine .inr (hends ?_)
      simp only [isLineEnd, Bool.or_eq_true, beq_iff_eq, or_assoc] at hc
      rcases hc with rfl | rfl | rfl | rfl <;> decide +kernel
  | space _ hc _ =>
      refine .inr (hends (of_isSpace (P := fun c => c ≠ '\\' ∧ isNamePart c = false ∧
        isNameStart c = false ∧ c ≠ '.') hc (by decide +kernel)))
  | openLine _ => exact .inr (hends (by decide))
  | openBlock _ => exact .inr (hends (by decide))

/-- A gap in front of what ends a name ends it, too. -/
lemma EndsName.gap {g t : Text} (h : EndsName t) (hg : IsGap g) : EndsName (g ++ t) := by
  obtain rfl | hends := hg.eq_nil_or
  · exact h
  · exact (hends t).endsName

/-- A gap in front of what ends a number ends it, too. -/
lemma EndsKey.gap {g t : Text} (h : EndsKey t) (hg : IsGap g) : EndsKey (g ++ t) := by
  obtain rfl | hends := hg.eq_nil_or
  · exact h
  · exact hends t

/-- What holds of the code points of digits holds of every digit. -/
lemma of_isDigit {P : Char → Prop} {c : Char} (hc : isDigit c = true)
    (h : ∀ n, 48 ≤ n → n ≤ 57 → P (Char.ofNat n)) : P c := by
  rw [isDigit, Bool.and_eq_true, decide_eq_true_eq, decide_eq_true_eq] at hc
  rw [← Char.ofNat_toNat c]
  exact h c.toNat hc.1 hc.2

lemma isNamePart_of_isDigit {c : Char} (h : isDigit c = true) : isNamePart c = true :=
  of_isDigit (P := fun c => isNamePart c = true) h fun n hn hn' => by interval_cases n <;> decide

lemma isNameStart_of_isDigit {c : Char} (h : isDigit c = true) : isNameStart c = false :=
  of_isDigit (P := fun c => isNameStart c = false) h fun n hn hn' => by interval_cases n <;> decide

namespace Heads

variable {g t r w : Text} {tok : Token}

/-- Behind a gap the token is shown. -/
lemma shows (h : Heads t tok r) (hg : IsGap g) : ∃ fresh, Shows (g ++ t) tok fresh r := by
  obtain ⟨htoken, w, rfl, hread⟩ := h
  obtain ⟨fresh, hgap⟩ := hg
  exact ⟨fresh, g, w, rfl, hgap, htoken, hread⟩

/-- A word is a token in front of what ends a name. -/
lemma word (hw : IsWord w) (hr : EndsName r) : Heads (w ++ r) (.word w false) r := by
  refine ⟨?_, w, rfl, read_name hw hr⟩
  cases w with
  | nil => cases hw.start
  | cons c w =>
      have hparts := hw.parts
      rw [List.all_cons, Bool.and_eq_true] at hparts
      exact isToken_cons_of_isNamePart hparts.1

lemma openBracket (r : Text) : Heads ('[' :: r) (.punctuator "[") r :=
  ⟨⟨rfl, by decide, by simp⟩, ['['], rfl, rfl⟩

lemma closeBracket (r : Text) : Heads (']' :: r) (.punctuator "]") r :=
  ⟨⟨rfl, by decide, by simp⟩, [']'], rfl, rfl⟩

lemma equals (r : Text) : Heads ('=' :: ' ' :: r) (.punctuator "=") (' ' :: r) :=
  ⟨⟨rfl, by decide, by simp⟩, ['='], rfl, rfl⟩

/-- A dot is a token if neither a number nor a longer token begins with it. -/
lemma dot (h : ∀ c ∈ r.head?, c ≠ '.' ∧ isDigit c = false) :
    Heads ('.' :: r) (.punctuator ".") r := by
  refine ⟨⟨rfl, by decide, by simp⟩, ['.'], rfl, ?_⟩
  cases r with
  | nil => rfl
  | cons c r =>
      obtain ⟨hdot, hdigit⟩ := h c rfl
      have hfind : punctuators.find? (startsWith ('.' :: c :: r) ·) = some ['.'] := by
        simp [punctuators, startsWith, List.isPrefixOf, hdot.symm]
      have hread : Lexeme.read ('.' :: c :: r) = Lexeme.punctuator ('.' :: c :: r) := by
        rw [Lexeme.read]
        simp [hdigit, show isNameStart '.' = false from rfl, show isDigit '.' = false from rfl]
      rw [hread, Lexeme.punctuator, hfind]
      rfl

/-- A dot in front of a word, with a gap between them. -/
lemma dot_word (hg : IsGap g) (hw : IsWord w) (r : Text) :
    Heads ('.' :: (g ++ (w ++ r))) (.punctuator ".") (g ++ (w ++ r)) := by
  refine dot fun c hc => ?_
  have hdigit : ∀ d, isNamePart d = false ∨ isNameStart d = true → isDigit d = false := by
    intro d hd
    by_contra h
    rw [Bool.not_eq_false] at h
    rw [isNamePart_of_isDigit h, isNameStart_of_isDigit h] at hd
    simp at hd
  -- Behind the dot stands the first letter of the word, or the gap.
  obtain rfl | hends := hg.eq_nil_or
  · cases w with
    | nil => cases hw.start
    | cons d w =>
        obtain rfl : d = c := Option.some.inj hc
        have hd : isNameStart d = true := hw.start
        refine ⟨?_, hdigit d (.inr hd)⟩
        rintro rfl
        exact absurd hd (by decide)
  · obtain ⟨-, hpart, -, hdot⟩ := hends _ c hc
    exact ⟨hdot, hdigit c (.inl hpart)⟩

end Heads

/-! ### Keys -/

/-- A natural number in digits, or a string in quotes of either kind. -/
inductive IsKey : Text → Prop
  | number {n : Text} (hn : n ≠ []) (hdigits : ∀ c ∈ n, isDigit c = true)
      (hzero : n.head? = some '0' → n = ['0']) : IsKey n
  | string {q : Char} {m : Text} (hq : q = '"' ∨ q = '\'')
      (hm : ∀ c ∈ m, c ≠ q ∧ c ≠ '\\' ∧ c ≠ '\n' ∧ c ≠ '\r') : IsKey (q :: (m ++ [q]))

/-- Digits end in front of a text with which no name goes on. -/
lemma digitRun_append {n r : Text} (hn : ∀ c ∈ n, isDigit c = true) (hr : EndsName r) :
    digitRun isDigit (n ++ r) = n := by
  rw [digitRun, List.takeWhile_append_of_pos fun c hc => by rw [hn c hc, Bool.true_or]]
  cases r with
  | nil => simp
  | cons c r =>
      obtain ⟨-, hc⟩ := hr c rfl
      have hdigit : isDigit c = false := by
        by_contra h
        rw [Bool.not_eq_false] at h
        rw [isNamePart_of_isDigit h] at hc
        cases hc
      have hline : (c == '_') = false := by
        rw [beq_eq_false_iff_ne]
        rintro rfl
        cases hc
      simp [hdigit, hline]

lemma isSeparated_of_digits {n : Text} (hn : ∀ c ∈ n, isDigit c = true) : isSeparated n = true := by
  have hline : ∀ c ∈ n, c ≠ '_' := fun c hc => by
    rintro rfl
    exact absurd (hn _ hc) (by decide)
  clear hn
  fun_induction isSeparated n with
  | case1 => rfl
  | case2 => exact absurd rfl (hline _ List.mem_cons_self)
  | case3 => exact absurd rfl (hline _ List.mem_cons_self)
  | case4 => rfl
  | case5 c _ => exact absurd rfl (hline _ (List.mem_cons_of_mem c List.mem_cons_self))
  | case6 c _ _ _ _ => exact absurd rfl (hline _ (List.mem_cons_of_mem c List.mem_cons_self))
  | case7 c d r _ _ ih =>
      obtain ⟨hc, hrest⟩ := List.forall_mem_cons.mp hline
      simp [hc, ih hrest]

/-- The number that digits write takes all of them. -/
lemma numberLength?_append {n r : Text} (hn : n ≠ []) (hdigits : ∀ c ∈ n, isDigit c = true)
    (hzero : n.head? = some '0' → n = ['0']) (hr : EndsKey r) :
    numberLength? (n ++ r) = some (false, n.length) := by
  have hfraction : fractionLength? r = some 0 := by
    cases r with
    | nil => rfl
    | cons d r =>
        obtain ⟨-, hpart, -, hdot⟩ := hr d rfl
        have he : ¬ (d = 'e' ∨ d = 'E') := by rintro (rfl | rfl) <;> cases hpart
        simp [fractionLength?, hdot, exponentLength?, he]
  have hends : endsNumber r = true := by
    cases r with
    | nil => rfl
    | cons d r =>
        obtain ⟨hslash, hpart, hstart, -⟩ := hr d rfl
        have hdigit : isDigit d = false := by
          by_contra h
          rw [isNamePart_of_isDigit (by simpa using h)] at hpart
          cases hpart
        simp [endsNumber, hslash, hstart, hdigit]
  have hbig : r.head? ≠ some 'n' := fun h => absurd (hr 'n' h).2.1 (by decide)
  have hrun := digitRun_append hdigits hr.endsName
  obtain ⟨c, m, rfl⟩ := List.exists_cons_of_ne_nil hn
  by_cases hc : c = '0'
  · subst hc
    obtain rfl : m = [] := by simpa using hzero rfl
    cases r with
    | nil => rfl
    | cons d r =>
        have hradix : radixDigit? d = none := by
          have hpart := (hr d rfl).2.1
          unfold radixDigit?
          split_ifs with hx ho hb
          · rcases hx with rfl | rfl <;> cases hpart
          · rcases ho with rfl | rfl <;> cases hpart
          · rcases hb with rfl | rfl <;> cases hpart
          · rfl
        simp only [List.cons_append, List.nil_append] at hrun ⊢
        simpa [numberLength?, hradix, hrun, isSeparated, hfraction, hends] using hbig
  · simp only [List.cons_append] at hrun ⊢
    simp [numberLength?, hc, hrun, isSeparated_of_digits hdigits, hbig, hfraction, hends]

lemma byteLength_of_digits {n : Text} (h : ∀ c ∈ n, isDigit c = true) :
    byteLength n = n.length := by
  induction n with
  | nil => rfl
  | cons c n ih =>
      obtain ⟨hc, hn⟩ := List.forall_mem_cons.mp h
      rw [byteLength_cons, ih hn, List.length_cons, utf8Size_of_isDigit hc, Nat.add_comm]

/-- A number is read up to a text with which it does not go on. -/
lemma Heads.number {n r : Text} (hn : n ≠ []) (hdigits : ∀ c ∈ n, isDigit c = true)
    (hzero : n.head? = some '0' → n = ['0']) (hr : EndsKey r) :
    Heads (n ++ r) (.number false) r := by
  have hlength := numberLength?_append hn hdigits hzero hr
  have hsize := byteLength_of_digits hdigits
  obtain ⟨c, m, rfl⟩ := List.exists_cons_of_ne_nil hn
  have hc : isDigit c = true := hdigits c List.mem_cons_self
  have hslash : (c == '\\') = false := by
    rw [beq_eq_false_iff_ne]
    rintro rfl
    exact absurd hc (by decide)
  refine ⟨isToken_cons_of_isNamePart (isNamePart_of_isDigit hc), c :: m, rfl, ?_⟩
  rw [List.cons_append] at hlength ⊢
  rw [Lexeme.read, isNameStart_of_isDigit hc, hslash, hc, Lexeme.number, hlength, hsize]
  simp

/-- A string in quotes of either kind is read up to the second quote. -/
lemma Heads.string {q : Char} {m : Text} (hq : q = '"' ∨ q = '\'')
    (hm : ∀ c ∈ m, c ≠ q ∧ c ≠ '\\' ∧ c ≠ '\n' ∧ c ≠ '\r') (r : Text) :
    Heads (q :: (m ++ q :: r)) (.string m) r := by
  refine ⟨?_, q :: (m ++ [q]), by simp, read_string hq hm⟩
  rcases hq with rfl | rfl <;> exact ⟨rfl, by decide, by simp⟩

end ComponentMigration.Script
