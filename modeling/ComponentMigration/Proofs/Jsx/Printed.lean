import ComponentMigration.Proofs.Jsx.Grammar

/-!
Printed expressions and their trees.

* **Tokens.** `Expr.tokensAt` are the tokens that are printed; the printed text spells them
  (`Expr.spells_codeAt`).
* **Shapes.** `Expr.shape` is the tree of an expression without parentheses.
* **Main statement.** `Expr.parses_codeAt`: what is printed has one tree, and that is the
  expression.
-/

namespace ComponentMigration.Jsx

/-! ### Tokens of an expression -/

/-- The tokens in parentheses if they are needed. -/
def enclosed (needed : Bool) (ts : List Token) : List Token :=
  if needed then .openParen :: ts ++ [.closeParen] else ts

mutual

/-- The tokens of an expression, without parentheses of its own. Markup is one operand, unless
it is an expression itself. -/
def Expr.tokens : Expr → List Token
  | .snippet s => [.operand (.snippet s)]
  | .identifier name => [.name name]
  | .member object property =>
      enclosed (object.precedence < .member) object.tokens ++ [.dot, .name property]
  | .call callee arguments =>
      enclosed (callee.precedence < .member) callee.tokens ++
        .openParen :: separated (Expr.argumentTokens arguments) ++ [.closeParen]
  | .arrow params body =>
      .openParen :: parameterTokens params ++
        .closeParen :: .arrow :: enclosed (body.precedence < .assignment) body.tokens
  | .procedure params statements =>
      .openParen :: parameterTokens params ++ .closeParen :: .arrow :: .openBrace ::
        Expr.statementTokens statements ++ [.closeBrace]
  | .conditional test consequent alternate =>
      enclosed (test.precedence < .coalesce) test.tokens ++
        .question :: enclosed (consequent.precedence < .assignment) consequent.tokens ++
        .colon :: enclosed (alternate.precedence < .assignment) alternate.tokens
  | .logicalAnd left right =>
      enclosed (left.precedence < .logicalAnd) left.tokens ++
        .ampersands :: enclosed (right.precedence < .binary) right.tokens
  | .assign target value =>
      .operand (.snippet target) ::
        .equals :: enclosed (value.precedence < .assignment) value.tokens
  | .jsx (.expression e) => enclosed (e.precedence < .assignment) e.tokens
  | .jsx node => [.operand (.markup node)]
  | .comment content => [.operand (.comment content)]

/-- The tokens of the arguments of a call. -/
def Expr.argumentTokens : List Expr → List (List Token)
  | [] => []
  | e :: es => enclosed (e.precedence < .assignment) e.tokens :: Expr.argumentTokens es

/-- The tokens of statements, each with its semicolon. -/
def Expr.statementTokens : List Expr → List Token
  | [] => []
  | e :: es =>
      enclosed (e.precedence < .sequence) e.tokens ++ .semicolon :: Expr.statementTokens es

end

/-- The tokens of an expression in a place that demands at least the class `least`. -/
def Expr.tokensAt (e : Expr) (least : Precedence) : List Token :=
  enclosed (e.precedence < least) e.tokens

namespace Spells

/-- Texts that spell tokens spell them one behind the other. -/
lemma append {t u : Text} {ts us : List Token} (h : Spells t ts) (h' : Spells u us) :
    Spells (t ++ u) (ts ++ us) := by
  induction h with
  | nil => exact h'
  | space _ ih => exact .space ih
  | token k _ ih =>
      rw [List.append_assoc]
      exact .token k ih

/-- A token is spelled by its spelling. -/
lemma single (k : Token) : Spells k.spelling [k] := by
  have h := Spells.token k .nil
  rwa [List.append_nil] at h

/-- Parentheses are spelled where they are needed. -/
lemma parenthesized {t : Text} {ts : List Token} (h : Spells t ts) (needed : Bool) :
    Spells (Jsx.parenthesized needed t) (enclosed needed ts) := by
  cases needed with
  | false => exact h
  | true => exact (Spells.token .openParen h).append (.single .closeParen)

/-- Texts with commas between them spell what they spell alone, with commas between. -/
lemma join {texts : List Text} {tss : List (List Token)} (h : List.Forall₂ Spells texts tss) :
    Spells (Text.join [',', ' '] texts) (separated tss) := by
  induction h with
  | nil => exact .nil
  | @cons t ts _ _ ht hrest ih =>
      cases hrest with
      | nil => exact ht
      | cons _ _ =>
          rw [Text.join, separated, List.append_assoc]
          exact ht.append (.token .comma (.space ih))
          all_goals simp

/-- Parameters are names with commas between them. -/
lemma parameters (params : List Text) :
    Spells (Text.join [',', ' '] params) (parameterTokens params) := by
  refine join ?_
  rw [List.forall₂_map_right_iff, List.forall₂_same]
  exact fun x _ => .single (.name x)

end Spells

mutual

/-- The text of an expression spells its tokens. -/
lemma Expr.spells_code : (e : Expr) → Spells e.code e.tokens
  | .snippet s => .single (.operand (.snippet s))
  | .identifier name => .single (.name name)
  | .member object property => by
      rw [code, tokens]
      simp only [List.append_assoc]
      exact (object.spells_code.parenthesized _).append (.token .dot (.single (.name property)))
  | .call callee arguments => by
      rw [code, tokens]
      simp only [List.append_assoc]
      exact (callee.spells_code.parenthesized _).append
        (.token .openParen ((Spells.join (Expr.spells_arguments arguments)).append
          (.single .closeParen)))
  | .arrow params body => by
      rw [code, tokens]
      simp only [List.append_assoc]
      exact .token .openParen ((Spells.parameters params).append
        (.token .closeParen (.space (.token .arrow (.space (body.spells_code.parenthesized _))))))
  | .procedure params statements => by
      rw [code, tokens]
      simp only [List.append_assoc, List.cons_append]
      exact .token .openParen ((Spells.parameters params).append
        (.token .closeParen (.space (.token .arrow (.space (.token .openBrace (.space
          ((Expr.spells_statements statements).append (.space (.single .closeBrace))))))))))
  | .conditional test consequent alternate => by
      rw [code, tokens]
      simp only [List.append_assoc, List.cons_append]
      exact (test.spells_code.parenthesized _).append (.space (.token .question (.space
        ((consequent.spells_code.parenthesized _).append (.space (.token .colon (.space
          (alternate.spells_code.parenthesized _))))))))
  | .logicalAnd left right => by
      rw [code, tokens]
      simp only [List.append_assoc]
      exact (left.spells_code.parenthesized _).append (.space (.token .ampersands (.space
        (right.spells_code.parenthesized _))))
  | .assign target value => by
      rw [code, tokens]
      simp only [List.append_assoc]
      exact .token (.operand (.snippet target)) (.space (.token .equals (.space
        (value.spells_code.parenthesized _))))
  | .jsx (.expression e) => e.spells_code.parenthesized _
  | .jsx (.element tag properties children) =>
      .single (.operand (.markup (.element tag properties children)))
  | .jsx (.fragment children) => .single (.operand (.markup (.fragment children)))
  | .jsx (.text content) => .single (.operand (.markup (.text content)))
  | .comment content => .single (.operand (.comment content))

/-- The texts of arguments spell their tokens. -/
lemma Expr.spells_arguments : (es : List Expr) →
    List.Forall₂ Spells (Expr.argumentCodes es) (Expr.argumentTokens es)
  | [] => .nil
  | e :: es => .cons (e.spells_code.parenthesized _) (Expr.spells_arguments es)

/-- The texts of statements spell their tokens. -/
lemma Expr.spells_statements : (es : List Expr) →
    Spells (Text.join [' '] (Expr.statementCodes es)) (Expr.statementTokens es)
  | [] => .nil
  | [e] => (e.spells_code.parenthesized _).append (.single .semicolon)
  | e :: f :: es => by
      rw [statementCodes, statementCodes, Text.join, ← statementCodes, statementTokens]
      simp only [List.append_assoc]
      exact (e.spells_code.parenthesized _).append
        (.token .semicolon (.space (Expr.spells_statements (f :: es))))
      simp

end

/-- What is printed spells its tokens. -/
lemma Expr.spells_codeAt (e : Expr) (least : Precedence) :
    Spells (e.codeAt least) (e.tokensAt least) := e.spells_code.parenthesized _

/-! ### The tree of an expression -/

mutual

/-- The tree without its parentheses. -/
def Tree.withoutParentheses : Tree → Tree
  | .operand o => .operand o
  | .name text => .name text
  | .member object property => .member object.withoutParentheses property
  | .call callee arguments => .call callee.withoutParentheses (withoutParenthesesAll arguments)
  | .arrow params body => .arrow params body.withoutParentheses
  | .procedure params statements => .procedure params (withoutParenthesesAll statements)
  | .conditional test consequent alternate =>
      .conditional test.withoutParentheses consequent.withoutParentheses
        alternate.withoutParentheses
  | .logicalAnd left right => .logicalAnd left.withoutParentheses right.withoutParentheses
  | .assign target value => .assign target.withoutParentheses value.withoutParentheses
  | .parentheses inner => inner.withoutParentheses

/-- The trees without their parentheses. -/
def withoutParenthesesAll : List Tree → List Tree
  | [] => []
  | t :: ts => t.withoutParentheses :: withoutParenthesesAll ts

end

mutual

/-- The expression as a tree. -/
def Expr.shape : Expr → Tree
  | .snippet s => .operand (.snippet s)
  | .identifier name => .name name
  | .member object property => .member object.shape property
  | .call callee arguments => .call callee.shape (Expr.shapes arguments)
  | .arrow params body => .arrow params body.shape
  | .procedure params statements => .procedure params (Expr.shapes statements)
  | .conditional test consequent alternate =>
      .conditional test.shape consequent.shape alternate.shape
  | .logicalAnd left right => .logicalAnd left.shape right.shape
  | .assign target value => .assign (.operand (.snippet target)) value.shape
  | .jsx (.expression e) => e.shape
  | .jsx node => .operand (.markup node)
  | .comment content => .operand (.comment content)

/-- The expressions as trees. -/
def Expr.shapes : List Expr → List Tree
  | [] => []
  | e :: es => e.shape :: Expr.shapes es

end

mutual

/-- Markup inside of an expression is no expression itself, and what is assigned to is a
snippet that binds like a name. -/
def Expr.IsWellFormed : Expr → Prop
  | .snippet _ | .identifier _ | .comment _ => True
  | .member object _ => object.IsWellFormed
  | .call callee arguments => callee.IsWellFormed ∧ Expr.AreWellFormed arguments
  | .arrow _ body => body.IsWellFormed
  | .procedure _ statements => Expr.AreWellFormed statements
  | .conditional test consequent alternate =>
      test.IsWellFormed ∧ consequent.IsWellFormed ∧ alternate.IsWellFormed
  | .logicalAnd left right => left.IsWellFormed ∧ right.IsWellFormed
  | .assign target value => target.precedence = .member ∧ value.IsWellFormed
  | .jsx (.expression _) => False
  | .jsx _ => True

/-- All of the expressions are well-formed. -/
def Expr.AreWellFormed : List Expr → Prop
  | [] => True
  | e :: es => e.IsWellFormed ∧ Expr.AreWellFormed es

end

/-- The tree of an expression stands in its place, in parentheses if they are needed. -/
lemma exists_parses_enclosed {p : Precedence} {ts : List Token} {shape : Tree}
    (h : ∃ t, Parses p ts t ∧ t.withoutParentheses = shape) (least : Precedence) :
    ∃ t, Parses least (enclosed (p < least) ts) t ∧ t.withoutParentheses = shape := by
  obtain ⟨t, ht, hshape⟩ := h
  by_cases hp : p < least
  · rw [decide_eq_true hp]
    exact ⟨.parentheses t, .parentheses (ht.weaken (Precedence.sequence_le p)), hshape⟩
  · rw [decide_eq_false hp]
    exact ⟨t, ht.weaken (Precedence.le_of_not_lt hp), hshape⟩

mutual

/-- A well-formed expression is a tree of its tokens. -/
lemma Expr.exists_parses : (e : Expr) → e.IsWellFormed →
    ∃ t, Parses e.precedence e.tokens t ∧ t.withoutParentheses = e.shape
  -- An operand is a tree of its own; the parts of any other expression stand in parentheses
  -- where their own precedence is too low.
  | .snippet s, _ => ⟨_, .operand (Precedence.le_refl _), rfl⟩
  | .identifier name, _ => ⟨_, .name, rfl⟩
  | .member object property, h => by
      obtain ⟨t, ht, hshape⟩ := exists_parses_enclosed (object.exists_parses h) .member
      exact ⟨_, .member ht, by rw [Tree.withoutParentheses, hshape, shape]⟩
  | .call callee arguments, h => by
      obtain ⟨t, ht, hshape⟩ := exists_parses_enclosed (callee.exists_parses h.1) .member
      obtain ⟨as, has, htokens, hshapes⟩ := Expr.exists_parses_arguments arguments h.2
      refine ⟨.call t (as.map (·.2)), ?_, ?_⟩
      · rw [tokens, ← htokens]
        exact .call ht has
      · rw [Tree.withoutParentheses, hshape, hshapes, shape]
  | .arrow params body, h => by
      obtain ⟨t, ht, hshape⟩ := exists_parses_enclosed (body.exists_parses h) .assignment
      exact ⟨_, .arrow (Precedence.le_refl _) ht, by rw [Tree.withoutParentheses, hshape, shape]⟩
  | .procedure params statements, h => by
      obtain ⟨ss, hss, htokens, hshapes⟩ := Expr.exists_parses_statements statements h
      refine ⟨.procedure params (ss.map (·.2)), ?_, ?_⟩
      · rw [tokens, ← htokens]
        exact .procedure (Precedence.le_refl _) hss
      · rw [Tree.withoutParentheses, hshapes, shape]
  | .conditional test consequent alternate, h => by
      obtain ⟨t, ht, htshape⟩ := exists_parses_enclosed (test.exists_parses h.1) .coalesce
      obtain ⟨c, hc, hcshape⟩ := exists_parses_enclosed (consequent.exists_parses h.2.1) .assignment
      obtain ⟨a, ha, hashape⟩ := exists_parses_enclosed (alternate.exists_parses h.2.2) .assignment
      exact ⟨_, .conditional (Precedence.le_refl _) ht hc ha,
        by rw [Tree.withoutParentheses, htshape, hcshape, hashape, shape]⟩
  | .logicalAnd left right, h => by
      obtain ⟨l, hl, hlshape⟩ := exists_parses_enclosed (left.exists_parses h.1) .logicalAnd
      obtain ⟨r, hr, hrshape⟩ := exists_parses_enclosed (right.exists_parses h.2) .binary
      exact ⟨_, .logicalAnd (Precedence.le_refl _) hl hr,
        by rw [Tree.withoutParentheses, hlshape, hrshape, shape]⟩
  | .assign target value, h => by
      obtain ⟨v, hv, hvshape⟩ := exists_parses_enclosed (value.exists_parses h.2) .assignment
      have htarget : Parses .member [.operand (.snippet target)] (.operand (.snippet target)) :=
        .operand (by rw [Operand.precedence, h.1]; exact Precedence.le_refl _)
      exact ⟨_, .assign (Precedence.le_refl _) htarget hv,
        by rw [Tree.withoutParentheses, Tree.withoutParentheses, hvshape, shape]⟩
  | .jsx (.element tag properties children), _ => ⟨_, .operand (Precedence.le_refl _), rfl⟩
  | .jsx (.fragment children), _ => ⟨_, .operand (Precedence.le_refl _), rfl⟩
  | .jsx (.text content), _ => ⟨_, .operand (Precedence.le_refl _), rfl⟩
  | .comment content, _ => ⟨_, .operand (Precedence.le_refl _), rfl⟩

/-- Well-formed arguments are trees of their tokens. -/
lemma Expr.exists_parses_arguments : (es : List Expr) → Expr.AreWellFormed es →
    ∃ as : List (List Token × Tree), (∀ a ∈ as, Parses .assignment a.1 a.2) ∧
      as.map (·.1) = Expr.argumentTokens es ∧ withoutParenthesesAll (as.map (·.2)) = Expr.shapes es
  | [], _ => ⟨[], by simp, rfl, rfl⟩
  | e :: es, h => by
      obtain ⟨t, ht, hshape⟩ := exists_parses_enclosed (e.exists_parses h.1) .assignment
      obtain ⟨as, has, htokens, hshapes⟩ := Expr.exists_parses_arguments es h.2
      refine ⟨(enclosed (e.precedence < .assignment) e.tokens, t) :: as,
        List.forall_mem_cons.mpr ⟨ht, has⟩, ?_, ?_⟩
      · rw [List.map_cons, htokens, argumentTokens]
      · rw [List.map_cons, withoutParenthesesAll, hshape, hshapes, shapes]

/-- Well-formed statements are trees of their tokens. -/
lemma Expr.exists_parses_statements : (es : List Expr) → Expr.AreWellFormed es →
    ∃ ss : List (List Token × Tree), (∀ s ∈ ss, Parses .sequence s.1 s.2) ∧
      ss.flatMap (fun s => s.1 ++ [.semicolon]) = Expr.statementTokens es ∧
      withoutParenthesesAll (ss.map (·.2)) = Expr.shapes es
  | [], _ => ⟨[], by simp, rfl, rfl⟩
  | e :: es, h => by
      obtain ⟨t, ht, hshape⟩ := exists_parses_enclosed (e.exists_parses h.1) .sequence
      obtain ⟨ss, hss, htokens, hshapes⟩ := Expr.exists_parses_statements es h.2
      refine ⟨(enclosed (e.precedence < .sequence) e.tokens, t) :: ss,
        List.forall_mem_cons.mpr ⟨ht, hss⟩, ?_, ?_⟩
      · rw [List.flatMap_cons, htokens, statementTokens, List.append_assoc, List.singleton_append]
      · rw [List.map_cons, withoutParenthesesAll, hshape, hshapes, shapes]

end

/-- **Printed expressions are read back**: the text of a well-formed expression spells tokens
that have one tree and no other, in whatever place, and that tree is the expression once its
parentheses are left out. -/
theorem Expr.parses_codeAt (e : Expr) (he : e.IsWellFormed) (least : Precedence) :
    Spells (e.codeAt least) (e.tokensAt least) ∧
      ∃ t, Parses least (e.tokensAt least) t ∧ t.withoutParentheses = e.shape ∧
        ∀ p u, Parses p (e.tokensAt least) u → u = t := by
  obtain ⟨t, ht, hshape⟩ := exists_parses_enclosed (e.exists_parses he) least
  exact ⟨e.spells_codeAt least, t, ht, hshape, fun _ _ hu => hu.unique ht⟩

/-- Operands that bind too weakly on every side of `&&`, a choice that is called upon, and an
assignment of a sequence. -/
def nestedExpr : Expr :=
  let name (text : Text) : Expr := .identifier text
  .logicalAnd (.snippet ⟨"a || b", .logicalOr⟩)
    (.call
      (.member
        (.conditional (name "c")
          (.assign ⟨"x", .member⟩ (.snippet ⟨"y, z", .sequence⟩))
          (.jsx (.element "p" [] [])))
        "map")
      [.arrow ["i"] (.logicalAnd (name "i") (.logicalAnd (name "j") (name "k")))])

/-- Each of its operands is read back as it was. -/
theorem Expr.parses_codeAt_nestedExpr :
    nestedExpr.IsWellFormed ∧
      nestedExpr.codeAt .binary
        = "((a || b) && (c ? x = (y, z) : <p />).map((i) => i && (j && k)))".toList ∧
      ∃ t, Parses .binary (nestedExpr.tokensAt .binary) t ∧
        t.withoutParentheses = nestedExpr.shape ∧
        ∀ p u, Parses p (nestedExpr.tokensAt .binary) u → u = t := by
  have h : nestedExpr.IsWellFormed := by
    simp [nestedExpr, IsWellFormed, AreWellFormed]
  exact ⟨h, by decide, (parses_codeAt nestedExpr h .binary).2⟩

end ComponentMigration.Jsx
