import ComponentMigration.Proofs.Lowering.Acceptance

/-!
What the steps of lowering yield.

For every function of lowering one lemma says what its values are made of, and when it has them:
`choice_cons_eq_ok` and `chain_cons_eq_ok` for chains, `assemble_cons_eq_ok` for siblings,
`loop_eq_ok`, `body_eq_ok` and `element_eq_ok` for elements, `root_eq_ok` for the whole.
-/

namespace ComponentMigration.Lowering

open Markup

/-! ### Chains -/

section Chains

variable {b next : Branch} {bs : List Branch}

lemma choice_nil_eq_ok {e : Jsx.Expr} :
    choice b [] = .ok e ↔ ∃ node, b.node = .ok node ∧ e = node.toExpr := by
  simp only [choice, bind_eq_ok, pure_eq_ok]

lemma choice_cons_eq_ok {e : Jsx.Expr} :
    choice b (next :: bs) = .ok e ↔ ∃ otherwise, choice next bs = .ok otherwise ∧
      ∃ test, b.directive.snippet = .ok test ∧ ∃ node, b.node = .ok node ∧
        e = .conditional (.snippet test) node.toExpr otherwise := by
  simp only [choice, bind_eq_ok, pure_eq_ok]

lemma chain_nil_eq_ok {out : Jsx.Node} :
    chain b [] = .ok out ↔ ∃ test, b.directive.snippet = .ok test ∧ ∃ node, b.node = .ok node ∧
      out = .expression (.logicalAnd (.snippet test) node.toExpr) := by
  simp only [chain, bind_eq_ok, pure_eq_ok]

lemma chain_cons_eq_ok {out : Jsx.Node} :
    chain b (next :: bs) = .ok out ↔ ∃ e, choice b (next :: bs) = .ok e ∧ out = .expression e := by
  simp only [chain, bind_eq_ok, pure_eq_ok]

end Chains

/-- Joined siblings begin with the first of them by itself, or with the chain that it opens. -/
lemma assemble_cons_eq_ok {s : Sibling} {rest : List Sibling} {outs : List Jsx.Node} :
    assemble (s :: rest) = .ok outs ↔ ∃ first others, outs = first :: others ∧
      (conditional? s.1 = none ∧ s.2 = .ok first ∧ assemble rest = .ok others ∨
        ∃ d, conditional? s.1 = some (.when, d) ∧ chain ⟨d, s.2⟩ (branches rest).1 = .ok first ∧
          assemble (chainTail rest).2 = .ok others) := by
  rw [assemble_cons, ← (branches_spec rest).2]
  split
  · next h =>
      simp only [h, bind_eq_ok, pure_eq_ok]
      constructor
      · rintro ⟨first, hfirst, others, hothers, rfl⟩
        exact ⟨first, others, rfl, .inl ⟨trivial, hfirst, hothers⟩⟩
      · rintro ⟨first, others, rfl, ⟨-, hfirst, hothers⟩ | ⟨d, ⟨⟩, -⟩⟩
        exact ⟨first, hfirst, others, hothers, rfl⟩
  · next d h =>
      simp only [h, bind_eq_ok, pure_eq_ok]
      constructor
      · rintro ⟨first, hfirst, others, hothers, rfl⟩
        exact ⟨first, others, rfl, .inr ⟨d, rfl, hfirst, hothers⟩⟩
      · rintro ⟨first, others, rfl, ⟨⟨⟩, -⟩ | ⟨_, ⟨⟩, hfirst, hothers⟩⟩
        exact ⟨first, hfirst, others, hothers, rfl⟩
  · next c d hc h =>
      refine iff_of_false (by simp) ?_
      rintro ⟨-, -, -, ⟨hnone, -⟩ | ⟨d', hwhen, -⟩⟩
      · cases h.symm.trans hnone
      · cases h.symm.trans hwhen
        exact hc rfl

/-! ### Elements -/

lemma loopSource_eq_ok {d : Directive} {b : ForBinding} {s : Snippet} :
    loopSource d b = .ok s ↔ d.snippetOf b.source = .ok s ∧ ¬ isNumber s.code := by
  simp only [loopSource, bind_eq_ok]
  constructor
  · rintro ⟨source, hsource, h⟩
    split_ifs at h with hnumber
    cases h
    exact ⟨hsource, hnumber⟩
  · rintro ⟨hsource, hnumber⟩
    exact ⟨s, hsource, if_neg hnumber⟩

/-- A loop is a call of `map` on what it iterates. -/
lemma loop_eq_ok {d : Directive} {body : Except Diagnostic Jsx.Node} {out : Jsx.Node} :
    loop d body = .ok out ↔ ∃ b, d.binding = some b ∧ b.index = none ∧
      ∃ source, loopSource d b = .ok source ∧ ∃ node, body = .ok node ∧
        out = .expression (.call (.member (.snippet source) "map")
          [.arrow (loopParameters b) node.toExpr]) := by
  rw [loop]
  split
  · next h => simp [h]
  · next b h =>
      simp only [h, Option.some.injEq, exists_eq_left', ← Option.not_isSome_iff_eq_none]
      split_ifs with hindex
      · exact iff_of_false (by simp) fun hout => hout.1 hindex
      · simp only [bind_eq_ok, pure_eq_ok, and_iff_right hindex]

lemma body_eq_ok {e : Element} {children : List Sibling} {out : Jsx.Node} :
    body e children = .ok out ↔ ∃ ps, properties e = .ok ps ∧ ∃ inner,
      assemble children = .ok inner ∧
        (e.kind = .container ∧ out = .fragment inner ∨
          e.kind = .ordinary ∧ out = .element e.tag ps inner) := by
  simp only [body, bind_eq_ok, pure_eq_ok]
  cases e.kind with
  | container => simp
  | ordinary => simp

/-- An element is a loop around its body, or its body. -/
lemma element_eq_ok {e : Element} {children : List Sibling} {out : Jsx.Node} :
    element e children = .ok out ↔
      (∃ d, e.loop? = some d ∧ loop d (body e children) = .ok out) ∨
        e.loop? = none ∧ body e children = .ok out := by
  rw [element]
  split
  · next d h => simp [h]
  · next h => simp [h]

/-! ### Forests -/

/-- The whole is one node, or a fragment of all. -/
lemma root_eq_ok {nodes : List Node} {out : Jsx.Node} :
    root nodes = .ok out ↔ ∃ outs, assemble (siblings nodes) = .ok outs ∧
      (outs = [out] ∨ outs.length ≠ 1 ∧ out = .fragment outs) := by
  rw [root, bind_eq_ok]
  refine exists_congr fun outs => and_congr_right fun _ => ?_
  split
  · next only _ =>
      rw [pure_eq_ok]
      simp [eq_comm]
  · next h =>
      rw [pure_eq_ok]
      have hlength : outs.length ≠ 1 := fun hlength => by
        obtain ⟨only, rfl⟩ := List.length_eq_one_iff.mp hlength
        exact h only rfl
      have hsingle : outs ≠ [out] := h out
      simp [hlength, hsingle]

end ComponentMigration.Lowering
