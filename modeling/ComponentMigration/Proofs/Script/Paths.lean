import ComponentMigration.Proofs.Script.Operands

/-!
Paths as targets of assignments.

* **Paths.** `IsPath e`: the text `e` is a name with accesses behind it, by names, at paths and at
  keys, with any gaps between the tokens.
* **Reading.** `ReadsTo` says that a chain has been read up to the end of a path, whatever link may
  follow: one link more keeps it (`ReadsTo.member`, `ReadsTo.index`), so a path has it by
  induction (`exists_readsTo`). The grammar has to be as deep as the path is long.
* **Main statement.** `IsPath.exists_assignment`: with a sign of equality and a name behind it, a
  path is the target of an assignment as a whole.
-/

namespace ComponentMigration.Script

open Text Script.Parser

/-! ### Paths -/

/-- A name, followed by accesses to properties: by name, at a path and at a key. -/
inductive IsPath : Text → Prop
  | name {w : Text} (hw : IsPlainName w) : IsPath w
  | member {e g g' w : Text} (he : IsPath e) (hg : IsGap g) (hg' : IsGap g') (hw : IsWord w) :
      IsPath (e ++ (g ++ '.' :: (g' ++ w)))
  | index {e i g g' g'' : Text} (he : IsPath e) (hi : IsPath i) (hg : IsGap g) (hg' : IsGap g')
      (hg'' : IsGap g'') : IsPath (e ++ (g ++ '[' :: (g' ++ (i ++ (g'' ++ [']'])))))
  | key {e i g g' g'' : Text} (he : IsPath e) (hi : IsKey i) (hg : IsGap g) (hg' : IsGap g')
      (hg'' : IsGap g'') : IsPath (e ++ (g ++ '[' :: (g' ++ (i ++ (g'' ++ [']'])))))

/-- The state in front of a token behind a gap. -/
lemma Frame.state_of_heads {F : Frame} {g t r : Text} {tok : Token} (hF : F.Holds (g ++ t))
    (hg : IsGap g) (h : Heads t tok r) (hvalid : tok ≠ .invalid) :
    (F.state false (g ++ t)).token = tok ∧ (F.state false (g ++ t)).next = F.state false r ∧
      (F.state false (g ++ t)).start = F.size - byteLength t := by
  obtain ⟨fresh, hshows⟩ := h.shows hg
  refine ⟨by rw [state_token, hshows.fromToken_eq.2], state_next hF hshows hvalid, ?_⟩
  obtain ⟨fresh, hgap⟩ := hg
  have hsize := hF.size
  rw [byteLength_append] at hsize
  rw [state, State.next]
  dsimp only
  rw [skipTrivia_of_gap hgap h.1]
  dsimp only [State.load]
  rw [byteLength_append]
  omega

namespace Grammar

/-- A tree that can be assigned to, and in which no default stands. -/
def IsTarget (t : Tree) : Prop := toTarget? t = some t ∧ hasDefault t = false

/-- Behind a gap, a text is read as this chain, whatever link may follow it. -/
structure ReadsTo (G : Grammar) (F : Frame) (g e r : Text) (t : Tree) : Prop where
  isHead : (F.state false (g ++ (e ++ r))).token.IsHead
  start : (F.state false (g ++ (e ++ r))).start = F.size - byteLength (e ++ r)
  isTarget : IsTarget t
  span : t.span = ⟨F.size - byteLength (e ++ r), F.size - byteLength r⟩
  run : ∃ first s k, k ≤ e.length ∧ s.bound = F.bound ∧
    chainHead G (F.state false (g ++ (e ++ r))) = some (first, s) ∧
      ∀ m, repeatUpTo (nextLink? G (F.size - byteLength (e ++ r))) (m + k) (first, false) s =
        repeatUpTo (nextLink? G (F.size - byteLength (e ++ r))) m (t, false) (F.state false r)

/-- Behind a gap and in front of a closing bracket, a text is read as an expression. -/
def ReadsIndex (G : Grammar) (i : Text) : Prop :=
  ∀ ⦃F : Frame⦄ ⦃g r : Text⦄, IsGap g → F.Holds (g ++ (i ++ r)) → EndsKey r →
    peek r = .punctuator "]" → ∃ x, hasDefault x = false ∧
      G .expression (F.state false (g ++ (i ++ r))) = some (x, F.state false r)

variable {G : Grammar} {F : Frame} {e i g g' g'' g₀ r w : Text} {t : Tree}

/-- A name alone has been read as a reference. -/
lemma readsTo_name (hw : IsPlainName w) (hg : IsGap g) (hF : F.Holds (g ++ (w ++ r)))
    (hr : EndsName r) : ReadsTo G F g w r
      (.node (.reference w .value none)
        ⟨F.size - byteLength (w ++ r), F.size - byteLength r⟩ []) := by
  obtain ⟨htoken, hnext, hstart⟩ :=
    Frame.state_of_heads hF hg (.word hw.toIsWord hr) (by simp)
  have hhead := run_chainHead_name (G := G) htoken hw
  rw [hnext, hstart, Frame.state_lastStop] at hhead
  exact ⟨htoken ▸ hw.isHead, hstart, ⟨rfl, rfl⟩, rfl, _, _, 0, Nat.zero_le _,
    Frame.state_bound, hhead, fun m => rfl⟩

/-- One more link. -/
lemma ReadsTo.step {l : Text} {t' : Tree} (h : ReadsTo G F g e (l ++ r) t) (hl : l ≠ [])
    (ht' : IsTarget t')
    (hspan : t'.span = ⟨F.size - byteLength (e ++ (l ++ r)), F.size - byteLength r⟩)
    (hlink : nextLink? G (F.size - byteLength (e ++ (l ++ r))) (t, false)
      (F.state false (l ++ r)) = some (some (t', false), F.state false r)) :
    ReadsTo G F g (e ++ l) r t' := by
  obtain ⟨first, s, k, hk, hbound, hhead, hloop⟩ := h.run
  have hpos := List.length_pos_iff.mpr hl
  -- The head of the chain stays as it was; the loop has done one step more.
  refine ⟨?_, ?_, ht', ?_, first, s, k + 1, ?_, hbound, ?_, fun m => ?_⟩
  · rw [List.append_assoc]
    exact h.isHead
  · rw [List.append_assoc]
    exact h.start
  · rw [List.append_assoc]
    exact hspan
  · rw [List.length_append]
    omega
  · rw [List.append_assoc]
    exact hhead
  · rw [List.append_assoc, show m + (k + 1) = (m + 1) + k by omega, hloop, repeatUpTo, run_bind,
      hlink]
    rfl

/-- An access to a property of a target is one. -/
lemma IsTarget.access {f : Form} {ps : List Tree} (h : IsTarget t) (hps : anyHasDefault ps = false)
    (hf : f = .access ∨ ∃ w, f = .member w) (s : Span) : IsTarget (.node f s (t :: ps)) := by
  have hdefault : anyHasDefault (t :: ps) = false := by rw [anyHasDefault, h.2, hps]; rfl
  rcases hf with rfl | ⟨w, rfl⟩ <;> exact ⟨rfl, hdefault⟩

/-- An access by name is one link more. -/
lemma ReadsTo.member (h : ReadsTo G F g₀ e (g ++ '.' :: (g' ++ w) ++ r) t) (hg : IsGap g)
    (hg' : IsGap g') (hw : IsWord w) (hr : EndsName r)
    (hF : F.Holds (g ++ '.' :: (g' ++ w) ++ r)) :
    ∃ t', ReadsTo G F g₀ (e ++ (g ++ '.' :: (g' ++ w))) r t' := by
  have htext : g ++ '.' :: (g' ++ w) ++ r = g ++ '.' :: (g' ++ (w ++ r)) := by simp
  have hF' : F.Holds (g ++ '.' :: (g' ++ (w ++ r))) := htext ▸ hF
  obtain ⟨hdot, hnext, -⟩ := Frame.state_of_heads hF' hg (.dot_word hg' hw r) (by simp)
  obtain ⟨hword, hnext', -⟩ := Frame.state_of_heads (hF'.of_append.of_append (w := ['.'])) hg'
    (.word hw hr) (by simp)
  have hlink := run_nextLink?_dot (G := G) hdot (by rw [hnext]; exact hword)
    (F.size - byteLength (e ++ (g ++ '.' :: (g' ++ w) ++ r))) t false
  rw [hnext, hnext', Frame.state_lastStop, ← htext] at hlink
  exact ⟨_, h.step (by simp) (h.isTarget.access rfl (.inr ⟨w, rfl⟩) _) rfl hlink⟩

/-- An access in brackets is one link more, if the index is read up to the bracket. -/
lemma ReadsTo.index (h : ReadsTo G F g₀ e (g ++ '[' :: (g' ++ (i ++ (g'' ++ [']']))) ++ r) t)
    (hi : ReadsIndex G i) (hg : IsGap g) (hg' : IsGap g') (hg'' : IsGap g'')
    (hF : F.Holds (g ++ '[' :: (g' ++ (i ++ (g'' ++ [']']))) ++ r)) :
    ∃ t', ReadsTo G F g₀ (e ++ (g ++ '[' :: (g' ++ (i ++ (g'' ++ [']']))))) r t' := by
  have htext : g ++ '[' :: (g' ++ (i ++ (g'' ++ [']']))) ++ r
      = g ++ '[' :: (g' ++ (i ++ (g'' ++ ']' :: r))) := by simp
  have hF' : F.Holds (g ++ '[' :: (g' ++ (i ++ (g'' ++ ']' :: r)))) := htext ▸ hF
  have hFindex : F.Holds (g' ++ (i ++ (g'' ++ ']' :: r))) := hF'.of_append.of_append (w := ['['])
  obtain ⟨hopen, hnext, -⟩ := Frame.state_of_heads hF' hg (.openBracket _) (by simp)
  obtain ⟨hclose, hnext', -⟩ := Frame.state_of_heads hFindex.of_append.of_append hg''
    (.closeBracket r) (by simp)
  have hends : EndsKey (g'' ++ ']' :: r) :=
    EndsKey.gap (by rintro _ ⟨rfl⟩; decide) hg''
  have hpeek : peek (g'' ++ ']' :: r) = .punctuator "]" := by
    rw [← hclose, Frame.state_token]
  obtain ⟨x, hx, hrun⟩ := hi hg' hFindex hends hpeek
  -- The brackets and what stands between them.
  have hlink := run_nextLink?_bracket (G := G) hopen Frame.state_context (by rw [hnext]; exact hrun)
    Frame.state_context hclose
    (F.size - byteLength (e ++ (g ++ '[' :: (g' ++ (i ++ (g'' ++ [']']))) ++ r))) t false
  rw [hnext', Frame.state_lastStop, ← htext] at hlink
  have hdefault : anyHasDefault [x] = false := by
    rw [anyHasDefault, hx]
    rfl
  exact ⟨_, h.step (by simp) (h.isTarget.access hdefault (.inl rfl) _) rfl hlink⟩

/-- In front of an end, the text is the whole chain. -/
lemma ReadsTo.chain (h : ReadsTo G F g e r t) (hF : F.Holds (g ++ (e ++ r)))
    (hr : (peek r).IsEnd) :
    chain G (F.state false (g ++ (e ++ r))) = some (t, F.state false r) := by
  obtain ⟨first, s, k, hk, hbound, hhead, hloop⟩ := h.run
  have hlength := hF.bound
  rw [List.length_append, List.length_append] at hlength
  obtain ⟨m, hm⟩ : ∃ m, F.bound = m + 1 + k := ⟨F.bound - k - 1, by omega⟩
  have hstop : nextLink? G (F.size - byteLength (e ++ r)) (t, false) (F.state false r)
      = some (none, F.state false r) := run_nextLink?_of_isEnd (by rwa [Frame.state_token]) _ _
  have hrepeat : repeatWhile (nextLink? G (F.size - byteLength (e ++ r))) (first, false) s
      = some ((t, false), F.state false r) := by
    rw [repeatWhile, run_bind, run_get, Option.bind_some, hbound, hm, hloop, repeatUpTo, run_bind,
      hstop]
    rfl
  rw [Grammar.chain, run_bind, run_place, Option.bind_some, h.start, run_bind, hhead,
    Option.bind_some, run_bind, hrepeat]
  rfl

/-- An operand with which nothing goes on is an expression. -/
lemma run_expression_of_chain {s : State} {x : Tree} (hs : s.token.IsHead)
    (hcontext : s.context = {}) (hchain : chain G s = some (x, F.state false r)) (hr : (peek r).Closes) (hF : F.Holds r) :
    assignment G true s = some (x, F.state false r) ∧
      expression G s = some (x, F.state false r) := by
  have hbound : 0 < (F.state false r).bound := Nat.zero_lt_of_lt hF.bound
  have hend : (F.state false r).token.IsEnd := by
    rw [Frame.state_token]
    exact .inl hr
  have hassignment : assignment G true s = some (x, F.state false r) := by
    rw [run_assignment hs hchain hend hbound]
    exact run_assignmentFrom_of_closes (by rwa [Frame.state_token]) _ _ _
  refine ⟨hassignment, run_expression hcontext Frame.state_context hassignment ?_ hbound⟩
  rw [Frame.state_token]
  rcases hr with hr | hr | hr <;> rw [hr] <;> decide

/-- A literal with which nothing goes on is an expression. -/
lemma exists_expression_of_literal {t : Text} {tok : Token} {fresh : Bool} (f : Form)
    (hhead : tok.IsHead) (hvalid : tok ≠ .invalid)
    (hprimary : ∀ s : State, s.token = tok → primary G s = literal f s)
    (h : Shows t tok fresh r) (hF : F.Holds t) (hr : (peek r).Closes) :
    ∃ s, expression G (F.state false t) = some (.node f s [], F.state false r) := by
  have htoken : (F.state false t).token = tok := by rw [Frame.state_token, h.fromToken_eq.2]
  have hnext : (F.state false t).next = F.state false r := Frame.state_next hF h hvalid
  have hFr := hF.of_suffix h.suffix
  have hchain := run_chain_literal (G := G) (htoken ▸ hhead) (hprimary _ htoken)
    (by rw [hnext, Frame.state_token]; exact .inl hr)
    (by rw [hnext]; exact Nat.zero_lt_of_lt hFr.bound)
  rw [hnext] at hchain
  exact ⟨_, (run_expression_of_chain (htoken ▸ hhead) Frame.state_context hchain hr hFr).2⟩

/-- A string with which nothing goes on is an expression. -/
lemma exists_expression_of_string {t m : Text} {fresh : Bool} (h : Shows t (.string m) fresh r)
    (hF : F.Holds t) (hr : (peek r).Closes) : ∃ s, expression G (F.state false t)
      = some (.node (.expression .member) s [], F.state false r) := by
  refine exists_expression_of_literal (.expression .member) ⟨by simp, by simp, by simp⟩ (by simp)
    (fun s hs => ?_) h hF hr
  simp only [primary, run_bind, run_place, run_token, Option.bind_some, hs]

/-- A key is an index whatever the depth. -/
lemma readsIndex_of_key {n : Nat} (hi : IsKey i) : ReadsIndex (grammar (n + 1)) i := by
  intro F g r hg hF hr hpeek
  have hcloses : (peek r).Closes := .inr (.inl hpeek)
  cases hi with
  | number hn hdigits hzero =>
      obtain ⟨fresh, hshows⟩ := (Heads.number hn hdigits hzero hr).shows hg
      obtain ⟨s, hrun⟩ := exists_expression_of_literal (G := grammar n) .number
        ⟨by simp, by simp, by simp⟩ (by simp) (fun s hs => by
          simp only [primary, run_bind, run_place, run_token, Option.bind_some, hs,
            Bool.false_eq_true, if_false]) hshows hF hcloses
      exact ⟨_, rfl, hrun⟩
  | @string q m hq hm =>
      obtain ⟨fresh, hshows⟩ := (Heads.string hq hm r).shows hg
      rw [List.cons_append, List.append_assoc] at hF ⊢
      obtain ⟨s, hrun⟩ := exists_expression_of_string (G := grammar n) hshows hF hcloses
      exact ⟨_, rfl, hrun⟩

/-- A path is read as the chain that it is, by a grammar as deep as the path is long. -/
lemma exists_readsTo (he : IsPath e) : ∀ (n : Nat) {F : Frame} {g r : Text}, e.length ≤ n →
    IsGap g → F.Holds (g ++ (e ++ r)) → EndsName r → ∃ t, ReadsTo (grammar n) F g e r t := by
  induction he with
  | name hw => exact fun _ _ _ _ _ hg hF hr => ⟨_, readsTo_name hw hg hF hr⟩
  | @member e g g' w he hg hg' hw ih =>
      intro n F g₀ r hn hg₀ hF hr
      rw [List.append_assoc] at hF
      have hends : EndsName (g ++ '.' :: (g' ++ w) ++ r) := by
        rw [List.append_assoc]
        exact EndsName.gap (by rintro _ ⟨rfl⟩; decide) hg
      obtain ⟨t, ht⟩ := ih n (by simp at hn; omega) hg₀ hF hends
      exact ht.member hg hg' hw hr hF.of_append.of_append
  -- The index is a path itself, one level deeper. It is shorter than the whole, so the depth
  -- suffices.
  | @index e i g g' g'' he hi hg hg' hg'' ih ihi =>
      intro n F g₀ r hn hg₀ hF hr
      rw [List.append_assoc] at hF
      have hends : EndsName (g ++ '[' :: (g' ++ (i ++ (g'' ++ [']']))) ++ r) := by
        rw [List.append_assoc]
        exact EndsName.gap (by rintro _ ⟨rfl⟩; decide) hg
      simp only [List.length_append, List.length_cons] at hn
      obtain ⟨n, rfl⟩ : ∃ m, n = m + 1 := ⟨n - 1, by omega⟩
      obtain ⟨t, ht⟩ := ih (n + 1) (by omega) hg₀ hF hends
      refine ht.index (fun F g r hg hF hr hpeek => ?_) hg hg' hg'' hF.of_append.of_append
      obtain ⟨x, hx⟩ := ihi n (by omega) hg hF hr.endsName
      have hcloses : (peek r).Closes := .inr (.inl hpeek)
      exact ⟨x, hx.isTarget.2, (run_expression_of_chain hx.isHead Frame.state_context
        (hx.chain hF (.inl hcloses)) hcloses hF.of_append.of_append).2⟩
  | @key e i g g' g'' he hi hg hg' hg'' ih =>
      intro n F g₀ r hn hg₀ hF hr
      rw [List.append_assoc] at hF
      have hends : EndsName (g ++ '[' :: (g' ++ (i ++ (g'' ++ [']']))) ++ r) := by
        rw [List.append_assoc]
        exact EndsName.gap (by rintro _ ⟨rfl⟩; decide) hg
      simp only [List.length_append, List.length_cons] at hn
      obtain ⟨n, rfl⟩ : ∃ m, n = m + 1 := ⟨n - 1, by omega⟩
      obtain ⟨t, ht⟩ := ih (n + 1) (by omega) hg₀ hF hends
      exact ht.index (readsIndex_of_key hi) hg hg' hg'' hF.of_append.of_append

/-- A path in front of a sign of equality and a name is the target of an assignment. -/
lemma exists_assignment_of_isPath {n : Nat} {p : Text} (he : IsPath e) (hn : e.length ≤ n + 1)
    (hp : IsPlainName p) (hF : F.Holds (e ++ ([' '] ++ '=' :: ([' '] ++ (p ++ []))))) :
    ∃ t, t.span = ⟨F.size - byteLength (e ++ ([' '] ++ '=' :: ([' '] ++ (p ++ [])))),
        F.size - byteLength ([' '] ++ '=' :: ([' '] ++ (p ++ [])))⟩ ∧ hasDefault t = false ∧
      assignment (grammar (n + 1)) true
          (F.state false ([] ++ (e ++ ([' '] ++ '=' :: ([' '] ++ (p ++ []))))))
        = some (.node (.assignment "=")
            ⟨F.size - byteLength (e ++ ([' '] ++ '=' :: ([' '] ++ (p ++ [])))), F.size⟩
            [t, .node (.reference p .value none) ⟨F.size - byteLength (p ++ []), F.size⟩ []],
          F.state false []) := by
  have hFequals := hF.of_append
  have hFvalue : F.Holds ([' '] ++ (p ++ [])) := hFequals.of_append.of_append (w := ['='])
  -- the operand ends at the sign
  obtain ⟨t, ht⟩ := exists_readsTo he (n + 1) hn isGap_nil hF
    (EndsName.gap (by rintro _ ⟨rfl⟩; decide) isGap_space)
  obtain ⟨hequals, hnext, -⟩ := Frame.state_of_heads hFequals isGap_space
    (.equals (p ++ [])) (by simp)
  have hend : (peek ([' '] ++ '=' :: ([' '] ++ (p ++ [])))).IsEnd := by
    rw [Frame.state_token] at hequals
    exact .inr hequals
  -- the name is the value
  have hvalue := readsTo_name (G := grammar n) hp isGap_space hFvalue endsName_nil
  obtain ⟨hright, -⟩ := run_expression_of_chain hvalue.isHead Frame.state_context
    (hvalue.chain hFvalue (.inl (.inl rfl))) (.inl rfl) hFvalue.of_append.of_append
  have hright : grammar (n + 1) (.assignment true)
      (F.state false ([' '] ++ '=' :: ([' '] ++ (p ++ [])))).next
        = some (.node (.reference p .value none) ⟨F.size - byteLength (p ++ []), F.size⟩ [],
          F.state false []) := by
    rw [hnext]
    exact hright
  refine ⟨t, ht.span, ht.isTarget.2, ?_⟩
  rw [run_assignment ht.isHead (ht.chain hF hend) (by rwa [Frame.state_token])
    (Nat.zero_lt_of_lt hF.bound), run_assignmentFrom_of_equals hequals,
    run_assignTo ht.isTarget.1 hright, ht.start]
  rfl

end Grammar

/-- A path begins with a character of its first name. -/
lemma IsPath.exists_cons {e : Text} (he : IsPath e) : ∃ c t, e = c :: t ∧ isNamePart c = true := by
  have happend : ∀ {e : Text}, (∃ c t, e = c :: t ∧ isNamePart c = true) →
      ∀ l : Text, ∃ c t, e ++ l = c :: t ∧ isNamePart c = true := by
    rintro _ ⟨c, t, rfl, hc⟩ l
    exact ⟨c, t ++ l, rfl, hc⟩
  induction he with
  | @name w hw =>
      cases w with
      | nil => cases hw.start
      | cons c w =>
          have hparts := hw.parts
          rw [List.all_cons, Bool.and_eq_true] at hparts
          exact ⟨c, w, rfl, hparts.1⟩
  | member _ _ _ _ ih => exact happend ih _
  | index _ _ _ _ _ ih _ => exact happend ih _
  | key _ _ _ _ _ ih => exact happend ih _

/-- What begins like a path has no interpreter line. -/
lemma IsPath.ofText_eq {e : Text} (he : IsPath e) (l : Text) :
    State.ofText (e ++ l) true = (Frame.of (e ++ l)).state false (e ++ l) := by
  obtain ⟨c, t, rfl, hc⟩ := he.exists_cons
  have hline : State.interpreterLine (c :: t ++ l) = [] := by
    have hne : c ≠ '#' := by
      rintro rfl
      exact absurd hc (by decide)
    rw [State.interpreterLine, if_neg]
    simp [startsWith, List.isPrefixOf, hne.symm]
  rw [ofText_eq_state, State.behindLine, hline]
  rfl

/-- The expression that a text begins with, if no fault was passed. -/
lemma parseExpression?_of_run {text : Text} {n : Nat} {t : Tree}
    (hofText : State.ofText text true = (Frame.of text).state false text)
    (hn : depthFor text = n + 1)
    (hrun : Grammar.expression (grammar n) ((Frame.of text).state false text)
      = some (t, (Frame.of text).state false [])) (ht : hasDefault t = false) :
    parseExpression? text true = some t := by
  have hend : ((Frame.of text).state false []).isFlawed = false := rfl
  rw [parseExpression?, hofText, hn, grammar, rule, hrun]
  dsimp only
  rw [accept?, hend, ht]
  rfl

/-- A path is an expression. -/
lemma IsPath.exists_parseExpression? {e : Text} (he : IsPath e) :
    ∃ t, parseExpression? e true = some t := by
  obtain ⟨n, hn, hlength⟩ : ∃ n, depthFor e = n + 1 ∧ e.length ≤ n :=
    ⟨16 * e.length + 15, by rw [depthFor, depthPerToken]; omega, by omega⟩
  have hF : (Frame.of e).Holds ([] ++ (e ++ [])) := by
    rw [List.nil_append, List.append_nil]
    exact Frame.holds_of e
  obtain ⟨t, ht⟩ := Grammar.exists_readsTo he n hlength isGap_nil hF endsName_nil
  have hchain := ht.chain hF (.inl (.inl rfl))
  obtain ⟨-, hrun⟩ := Grammar.run_expression_of_chain ht.isHead Frame.state_context hchain
    (.inl rfl)
    hF.of_append.of_append
  have hofText := he.ofText_eq []
  rw [List.nil_append, List.append_nil] at hrun
  rw [List.append_nil] at hofText
  exact ⟨t, parseExpression?_of_run hofText hn hrun ht.isTarget.2⟩

/-- **Assignments to paths**: in front of a sign of equality and a name, a path is the target of an
assignment, as a whole. -/
theorem IsPath.exists_assignment {e p : Text} (he : IsPath e) (hp : IsPlainName p) :
    ∃ target, target.span = ⟨0, byteLength e⟩ ∧
      parseExpression? (e ++ " = " ++ p) true
        = some (.node (.assignment "=") ⟨0, byteLength (e ++ " = " ++ p)⟩ [target,
          .node (.reference p .value none)
            ⟨byteLength e + 3, byteLength (e ++ " = " ++ p)⟩ []]) := by
  obtain ⟨n, hn, hlength⟩ : ∃ n, depthFor (e ++ " = " ++ p) = n + 1 + 1 ∧ e.length ≤ n + 1 :=
    ⟨16 * (e ++ " = " ++ p).length + 14, by rw [depthFor, depthPerToken]; omega, by
      simp only [List.length_append]
      omega⟩
  have htext : e ++ " = " ++ p = e ++ ([' '] ++ '=' :: ([' '] ++ (p ++ []))) := by simp
  -- The spans: the target takes the path, and the value stands three characters behind it.
  have hsize : byteLength (e ++ ([' '] ++ '=' :: ([' '] ++ (p ++ []))))
      = byteLength e + byteLength ([' '] ++ '=' :: ([' '] ++ (p ++ []))) := byteLength_append _ _
  rw [htext] at hn ⊢
  obtain ⟨t, hspan, ht, hrun⟩ := Grammar.exists_assignment_of_isPath he hlength hp
    (Frame.holds_of (e ++ ([' '] ++ '=' :: ([' '] ++ (p ++ [])))))
  have hexpression := Grammar.run_expression Frame.state_context Frame.state_context hrun
    (by rw [Frame.state_token]; decide) (Nat.zero_lt_of_lt (Frame.holds_of _).bound)
  refine ⟨t, ?_, ?_⟩
  · rw [hspan]
    dsimp only [Frame.of]
    congr 1 <;> omega
  · have hvalue : byteLength (e ++ ([' '] ++ '=' :: ([' '] ++ (p ++ [])))) - byteLength (p ++ [])
        = byteLength e + 3 := by
      simp only [hsize, byteLength_append, byteLength_cons, byteLength_nil,
        show Char.utf8Size ' ' = 1 from rfl, show Char.utf8Size '=' = 1 from rfl]
      omega
    rw [parseExpression?_of_run (he.ofText_eq _) hn hexpression
      (by simp [hasDefault, anyHasDefault, ht])]
    dsimp only [Frame.of]
    rw [Nat.sub_self, hvalue]

end ComponentMigration.Script
