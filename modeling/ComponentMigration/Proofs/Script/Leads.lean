import ComponentMigration.Proofs.Script.Pieces

/-!
Parsers lead on.

* **Tokens.** A token that is a name takes some bytes, however it is read
  (`Lexeme.size_pos_of_isName`, `Lexeme.IsOther`).
* **States.** In a state that `IsOrdered` the token begins behind the token before, and ends behind
  its beginning. From such a state a parser `Leads` to such a state, and not back.
-/

namespace ComponentMigration.Script

open Text Script.Parser

variable {t : Text} {k : Nat}

/-! ### Tokens -/

/-- A name that is not empty takes some bytes. -/
lemma scanName_size_pos {name r : Text} {size : Nat} {isEscaped : Bool}
    (h : scanName k t = some (name, size, isEscaped, r)) (hname : name ≠ []) : 0 < size := by
  fun_induction scanName k t generalizing name size isEscaped r with
  | case1 => cases h; exact absurd rfl hname
  | case2 c t k ih =>
      obtain ⟨_, -, heq⟩ := Option.map_eq_some_iff.mp h
      cases heq
      exact Nat.add_pos_right _ c.utf8Size_pos
  | case3 t n k _ _ ih =>
      obtain ⟨_, -, heq⟩ := Option.map_eq_some_iff.mp h
      cases heq
      exact Nat.succ_pos _
  | case4 => cases h
  | case5 => cases h
  | case6 c t _ _ ih =>
      obtain ⟨_, -, heq⟩ := Option.map_eq_some_iff.mp h
      cases heq
      exact Nat.add_pos_right _ c.utf8Size_pos
  | case7 => cases h; exact absurd rfl hname

namespace Lexeme

/-- Words and strings take some bytes. -/
lemma size_pos_of_isName (h : (read t).token.isName = true) : 0 < (read t).size := by
  cases t with
  | nil => cases h
  | cons c t =>
      unfold read at h ⊢
      dsimp only at h ⊢
      -- Words and strings can be names; the other kinds of tokens are ruled out.
      split_ifs at h ⊢
      · unfold word at h ⊢
        split
        · next hscan =>
          rw [hscan] at h
          dsimp only at h
          split_ifs at h ⊢
          · exact scanName_size_pos hscan (List.cons_ne_nil _ _)
          · rw [invalid_token] at h
            cases h
        · next hscan =>
          split at h
          · next hscan' => exact absurd hscan' (hscan _ _ _ _ _)
          · rw [invalid_token] at h
            cases h
      · rcases number_cases (c :: t) with ⟨_, htoken⟩ | htoken <;> rw [htoken] at h <;> cases h
      · split at h
        · exact Nat.succ_pos _
        · rw [invalid_token] at h
          cases h
      · rcases templateRest_cases t with ⟨_, _, htoken⟩ | htoken <;> rw [htoken] at h <;> cases h
      · rcases privateWord_cases t with ⟨_, htoken⟩ | htoken <;> rw [htoken] at h <;> cases h
      · unfold punctuator at h
        split at h
        · split_ifs at h <;> cases h
        · rw [invalid_token] at h
          cases h

/-- A token that is no word, and takes some bytes if it is a string. -/
structure IsOther (l : Lexeme) : Prop where
  token : ∀ w e, l.token ≠ .word w e
  size : l.token.isName = true → 0 < l.size

/-- A regular expression is no name. -/
lemma isName_regex (t : Text) : (regex t).token.isName = false := by
  rcases regex_token t with h | h <;> rw [h] <;> rfl

/-- A piece of a template is no name. -/
lemma isName_templateRest (t : Text) : (templateRest t).token.isName = false := by
  rcases templateRest_cases t with ⟨_, _, h⟩ | h <;> rw [h] <;> rfl

/-- A child of markup is no name. -/
lemma isOther_markupChild (t : Text) : (markupChild t).IsOther := by
  unfold markupChild
  split
  · exact ⟨nofun, nofun⟩
  · exact ⟨nofun, nofun⟩
  · exact ⟨nofun, nofun⟩
  · dsimp only
    split
    · exact ⟨nofun, nofun⟩
    · exact ⟨nofun, nofun⟩
    · refine ⟨fun w e h => ?_, fun h => ?_⟩ <;> rw [invalid_token] at h <;> cases h

/-- A string among markup takes some bytes. -/
lemma isOther_markupString? {l : Lexeme} (h : markupString? t = some l) : l.IsOther := by
  unfold markupString? at h
  split at h
  · split_ifs at h
    dsimp only at h
    split at h <;> cases h
    · exact ⟨nofun, fun _ => Nat.succ_pos _⟩
    · refine ⟨fun w e h => ?_, fun h => ?_⟩ <;> rw [invalid_token] at h <;> cases h
  · cases h

end Lexeme

/-! ### States -/

namespace State

/-- The token begins behind the token before, and ends behind its beginning. A word is the token
that is read here. -/
structure IsOrdered (s : State) : Prop where
  last : s.lastStop ≤ s.start
  here : s.start ≤ s.stop
  name : s.token.isName = true → s.start < s.stop
  word : ∀ w e, s.token = .word w e → peek s.here = .word w e

/-- From one state to another a parser only goes on, and faults stay. -/
structure Leads (s s' : State) : Prop where
  ordered : s'.IsOrdered
  last : s.lastStop ≤ s'.lastStop
  start : s.start ≤ s'.start
  flawed : s'.isFlawed = false → s.isFlawed = false

variable {s s' s'' : State}

/-- An ordered state leads to itself. -/
lemma IsOrdered.refl (h : s.IsOrdered) : s.Leads s := ⟨h, Nat.le_refl _, Nat.le_refl _, id⟩

/-- Parsers one behind the other lead on. -/
lemma Leads.trans (h : s.Leads s') (h' : s'.Leads s'') : s.Leads s'' :=
  ⟨h'.ordered, Nat.le_trans h.last h'.last, Nat.le_trans h.start h'.start,
    fun hflawed => h.flawed (h'.flawed hflawed)⟩

/-- Behind a token the state is ordered. -/
lemma isOrdered_next (s : State) : s.next.IsOrdered := by
  rw [next_eq]
  refine ⟨Nat.le_add_right _ _, Nat.le_add_right _ _, fun h => ?_, fun w e h => ?_⟩
  · exact Nat.lt_add_of_pos_right (Lexeme.size_pos_of_isName h)
  · rwa [load, peek, fromToken_fromToken]

/-- The next token leads on, if this one stands where it should. -/
lemma leads_next (hlast : s.lastStop ≤ s.start) (hhere : s.start ≤ s.stop) : s.Leads s.next := by
  refine ⟨isOrdered_next s, ?_, ?_, ?_⟩ <;> rw [next_eq]
  · exact Nat.le_trans hlast hhere
  · exact Nat.le_trans hhere (Nat.le_add_right _ _)
  · simp only [load, Bool.or_eq_false_iff, and_imp]
    exact fun hflawed _ _ => hflawed

lemma IsOrdered.next (h : s.IsOrdered) : s.Leads s.next := leads_next h.last h.here

/-- The token that was passed is the last one. -/
lemma lastStop_next (s : State) : s.next.lastStop = s.stop := by
  rw [next_eq]
  rfl

/-- A token that was passed ends behind its beginning. -/
lemma start_le_lastStop_next (h : s.IsOrdered) : s.start ≤ s.next.lastStop := by
  rw [lastStop_next]
  exact h.here

/-- A token that is read in its place leads on. -/
lemma IsOrdered.load (h : s.IsOrdered) {l : Lexeme} (hl : l.IsOther) :
    s.Leads (({ s with lastStop := s.stop } : State).load s.rest s.stop l false) := by
  refine ⟨⟨Nat.le_refl _, Nat.le_add_right _ _, fun h => Nat.lt_add_of_pos_right (hl.size h),
    fun w e h => absurd h (hl.token w e)⟩, Nat.le_trans h.last h.here, h.here, ?_⟩
  simp only [State.load, Bool.or_eq_false_iff, and_imp]
  exact fun hflawed _ => hflawed

/-- A token that is read again leads on. -/
lemma IsOrdered.reload (h : s.IsOrdered) {l : Lexeme} (hl : l.token.isName = false) :
    s.Leads (s.reload l) := by
  refine ⟨⟨h.last, Nat.le_add_right _ _, fun h => ?_, fun w e h => ?_⟩, Nat.le_refl _,
    Nat.le_refl _, ?_⟩
  · exact absurd (hl.symm.trans h) (by simp)
  · rw [show (s.reload l).token = l.token from rfl] at h
    rw [h] at hl
    cases hl
  · simp only [State.reload, State.load, Bool.or_eq_false_iff, and_imp]
    exact fun hflawed _ => hflawed

/-- The context does not matter. -/
lemma IsOrdered.inContext (h : s.IsOrdered) (c : Context) :
    ({ s with context := c } : State).IsOrdered := ⟨h.last, h.here, h.name, h.word⟩

/-- The first state of a text is ordered. -/
lemma isOrdered_first (t : Text) (hasMarkup : Bool) : (first [] t hasMarkup).IsOrdered :=
  isOrdered_next _

lemma Stands.isBoundary_start (h : s.Stands t) : t.IsBoundary s.start := by
  obtain ⟨w, hw, hlen⟩ := dropBytes?_eq_some_iff.mp h.here
  exact isBoundary_iff.mpr ⟨w, _, hw, hlen⟩

lemma Stands.isBoundary_lastStop (h : s.Stands t) : t.IsBoundary s.lastStop := by
  obtain ⟨e, he, -⟩ := h.last
  obtain ⟨w, hw, hlen⟩ := dropBytes?_eq_some_iff.mp he
  exact isBoundary_iff.mpr ⟨w, _, hw, hlen⟩

end State

end ComponentMigration.Script
