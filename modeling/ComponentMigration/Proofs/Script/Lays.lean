import ComponentMigration.Proofs.Script.Leads
import ComponentMigration.Proofs.Script.Shelf

/-!
Parsers lay out what they read.

* **Parsers.** `Lays on Γ p`: with `Γ` on the shelf the trees that `p` reads lie behind what was in
  front of `Γ`, up to the end of the last token; if `on`, there is such a token. The class follows
  the ways in which parsers are composed, as `Onward` does.
* **Parsers of the grammar.** A parser `LaysAlone`, goes on with trees behind a mark (`LaysFrom`),
  or with the last trees (`LaysOnto`).
* **Loops.** What a step keeps, a loop keeps (`Lays.repeatUpTo_keeps`), so the trees that it
  collects lie behind its first ones (`Lays.between_repeatUpTo`).
-/

namespace ComponentMigration.Script

open Text Script.Parser

variable {t : Text} {k m n : Nat} {x : Tree} {xs ps : List Tree} {Γ Γ' : Shelf}
  {Δ Δ' : List (List Tree)}

/-! ### Laying out -/

/-- The trees in what a parser answers. -/
class Bears (α : Type) where
  trees : α → List Tree

namespace Bears

variable {α β : Type}

instance tree : Bears Tree := ⟨fun x => [x]⟩

instance list : Bears (List Tree) := ⟨fun xs => xs⟩

instance lists : Bears (List (List Tree)) := ⟨fun xss => xss.flatten⟩

/-- Only the trees count, not the marks they come with. -/
instance marked : Bears (List (Tree × Bool)) := ⟨fun xs => xs.map (·.1)⟩

instance option [Bears α] : Bears (Option α) := ⟨fun found => match found with
  | some a => trees a
  | none => []⟩

instance pair [Bears α] : Bears (α × Bool) := ⟨fun found => trees found.1⟩

instance triple [Bears α] : Bears (α × Bool × Bool) := ⟨fun found => trees found.1⟩

/-- Two lists of trees, in the order of the text. -/
instance both : Bears (List Tree × List Tree) := ⟨fun found => found.1 ++ found.2⟩

instance named : Bears (Text × List Tree) := ⟨fun found => found.2⟩

instance arrowHead : Bears Grammar.ArrowHead := ⟨fun head => head.parts⟩

instance loopHead : Bears Grammar.LoopHead := ⟨fun head => head.parts⟩

end Bears

instance : Bears Unit := ⟨fun _ => []⟩
instance : Bears Bool := ⟨fun _ => []⟩
instance : Bears Nat := ⟨fun _ => []⟩
instance : Bears Text := ⟨fun _ => []⟩

/-- What holds no trees. -/
class Bare (α : Type) [Bears α] : Prop where
  bare : ∀ a : α, Bears.trees a = []

instance : Bare Unit := ⟨fun _ => rfl⟩
instance : Bare Bool := ⟨fun _ => rfl⟩
instance : Bare Text := ⟨fun _ => rfl⟩

/-- The trees in what a loop begins with. -/
class Holding {α : Type} [Bears α] (a : α) (ps : outParam (List Tree)) : Prop where
  holding : Bears.trees a = ps

namespace Holding

variable {α : Type} [Bears α]

instance tree (x : Tree) : Holding x [x] := ⟨rfl⟩
instance list (xs : List Tree) : Holding xs xs := ⟨rfl⟩
instance nil : Holding ([] : List (List Tree)) [] := ⟨rfl⟩
instance marked_nil : Holding ([] : List (Tree × Bool)) [] := ⟨rfl⟩
instance marked (x : Tree × Bool) : Holding [x] [x.1] := ⟨rfl⟩
/-- A pair begins with what its first part holds. -/
instance pair (a : α × Bool) [h : Holding a.1 ps] : Holding a ps := ⟨h.holding⟩
instance triple (a : α × Bool × Bool) [h : Holding a.1 ps] : Holding a ps := ⟨h.holding⟩
/-- What holds no trees begins with none. -/
instance bare [Bare α] (a : α) : Holding a [] := ⟨Bare.bare a⟩

end Holding

namespace Picks

/-- A tree that may be missing is one list of the shelf, empty or not. -/
instance toList (o : Option Tree) : Picks o.toList (Bears.trees o :: Δ) Δ where
  picks t a z zs hΔ := by
    cases o <;> simpa [Bears.trees] using hΔ

instance getD (o : Option (List Tree)) : Picks (o.getD []) (Bears.trees o :: Δ) Δ where
  picks t a z zs hΔ := by
    cases o <;> simpa [Bears.trees] using hΔ

end Picks

/-- With a shelf of what was read before, a parser lays out trees: they lie behind what was in front
of the shelf, and up to the end of the last token. A token is passed if `on`. -/
class Lays (on : Bool) (Γ : Shelf) {α : Type} [Bears α] (p : Parser α) : Prop where
  leads : ∀ ⦃s s' : State⦄ ⦃a : α⦄, s.IsOrdered → p s = some (a, s') → s.Leads s'
  lays : ∀ ⦃t : Text⦄ ⦃k : Nat⦄ ⦃s s' : State⦄ ⦃a : α⦄, s.Within t → s.IsOrdered →
    Γ.Holds t k s.lastStop s.start → p s = some (a, s') → s'.isFlawed = false →
      Between t k s'.lastStop (Bears.trees a) ∧ (on = true → k ≤ s'.lastStop)

/-- A parser of the grammar lays out trees, whatever was read before. -/
class LaysAlone (on : Bool) {α : Type} [Bears α] (p : Parser α) : Prop where
  laid : Lays on [] p

/-- A parser of the grammar lays out trees with some that were read before, since a mark. -/
class LaysFrom (k : outParam Nat) (ps : outParam (List Tree)) {α : Type} [Bears α] (p : Parser α) :
    Prop where
  laid : Lays false [.trees ps, .mark k] p

/-- A parser of the grammar lays out trees with the last that were read before. -/
class LaysOnto (on : Bool) (ps : List Tree) {α : Type} [Bears α] (p : Parser α) : Prop where
  laid : Lays on [.trees ps] p

/-- A parser passes a token that is not empty. -/
class Spells {α : Type} (p : Parser α) : Prop where
  spells : ∀ ⦃s s' : State⦄ ⦃a : α⦄, s.IsOrdered → p s = some (a, s') → s.start < s'.lastStop

/-- A parser goes on to no other token. -/
class Still {α : Type} (p : Parser α) : Prop where
  leads : ∀ ⦃s s' : State⦄ ⦃a : α⦄, s.IsOrdered → p s = some (a, s') → s.Leads s'
  still : ∀ ⦃s s' : State⦄ ⦃a : α⦄, p s = some (a, s') →
    s'.lastStop = s.lastStop ∧ s'.start = s.start

namespace Still

variable {α β : Type} {p q : Parser α} {f : α → Parser β}

/-- A parser that stays where it is goes on to no other token. -/
instance stays [h : Stays p] : Still p where
  leads s s' a hs hrun := by
    rw [h.stays hrun]
    exact hs.refl
  still s s' a hrun := by
    rw [h.stays hrun]
    exact ⟨rfl, rfl⟩

/-- What follows a token is told by its kind. -/
instance (priority := low) bind_token {p : Parser Token} {f : Token → Parser β} [Stays p]
    [hword : ∀ w isEscaped, Stays (f (.word w isEscaped))] [∀ w, Stays (f (.string w))]
    [∀ w, Stays (f (.privateWord w))] [∀ b, Stays (f (.number b))]
    [∀ isLast b, Stays (f (.template isLast b))] [∀ w, Stays (f (.punctuator w))]
    [Stays (f .endOfText)] [Stays (f .regex)] [Stays (f .markupText)] [Stays (f .invalid)] :
    Stays (p >>= f) := by
  refine Stays.bind (h := fun tok => ?_)
  cases tok <;> infer_instance

/-- A fault is marked, but no token is passed. -/
instance flaw : Still Parser.flaw where
  -- With the fault there is nothing to be said about what follows, so only the places are left.
  leads s s' a hs hrun := by
    cases hrun
    exact ⟨⟨hs.last, hs.here, hs.name, hs.word⟩, Nat.le_refl _, Nat.le_refl _, nofun⟩
  still s s' a hrun := by
    cases hrun
    exact ⟨rfl, rfl⟩

/-- Both branches lay out what they read. -/
instance ite {b : Prop} [Decidable b] [hp : Still p] [hq : Still q] :
    Still (if b then p else q) := by
  split_ifs
  · exact hp
  · exact hq

instance flawIf (b : Bool) : Still (Parser.flawIf b) := by
  unfold Parser.flawIf
  infer_instance

/-- A condition is met or the parser fails. -/
instance require (b : Bool) : Stays (Parser.require b) where
  stays s s' a hrun := by
    rw [run_require] at hrun
    split_ifs at hrun
    cases hrun
    rfl

/-- A change of the state that leaves the places of the token alone. -/
lemma change {g : State → State} (hleads : ∀ s : State, s.IsOrdered → s.Leads (g s))
    (hstill : ∀ s, (g s).lastStop = s.lastStop ∧ (g s).start = s.start) :
    Still (modify g : Parser PUnit) where
  leads s s' a hs hrun := by
    cases hrun
    exact hleads s hs
  still s s' a hrun := by
    cases hrun
    exact hstill s

/-- A longer operator stands where the angle bracket does. -/
instance joinAngle : Still Parser.joinAngle := by
  refine change (fun s hs => ?_) fun s => ?_
  -- The token is read again if it is an angle bracket with which an operator begins.
  · split_ifs
    · split
      · exact hs.reload rfl
      · exact hs.refl
    · exact hs.refl
  · split_ifs
    · split <;> exact ⟨rfl, rfl⟩
    · exact ⟨rfl, rfl⟩

/-- An angle bracket stands where the left shift does. -/
instance splitAngle : Still Parser.splitAngle := by
  refine change (fun s hs => ?_) fun s => ?_
  · split_ifs
    · exact hs.reload rfl
    · exact hs.refl
  · split_ifs <;> exact ⟨rfl, rfl⟩

end Still

namespace Lays

variable {α β : Type} [Bears α] [Bears β] {on : Bool}

/-- Parsers one behind the other: what the first leaves on the shelf the second finds there. -/
lemma of_bind {γ : Type} {p : Parser γ} {f : γ → Parser β} {Θ : γ → Shelf} [hon : Onward p]
    (hleads : ∀ ⦃s s' : State⦄ ⦃a : γ⦄, s.IsOrdered → p s = some (a, s') → s.Leads s')
    (hshelf : ∀ ⦃t : Text⦄ ⦃k : Nat⦄ ⦃s s' : State⦄ ⦃a : γ⦄, s.Within t → s.IsOrdered →
      Γ.Holds t k s.lastStop s.start → p s = some (a, s') → s'.isFlawed = false →
        (Θ a).Holds t k s'.lastStop s'.start)
    (h : ∀ a, Lays on (Θ a) (f a)) : Lays on Γ (p >>= f) where
  leads s s' b hs hrun := by
    rw [run_bind] at hrun
    obtain ⟨⟨a, s₁⟩, h₁, h₂⟩ := Option.bind_eq_some_iff.mp hrun
    have hlead := hleads hs h₁
    exact hlead.trans ((h a).leads hlead.ordered h₂)
  lays t k s s' b hs hord hΓ hrun hflawed := by
    rw [run_bind] at hrun
    obtain ⟨⟨a, s₁⟩, h₁, h₂⟩ := Option.bind_eq_some_iff.mp hrun
    have hord₁ := (hleads hord h₁).ordered
    have hflawed₁ := ((h a).leads hord₁ h₂).flawed hflawed
    exact (h a).lays (hon.keeps hs h₁) hord₁ (hshelf hs hord hΓ h₁ hflawed₁) h₂ hflawed

variable {p q : Parser α} {f : α → Parser β}

/-- A parser that does not go on leaves the shelf as it is. -/
instance bind_still {γ : Type} {p : Parser γ} {f : γ → Parser β} [Onward p] [hp : Still p]
    [h : ∀ a, Lays on Γ (f a)] : Lays on Γ (p >>= f) :=
  of_bind (Θ := fun _ => Γ) hp.leads (fun t k s s' a _ _ hΓ hrun _ => by
    obtain ⟨hlast, hstart⟩ := hp.still hrun
    rwa [hlast, hstart]) h

/-- The place of the token is put on the shelf as a mark. -/
instance bind_place {f : Nat → Parser β} [h : ∀ n, Lays on (.mark n :: Γ) (f n)] :
    Lays on Γ (Parser.place >>= f) :=
  of_bind (Θ := fun n => .mark n :: Γ) (fun s s' a hs hrun => by
    rw [run_place] at hrun
    cases hrun
    exact hs.refl) (fun t k s s' a hs hord hΓ hrun hflawed => by
    rw [run_place] at hrun
    cases hrun
    -- A token begins at a boundary of characters, unless the text was flawed before.
    exact .cons hΓ ⟨rfl, (hs hflawed).isBoundary_start⟩ hord.last (Nat.le_refl _) (Nat.le_refl _)) h

/-! ### Parsers of the grammar -/

section LaysAlone

variable {p : Parser α} {f : α → Parser β}

/-- What a parser reads by itself lies behind all that was read before. -/
lemma alone_between {t : Text} {s s' : State} {a : α} (hp : LaysAlone on p) (hs : s.Within t)
    (hord : s.IsOrdered) (hrun : p s = some (a, s')) (hflawed : s'.isFlawed = false) :
    Between t s.start s'.lastStop (Bears.trees a) ∧ (on = true → s.start ≤ s'.lastStop) :=
  hp.laid.lays hs hord (.nil (Nat.le_refl _)) hrun hflawed

/-- A parser of the grammar in front. -/
lemma bind_trees [Onward p] (hp : LaysAlone false p)
    (h : ∀ a, Lays on (.trees (Bears.trees a) :: Γ) (f a)) : Lays on Γ (p >>= f) :=
  of_bind (Θ := fun a => .trees (Bears.trees a) :: Γ) hp.laid.leads
    (fun t k s s' a hs hord hΓ hrun hflawed => by
      have hlead := hp.laid.leads hord hrun
      exact .cons hΓ (alone_between hp hs hord hrun hflawed).1 hord.last hlead.last hlead.start) h

/-- A parser of the grammar in front that passes a token: its trees, and the token behind them. -/
lemma bind_token_trees [Onward p] (hp : LaysAlone true p)
    (h : ∀ a, Lays on (.token :: .trees (Bears.trees a) :: Γ) (f a)) : Lays on Γ (p >>= f) :=
  of_bind (Θ := fun a => .token :: .trees (Bears.trees a) :: Γ) hp.laid.leads
    (fun t k s s' a hs hord hΓ hrun hflawed => by
      have hlead := hp.laid.leads hord hrun
      obtain ⟨htrees, htoken⟩ := alone_between hp hs hord hrun hflawed
      exact .cons (.cons hΓ htrees hord.last hlead.last (htoken rfl)) (Nat.le_refl _)
        (Nat.le_refl _) (Nat.le_refl _) hlead.ordered.last) h

/-- A parser in front of which only the token counts, for it holds no trees. -/
lemma bind_token [Onward p] (hp : LaysAlone true p) (h : ∀ a, Lays on (.token :: Γ) (f a)) :
    Lays on Γ (p >>= f) :=
  of_bind (Θ := fun _ => .token :: Γ) hp.laid.leads (fun t k s s' a hs hord hΓ hrun hflawed => by
    have hlead := hp.laid.leads hord hrun
    have hpassed := (alone_between hp hs hord hrun hflawed).2 rfl
    exact .cons hΓ hpassed hord.last hlead.last hlead.start) h

/-- A parser in front that leaves nothing behind; the shelf may lie further back then. -/
lemma bind_nothing [Onward p] (hp : LaysAlone false p) (h : ∀ a, Lays on Γ (f a)) :
    Lays on Γ (p >>= f) :=
  of_bind (Θ := fun _ => Γ) hp.laid.leads (fun t k s s' a hs hord hΓ hrun hflawed => by
    have hlead := hp.laid.leads hord hrun
    exact hΓ.mono hlead.last hlead.start) h

/-- What is passed is not empty. -/
instance bind_word [Bare α] [Onward p] [hspells : Spells p] [hp : LaysAlone true p]
    [h : ∀ a, Lays on (.word :: Γ) (f a)] : Lays on Γ (p >>= f) :=
  of_bind (Θ := fun _ => .word :: Γ) hp.laid.leads (fun t k s s' a hs hord hΓ hrun hflawed => by
    have hlead := hp.laid.leads hord hrun
    exact .cons hΓ (hspells.spells hord hrun) hord.last hlead.last hlead.start) h

/-- Without trees, a token is all that is left. -/
instance (priority := 900) bind_bare_token [Bare α] [Onward p] [hp : LaysAlone true p]
    [h : ∀ a, Lays on (.token :: Γ) (f a)] : Lays on Γ (p >>= f) := bind_token hp h

/-- Without trees and without a token, nothing is left. -/
instance (priority := 800) bind_bare [Bare α] [Onward p] [hp : LaysAlone false p]
    [h : ∀ a, Lays on Γ (f a)] : Lays on Γ (p >>= f) := bind_nothing hp h

/-- A single tree is put on the shelf as such, so that it is found by name later on. -/
instance (priority := 900) bind_tree {p : Parser Tree} {f : Tree → Parser β} [Onward p]
    [hp : LaysAlone false p] [h : ∀ x, Lays on (.trees [x] :: Γ) (f x)] : Lays on Γ (p >>= f) :=
  bind_trees hp h

/-- A tree with a mark is put on the shelf without it. -/
instance (priority := 900) bind_marked {p : Parser (Tree × Bool)} {f : Tree × Bool → Parser β}
    [Onward p] [hp : LaysAlone false p] [h : ∀ a, Lays on (.trees [a.1] :: Γ) (f a)] :
    Lays on Γ (p >>= f) := bind_trees hp h

/-- In general all trees of the answer are put on the shelf, and the token behind them. -/
instance (priority := 700) bind_alone_token [Onward p] [hp : LaysAlone true p]
    [h : ∀ a, Lays on (.token :: .trees (Bears.trees a) :: Γ) (f a)] : Lays on Γ (p >>= f) :=
  bind_token_trees hp h

/-- In general all trees of the answer are put on the shelf. -/
instance (priority := 600) bind_alone [Onward p] [hp : LaysAlone false p]
    [h : ∀ a, Lays on (.trees (Bears.trees a) :: Γ) (f a)] : Lays on Γ (p >>= f) :=
  bind_trees hp h

/-- Whether a token was passed can be forgotten. -/
lemma weaken (h : Lays true Γ p) : Lays false Γ p where
  leads := h.leads
  lays _ _ _ _ _ hs hord hΓ hrun hflawed := ⟨(h.lays hs hord hΓ hrun hflawed).1, nofun⟩

/-- What is laid out with nothing on the shelf is so with any shelf in front. -/
lemma of_nil (h : Lays on [] p) : Lays on Γ p where
  leads := h.leads
  lays _ _ _ _ _ hs hord hΓ hrun hflawed := h.lays hs hord (.nil hΓ.le) hrun hflawed

/-- A parser without trees only has to go on. -/
lemma of_leads [Bare α]
    (h : ∀ ⦃s s' : State⦄ ⦃a : α⦄, s.IsOrdered → p s = some (a, s') → s.Leads s') :
    Lays false Γ p where
  leads := h
  lays _ _ _ _ a _ _ _ _ _ := by
    rw [Bare.bare a]
    exact ⟨.nil, nofun⟩

instance alone [hp : LaysAlone on p] : Lays on Γ p := of_nil hp.laid

/-- A parser of the grammar that passes a token lays out trees in any case. -/
instance (priority := low) alone_weak [hp : LaysAlone true p] :
    Lays false Γ p := weaken (of_nil hp.laid)

end LaysAlone

/-! ### Choice -/

/-- A parser that fails lays out nothing. -/
instance failure : Lays on Γ (failure : Parser α) where
  leads _ _ _ _ h := by cases h
  lays _ _ _ _ _ _ _ _ h := by cases h

instance failure_bind {f : α → Parser β} : Lays on Γ ((Alternative.failure : Parser α) >>= f) where
  leads _ _ _ _ h := by cases h
  lays _ _ _ _ _ _ _ _ h := by cases h

instance ite {b : Prop} [Decidable b] [hp : Lays on Γ p] [hq : Lays on Γ q] :
    Lays on Γ (if b then p else q) := by
  split_ifs
  · exact hp
  · exact hq

/-- What follows a token is told by its kind. -/
instance (priority := low) bind_kind {p : Parser Token} {f : Token → Parser β} [Onward p] [Still p]
    [hplain : ∀ w, Lays on Γ (f (.word w false))] [hescaped : ∀ w, Lays on Γ (f (.word w true))]
    [∀ w, Lays on Γ (f (.privateWord w))] [∀ b, Lays on Γ (f (.number b))]
    [∀ w, Lays on Γ (f (.string w))] [hlast : ∀ b, Lays on Γ (f (.template true b))]
    [hpiece : ∀ b, Lays on Γ (f (.template false b))] [∀ w, Lays on Γ (f (.punctuator w))]
    [Lays on Γ (f .endOfText)] [Lays on Γ (f .regex)] [Lays on Γ (f .markupText)]
    [Lays on Γ (f .invalid)] : Lays on Γ (p >>= f) := by
  refine bind_still (h := fun tok => ?_)
  cases tok with
  | word w isEscaped => cases isEscaped <;> infer_instance
  | template isLast isBad => cases isLast <;> infer_instance
  | _ => infer_instance

/-- What follows a test is told by its outcome. -/
instance (priority := low) bind_test {p : Parser Bool} {f : Bool → Parser β} [Onward p] [Still p]
    [htrue : Lays on Γ (f true)] [hfalse : Lays on Γ (f false)] : Lays on Γ (p >>= f) := by
  refine bind_still (h := fun b => ?_)
  cases b
  · exact hfalse
  · exact htrue

/-- What follows a look ahead is told by what was found. -/
instance (priority := low) bind_found {γ : Type} {p : Parser (Option γ)} {f : Option γ → Parser β}
    [Onward p] [Still p] [hnone : Lays on Γ (f none)] [hsome : ∀ a, Lays on Γ (f (some a))] :
    Lays on Γ (p >>= f) := by
  refine bind_still (h := fun o => ?_)
  cases o with
  | none => exact hnone
  | some a => exact hsome a

/-- What may be missing is on the shelf only if it is there. -/
instance (priority := low) bind_option {γ : Type} [Bears γ] {p : Parser (Option γ)}
    {f : Option γ → Parser β} [Onward p] [hp : LaysAlone false p] [hnone : Lays on Γ (f none)]
    [hsome : ∀ a, Lays on (.trees (Bears.trees a) :: Γ) (f (some a))] : Lays on Γ (p >>= f) := by
  refine of_bind (Θ := fun o => match o with
    | some a => .trees (Bears.trees a) :: Γ
    | none => Γ) hp.laid.leads (fun t k s s' o hs hord hΓ hrun hflawed => ?_) fun o => ?_
  -- The shelf depends on the outcome, so it is filled in each case by itself.
  · have hlead := hp.laid.leads hord hrun
    cases o with
    | none => exact hΓ.mono hlead.last hlead.start
    | some a =>
        exact .cons hΓ (alone_between hp hs hord hrun hflawed).1 hord.last hlead.last hlead.start
  · cases o with
    | none => exact hnone
    | some a => exact hsome a

/-- What follows a list is told by how many trees there are: none, one, or more. -/
instance (priority := low) bind_list {p : Parser (List Tree)} {f : List Tree → Parser β} [Onward p]
    [hp : LaysAlone false p] [Lays on (.trees [] :: Γ) (f [])]
    [∀ x, Lays on (.trees [x] :: Γ) (f [x])]
    [∀ x y xs, Lays on (.trees (x :: y :: xs) :: Γ) (f (x :: y :: xs))] : Lays on Γ (p >>= f) := by
  refine bind_trees hp fun found => ?_
  match found with
  | [] | [x] | x :: y :: xs => infer_instance

/-- A context for some part of the text does not move what is read in it. -/
instance within (g : Context → Context) [hp : Lays on Γ p] : Lays on Γ (Parser.within g p) where
  leads s s' a hs hrun := by
    rw [run_within] at hrun
    obtain ⟨⟨b, s₁⟩, h₁, hrun⟩ := Option.map_eq_some_iff.mp hrun
    cases hrun
    obtain ⟨hord, hl, hst, hflawed⟩ := hp.leads (hs.inContext (g s.context)) h₁
    exact ⟨hord.inContext _, hl, hst, hflawed⟩
  lays t k s s' a hs hord hΓ hrun hflawed := by
    rw [run_within] at hrun
    obtain ⟨⟨b, s₁⟩, h₁, hrun⟩ := Option.map_eq_some_iff.mp hrun
    cases hrun
    have hlaid := hp.lays (hs.inContext (g s.context)) (hord.inContext _) hΓ h₁ hflawed
    exact hlaid

instance within_alone (g : Context → Context) [hp : Lays on [] p] :
    LaysAlone on (Parser.within g p) :=
  ⟨within g⟩

/-- What was tried in vain leaves nothing behind. -/
instance attempt [hp : Lays false Γ p] : Lays false Γ (Parser.attempt p) where
  leads s s' a hs hrun := by
    rw [Parser.attempt] at hrun
    split at hrun
    · next h =>
      cases hrun
      exact hp.leads hs h
    · cases hrun
      exact hs.refl
  lays t k s s' a hs hord hΓ hrun hflawed := by
    rw [Parser.attempt] at hrun
    split at hrun
    · next h =>
      cases hrun
      exact hp.lays hs hord hΓ h hflawed
    · cases hrun
      exact ⟨.nil, nofun⟩

instance attempt_alone [hp : Lays false [] p] : LaysAlone false (Parser.attempt p) := ⟨attempt⟩

/-! ### Tokens -/

/-- A token is passed. -/
instance advance : LaysAlone true Parser.advance where
  laid := {
    leads := fun s s' a hs hrun => by
      cases hrun
      exact hs.next
    lays := fun t k s s' a hs hord hΓ hrun hflawed => by
      cases hrun
      -- The shelf ends in front of the token, and the token ends behind its beginning.
      exact ⟨.nil, fun _ => Nat.le_trans hΓ.le (State.start_le_lastStop_next hord)⟩ }

/-- What was passed is on the shelf. -/
instance eat_bind (w : Text) {q q' : Parser α} [hq : Lays on (.token :: Γ) q]
    [hq' : Lays on Γ q'] :
    Lays on Γ (Parser.eat w >>= fun isThere => if isThere = true then q else q') := by
  -- Passing a punctuator is a test with `advance` in one of its branches.
  have h : Lays on Γ (Parser.isAt w >>= fun isThere =>
      if isThere = true then Parser.advance >>= fun _ => q else q') := by infer_instance
  convert h using 1
  rw [Parser.eat, bind_assoc]
  congr 1
  funext isThere
  cases isThere <;> simp

/-- A word that was passed is on the shelf. -/
instance eatWord_bind (w : Text) {q q' : Parser α} [hq : Lays on (.token :: Γ) q]
    [hq' : Lays on Γ q'] :
    Lays on Γ (Parser.eatWord w >>= fun isThere => if isThere = true then q else q') := by
  have h : Lays on Γ (Parser.isAtWord w >>= fun isThere =>
      if isThere = true then Parser.advance >>= fun _ => q else q') := by infer_instance
  convert h using 1
  rw [Parser.eatWord, bind_assoc]
  congr 1
  funext isThere
  cases isThere <;> simp

/-! ### Answers -/

/-- An answer lies in the text with what it holds. -/
lemma of_pure {a : α} [hpass : HasToken on Γ]
    (h : ∀ ⦃t : Text⦄ ⦃k m n : Nat⦄, Γ.Holds t k m n → m ≤ n → Between t k m (Bears.trees a)) :
    Lays on Γ (pure a : Parser α) where
  leads s s' b hs hrun := by
    cases hrun
    exact hs.refl
  lays t k s s' b hs hord hΓ hrun hflawed := by
    cases hrun
    exact ⟨h hΓ hord.last, hpass.passes hΓ hord.last⟩

/-- An answer is picked from what the shelf has gathered. -/
lemma pure_of_picks {a : α} [HasToken on Γ] (hg : Gathers Γ Δ) (hp : Picks (Bears.trees a) Δ Δ') :
    Lays on Γ (pure a : Parser α) := of_pure fun _ _ _ _ hΓ hmn =>
  hp.between (hg.gathers hΓ hmn)

instance pure_tree (x : Tree) [HasToken on Γ] [hg : Gathers Γ Δ] [hp : Picks [x] Δ Δ'] :
    Lays on Γ (pure x : Parser Tree) := pure_of_picks hg hp

instance pure_trees (xs : List Tree) [HasToken on Γ] [hg : Gathers Γ Δ] [hp : Picks xs Δ Δ'] :
    Lays on Γ (pure xs : Parser (List Tree)) := pure_of_picks hg hp

instance pure_lists (xss : List (List Tree)) [HasToken on Γ] [hg : Gathers Γ Δ]
    [hp : Picks xss.flatten Δ Δ'] : Lays on Γ (pure xss : Parser (List (List Tree))) :=
  pure_of_picks hg hp

instance pure_marked (xs : List (Tree × Bool)) [HasToken on Γ] [hg : Gathers Γ Δ]
    [hp : Picks (xs.map (·.1)) Δ Δ'] : Lays on Γ (pure xs : Parser (List (Tree × Bool))) :=
  pure_of_picks hg hp

instance pure_both (xs : List Tree × List Tree) [HasToken on Γ] [hg : Gathers Γ Δ]
    [hp : Picks (xs.1 ++ xs.2) Δ Δ'] : Lays on Γ (pure xs : Parser (List Tree × List Tree)) :=
  pure_of_picks hg hp

instance pure_named (found : Text × List Tree) [HasToken on Γ] [hg : Gathers Γ Δ]
    [hp : Picks found.2 Δ Δ'] : Lays on Γ (pure found : Parser (Text × List Tree)) :=
  pure_of_picks hg hp

instance pure_arrowHead (head : Grammar.ArrowHead) [HasToken on Γ] [hg : Gathers Γ Δ]
    [hp : Picks head.parts Δ Δ'] : Lays on Γ (pure head : Parser Grammar.ArrowHead) :=
  pure_of_picks hg hp

instance pure_loopHead (head : Grammar.LoopHead) [HasToken on Γ] [hg : Gathers Γ Δ]
    [hp : Picks head.parts Δ Δ'] : Lays on Γ (pure head : Parser Grammar.LoopHead) :=
  pure_of_picks hg hp

/-- An answer without trees asks for nothing. -/
instance pure_bare [Bare α] (a : α) [HasToken on Γ] : Lays on Γ (pure a : Parser α) :=
  of_pure fun t k m n _ _ => by
    rw [Bare.bare a]
    exact .nil

instance pure_none [HasToken on Γ] : Lays on Γ (pure none : Parser (Option α)) :=
  of_pure fun _ _ _ _ _ _ => .nil

/-- An answer with the same trees. -/
lemma pure_congr {a : α} {b : β} (h : Lays on Γ (pure a : Parser α))
    (heq : Bears.trees b = Bears.trees a) : Lays on Γ (pure b : Parser β) where
  leads s s' c hs hrun := by
    cases hrun
    exact hs.refl
  lays t k s s' c hs hord hΓ hrun hflawed := by
    cases hrun
    rw [heq]
    exact h.lays hs hord hΓ rfl hflawed

instance pure_some (a : α) [h : Lays on Γ (pure a : Parser α)] :
    Lays on Γ (pure (some a) : Parser (Option α)) := pure_congr h rfl

instance pure_pair (a : α × Bool) [h : Lays on Γ (pure a.1 : Parser α)] :
    Lays on Γ (pure a : Parser (α × Bool)) := pure_congr h rfl

instance pure_triple (a : α × Bool × Bool) [h : Lays on Γ (pure a.1 : Parser α)] :
    Lays on Γ (pure a : Parser (α × Bool × Bool)) := pure_congr h rfl

/-- What is known already is put in. -/
instance pure_bind {γ : Type} (c : γ) {f : γ → Parser β} [h : Lays on Γ (f c)] :
    Lays on Γ (pure c >>= f) := by
  rwa [LawfulMonad.pure_bind]

/-- Parsers are taken apart from the left. -/
instance bind_bind {γ : Type} {p : Parser γ} {g : γ → Parser α} {f : α → Parser β}
    [h : Lays on Γ (p >>= fun c => g c >>= f)] : Lays on Γ ((p >>= g) >>= f) := by
  rwa [bind_assoc]

/-- What follows a choice follows both of its branches. -/
instance ite_bind {b : Prop} [Decidable b] {f : α → Parser β} [hp : Lays on Γ (p >>= f)]
    [hq : Lays on Γ (q >>= f)] : Lays on Γ ((if b then p else q) >>= f) := by
  split_ifs
  · exact hp
  · exact hq

/-! ### Nodes -/

/-- A node of what was read since a mark is proper. -/
class Orders (k : Nat) (Γ : Shelf) (f : Form) (ps : List Tree) : Prop where
  orders : ∀ ⦃t : Text⦄ ⦃a m n : Nat⦄, Γ.Holds t a m n → m ≤ n →
    (Tree.node f ⟨k, m⟩ ps).IsProper

/-- Most forms ask for nothing but the order of their parts. -/
instance orders_plain {f : Form} [Fails f.isSpecial] : Orders k Γ f ps where
  orders _ _ _ _ _ _ := Tree.isProper_of_fails

/-- A name that is declared is not empty, for a word was passed since the mark. -/
instance orders_binding {w : Text} {binder : Binder} {symbol : Option Symbol} [h : Exceeds k Γ] :
    Orders k Γ (.binding w binder symbol) ps where
  orders _ _ _ _ hΓ hmn := Tree.isProper_name (by trivial) (h.exceeds hΓ hmn)

/-- A name that is used is not empty either. -/
instance orders_reference {w : Text} {space : Space} {symbol : Option Symbol} [h : Exceeds k Γ] :
    Orders k Γ (.reference w space symbol) ps where
  orders _ _ _ _ hΓ hmn := Tree.isProper_name (by trivial) (h.exceeds hΓ hmn)

/-- A node of what was read since a mark. -/
lemma node_between {f : Form} {a : Nat} (hs : Since k Γ Δ Γ') (hp : Picks ps Δ Δ')
    (hpass : Passed k Γ) (hf : Orders k Γ f ps) {s : State} (hwithin : s.Within t)
    (hord : s.IsOrdered) (hΓ : Γ.Holds t a s.lastStop s.start) (hflawed : s.isFlawed = false) :
    ∃ m', m' ≤ s.lastStop ∧ m' ≤ k ∧ k ≤ s.start ∧
      Between t k s.lastStop [.node f ⟨k, s.lastStop⟩ ps] ∧
        Shelf.Holds t a (.mark k :: Γ') m' k := by
  -- Since the mark there are just the lists that the parts are picked from.
  obtain ⟨m', hm', hk, hkn, hb, hΔ, hΓ'⟩ := hs.since hΓ hord.last
  have hparts := hp.between hΔ
  exact ⟨m', hm', hk, hkn, hparts.node_of hb (hwithin hflawed).isBoundary_lastStop
    (hpass.passed hΓ hord.last) (hf.orders hΓ hord.last), hΓ'⟩

/-- A node at the end of a parser. -/
instance node (f : Form) [hs : Since k Γ Δ Γ'] [hp : Picks ps Δ Δ'] [hpass : Passed k Γ]
    [hf : Orders k Γ f ps] : Lays on Γ (Parser.node f k ps) where
  leads s s' x hs hrun := by
    cases hrun
    exact hs.refl
  lays t a s s' x hwithin hord hΓ hrun hflawed := by
    cases hrun
    obtain ⟨m', -, -, -, hx, hΓ'⟩ := node_between hs hp hpass hf hwithin hord hΓ hflawed
    exact ⟨hx.mono hΓ'.le (Nat.le_refl _), fun _ => Nat.le_trans hΓ'.le (hpass.passed hΓ hord.last)⟩

/-- A node that the parser goes on with: it takes the place of its parts, with the mark in front. -/
instance node_bind (f : Form) {g : Tree → Parser β} [hs : Since k Γ Δ Γ'] [hp : Picks ps Δ Δ']
    [hpass : Passed k Γ] [hf : Orders k Γ f ps]
    [h : ∀ x, Lays on (.trees [x] :: .mark k :: Γ') (g x)] : Lays on Γ (Parser.node f k ps >>= g) :=
  of_bind (Θ := fun x => .trees [x] :: .mark k :: Γ') (fun s s' x hs hrun => by
    cases hrun
    exact hs.refl) (fun t a s s' x hwithin hord hΓ hrun hflawed => by
    cases hrun
    obtain ⟨m', hm', hk, hkn, hx, hΓ'⟩ := node_between hs hp hpass hf hwithin hord hΓ hflawed
    exact .cons hΓ' hx hk hm' hkn) h

/-- An assignment: the value was read behind the target. -/
instance assignment_node {on : Bool} {target value : Tree} (operator : Text) [hs : Since k Γ Δ Γ']
    [hp : Picks [target] Δ Δ'] :
    Lays on (.trees [value] :: Γ) (Parser.node (.assignment operator) k [target, value]) where
  leads s s' x hs hrun := by
    cases hrun
    exact hs.refl
  lays t a s s' x hwithin hord hΓ hrun hflawed := by
    cases hrun
    -- The value is the last on the shelf, so the target ends in front of it.
    obtain - | ⟨hΓ, hvalue, hle, hm, hn⟩ := hΓ
    obtain ⟨m', -, -, hkn, hb, hΔ, hΓ'⟩ := hs.since hΓ hle
    have htarget := hp.between hΔ
    have hparts : Between t k s.lastStop [target, value] := htarget.append hvalue hkn hle hm
    -- This order is what the form of an assignment asks for.
    have horder : target.span.Precedes value.span :=
      Nat.le_trans (htarget.le_stop List.mem_cons_self)
        (Nat.le_trans hle (hvalue.start_le List.mem_cons_self))
    have hle := hparts.le_of_mem List.mem_cons_self
    have hnode := hparts.node_of (f := .assignment operator) hb
      (hwithin hflawed).isBoundary_lastStop hle ⟨horder, nofun⟩
    exact ⟨hnode.mono hΓ'.le (Nat.le_refl _), fun _ => Nat.le_trans hΓ'.le hle⟩

/-! ### What goes on with trees -/

/-- What a parser reads with the trees since a mark lies behind the mark. -/
lemma laysFrom_between {p : Parser α} {a : Nat} [hp : LaysFrom k ps p] (hs : Since k Γ Δ Γ')
    (hpicks : Picks ps Δ Δ') {s s' : State} {x : α} (hwithin : s.Within t) (hord : s.IsOrdered)
    (hΓ : Γ.Holds t a s.lastStop s.start) (hrun : p s = some (x, s'))
    (hflawed : s'.isFlawed = false) : ∃ m', m' ≤ s'.lastStop ∧ m' ≤ k ∧ k ≤ s'.start ∧
      Between t k s'.lastStop (Bears.trees x) ∧ Shelf.Holds t a (.mark k :: Γ') m' k := by
  obtain ⟨m', hm', hk, hkn, hb, hΔ, hΓ'⟩ := hs.since hΓ hord.last
  have hparts := hpicks.between hΔ
  have hlead := hp.laid.leads hord hrun
  -- The parser sees no more of the shelf than the mark and the trees behind it.
  have hmark : Shelf.Holds t k [.mark k] m' k :=
    .cons (.nil (Nat.le_refl _) : Shelf.Holds t k [] m' k) ⟨rfl, hb⟩ hk (Nat.le_refl _)
      (Nat.le_refl _)
  have hlaid := (hp.laid.lays hwithin hord (.cons hmark hparts hk hm' hkn) hrun hflawed).1
  exact ⟨m', Nat.le_trans hm' hlead.last, hk, Nat.le_trans hkn hlead.start, hlaid, hΓ'⟩

/-- A parser at the end that goes on with the trees since a mark. -/
instance laysFrom {p : Parser α} [hp : LaysFrom k ps p] [hs : Since k Γ Δ Γ']
    [hpicks : Picks ps Δ Δ'] : Lays false Γ p where
  leads := hp.laid.leads
  lays t a s s' x hwithin hord hΓ hrun hflawed := by
    obtain ⟨m', -, -, -, hx, hΓ'⟩ := laysFrom_between hs hpicks hwithin hord hΓ hrun hflawed
    exact ⟨hx.mono hΓ'.le (Nat.le_refl _), nofun⟩

/-- What it reads takes the place of all that was read since the mark. -/
instance laysFrom_bind {p : Parser Tree} {f : Tree → Parser β} [Onward p] [hp : LaysFrom k ps p]
    [hs : Since k Γ Δ Γ'] [hpicks : Picks ps Δ Δ']
    [h : ∀ x, Lays on (.trees [x] :: .mark k :: Γ') (f x)] :
    Lays on Γ (p >>= f) :=
  of_bind (Θ := fun x => .trees [x] :: .mark k :: Γ') hp.laid.leads
    (fun t a s s' x hwithin hord hΓ hrun hflawed => by
      obtain ⟨m', hm', hk, hkn, hx, hΓ'⟩ := laysFrom_between hs hpicks hwithin hord hΓ hrun hflawed
      exact .cons hΓ' hx hk hm' hkn) h

/-- What is not gone on with stays on the shelf. -/
instance laysFrom_option {γ : Type} [Bears γ] {p : Parser (Option γ)} {f : Option γ → Parser β}
    [Onward p] [hp : LaysFrom k ps p] [hs : Since k Γ Δ Γ'] [hpicks : Picks ps Δ Δ']
    [hnone : Lays on Γ (f none)]
    [hsome : ∀ a, Lays on (.trees (Bears.trees a) :: .mark k :: Γ') (f (some a))] :
    Lays on Γ (p >>= f) := by
  refine of_bind (Θ := fun o => match o with
    | some a => .trees (Bears.trees a) :: .mark k :: Γ'
    | none => Γ) hp.laid.leads (fun t a s s' o hwithin hord hΓ hrun hflawed => ?_) fun o => ?_
  · cases o with
    | none =>
        have hlead := hp.laid.leads hord hrun
        exact hΓ.mono hlead.last hlead.start
    | some x =>
        obtain ⟨m', hm', hk, hkn, hx, hΓ'⟩ :=
          laysFrom_between hs hpicks hwithin hord hΓ hrun hflawed
        exact .cons hΓ' hx hk hm' hkn
  · cases o with
    | none => exact hnone
    | some x => exact hsome x

/-- What a parser reads with the last trees takes their place. -/
lemma laysOnto_between {p : Parser α} {c : List Tree} {a : Nat} (hp : LaysOnto on c p)
    {s s' : State} {x : α} (hwithin : s.Within t) (hord : s.IsOrdered)
    (hΓ : Shelf.Holds t a (.trees c :: Γ) s.lastStop s.start) (hrun : p s = some (x, s'))
    (hflawed : s'.isFlawed = false) : ∃ m' n', m' ≤ n' ∧ m' ≤ s'.lastStop ∧ n' ≤ s'.start ∧
      Between t n' s'.lastStop (Bears.trees x) ∧ Γ.Holds t a m' n' ∧
        (on = true → n' ≤ s'.lastStop) := by
  obtain - | ⟨hΓ, hc, hle, hm, hn⟩ := hΓ
  have hlead := hp.laid.leads hord hrun
  obtain ⟨htrees, hpass⟩ := hp.laid.lays hwithin hord
    (.cons (.nil (Nat.le_refl _)) hc hle hm hn) hrun hflawed
  exact ⟨_, _, hle, Nat.le_trans hm hlead.last, Nat.le_trans hn hlead.start, htrees, hΓ, hpass⟩

/-- A parser that goes on with the last trees, and passes a token. -/
instance laysOnto_bind_token {p : Parser α} {f : α → Parser β} {c : List Tree} [Onward p]
    [hp : LaysOnto true c p] [h : ∀ a, Lays on (.token :: .trees (Bears.trees a) :: Γ) (f a)] :
    Lays on (.trees c :: Γ) (p >>= f) :=
  of_bind (Θ := fun a => .token :: .trees (Bears.trees a) :: Γ) hp.laid.leads
    (fun t a s s' x hwithin hord hΓ hrun hflawed => by
      obtain ⟨m', n', hle, hm, hn, htrees, hΓ, hpass⟩ :=
        laysOnto_between hp hwithin hord hΓ hrun hflawed
      exact .cons (.cons hΓ htrees hle hm (hpass rfl)) (Nat.le_refl _) (Nat.le_refl _)
        (Nat.le_refl _) (hp.laid.leads hord hrun).ordered.last) h

/-- A parser that goes on with the last trees. -/
instance laysOnto_bind {p : Parser α} {f : α → Parser β} {c : List Tree} [Onward p]
    [hp : LaysOnto false c p] [h : ∀ a, Lays on (.trees (Bears.trees a) :: Γ) (f a)] :
    Lays on (.trees c :: Γ) (p >>= f) :=
  of_bind (Θ := fun a => .trees (Bears.trees a) :: Γ) hp.laid.leads
    (fun t a s s' x hwithin hord hΓ hrun hflawed => by
      obtain ⟨m', n', hle, hm, hn, htrees, hΓ, -⟩ :=
        laysOnto_between hp hwithin hord hΓ hrun hflawed
      exact .cons hΓ htrees hle hm hn) h

/-! ### Loops -/

section Loops

variable {step : α → Parser (Option α)} {init : α} {f : α → Parser β} {a : Nat}

omit [Bears α] in
/-- What a step keeps, a loop keeps. -/
lemma repeatUpTo_keeps {P : α → State → Prop}
    (h : ∀ a s o s', P a s → step a s = some (o, s') → P (o.getD a) s') {s s' : State} {a b : α}
    (hs : P a s) (hrun : Parser.repeatUpTo step n a s = some (b, s')) : P b s' := by
  induction n generalizing a s with
  | zero => cases hrun
  | succ n ih =>
      rw [Parser.repeatUpTo, run_bind] at hrun
      obtain ⟨⟨o, s₁⟩, h₁, h₂⟩ := Option.bind_eq_some_iff.mp hrun
      have hstep := h a s o s₁ hs h₁
      cases o with
      | none =>
          cases h₂
          exact hstep
      | some a' => exact ih hstep h₂

/-- A loop goes on as its step does. -/
lemma leads_repeatUpTo {Γ : α → Shelf} (h : ∀ a, Lays false (Γ a) (step a)) {s s' : State}
    {a b : α} (hs : s.IsOrdered) (hrun : Parser.repeatUpTo step n a s = some (b, s')) :
    s.Leads s' :=
  repeatUpTo_keeps (P := fun _ s₁ => s.Leads s₁)
    (fun a _ _ _ hlead hstep => hlead.trans ((h a).leads hlead.ordered hstep)) hs.refl hrun

/-- The trees that a loop collects lie behind the place where its first trees begin. -/
lemma between_repeatUpTo [∀ a, Onward (step a)]
    (h : ∀ a, Lays false (.trees (Bears.trees a) :: Γ) (step a)) {s s' : State} {a b : α}
    (hwithin : s.Within t) (hs : s.IsOrdered)
    (hΓ : ∃ m', m' ≤ s.lastStop ∧ m' ≤ k ∧ Γ.Holds t k m' k) (hk : k ≤ s.start)
    (ha : Between t k s.lastStop (Bears.trees a))
    (hrun : Parser.repeatUpTo step n a s = some (b, s')) (hflawed : s'.isFlawed = false) :
    Between t k s'.lastStop (Bears.trees b) := by
  -- The invariant: the loop has led on from where it began, and what it has collected lies
  -- behind `k`.
  obtain ⟨m', hm', hmk, hm⟩ := hΓ
  refine (repeatUpTo_keeps (P := fun a s₁ => s.Leads s₁ ∧ s₁.Within t ∧
    (s₁.isFlawed = false → Between t k s₁.lastStop (Bears.trees a))) ?_
      ⟨hs.refl, hwithin, fun _ => ha⟩ hrun).2.2 hflawed
  rintro a s₁ o s₂ ⟨hlead, hwithin₁, htrees⟩ hstep
  have hlead₂ := (h a).leads hlead.ordered hstep
  refine ⟨hlead.trans hlead₂, Onward.keeps hwithin₁ hstep, fun hflawed₂ => ?_⟩
  have htrees := htrees (hlead₂.flawed hflawed₂)
  -- The last step only looks, and any other one puts more trees on the shelf.
  cases o with
  | none => exact htrees.mono (Nat.le_refl _) hlead₂.last
  | some a' =>
      exact ((h a).lays hwithin₁ hlead.ordered (.cons hm htrees hmk
        (Nat.le_trans hm' hlead.last) (Nat.le_trans hk hlead.start)) hstep hflawed₂).1

omit [Bears α] in
lemma run_repeatWhile (step : α → Parser (Option α)) (init : α) (s : State) :
    Parser.repeatWhile step init s = Parser.repeatUpTo step s.bound init s := rfl

variable {c : List Tree} {j : Nat} [Onward (Parser.repeatWhile step init)] [∀ a, Onward (step a)]

/-- A loop that goes on with the last trees, and with a mark in front of them. -/
instance (priority := high) loop_mark [hinit : Holding init (x :: c)]
    [hstep : ∀ a, Lays false [.trees (Bears.trees a), .mark j] (step a)]
    [h : ∀ a, Lays on (.token :: .trees (Bears.trees a) :: .mark j :: Γ) (f a)] :
    Lays on (.trees (x :: c) :: .mark j :: Γ) (Parser.repeatWhile step init >>= f) :=
  of_bind (Θ := fun a => .token :: .trees (Bears.trees a) :: .mark j :: Γ)
    (fun s s' a hs hrun => leads_repeatUpTo hstep hs hrun)
    (fun t k s s' a hwithin hs hΓ hrun hflawed => by
      have hlead := leads_repeatUpTo hstep hs hrun
      obtain - | ⟨hmark, hc, hle, hm, hn⟩ := hΓ
      obtain - | ⟨hΓ, ⟨rfl, hb⟩, hle', hm', hn'⟩ := hmark
      -- The steps see the mark, which stands where the first tree begins or in front of it.
      have hloop : Shelf.Holds t j [.mark j] _ j :=
        .cons (.nil (Nat.le_refl _) : Shelf.Holds t j [] _ j) ⟨rfl, hb⟩ hle' (Nat.le_refl _)
          (Nat.le_refl _)
      -- As there is a first tree, its end shows that a token was passed.
      have hpass := Nat.le_trans (hc.le_of_mem List.mem_cons_self) hlead.last
      rw [← hinit.holding] at hc
      have htrees := between_repeatUpTo hstep hwithin hs
        ⟨_, Nat.le_trans hm' hm, hle', hloop⟩ (Nat.le_trans hn' hn) (hc.mono hn' (Nat.le_refl _))
        hrun hflawed
      have hmark := Shelf.Holds.cons (i := .mark j) hΓ ⟨rfl, hb⟩ hle' (Nat.le_refl _)
        (Nat.le_refl _)
      exact .cons (.cons hmark htrees hle' (Nat.le_trans (Nat.le_trans hm' hm) hlead.last)
        (Nat.le_trans hn' hpass)) (Nat.le_refl _) (Nat.le_refl _) (Nat.le_refl _)
          hlead.ordered.last) h

/-- A loop that goes on with the last trees. -/
instance loop [hinit : Holding init (x :: c)]
    [hstep : ∀ a, Lays false [.trees (Bears.trees a)] (step a)]
    [h : ∀ a, Lays on (.token :: .trees (Bears.trees a) :: Γ) (f a)] :
    Lays on (.trees (x :: c) :: Γ) (Parser.repeatWhile step init >>= f) :=
  of_bind (Θ := fun a => .token :: .trees (Bears.trees a) :: Γ)
    (fun s s' a hs hrun => leads_repeatUpTo hstep hs hrun)
    (fun t k s s' a hwithin hs hΓ hrun hflawed => by
      have hlead := leads_repeatUpTo hstep hs hrun
      obtain - | ⟨hΓ, hc, hle, hm, hn⟩ := hΓ
      -- As there is a first tree, its end shows that a token was passed.
      have hpass := Nat.le_trans (hc.le_of_mem List.mem_cons_self) hlead.last
      rw [← hinit.holding] at hc
      have htrees := between_repeatUpTo hstep hwithin hs
        ⟨_, hm, hle, .nil (Nat.le_refl _)⟩ hn hc hrun hflawed
      exact .cons (.cons hΓ htrees hle (Nat.le_trans hm hlead.last) hpass) (Nat.le_refl _)
        (Nat.le_refl _) (Nat.le_refl _) hlead.ordered.last) h

/-- A loop that begins with no trees. -/
instance loop_nil [hinit : Holding init []]
    [hstep : ∀ a, Lays false [.trees (Bears.trees a)] (step a)]
    [h : ∀ a, Lays on (.trees (Bears.trees a) :: Γ) (f a)] :
    Lays on Γ (Parser.repeatWhile step init >>= f) :=
  of_bind (Θ := fun a => .trees (Bears.trees a) :: Γ)
    (fun s s' a hs hrun => leads_repeatUpTo hstep hs hrun)
    (fun t k s s' a hwithin hs hΓ hrun hflawed => by
      have hlead := leads_repeatUpTo hstep hs hrun
      have htrees := between_repeatUpTo hstep hwithin hs
        ⟨_, Nat.le_refl _, hs.last, .nil (Nat.le_refl _)⟩ (Nat.le_refl _)
        (hinit.holding ▸ Between.nil) hrun hflawed
      exact .cons hΓ htrees hs.last hlead.last hlead.start) h

/-- What follows a loop is told by how much it collected. -/
instance (priority := low) loop_list {step : List Tree → Parser (Option (List Tree))}
    {init : List Tree} {f : List Tree → Parser β} [Onward (Parser.repeatWhile step init)]
    [∀ xs, Onward (step xs)] [hinit : Holding init (x :: c)]
    [hstep : ∀ xs, Lays false [.trees xs] (step xs)] [Lays on (.token :: .trees [] :: Γ) (f [])]
    [∀ x, Lays on (.token :: .trees [x] :: Γ) (f [x])]
    [∀ x y xs, Lays on (.token :: .trees (x :: y :: xs) :: Γ) (f (x :: y :: xs))] :
    Lays on (.trees (x :: c) :: Γ) (Parser.repeatWhile step init >>= f) := by
  -- The trees of a list are the list, so the instances above fit the loop.
  have hstep : ∀ xs, Lays false [.trees (Bears.trees xs)] (step xs) := hstep
  have h : ∀ xs, Lays on (.token :: .trees (Bears.trees xs) :: Γ) (f xs)
    | [] | [_] | _ :: _ :: _ => by infer_instance
  exact loop

/-- A loop that passes a token at once. -/
instance loop_token [hinit : Holding init []] [hfirst : Lays true [] (step init)]
    [hstep : ∀ a, Lays false [.trees (Bears.trees a)] (step a)] :
    LaysAlone true (Parser.repeatWhile step init) where
  laid := {
    leads := fun s s' a hs hrun => leads_repeatUpTo hstep hs hrun
    lays := fun t k s s' a hwithin hs hΓ hrun hflawed => by
      have hk := hΓ.le
      refine ⟨between_repeatUpTo hstep hwithin hs ⟨0, Nat.zero_le _, Nat.zero_le _,
        .nil (Nat.le_refl _)⟩ hk (hinit.holding ▸ .nil) hrun hflawed, fun _ => ?_⟩
      rw [run_repeatWhile] at hrun
      -- The first step passes a token; the steps behind it can only go on.
      generalize s.bound = n at hrun
      cases n with
      | zero => cases hrun
      | succ n =>
          rw [Parser.repeatUpTo, run_bind] at hrun
          obtain ⟨⟨o, s₁⟩, h₁, h₂⟩ := Option.bind_eq_some_iff.mp hrun
          have hlead := hfirst.leads hs h₁
          cases o with
          | none =>
              cases h₂
              exact (hfirst.lays hwithin hs hΓ h₁ hflawed).2 rfl
          | some a' =>
              have hlead' := leads_repeatUpTo hstep hlead.ordered h₂
              have hpass := (hfirst.lays hwithin hs hΓ h₁ (hlead'.flawed hflawed)).2 rfl
              exact Nat.le_trans hpass hlead'.last }

end Loops

instance ite_false [hq : Lays on Γ q] : Lays on Γ (if false = true then p else q) := hq

/-- A loop at the end. -/
instance loop_last {step : α → Parser (Option α)} {init : α}
    [h : Lays on Γ (Parser.repeatWhile step init >>= pure)] :
    Lays on Γ (Parser.repeatWhile step init) := by
  rwa [bind_pure] at h

/-- A parser that does the same. -/
lemma of_run (h : Lays on Γ q) (heq : ∀ s, p s = q s) : Lays on Γ p := by
  rwa [show p = q from funext heq]

/-! ### Small parsers -/

set_option synthInstance.maxSize 1000000

/-- A parser that goes on to no other token, at the end. -/
instance still [Bare α] {p : Parser α} [hp : Still p] [hpass : HasToken on Γ] : Lays on Γ p where
  leads := hp.leads
  lays t k s s' a hs hord hΓ hrun hflawed := by
    rw [Bare.bare a, (hp.still hrun).1]
    exact ⟨.nil, hpass.passes hΓ hord.last⟩

lemma alone_of {p : Parser α} (h : Lays on [] p) : LaysAlone on p := ⟨h⟩

instance get_still : Stays (MonadState.get : Parser State) := Stays.look run_get

instance isAtAny (ws : List Text) :
    Stays (Parser.isAtAny ws) := Stays.look fun s => run_isAtAny s ws

instance isFresh : Stays Parser.isFresh := Stays.look run_isFresh

instance isAtEnd : Stays Parser.isAtEnd := Stays.look run_isAtEnd

/-- Looks at the token. -/
lemma get_token {f : State → Parser α} (h : ∀ s, Lays on Γ (f s)) :
    Lays on Γ (MonadState.get >>= f) := bind_still

instance isAtAnyWord (ws : List Text) : Stays (Parser.isAtAnyWord ws) := by
  unfold Parser.isAtAnyWord
  refine Stays.bind (h := fun s => ?_)
  split <;> infer_instance

instance isAtIdentifier : Stays Parser.isAtIdentifier := by
  unfold Parser.isAtIdentifier
  refine Stays.bind (h := fun s => ?_)
  split <;> infer_instance

instance eat (w : Text) : LaysAlone false (Parser.eat w) := alone_of <| by
  unfold Parser.eat
  infer_instance

instance eatWord (w : Text) : LaysAlone false (Parser.eatWord w) := alone_of <| by
  unfold Parser.eatWord
  infer_instance

lemma alone_next {p : Parser Unit}
    (h : ∀ ⦃s s' : State⦄ ⦃a : Unit⦄, p s = some (a, s') → s' = s.next) : LaysAlone true p where
  laid := {
    leads := fun s s' a hs hrun => by
      rw [h hrun]
      exact hs.next
    lays := fun t k s s' a hs hord hΓ hrun hflawed => by
      rw [h hrun]
      exact ⟨.nil, fun _ => Nat.le_trans hΓ.le (State.start_le_lastStop_next hord)⟩ }

instance expect (w : Text) : LaysAlone true (Parser.expect w) := alone_next fun s s' a hrun => by
  rw [run_expect] at hrun
  split_ifs at hrun
  cases hrun
  rfl

instance expectWord (w : Text) : LaysAlone true (Parser.expectWord w) :=
  alone_next fun s s' a hrun => by
    rw [run_expectWord] at hrun
    split_ifs at hrun
    cases hrun
    rfl

instance endStatement : LaysAlone false Parser.endStatement := alone_of <| by
  unfold Parser.endStatement
  infer_instance

instance identifier : LaysAlone true Parser.identifier := alone_of <| by
  unfold Parser.identifier
  refine get_token fun s => ?_
  split <;> infer_instance

instance name : LaysAlone true Parser.name := alone_of <| by
  unfold Parser.name
  refine get_token fun s => ?_
  split <;> infer_instance

instance spells_identifier : Spells Parser.identifier where
  spells s s' w hs hrun := by
    by_cases hword : ∃ w e, s.token = .word w e
    · obtain ⟨w, e, hword⟩ := hword
      rw [run_identifier_word s hword] at hrun
      split_ifs at hrun
      cases hrun
      rw [State.lastStop_next]
      exact hs.name (by rw [hword]; rfl)
    · push Not at hword
      rw [run_identifier_of_ne s hword] at hrun
      cases hrun

instance spells_name : Spells Parser.name where
  spells s s' w hs hrun := by
    simp only [Parser.name, run_bind, run_get, Option.bind_some] at hrun
    cases hword : s.token <;> rw [hword] at hrun <;> cases hrun
    rw [State.lastStop_next]
    exact hs.name (by rw [hword]; rfl)

instance bindingName (b : Binder) : LaysAlone false (Parser.bindingName b) := alone_of <| by
  unfold Parser.bindingName
  infer_instance

instance referenceName (b : Space) : LaysAlone false (Parser.referenceName b) := alone_of <| by
  unfold Parser.referenceName
  infer_instance

instance separated {element : Parser Tree} [Onward element] [hp : LaysAlone false element]
    (close separator : Text) : LaysAlone false (Parser.separated close separator element) :=
  alone_of <| by
    unfold Parser.separated
    infer_instance

instance separated_here {element : Parser Tree} [Onward element] [hp : Lays false [] element]
    (close separator : Text) : LaysAlone false (Parser.separated close separator element) :=
  have := LaysAlone.mk hp
  separated close separator

instance sequenceUntil {element : Parser (List Tree)} [Onward element]
    [hp : LaysAlone false element] (close : Text) :
    LaysAlone false (Parser.sequenceUntil close element) := alone_of <| by
  unfold Parser.sequenceUntil
  infer_instance

instance sequenceUntil_here {element : Parser (List Tree)} [Onward element]
    [hp : Lays false [] element] (close : Text) :
    LaysAlone false (Parser.sequenceUntil close element) :=
  have := LaysAlone.mk hp
  sequenceUntil close

/-! ### Tokens that depend on their place -/

lemma alone_modify {g : State → State} (hleads : ∀ s : State, s.IsOrdered → s.Leads (g s))
    (hpass : ∀ s : State, s.IsOrdered → s.start ≤ (g s).lastStop) :
    LaysAlone true (modify g : Parser PUnit) where
  laid := {
    leads := fun s s' a hs hrun => by
      cases hrun
      exact hleads s hs
    lays := fun t k s s' a hs hord hΓ hrun hflawed => by
      cases hrun
      exact ⟨.nil, fun _ => Nat.le_trans hΓ.le (hpass s hord)⟩ }

instance advanceInMarkup : LaysAlone true Parser.advanceInMarkup :=
  alone_modify (fun s hs => hs.load (Lexeme.isOther_markupChild s.rest)) fun _ hs => hs.here

instance advanceToAttributeValue : LaysAlone true Parser.advanceToAttributeValue := by
  refine alone_modify (fun s hs => ?_) fun s hs => ?_
  · split
    · next hstring => exact hs.load (Lexeme.isOther_markupString? hstring)
    · exact hs.next
  · split
    · exact hs.here
    · exact State.start_le_lastStop_next hs

instance expectInMarkup (w : Text) : LaysAlone true (Parser.expectInMarkup w) := alone_of <| by
  unfold Parser.expectInMarkup
  infer_instance

/-- A regular expression is only read at a slash. -/
instance asRegex {f : Unit → Parser α} {q : Parser α} [h : ∀ u, Lays on Γ (f u)]
    [hq : Lays on Γ q] : Lays on Γ (Parser.isAtAny ["/", "/="] >>= fun isSlash =>
      if isSlash = true then Parser.asRegex >>= f else q) where
  leads s s' a hs hrun := by
    rw [run_bind, run_isAtAny, Option.bind_some] at hrun
    split_ifs at hrun
    · exact (hs.reload (Lexeme.isName_regex _)).trans
        ((h ()).leads (hs.reload (Lexeme.isName_regex _)).ordered hrun)
    · exact hq.leads hs hrun
  lays t k s s' a hs hord hΓ hrun hflawed := by
    rw [run_bind, run_isAtAny, Option.bind_some] at hrun
    split_ifs at hrun with hslash
    · have hread : (s.reload (Lexeme.regex s.here)).Within t :=
        Onward.keeps (p := Parser.isAtAny ["/", "/="] >>= fun isSlash =>
          if isSlash = true then Parser.asRegex >>= pure else Alternative.failure) hs
          (by rw [run_bind, run_isAtAny, Option.bind_some, if_pos hslash]; rfl)
      exact (h ()).lays hread (hord.reload (Lexeme.isName_regex _)).ordered hΓ hrun hflawed
    · exact hq.lays hs hord hΓ hrun hflawed

/-- A template goes on behind a closing brace only. -/
instance asTemplateRest {f : Unit → Parser α} [h : ∀ u, Lays on Γ (f u)] :
    Lays on Γ (Parser.isAt "\x7d" >>= fun isBrace =>
      Parser.require isBrace >>= fun _ => Parser.asTemplateRest >>= f) where
  leads s s' a hs hrun := by
    rw [run_bind, run_isAt, Option.bind_some, run_bind, run_require] at hrun
    dsimp only at hrun
    split_ifs at hrun
    · exact (hs.reload (Lexeme.isName_templateRest _)).trans
        ((h ()).leads (hs.reload (Lexeme.isName_templateRest _)).ordered hrun)
    · cases hrun
  lays t k s s' a hs hord hΓ hrun hflawed := by
    rw [run_bind, run_isAt, Option.bind_some, run_bind, run_require] at hrun
    dsimp only at hrun
    split_ifs at hrun with hbrace
    · have hread : (s.reload (Lexeme.templateRest (s.here.drop 1))).Within t :=
        Onward.keeps (p := Parser.isAt "\x7d" >>= fun isBrace =>
          Parser.require isBrace >>= fun _ => Parser.asTemplateRest >>= pure) hs
          (by rw [run_bind, run_isAt, Option.bind_some, run_bind, run_require, if_pos hbrace]; rfl)
      exact (h ()).lays hread (hord.reload (Lexeme.isName_templateRest _)).ordered hΓ hrun hflawed
    · cases hrun

end Lays

end ComponentMigration.Script
