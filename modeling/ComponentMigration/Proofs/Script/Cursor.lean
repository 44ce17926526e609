import ComponentMigration.Script.Program
import ComponentMigration.Proofs.Script.Lexing

/-!
States in front of the tokens of a statement.

* **Frames.** The states that a parser passes while it reads a statement have the same size and
  depth in common, a `Frame`; what differs is the text that is left. `F.state fl t` is the state
  in front of the first token of `t`, with or without a fault so far.
* **Tokens.** `Frame.state_next`: from a text that shows a token the next state is that of the text
  behind it. The `run_` lemmas say what the small parsers do in a state.
-/

namespace ComponentMigration.Script

open Text

lemma State.next_congr {s s' : State} (hstop : s.stop = s'.stop) (hrest : s.rest = s'.rest)
    (hflawed : s.isFlawed = s'.isFlawed) (hmarkup : s.hasMarkup = s'.hasMarkup)
    (hcontext : s.context = s'.context) (hbound : s.bound = s'.bound) : s.next = s'.next := by
  simp only [next, load, hstop, hrest, hflawed, hmarkup, hcontext, hbound]

/-- What the states in front of the tokens of a statement have in common. -/
structure Frame where
  /-- The bytes from the statement on. -/
  size : Nat
  /-- How often a step may be repeated. -/
  bound : Nat

namespace Frame

variable (F : Frame) (fl : Bool) (t : Text)

/-- The state in front of the first token of a text, which ends the text from the statement on. -/
def state : State := .next {
  token := .endOfText, start := 0, stop := F.size - byteLength t, isFresh := false, here := t,
  rest := t, lastStop := 0, isFlawed := fl, hasMarkup := true, context := {}, bound := F.bound }

/-- The text can end the text from the statement on. -/
structure Holds : Prop where
  size : byteLength t ≤ F.size
  bound : t.length < F.bound

variable {F fl t}

lemma Holds.of_append {w : Text} (h : F.Holds (w ++ t)) : F.Holds t := by
  obtain ⟨hsize, hbound⟩ := h
  rw [byteLength_append] at hsize
  rw [List.length_append] at hbound
  exact ⟨by omega, by omega⟩

@[simp] lemma state_token : (F.state fl t).token = peek t := by
  rw [state, State.next]
  dsimp only
  rw [skipTrivia_offset]
  rfl

@[simp] lemma state_isFresh : (F.state fl t).isFresh = startsFresh t := by
  rw [state, State.next]
  dsimp only
  rw [skipTrivia_offset]
  rfl

@[simp] lemma state_here : (F.state fl t).here = fromToken t := by
  rw [state, State.next]
  dsimp only
  rw [skipTrivia_offset]
  rfl

@[simp] lemma state_lastStop : (F.state fl t).lastStop = F.size - byteLength t := rfl

@[simp] lemma state_bound : (F.state fl t).bound = F.bound := rfl

@[simp] lemma state_context : (F.state fl t).context = {} := rfl

lemma state_isFlawed : (F.state fl t).isFlawed
    = ((fl || !(skipTrivia .space false 0 t).2.2.2) || peek t == .invalid) := by
  rw [state, State.next]
  dsimp only
  rw [skipTrivia_offset]
  rfl

lemma state_of_shows {tok : Token} {fresh : Bool} {r : Text} (hF : F.Holds t)
    (h : Shows t tok fresh r) (hvalid : tok ≠ .invalid) :
    (F.state fl t).rest = r ∧ (F.state fl t).stop = F.size - byteLength r ∧
      (F.state fl t).isFlawed = fl := by
  obtain ⟨g, w, rfl, hgap, htoken, hread⟩ := h
  have hsize := hF.size
  simp only [byteLength_append] at hsize
  rw [state, State.next]
  dsimp only
  rw [skipTrivia_of_gap hgap htoken]
  dsimp only [State.load]
  rw [hread]
  refine ⟨rfl, ?_, ?_⟩
  · simp only [byteLength_append]
    omega
  · simp [hvalid]

/-- The next state stands in front of the token behind. -/
lemma state_next {tok : Token} {fresh : Bool} {r : Text} (hF : F.Holds t)
    (h : Shows t tok fresh r) (hvalid : tok ≠ .invalid) : (F.state fl t).next = F.state fl r := by
  obtain ⟨hrest, hstop, hflawed⟩ := @state_of_shows F fl t tok fresh r hF h hvalid
  exact State.next_congr hstop hrest hflawed rfl rfl rfl

end Frame

/-! ### Running parsers -/

namespace Parser

variable {α β : Type} (s : State)

@[simp] lemma run_pure (a : α) : (pure a : Parser α) s = some (a, s) := rfl

@[simp] lemma run_bind (p : Parser α) (f : α → Parser β) :
    (p >>= f) s = (p s).bind fun x => f x.1 x.2 := by
  cases h : p s with
  | none => simp [bind, StateT.bind, h]
  | some x => simp [bind, StateT.bind, h]

@[simp] lemma run_map (p : Parser α) (f : α → β) :
    (f <$> p) s = (p s).map fun x => (f x.1, x.2) := by
  cases h : p s with
  | none => simp [Functor.map, StateT.map, h]
  | some x => simp [Functor.map, StateT.map, h]

@[simp] lemma run_failure : (failure : Parser α) s = none := rfl

@[simp] lemma run_require (b : Bool) : require b s = if b then some ((), s) else none := by
  cases b <;> rfl

@[simp] lemma run_token : token s = some (s.token, s) := rfl

@[simp] lemma run_place : place s = some (s.start, s) := rfl

@[simp] lemma run_isFresh : isFresh s = some (s.isFresh, s) := rfl

@[simp] lemma run_advance : advance s = some ((), s.next) := rfl

@[simp] lemma run_isAt (p : Text) : isAt p s = some (s.token == .punctuator p, s) := rfl

@[simp] lemma run_isAtWord (w : Text) : isAtWord w s = some (s.token == .word w false, s) := rfl

@[simp] lemma run_isAtEnd : isAtEnd s = some (s.token == .endOfText, s) := rfl

lemma run_isAtAny (ps : List Text) : isAtAny ps s = some (match s.token with
    | .punctuator p => ps.contains p
    | _ => false, s) := by
  simp only [isAtAny]
  cases h : s.token <;> simp [bind, StateT.bind, h, get, getThe, MonadStateOf.get, StateT.get]

@[simp] lemma run_node (f : Form) (start : Nat) (ps : List Tree) :
    node f start ps s = some (.node f ⟨start, s.lastStop⟩ ps, s) := rfl

@[simp] lemma run_ahead (p : Parser Bool) :
    ahead p s = some (((p s).map (·.1)).getD false, s) := by
  rw [ahead]
  cases p s <;> rfl

@[simp] lemma run_eat (p : Text) : eat p s
    = if s.token = .punctuator p then some (true, s.next) else some (false, s) := by
  rw [eat]
  by_cases h : s.token = .punctuator p <;> simp [h]

@[simp] lemma run_eatWord (w : Text) : eatWord w s
    = if s.token = .word w false then some (true, s.next) else some (false, s) := by
  rw [eatWord]
  by_cases h : s.token = .word w false <;> simp [h]

@[simp] lemma run_expect (p : Text) : expect p s
    = if s.token = .punctuator p then some ((), s.next) else none := by
  rw [expect]
  by_cases h : s.token = .punctuator p <;> simp [h]

@[simp] lemma run_expectWord (w : Text) : expectWord w s
    = if s.token = .word w false then some ((), s.next) else none := by
  rw [expectWord]
  by_cases h : s.token = .word w false <;> simp [h]

end Parser

end ComponentMigration.Script
