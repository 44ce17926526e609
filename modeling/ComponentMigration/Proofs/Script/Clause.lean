import ComponentMigration.Proofs.Script.Passing

/-!
Lists in braces that are read from their own characters.

* **Portable elements.** A parser of elements is `Portable` if an element that ends in front of a
  comma or a closing brace is read from its own characters. Attributes and specifiers are
  (`portable_attribute`, `portable_importSpecifier`).
* **Braces.** `Braced` is a list in braces. `Braced.portable`: it is read from its own characters,
  whatever goes on behind it. `Braced.insert`: more elements can stand behind its last one.
-/

namespace ComponentMigration.Script

open Text Script.Parser

/-! ### Portable elements -/

/-- Tokens lead to a text at the end of theirs. -/
lemma Lexes.suffix {t t' : Text} {ts : List (Token × Bool)} (h : Lexes t ts t') : t' <:+ t := by
  obtain ⟨w, -, rfl, -⟩ := h.goesOn
  exact List.suffix_append w t'

/-- The first of the tokens is the one that is seen. -/
lemma Lexes.peek_eq {t t' : Text} {x : Token × Bool} {ts : List (Token × Bool)}
    (h : Lexes t (x :: ts) t') : peek t = x.1 := by
  cases h with
  | cons h _ _ => exact h.fromToken_eq.2

/-- A comma or a closing brace follows. -/
def IsStop (t : Text) : Prop := peek t = .punctuator "," ∨ peek t = .punctuator "\x7d"

/-- A comma and a closing brace are plain. -/
lemma IsStop.isPlain {t : Text} (h : IsStop t) : (peek t).isPlain = true := by
  rcases h with h | h <;> rw [h] <;> rfl

/-- A comma and a closing brace are no names. -/
lemma IsStop.isName {t : Text} (h : IsStop t) : (peek t).isName = false := by
  rcases h with h | h <;> rw [h] <;> rfl

/-- An element is read from its own characters, in front of a comma or a closing brace. -/
def Portable (element : Parser Tree) : Prop :=
  ∀ ⦃F : Frame⦄ ⦃t u : Text⦄ ⦃x : Tree⦄, F.Passes element t x u → IsStop u →
    ∃ w, t = w ++ u ∧ ∀ ⦃F' : Frame⦄ ⦃u' : Text⦄, F'.Holds (w ++ u') → GoesOn u u' → IsStop u' →
      peek (w ++ u') = peek t ∧ ∃ x', x.SameAs x' ∧ F'.Passes element (w ++ u') x' u'

/-- Texts that begin alike do so behind the same text. -/
lemma GoesOn.append {t u : Text} (h : GoesOn t u) (w : Text) : GoesOn (w ++ t) (w ++ u) := by
  cases w with
  | nil => exact h
  | cons c w => exact .inl rfl

namespace Frame

variable {F F' : Frame} {element : Parser Tree} {t u e t' : Text} {xs : List Tree}

/-- The end of a list is a comma or a closing brace. -/
lemma Ends.isStop {isTrailing : Bool} (h : Ends e isTrailing t') : IsStop e := by
  cases h with
  | plain h => exact .inr h
  | trailing hcomma _ => exact .inl hcomma.fromToken_eq.2

/-- Elements begin with a comma, unless there are none. -/
lemma Upto.isStop (h : F.Upto element t xs e) (he : IsStop e) : IsStop t := by
  cases h with
  | nil => exact he
  | cons hcomma _ _ _ => exact .inl hcomma.fromToken_eq.2

/-- Elements are read from their own characters. -/
lemma Upto.portable (hp : Portable element) (h : F.Upto element t xs e) (he : IsStop e) :
    ∃ w, t = w ++ e ∧ ∀ ⦃F' : Frame⦄ ⦃e' : Text⦄, F'.Holds (w ++ e') → GoesOn e e' → IsStop e' →
      ∃ xs', List.Forall₂ Tree.SameAs xs xs' ∧ F'.Upto element (w ++ e') xs' e' := by
  induction h with
  | nil => exact ⟨[], rfl, fun F' e' _ _ _ => ⟨[], .nil, .nil⟩⟩
  | @cons t r u e fresh x xs hcomma hopen hx hxs ih =>
      obtain ⟨w₁, -, rfl, hshows⟩ := hcomma.goesOn rfl
      obtain ⟨w₂, rfl, hpasses⟩ := hp hx (hxs.isStop he)
      obtain ⟨w₃, rfl, hupto⟩ := ih he
      refine ⟨w₁ ++ (w₂ ++ w₃), by simp, fun F' e' hF hgoes he' => ?_⟩
      rw [List.append_assoc, List.append_assoc] at hF ⊢
      obtain ⟨xs', hsame, hxs'⟩ := hupto hF.of_append.of_append hgoes he'
      obtain ⟨hpeek, x', hx, hx'⟩ := hpasses hF.of_append (hgoes.append w₃) (hxs'.isStop he')
      refine ⟨x' :: xs', .cons hx hsame, .cons (hshows _ ?_) (by rwa [hpeek]) hx' hxs'⟩
      exact (hgoes.append w₃).append w₂

end Frame

/-! ### Attributes -/

/-- The name of a module is a string. -/
lemma Grammar.run_moduleName (s : State) : Grammar.moduleName s = match s.token with
    | .string w => some (w, s.next)
    | _ => none := by
  rw [Grammar.moduleName, run_bind, run_token, Option.bind_some]
  cases s.token <;> rfl

/-- The name of an export is passed steadily. -/
lemma Steady.exportName : Steady Grammar.exportName := by
  refine .of_next fun s a s' hs => .inr ?_
  rw [Grammar.run_exportName] at hs
  obtain ⟨w, hw, heq⟩ := Option.map_eq_some_iff.mp hs
  cases heq
  exact ⟨Token.isPlain_of_isName (Option.isSome_iff_exists.mpr ⟨_, hw⟩), false,
    by rw [Bool.or_false]⟩

/-- The name of a module is passed steadily. -/
lemma Steady.moduleName : Steady Grammar.moduleName := by
  refine .of_next fun s a s' hs => .inr ?_
  rw [Grammar.run_moduleName] at hs
  split at hs
  · next htoken =>
    cases hs
    exact ⟨htoken ▸ rfl, false, by rw [Bool.or_false]⟩
  · cases hs

/-- What is passed as the name of a module is the first token, a string. -/
lemma Frame.passes_moduleName {F : Frame} {t t' m : Text} : F.Passes Grammar.moduleName t m t' ↔
    F.Holds t ∧ ∃ fresh, Shows t (.string m) fresh t' := by
  constructor
  · rintro ⟨hF, hsuffix, hrun⟩
    rw [Grammar.run_moduleName, state_token] at hrun
    split at hrun
    · next w htoken =>
      have hplain : (peek t).isPlain = true := htoken ▸ rfl
      obtain ⟨r, hr⟩ := exists_shows hplain
      rw [state_next hF hr (Token.ne_invalid hplain)] at hrun
      obtain ⟨rfl, hs⟩ := Prod.mk.inj (Option.some.inj hrun)
      obtain rfl := state_inj hF hr.suffix hsuffix hs
      exact ⟨hF, _, htoken ▸ hr⟩
    · cases hrun
  · rintro ⟨hF, fresh, hr⟩
    refine ⟨hF, hr.suffix, ?_⟩
    rw [Grammar.run_moduleName, state_token, hr.fromToken_eq.2, state_next hF hr (by simp)]

/-- An attribute of an import. -/
def Grammar.attribute : Parser Tree := do
  let start ← place
  let _ ← exportName
  expect ":"
  let _ ← moduleName
  node .other start []

lemma Steady.attribute : Steady Grammar.attribute :=
  .bind (.look run_place) fun _ => .bind .exportName fun _ => .bind (.expect rfl) fun _ =>
    .bind .moduleName fun _ => .look fun s => run_node s _ _ _

/-- An attribute is its key, a colon and its value. -/
lemma Frame.passes_attribute {F : Frame} {t t' : Text} {x : Tree} (ht' : IsSound t') :
    F.Passes Grammar.attribute t x t' ↔ F.Holds t ∧
      (∃ key value fresh fresh' fresh'', key.isName = true ∧
        Lexes t [(key, fresh), (.punctuator ":", fresh'), (.string value, fresh'')] t') ∧
      x = .node .other ⟨(F.state false t).start, F.size - byteLength t'⟩ [] := by
  have hnode : ∀ n, Steady (node .other n []) := fun n => .look fun s => run_node s _ _ _
  rw [Grammar.attribute, passes_look_iff run_place, passes_bind_iff .exportName
    (fun _ => .bind (.expect rfl) fun _ => .bind .moduleName fun _ => hnode _) ht']
  simp only [passes_bind_iff (.expect (w := ":") rfl)
    (fun _ => .bind .moduleName fun _ => hnode _) ht',
    passes_bind_iff .moduleName (fun _ => hnode _) ht', passes_node]
  constructor
  · rintro ⟨_, u, -, hkey, _, v, -, hcolon, value, w, -, hvalue, -, rfl, rfl⟩
    obtain ⟨hF, key, fresh, hshows, hname⟩ := passes_exportName.mp hkey
    obtain ⟨-, fresh', hshows'⟩ := (passes_expect rfl).mp hcolon
    obtain ⟨-, fresh'', hshows''⟩ := passes_moduleName.mp hvalue
    have hname : key.isName = true := Option.isSome_iff_exists.mpr ⟨_, hname⟩
    exact ⟨hF, ⟨key, value, fresh, fresh', fresh'', hname,
      .cons hshows (Token.isPlain_of_isName hname)
      (.cons hshows' rfl (.cons hshows'' rfl .nil))⟩, rfl⟩
  · rintro ⟨hF, ⟨key, value, fresh, fresh', fresh'', hname, hlexes⟩, rfl⟩
    -- The three tokens, one by one.
    rcases hlexes with _ | ⟨hshows, hplain, hlexes⟩
    rcases hlexes with _ | ⟨hshows', hplain', hlexes⟩
    rcases hlexes with _ | ⟨hshows'', hplain'', ⟨⟩⟩
    obtain ⟨w, hw⟩ := Option.isSome_iff_exists.mp hname
    have hF₁ := hF.of_suffix hshows.suffix
    have hF₂ := hF₁.of_suffix hshows'.suffix
    refine ⟨w, _, hshows'.isSound (by simp), passes_exportName.mpr ⟨hF, _, _, hshows, hw⟩, (), _,
      hshows''.isSound (by simp), (passes_expect rfl).mpr ⟨hF₁, _, hshows'⟩, value, _, ht',
      passes_moduleName.mpr ⟨hF₂, _, hshows''⟩, hF₂.of_suffix hshows''.suffix, rfl, rfl⟩

/-- An attribute is read from its own characters, for it ends with a string. -/
lemma portable_attribute : Portable Grammar.attribute := by
  intro F t u x hx hu
  have hsound := isSound_of_isPlain hu.isPlain
  obtain ⟨hF, ⟨key, value, fresh, fresh', fresh'', hname, hlexes⟩, rfl⟩ :=
    (Frame.passes_attribute hsound).mp hx
  obtain ⟨w, -, rfl, hgoes⟩ := hlexes.goesOn
  refine ⟨w, rfl, fun F' u' hF' hu' hstop => ?_⟩
  have hlexes' := hgoes u' hu'
  refine ⟨?_, _, .node .nil _ _ _, (Frame.passes_attribute (isSound_of_isPlain hstop.isPlain)).mpr
    ⟨hF', ⟨key, value, fresh, fresh', fresh'', hname, hlexes'⟩, rfl⟩⟩
  rw [hlexes.peek_eq, hlexes'.peek_eq]

/-! ### Specifiers -/

/-- A plain token is passed if a test says so. -/
lemma Steady.passIf {α : Type} {p : Parser Bool} {k : Bool → Parser α}
    (hp : ∀ s, ∃ b, p s = some (b, s) ∧ (b = true → s.token.isPlain = true))
    (hk : ∀ b, Steady (k b)) :
    Steady (p >>= fun b => if b = true then advance >>= fun _ => k b else k b) := by
  -- The test and the step behind it are one move, with at most one token.
  have hpass : Steady (p >>= fun b => if b = true then advance >>= fun _ => Pure.pure b else
      Pure.pure b) := by
    refine .of_next fun s a s' hs => ?_
    obtain ⟨b, hb, hplain⟩ := hp s
    rw [run_bind, hb, Option.bind_some] at hs
    cases b with
    | false =>
        cases hs
        exact .inl rfl
    | true =>
        cases hs
        exact .inr ⟨hplain rfl, false, by rw [Bool.or_false]⟩
  have heq : (p >>= fun b => if b = true then advance >>= fun _ => k b else k b) =
      (p >>= fun b =>
        if b = true then advance >>= fun _ => Pure.pure b else Pure.pure b) >>= k := by
    rw [bind_assoc]
    congr 1
    funext b
    cases b
    · simp
    · simp
  rw [heq]
  exact hpass.bind hk

/-- An identifier is passed steadily; an operator marks a fault on the way. -/
lemma Steady.identifier : Steady Parser.identifier := by
  refine .of_next fun s a s' hs => .inr ?_
  by_cases hword : ∃ w isEscaped, s.token = .word w isEscaped
  · obtain ⟨w, isEscaped, hw⟩ := hword
    rw [run_identifier_word s hw] at hs
    split_ifs at hs
    cases hs
    exact ⟨hw ▸ rfl, _, rfl⟩
  · rw [run_identifier_of_ne s fun w isEscaped h => hword ⟨w, isEscaped, h⟩] at hs
    cases hs

lemma Steady.node (f : Form) (n : Nat) (ps : List Tree) : Steady (Parser.node f n ps) :=
  .look fun s => run_node s f n ps

lemma Steady.bindingName (b : Binder) : Steady (Parser.bindingName b) :=
  .bind (.look run_place) fun _ => .bind .identifier fun _ => .node _ _ _

/-- A word that may be missing is passed steadily. -/
lemma Steady.eatWord (w : Text) : Steady (Parser.eatWord w) := by
  refine .of_next fun s a s' hs => ?_
  rw [run_eatWord] at hs
  split_ifs at hs with htoken
  · cases hs
    exact .inr ⟨htoken ▸ rfl, false, by rw [Bool.or_false]⟩
  · cases hs
    exact .inl rfl

/-- The name of a specifier is passed steadily. -/
lemma Steady.namedSpecifier (b : Binder) (isType isText : Bool) (n m : Nat) :
    Steady (Grammar.namedSpecifier b isType isText n m) :=
  .bind .exportName fun _ => .bind (.eatWord _) fun _ => .ite
    (.bind (.bindingName _) fun _ => .node _ _ _)
    (.bind (.require _) fun _ => .bind (.node _ _ _) fun _ => .node _ _ _)

/-- A specifier is passed steadily. -/
lemma Steady.importSpecifier (b : Binder) : Steady (Grammar.importSpecifier b) := by
  rw [Grammar.importSpecifier_eq]
  refine .bind (.look run_place) fun _ => .passIf (fun s => ?_) fun _ => .bind (.look run_place)
    fun _ => .bind (.look run_token) fun _ => .namedSpecifier _ _ _ _ _
  obtain ⟨b, hb, htype⟩ := Grammar.run_isTypeSpecifier s
  exact ⟨b, hb, fun h => by rw [htype h]; rfl⟩

/-- The words and strings at the head of a text. -/
lemma exists_names (t : Text) :
    ∃ ts e, Lexes t ts e ∧ (∀ x ∈ ts, x.1.isName = true) ∧ (peek e).isName = false := by
  induction hn : t.length using Nat.strong_induction_on generalizing t with
  | _ n ih =>
  cases hname : (peek t).isName with
  | false => exact ⟨[], t, .nil, by simp, hname⟩
  | true =>
      have hplain := Token.isPlain_of_isName hname
      obtain ⟨r, hr⟩ := exists_shows hplain
      obtain ⟨ts, e, hts, hnames, he⟩ := ih r.length (hn ▸ hr.lt_length hplain) r rfl
      exact ⟨_ :: ts, e, .cons hr hplain hts, by simpa [hname] using hnames, he⟩

/-- Texts that show the same names show them up to the token behind. -/
lemma SameNames.of_lexes {e e' t t' : Text} {ts : List (Token × Bool)} (h : Lexes t ts e)
    (h' : Lexes t' ts e') (hnames : ∀ x ∈ ts, x.1.isName = true) (he : (peek e).isName = false)
    (he' : (peek e').isName = false) : SameNames e e' t t' := by
  induction h generalizing t' with
  | nil =>
      cases h'
      exact .stop he he'
  | cons h hplain _ ih =>
      cases h' with
      | cons h' _ hts' =>
          rw [List.forall_mem_cons] at hnames
          exact .name h h' hnames.1 (ih hts' hnames.2 he)

/-- A specifier begins with a word or a string. -/
lemma isName_of_importSpecifier {b : Binder} {s s' : State} {x : Tree}
    (h : Grammar.importSpecifier b s = some (x, s')) : s.token.isName = true := by
  obtain ⟨isType, hb, htype⟩ := Grammar.run_isTypeSpecifier s
  cases isType with
  | true =>
      rw [htype rfl]
      rfl
  | false =>
      cases hname : s.token.isName with
      | true => rfl
      | false =>
          have hnone : s.token.name? = none := by simpa [Token.isName] using hname
          simp [Grammar.importSpecifier_eq, Grammar.namedSpecifier, hb, hnone] at h

/-- The specifier of an import is portable: it takes the words and strings in front of a comma or
a closing brace, and all of them. -/
lemma portable_importSpecifier (b : Binder) : Portable (Grammar.importSpecifier b) := by
  intro F t u x hx hu
  obtain ⟨ts, e, hts, hnames, he⟩ := exists_names t
  have hne : ts ≠ [] := by
    rintro rfl
    cases hts
    have hname := isName_of_importSpecifier hx.run
    rw [Frame.state_token, he] at hname
    cases hname
  -- a run beside this one, on a text with the same names
  have hrun : ∀ ⦃F' : Frame⦄ ⦃v e' : Text⦄, F'.Holds v → Lexes v ts e' → (peek e').isName = false →
      u = e ∧ ∃ x', x.SameAs x' ∧ F'.Passes (Grammar.importSpecifier b) v x' e' := by
    intro F' v e' hF' hv he'
    have hbeside : Beside F F' false false e e' (F.state false t) (F'.state false v) :=
      ⟨false, t, v, rfl, rfl, .of_lexes hts hv hnames he he', hx.holds, hF'⟩
    have h := Parallel.importSpecifier b _ _ hbeside
    rw [hx.run] at h
    generalize hx' : Grammar.importSpecifier b (F'.state false v) = o at h
    cases h with
    | @some _ y h =>
        obtain ⟨hsame, flawed, r, r', hr, hr', hrest, hr₁, hr₂⟩ := h
        have hpeek := congrArg State.token hr
        rw [Frame.state_token, Frame.state_token] at hpeek
        cases hrest with
        | name hshows _ hname _ =>
            rw [← hshows.fromToken_eq.2, ← hpeek, hu.isName] at hname
            cases hname
        | stop _ _ =>
            obtain rfl := Frame.state_inj hx.holds hx.suffix hts.suffix hr
            have hflawed := congrArg State.isFlawed hr
            rw [Frame.state_isFlawed_eq_false_iff.mpr ⟨rfl, isSound_of_isPlain hu.isPlain⟩, eq_comm,
              Frame.state_isFlawed_eq_false_iff] at hflawed
            rw [hflawed.1] at hr'
            exact ⟨rfl, y.1, hsame, hF', hv.suffix, hx'.trans (congrArg some (Prod.ext rfl hr'))⟩
  obtain ⟨rfl, -⟩ := hrun hx.holds hts he
  obtain ⟨w, -, rfl, hgoes⟩ := hts.goesOn
  refine ⟨w, rfl, fun F' u' hF' hu' hstop => ?_⟩
  have hts' := hgoes u' hu'
  refine ⟨?_, (hrun hF' hts' hstop.isName).2⟩
  cases ts with
  | nil => exact absurd rfl hne
  | cons y ts => rw [hts.peek_eq, hts'.peek_eq]

/-! ### Braces -/

namespace Frame

/-- A first element, and others behind commas. -/
inductive Series (F : Frame) (element : Parser Tree) : Text → List Tree → Text → Prop
  | intro {t u e : Text} {x : Tree} {xs : List Tree} (hopen : peek t ≠ .punctuator "\x7d")
      (hx : F.Passes element t x u) (hxs : F.Upto element u xs e) : F.Series element t (x :: xs) e

/-- Elements in braces. -/
inductive Braced (F : Frame) (element : Parser Tree) : Text → List Tree → Text → Prop
  | empty {t r t' : Text} {fresh fresh' : Bool} (hopen : Shows t (.punctuator "\x7b") fresh r)
      (hclose : Shows r (.punctuator "\x7d") fresh' t') : F.Braced element t [] t'
  | series {t r e r' t' : Text} {fresh fresh' isTrailing : Bool} {xs : List Tree}
      (hopen : Shows t (.punctuator "\x7b") fresh r) (hxs : F.Series element r xs e)
      (hend : Ends e isTrailing r') (hclose : Shows r' (.punctuator "\x7d") fresh' t') :
      F.Braced element t xs t'

variable {F F' : Frame} {element : Parser Tree} {t u e t' : Text} {xs : List Tree}

/-- A series of elements leads to a text at the end of its own. -/
lemma Series.suffix (h : F.Series element t xs e) : e <:+ t := by
  cases h with
  | intro _ hx hxs => exact hxs.suffix.trans hx.suffix

/-- The last element reaches up to the end. -/
lemma Upto.exists_last {r : Text} {x : Tree} (h : F.Upto element t xs e)
    (hx : F.Passes element r x t) :
    ∃ r' y, (x :: xs).getLast? = some y ∧ F.Passes element r' y e := by
  induction h generalizing r x with
  | nil => exact ⟨r, x, rfl, hx⟩
  | cons _ _ hy _ ih =>
      rw [List.getLast?_cons_cons]
      exact ih hy

/-- The last element of a series is passed up to its end. -/
lemma Series.exists_last (h : F.Series element t xs e) :
    ∃ r x, xs.getLast? = some x ∧ F.Passes element r x e := by
  cases h with
  | intro _ hx hxs => exact hxs.exists_last hx

/-- A list in braces leads to a text at the end of its own. -/
lemma Braced.suffix (h : F.Braced element t xs t') : t' <:+ t := by
  cases h with
  | empty hopen hclose => exact hclose.suffix.trans hopen.suffix
  | series hopen hxs hend hclose =>
      exact hclose.suffix.trans (hend.suffix.trans (hxs.suffix.trans hopen.suffix))

/-- A series is read from its own characters, and more can follow it. -/
lemma Series.portable (hp : Portable element) (h : F.Series element t xs e) (he : IsStop e) :
    ∃ w, t = w ++ e ∧ ∀ ⦃F' : Frame⦄ ⦃u e' : Text⦄ ⦃ys : List Tree⦄, F'.Holds (w ++ u) →
      GoesOn e u → IsStop u → F'.Upto element u ys e' →
        ∃ xs', List.Forall₂ Tree.SameAs xs xs' ∧ F'.Series element (w ++ u) (xs' ++ ys) e' := by
  cases h with
  | intro hopen hx hxs =>
    obtain ⟨w', rfl, hupto⟩ := hxs.portable hp he
    obtain ⟨w, rfl, hpasses⟩ := hp hx (hxs.isStop he)
    refine ⟨w ++ w', by simp, fun F' u e' ys hF hgoes hu hys => ?_⟩
    rw [List.append_assoc] at hF ⊢
    obtain ⟨xs', hsame, hxs'⟩ := hupto hF.of_append hgoes hu
    obtain ⟨hpeek, x', hx, hx'⟩ := hpasses hF (hgoes.append w') (hxs'.isStop hu)
    exact ⟨x' :: xs', .cons hx hsame, .intro (by rwa [hpeek]) hx' (hxs'.append hys)⟩

/-- The end of a list is read from its own characters. -/
lemma Ends.goesOn {isTrailing : Bool} (h : Ends e isTrailing t') :
    ∃ w, e = w ++ t' ∧ ∀ u, GoesOn t' u → peek u = .punctuator "\x7d" →
      Ends (w ++ u) isTrailing u := by
  cases h with
  | plain _ => exact ⟨[], rfl, fun u _ hu => .plain hu⟩
  | trailing hcomma _ =>
      obtain ⟨w, -, rfl, hshows⟩ := hcomma.goesOn rfl
      exact ⟨w, rfl, fun u hgoes hu => .trailing (hshows u hgoes) hu⟩

/-- Braces are read from their own characters. -/
lemma Braced.portable (hp : Portable element) (h : F.Braced element t xs t') :
    ∃ w, t = w ++ t' ∧ ∀ ⦃F' : Frame⦄ ⦃u : Text⦄, F'.Holds (w ++ u) → GoesOn t' u →
      ∃ xs', List.Forall₂ Tree.SameAs xs xs' ∧ F'.Braced element (w ++ u) xs' u := by
  cases h with
  | empty hopen hclose =>
      -- Each piece is read from its own characters in front of the pieces behind it.
      obtain ⟨w₁, -, rfl, hopen'⟩ := hopen.goesOn rfl
      obtain ⟨w₂, -, rfl, hclose'⟩ := hclose.goesOn rfl
      refine ⟨w₁ ++ w₂, by simp, fun F' u hF hgoes => ⟨[], .nil, ?_⟩⟩
      rw [List.append_assoc]
      exact .empty (hopen' _ (hgoes.append w₂)) (hclose' u hgoes)
  -- The opening brace, the elements, the end of the list and the closing brace.
  | series hopen hxs hend hclose =>
      obtain ⟨w₁, -, rfl, hopen'⟩ := hopen.goesOn rfl
      obtain ⟨w₂, rfl, hseries⟩ := hxs.portable hp hend.isStop
      obtain ⟨w₃, rfl, hend'⟩ := hend.goesOn
      obtain ⟨w₄, -, rfl, hclose'⟩ := hclose.goesOn rfl
      refine ⟨w₁ ++ (w₂ ++ (w₃ ++ w₄)), by simp, fun F' u hF hgoes => ?_⟩
      simp only [List.append_assoc] at hF ⊢
      have hend := hend' (w₄ ++ u) (hgoes.append w₄) (hclose' u hgoes).fromToken_eq.2
      obtain ⟨xs', hsame, hxs'⟩ := hseries hF.of_append ((hgoes.append w₄).append w₃) hend.isStop
        .nil
      rw [List.append_nil] at hxs'
      exact ⟨xs', hsame, .series (hopen' _ (((hgoes.append w₄).append w₃).append w₂)) hxs' hend
        (hclose' u hgoes)⟩

/-- More elements behind the last one in braces. -/
lemma Braced.insert (hp : Portable element) (h : F.Braced element t xs t') (hxs : xs ≠ []) :
    ∃ w e, t = w ++ e ∧ (∃ r x, xs.getLast? = some x ∧ F.Passes element r x e) ∧ t' <:+ e ∧
      IsStop e ∧
      ∀ ⦃F' : Frame⦄ ⦃u : Text⦄ ⦃ys : List Tree⦄, F'.Holds (w ++ u) →
        GoesOn e u → IsStop u → F'.Upto element u ys e →
          ∃ xs', List.Forall₂ Tree.SameAs xs xs' ∧ F'.Braced element (w ++ u) (xs' ++ ys) t' := by
  cases h with
  | empty _ _ => exact absurd rfl hxs
  | series hopen hxs hend hclose =>
      obtain ⟨w₁, -, rfl, hopen'⟩ := hopen.goesOn rfl
      obtain ⟨w₂, rfl, hseries⟩ := hxs.portable hp hend.isStop
      refine ⟨w₁ ++ w₂, _, by simp, hxs.exists_last, hclose.suffix.trans hend.suffix, hend.isStop,
        fun F' u ys hF hgoes hu hys => ?_⟩
      rw [List.append_assoc] at hF ⊢
      obtain ⟨xs', hsame, hxs'⟩ := hseries hF.of_append hgoes hu hys
      exact ⟨xs', hsame, .series (hopen' _ (hgoes.append w₂)) hxs' hend hclose⟩

end Frame

end ComponentMigration.Script
