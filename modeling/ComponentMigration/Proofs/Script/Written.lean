import ComponentMigration.Proofs.Script.Names

/-!
Specifiers and declarations as they are written.

* **Names in a list.** `exists_upto_others`, `exists_braced_join`: names that are written behind
  commas, or in braces, are specifiers that take these names.
* **Declarations.** `clauseText` is a written declaration behind its first word. It declares its
  names (`Frame.exists_declares_clauseText`), and can follow an import on a line of its own
  (`continues_importText`).
-/

namespace ComponentMigration.Script

open Text Script.Parser

/-! ### Names in a list -/

/-- Names, each behind a comma and a space. -/
def others (ns : List Text) : Text := ns.flatMap fun n => ", ".toList ++ n

lemma join_cons (n : Text) (ns : List Text) : Text.join ", " (n :: ns) = n ++ others ns := by
  induction ns generalizing n with
  | nil => simp [join, others]
  | cons m ns ih =>
      rw [join, ih, others, others, List.flatMap_cons, List.append_assoc, List.append_assoc]
      exact List.cons_ne_nil m ns

lemma append_join {n : Text} {ns : List Text} :
    ", ".toList ++ Text.join ", " (n :: ns) = others (n :: ns) := by
  rw [join_cons, others, others, List.flatMap_cons, List.append_assoc]

lemma others_cons_append (n : Text) (ns : List Text) (e : Text) :
    others (n :: ns) ++ e = ',' :: ' ' :: (n ++ (others ns ++ e)) := by
  simp [others]

lemma Grammar.run_isTypeSpecifier_of_ne {s : State} (h : s.next.token.isName = false) :
    isTypeSpecifier s = some (false, s) := by
  have has : s.next.token ≠ .word "as".toList false := by
    rintro has
    rw [has] at h
    cases h
  simp only [isTypeSpecifier, run_bind, run_isAtWord, Option.bind_some]
  split_ifs
  · simp only [run_ahead, run_bind, run_advance, Option.bind_some, run_eatWord, if_neg has,
      Bool.false_eq_true, if_false, run_isAtExportName, h, Option.map_some, Option.getD_some]
  · rfl

namespace Frame

variable {F : Frame} {t e : Text} {n : Text} {ns : List Text}

/-- A name alone is a specifier. -/
lemma passes_importSpecifier_of_shows {fresh : Bool} (hF : F.Holds t)
    (hn : isIdentifierWord n = true) (h : Shows t (.word n false) fresh e) (he : IsStop e) :
    ∃ x, (Tree.takenAs n).SameAs x ∧ F.Passes (Grammar.importSpecifier .both) t x e := by
  have hnext : (F.state false t).next = F.state false e := state_next hF h (by simp)
  have htype : Grammar.isTypeSpecifier (F.state false t) = some (false, F.state false t) :=
    Grammar.run_isTypeSpecifier_of_ne (by rw [hnext, state_token, he.isName])
  have has : peek e ≠ .word "as".toList false := by
    rintro has
    have hname := he.isName
    rw [has] at hname
    cases hname
  let s : Span := ⟨(F.state false t).start, F.size - byteLength e⟩
  refine ⟨.node (.namedImport n false) s [.node (.binding n .both none) s []],
    .node (.cons (.node .nil _ _ _) .nil) _ _ _, hF, h.suffix, ?_⟩
  · rw [Grammar.importSpecifier_eq]
    simp only [run_bind, run_place, Option.bind_some, htype, Bool.false_eq_true, if_false,
      run_token, Grammar.namedSpecifier, Grammar.run_exportName, state_token, h.fromToken_eq.2,
      Token.name?, Option.map_some, hnext, run_eatWord, has, Token.isText, Bool.not_false, hn,
      Bool.and_self, run_require, if_true, run_node]
    rfl

lemma isStop_others (he : IsStop e) : IsStop (others ns ++ e) := by
  cases ns with
  | nil => exact he
  | cons n ns =>
      rw [others_cons_append]
      exact .inl (shows_comma _).fromToken_eq.2

lemma peek_name {r : Text} (hn : IsWord n) (hr : EndsName r) :
    peek (' ' :: (n ++ r)) ≠ .punctuator "\x7d" := by
  rw [(shows_name hn hr).space.fromToken_eq.2]
  simp

/-- Names behind commas are specifiers. -/
lemma exists_upto_others (hns : ∀ n ∈ ns, IsIdentifier n) (hF : F.Holds (others ns ++ e))
    (he : IsStop e) : ∃ xs, List.Forall₂ Tree.SameAs (ns.map Tree.takenAs) xs ∧
      F.Upto (Grammar.importSpecifier .both) (others ns ++ e) xs e := by
  induction ns with
  | nil => exact ⟨[], .nil, .nil⟩
  | cons n ns ih =>
      rw [List.forall_mem_cons] at hns
      obtain ⟨hn, hns⟩ := hns
      rw [others_cons_append] at hF ⊢
      have hcomma := shows_comma (' ' :: (n ++ (others ns ++ e)))
      have hstop : IsStop (others ns ++ e) := isStop_others he
      have hshows := (shows_name hn.toIsWord hstop.endsName).space
      have hF₁ := hF.of_suffix hcomma.suffix
      obtain ⟨xs, hsame, hxs⟩ := ih hns (hF₁.of_suffix hshows.suffix)
      obtain ⟨x, hx, hpasses⟩ := passes_importSpecifier_of_shows hF₁ hn.isFree hshows hstop
      exact ⟨x :: xs, .cons hx hsame,
        .cons hcomma (peek_name hn.toIsWord hstop.endsName) hpasses hxs⟩

/-- Names in braces are specifiers. -/
lemma exists_braced_join (hns : ∀ m ∈ n :: ns, IsIdentifier m)
    (hF : F.Holds (" \x7b ".toList ++ (Text.join ", " (n :: ns) ++ (" \x7d".toList ++ e)))) :
    ∃ xs, List.Forall₂ Tree.SameAs ((n :: ns).map Tree.takenAs) xs ∧
      F.Braced (Grammar.importSpecifier .both)
        (" \x7b ".toList ++ (Text.join ", " (n :: ns) ++ (" \x7d".toList ++ e))) xs e := by
  rw [List.forall_mem_cons] at hns
  obtain ⟨hn, hns⟩ := hns
  rw [join_cons, List.append_assoc] at hF ⊢
  have hclose : Shows (" \x7d".toList ++ e) (.punctuator "\x7d") false e :=
    (shows_closeBrace e).space
  have hstop : IsStop (" \x7d".toList ++ e) := .inr hclose.fromToken_eq.2
  have hopen : Shows (" \x7b ".toList ++ (n ++ (others ns ++ (" \x7d".toList ++ e))))
    (.punctuator "\x7b") false (' ' :: (n ++ (others ns ++ (" \x7d".toList ++ e)))) :=
      (shows_openBrace _).space
  have hothers : IsStop (others ns ++ (" \x7d".toList ++ e)) := isStop_others hstop
  have hends := hothers.endsName
  have hshows := (shows_name hn.toIsWord hends).space
  have hF₁ := hF.of_suffix hopen.suffix
  obtain ⟨xs, hsame, hxs⟩ := exists_upto_others hns (hF₁.of_suffix hshows.suffix) hstop
  obtain ⟨x, hx, hpasses⟩ :=
    passes_importSpecifier_of_shows hF₁ hn.isFree hshows hothers
  exact ⟨x :: xs, .cons hx hsame, .series hopen
    (.intro (peek_name hn.toIsWord hends) hpasses hxs) (.plain hclose.fromToken_eq.2) hclose⟩

end Frame

/-! ### A declaration that is written -/

/-- The module of a written declaration in quotes, the semicolon, and the text behind. -/
def quoted (m r : Text) : Text := " \"".toList ++ (m ++ ("\";".toList ++ r))

/-- What is behind the word `import` in a written declaration, and the text behind. -/
def clauseText (m list r : Text) : Text :=
  " \x7b ".toList ++ (list ++ (" \x7d".toList ++ (" from".toList ++ quoted m r)))

lemma importText_append (m list r : Text) :
    importText m list ++ r = "import".toList ++ clauseText m list r := by
  have hopen : "import \x7b ".toList = "import".toList ++ " \x7b ".toList := by simp
  have hclose : " \x7d from \"".toList
      = " \x7d".toList ++ (" from".toList ++ " \"".toList) := by simp
  have htext : importText m list =
      "import \x7b ".toList ++ list ++ " \x7d from \"".toList ++ m ++ "\";".toList := rfl
  simp only [htext, clauseText, quoted, hopen, hclose, List.append_assoc]

lemma shows_importText (m list r : Text) :
    Shows (importText m list ++ r) (.word "import" false) false (clauseText m list r) := by
  rw [importText_append]
  exact shows_name (n := "import") (by decide) (by simp [EndsName, clauseText]; decide)

lemma isToken_importText (m list r : Text) : IsToken (importText m list ++ r) := by
  rw [importText_append]
  exact ⟨rfl, rfl, fun h => absurd h.1 (by decide)⟩

/-- A written declaration can follow an import on a line of its own. -/
lemma continues_importText (e m list r : Text) :
    Continues e ('\n' :: (importText m list ++ r)) := by
  obtain ⟨hfrom, hfresh⟩ := fromToken_of_gap (g := ['\n']) (.lineEnd rfl .nil)
    (isToken_importText m list r)
  have hself := fromToken_of_isToken (isToken_importText m list r)
  have hpeek : peek ('\n' :: (importText m list ++ r)) = .word "import" false := by
    rw [← (shows_importText m list r).fromToken_eq.2, peek, peek]
    exact congrArg (fun t => (Lexeme.read t).token) (hfrom.trans hself.symm)
  refine ⟨.inr (.inr rfl), fun _ => ⟨by rw [hpeek]; simp, .inr (.inr hfresh)⟩, fun _ => ?_⟩
  rw [startsAttributes, hpeek]
  rfl

namespace Frame

variable {F : Frame} {n m r : Text} {ns : List Text} {k : Nat}

lemma exists_passes_importSource (xs : List Tree) (hm : IsQuotable m) (hF : F.Holds (quoted m r))
    (hr : IsSound r) : ∃ s, F.Passes (Grammar.importSource k false xs) (quoted m r)
      (.node (.importDeclaration m false) s xs) r := by
  have hstring : Shows (quoted m r) (.string m) false (';' :: r) := (shows_string hm).space
  have hend := shows_semicolon r
  have hnone : startsAttributes (';' :: r) = false := by
    rw [startsAttributes, hend.fromToken_eq.2]
    rfl
  exact ⟨_, (passes_importSource hr).mpr
    ⟨hF, m, _, _, _, hstring, .none hnone, .inl ⟨_, hend⟩, rfl⟩⟩

/-- A written declaration declares its names. -/
lemma exists_declares_clauseText (hns : ∀ m ∈ n :: ns, IsIdentifier m) (hm : IsQuotable m)
    (hr : IsSound r) (hF : F.Holds (clauseText m (Text.join ", " (n :: ns)) r)) :
    ∃ xs s, List.Forall₂ Tree.SameAs ((n :: ns).map Tree.takenAs) xs ∧
      F.Declares k (clauseText m (Text.join ", " (n :: ns)) r)
        (.node (.importDeclaration m false) s xs) r := by
  have hfrom : Shows (" from".toList ++ quoted m r) (.word "from" false) false (quoted m r) :=
    (shows_name (n := "from") (by decide) (by simp [EndsName, quoted]; decide)).space
  obtain ⟨xs, hsame, hxs⟩ := exists_braced_join hns hF
  obtain ⟨s, hsource⟩ := exists_passes_importSource (k := k) xs hm
    (hF.of_suffix (hfrom.suffix.trans hxs.suffix)) hr
  exact ⟨xs, s, hsame, .clause (.named ((passes_importSpecifiers (hfrom.isSound (by simp))).mpr
    (.inr ⟨hF, hxs⟩)) hfrom) hsource⟩

end Frame

end ComponentMigration.Script
