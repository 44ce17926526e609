import ComponentMigration.Directory
import ComponentMigration.Proofs.Path
import Mathlib.Data.Char
import Mathlib.Data.List.Lex

/-!
Migrating a directory.

* **Trees.** In a proper tree the entries of a directory have names, each its own. Then the
  files of the tree are what the lists of names lead to (`mem_files_iff`), each once
  (`files_pairwise`).
* **Order.** `namesLe` is the order of lists of names, so sorted files are in increasing order
  of the segments of their paths.
* **Components.** A file is a component file if its name is a stem and the extension `vue`.
* **Main statement.** `migrate_isolates`: the results are those of the component files, each
  once and in order, and none depends on another file.
-/

namespace ComponentMigration

namespace FileTree

variable {t : FileTree} {names : List Text} {content : ByteArray}
variable {entries : List (Text × FileTree)}

/-! ### Trees -/

/-- The induction principle of file trees: a property holds of every tree once it holds of the
files and a directory inherits it from its entries. -/
@[elab_as_elim]
theorem ind {P : FileTree → Prop} (file : ∀ content, P (.file content))
    (directory : ∀ entries, (∀ e ∈ entries, P e.2) → P (.directory entries)) (t : FileTree) :
    P t :=
  FileTree.rec (motive_1 := P) (motive_2 := fun es => ∀ e ∈ es, P e.2)
    (motive_3 := fun e => P e.2) file (fun _ ih => directory _ ih)
    (fun _ he => absurd he (by simp))
    (fun _ _ ihe ihes f hf => by
      rcases List.mem_cons.mp hf with rfl | hf'
      · exact ihe
      · exact ihes f hf')
    (fun _ _ ih => ih) t

/-- The entries of every directory have names, each its own. -/
inductive IsProper : FileTree → Prop
  | file (content : ByteArray) : IsProper (.file content)
  | directory {entries : List (Text × FileTree)} (hnodup : (entries.map (·.1)).Nodup)
      (hnames : ∀ e ∈ entries, Path.IsName e.1) (h : ∀ e ∈ entries, e.2.IsProper) :
      IsProper (.directory entries)

/-- The bytes of the file that the names lead to, if it is one. -/
def contentAt? : List Text → FileTree → Option ByteArray
  | [], .file content => some content
  | n :: ns, .directory entries => (entries.lookup n).bind (contentAt? ns)
  | _, _ => none

/-- Where names are not repeated, the entry of a name is the one that has it. -/
lemma lookup_eq_some_iff_mem (hnodup : (entries.map (·.1)).Nodup) {name : Text} :
    entries.lookup name = some t ↔ (name, t) ∈ entries := by
  induction entries with
  | nil => simp
  | cons e es ih =>
      obtain ⟨n, u⟩ := e
      obtain ⟨hn, hes⟩ := List.nodup_cons.mp hnodup
      rw [List.lookup_cons, List.mem_cons, Prod.mk.injEq]
      by_cases hname : name = n
      · subst hname
        have hnot : (name, t) ∉ es := fun hmem => hn (List.mem_map.mpr ⟨_, hmem, rfl⟩)
        simp [hnot, eq_comm]
      · have hbeq : (name == n) = false := beq_eq_false_iff_ne.mpr hname
        rw [hbeq]
        simp [hname, ih hes]

/-- The files of a directory are those of its entries, with the names of the entries in front. -/
lemma filesOf_eq_flatMap (entries : List (Text × FileTree)) :
    filesOf entries = entries.flatMap fun e => e.2.files.map fun f => (e.1 :: f.1, f.2) := by
  induction entries with
  | nil => rfl
  | cons e es ih =>
      rw [filesOf, ih]
      rfl

/-- The files of a tree are what lists of names lead to. -/
lemma mem_files_iff (h : t.IsProper) :
    (names, content) ∈ t.files ↔ t.contentAt? names = some content := by
  induction t using ind generalizing names with
  | file c => cases names <;> simp [files, contentAt?, eq_comm]
  | directory entries ih =>
      cases h with
      | directory hnodup hnames h =>
          rw [files, filesOf_eq_flatMap, List.mem_flatMap]
          cases names with
          | nil => simp [contentAt?]
          | cons n ns =>
              -- The names of the entries are their own, so looking one up finds it if it is
              -- there.
              rw [contentAt?, Option.bind_eq_some_iff]
              simp only [lookup_eq_some_iff_mem hnodup]
              constructor
              · rintro ⟨⟨m, u⟩, he, hmem⟩
                obtain ⟨⟨ns', c⟩, hf, heq⟩ := List.mem_map.mp hmem
                cases heq
                exact ⟨u, he, (ih _ he (h _ he)).mp hf⟩
              · rintro ⟨u, he, hc⟩
                exact ⟨(n, u), he, List.mem_map.mpr ⟨_, (ih _ he (h _ he)).mpr hc, rfl⟩⟩

/-- Every file is listed once. -/
lemma files_pairwise (h : t.IsProper) : t.files.Pairwise fun f g => f.1 ≠ g.1 := by
  induction t using ind with
  | file c => simp [files]
  | directory entries ih =>
      cases h with
      | directory hnodup _ h =>
          rw [files, filesOf_eq_flatMap, List.pairwise_flatMap]
          constructor
          · intro e he
            rw [List.pairwise_map]
            exact (ih e he (h e he)).imp fun hne => by simpa using hne
          · refine (List.pairwise_map.mp hnodup).imp fun hne f hf g hg => ?_
            obtain ⟨f', -, rfl⟩ := List.mem_map.mp hf
            obtain ⟨g', -, rfl⟩ := List.mem_map.mp hg
            simp [hne]

/-- The names that lead to a file are names of entries. -/
lemma isName_of_contentAt? (h : t.IsProper) (hcontent : t.contentAt? names = some content) :
    ∀ n ∈ names, Path.IsName n := by
  induction names generalizing t with
  | nil => simp
  | cons n ns ih =>
      cases h with
      | file _ => cases hcontent
      | directory hnodup hnames h =>
          obtain ⟨u, hu, hcontent⟩ := Option.bind_eq_some_iff.mp hcontent
          have hmem := (lookup_eq_some_iff_mem hnodup).mp hu
          exact List.forall_mem_cons.mpr ⟨hnames _ hmem, ih (h _ hmem) hcontent⟩

/-- What segments lead to in a proper tree is proper, for they lead from one directory to another.
-/
lemma isProper_of_follow? {isRoot : Bool} {above : List FileTree} {segments : List Text}
    {below : FileTree} (habove : ∀ u ∈ above, u.IsProper) (h : t.IsProper)
    (hbelow : follow? isRoot above segments t = some below) : below.IsProper := by
  induction segments generalizing above t with
  | nil =>
      obtain rfl : t = below := by cases t <;> exact Option.some.inj hbelow
      exact h
  | cons s ss ih =>
      cases h with
      | file _ => cases hbelow
      | @directory entries hnodup hnames h =>
          have hself : (directory entries).IsProper := .directory hnodup hnames h
          rw [follow?.eq_def] at hbelow
          dsimp only at hbelow
          by_cases hstay : s = [] ∨ s = ['.']
          · rw [if_pos hstay] at hbelow
            exact ih habove hself hbelow
          · rw [if_neg hstay] at hbelow
            by_cases hup : s = ['.', '.']
            · rw [if_pos hup] at hbelow
              -- One directory up: at the root this is the root.
              cases above with
              | nil =>
                  split_ifs at hbelow
                  exact ih habove hself hbelow
              | cons u above =>
                  obtain ⟨hu, habove⟩ := List.forall_mem_cons.mp habove
                  exact ih habove hu hbelow
            · rw [if_neg hup] at hbelow
              obtain ⟨u, hu, hbelow⟩ := Option.bind_eq_some_iff.mp hbelow
              have hmem := (lookup_eq_some_iff_mem hnodup).mp hu
              exact ih (List.forall_mem_cons.mpr ⟨hself, habove⟩) (h _ hmem) hbelow

/-- What a path leads to in a proper tree is proper. -/
lemma isProper_of_at? {dir : Text} {below : FileTree} (h : t.IsProper)
    (hdir : t.at? dir = some below) : below.IsProper := by
  rw [at?] at hdir
  split_ifs at hdir
  exact isProper_of_follow? (by simp) h hdir

/-! ### Building trees -/

/-- An empty directory is proper. -/
lemma isProper_empty : empty.IsProper := .directory (by simp) (by simp) (by simp)

namespace IsProper

variable {name : Text} {u : FileTree}

/-- The entries of a proper directory are proper. -/
lemma entry? (h : t.IsProper) (hu : t.entry? name = some u) : u.IsProper := by
  cases h with
  | file _ => cases hu
  | directory hnodup _ h => exact h _ ((lookup_eq_some_iff_mem hnodup).mp hu)

/-- An entry takes the place of the one with its name. -/
lemma withEntry (h : t.IsProper) (hname : Path.IsName name) (hu : u.IsProper) :
    (t.withEntry name u).IsProper := by
  cases h with
  | file _ => exact .directory (by simp) (by simpa using hname) (by simpa using hu)
  | @directory entries hnodup hnames h =>
      have hkept : entries.filter (·.1 != name) ⊆ entries := List.filter_subset_self _
      refine .directory ?_ ?_ ?_
      · rw [List.map_append, List.nodup_append]
        refine ⟨(List.filter_sublist.map _).nodup hnodup, by simp, ?_⟩
        simp only [List.map_cons, List.map_nil, List.mem_singleton, forall_eq, List.mem_map,
          List.mem_filter, bne_iff_ne]
        rintro _ ⟨e, ⟨-, he⟩, rfl⟩
        exact he
      · rw [List.forall_mem_append]
        exact ⟨fun e he => hnames e (hkept he), by simpa using hname⟩
      · rw [List.forall_mem_append]
        exact ⟨fun e he => h e (hkept he), by simpa using hu⟩

/-- A change at a place that keeps trees proper keeps the whole proper. -/
lemma change {f : FileTree → FileTree} (hf : ∀ u, u.IsProper → (f u).IsProper)
    (hnames : ∀ n ∈ names, Path.IsName n) (h : t.IsProper) : (change f names t).IsProper := by
  induction names generalizing t with
  | nil => exact hf t h
  | cons n ns ih =>
      obtain ⟨hn, hns⟩ := List.forall_mem_cons.mp hnames
      refine h.withEntry hn (ih hns ?_)
      cases hu : t.entry? n with
      | none => exact isProper_empty
      | some u => exact h.entry? hu

/-- A tree stays proper when a file with names is put in. -/
lemma put (h : t.IsProper) (hnames : ∀ n ∈ names, Path.IsName n) (content : ByteArray) :
    (t.put names content).IsProper := h.change (fun _ _ => .file content) hnames

/-- A tree stays proper when a directory with names is made. -/
lemma makeDirectory (h : t.IsProper) (hnames : ∀ n ∈ names, Path.IsName n) :
    (t.makeDirectory names).IsProper := h.change (fun _ hu => hu) hnames

end IsProper

/-! ### Order -/

/-- The order of lists of names is the lexicographic one. -/
lemma namesLe_iff {as bs : List Text} : namesLe as bs = true ↔ as < bs ∨ as = bs := by
  induction as generalizing bs with
  | nil => cases bs <;> simp [namesLe]
  | cons a as ih =>
      cases bs with
      | nil => simp [namesLe]
      | cons b bs =>
          simp only [namesLe, Bool.or_eq_true, decide_eq_true_eq, Bool.and_eq_true, beq_iff_eq, ih,
            List.cons_lt_cons_iff, List.cons.injEq]
          tauto

/-- The order is transitive. -/
lemma namesLe_trans (as bs cs : List Text) (h : namesLe as bs = true) (h' : namesLe bs cs = true) :
    namesLe as cs = true := by
  rw [namesLe_iff] at *
  rcases h with h | rfl
  · rcases h' with h' | rfl
    · exact .inl (lt_trans h h')
    · exact .inl h
  · exact h'

/-- The order is total. -/
lemma namesLe_total (as bs : List Text) : (namesLe as bs || namesLe bs as) = true := by
  rw [Bool.or_eq_true, namesLe_iff, namesLe_iff]
  rcases lt_trichotomy as bs with h | h | h
  · exact .inl (.inl h)
  · exact .inl (.inr h)
  · exact .inr (.inl h)

/-- Sorted, the files of a proper tree are in increasing order of their names. -/
lemma pairwise_mergeSort_files (h : t.IsProper) :
    (t.files.mergeSort fun f g => namesLe f.1 g.1).Pairwise fun f g => f.1 < g.1 := by
  have hsorted := List.pairwise_mergeSort (fun f g e => namesLe_trans f.1 g.1 e.1)
    (fun f g => namesLe_total f.1 g.1) t.files
  have hne := ((List.mergeSort_perm t.files fun f g => namesLe f.1 g.1).pairwise_iff
    fun h => Ne.symm h).mpr (files_pairwise h)
  refine (hsorted.and hne).imp fun ⟨hle, hne⟩ => ?_
  exact (namesLe_iff.mp hle).resolve_right hne

/-! ### Component files -/

variable {dir : Text} {o : Options}

/-- The path of the file that the names lead to below a directory. -/
def pathBelow (dir : Text) (names : List Text) : Text := names.foldl Path.join dir

/-- The component files are the files with the extension, in the order of their names. -/
lemma componentFiles_eq {below : FileTree} (hdir : t.at? dir = some below) :
    t.componentFiles dir =
      ((below.files.mergeSort fun f g => namesLe f.1 g.1).map fun f =>
        (⟨pathBelow dir f.1, f.2⟩ : ComponentFile)).filter
          fun f => Path.extension? f.path == some componentExtension := by
  rw [componentFiles, hdir]
  rfl

/-- A file has the extension of components if its name is a stem with that extension. -/
lemma extension?_pathBelow (hnames : ∀ n ∈ names, Path.IsName n) (hne : names ≠ []) :
    Path.extension? (pathBelow dir names) = some componentExtension ↔
      ∃ above stem, stem ≠ [] ∧ names = above ++ [stem ++ '.' :: componentExtension] := by
  obtain ⟨above, name, rfl⟩ := (List.eq_nil_or_concat names).resolve_left hne
  rw [List.concat_eq_append] at *
  have hdot : '.' ∉ componentExtension := by decide
  have habove : ∀ n ∈ above, Path.IsName n := fun n hn => hnames n (by simp [hn])
  rw [Path.extension?, pathBelow, Path.fileName?_foldl_join dir habove (hnames name (by simp)),
    Option.bind_some, Path.cutExtension_snd_iff hdot]
  constructor
  · rintro ⟨stem, hstem, rfl⟩
    exact ⟨above, stem, hstem, rfl⟩
  · rintro ⟨above', stem, hstem, heq⟩
    exact ⟨stem, hstem, by simpa using (List.append_inj' heq rfl).2⟩

/-- The component files below a directory are those that names lead to, the last of which has
the extension of components. -/
lemma mem_componentFiles_iff (hproper : (directory entries).IsProper)
    (hdir : t.at? dir = some (.directory entries)) {f : ComponentFile} :
    f ∈ t.componentFiles dir ↔ ∃ above stem, stem ≠ [] ∧
      (directory entries).contentAt? (above ++ [stem ++ '.' :: componentExtension])
        = some f.content ∧
      f.path = pathBelow dir (above ++ [stem ++ '.' :: componentExtension]) := by
  rw [componentFiles_eq hdir, List.mem_filter, List.mem_map]
  simp only [List.mem_mergeSort, beq_iff_eq, Prod.exists, mem_files_iff hproper]
  constructor
  · rintro ⟨⟨names, content, hcontent, rfl⟩, hextension⟩
    -- A file that is found in a directory has a name.
    have hne : names ≠ [] := by
      rintro rfl
      cases hcontent
    obtain ⟨above, stem, hstem, rfl⟩ :=
      (extension?_pathBelow (isName_of_contentAt? hproper hcontent) hne).mp hextension
    exact ⟨above, stem, hstem, hcontent, rfl⟩
  · rintro ⟨above, stem, hstem, hcontent, hpath⟩
    obtain ⟨path, content⟩ := f
    dsimp only at hcontent hpath
    subst hpath
    refine ⟨⟨_, content, hcontent, rfl⟩, ?_⟩
    exact (extension?_pathBelow (isName_of_contentAt? hproper hcontent) (by simp)).mpr
      ⟨above, stem, hstem, rfl⟩

/-- The component files come in increasing order of the segments of their paths. -/
lemma pairwise_componentFiles (hproper : (directory entries).IsProper)
    (hdir : t.at? dir = some (.directory entries)) :
    (t.componentFiles dir).Pairwise fun f g => Path.segments f.path < Path.segments g.path := by
  rw [componentFiles_eq hdir]
  refine List.Pairwise.filter _ (List.pairwise_map.mpr ?_)
  refine (pairwise_mergeSort_files hproper).imp_of_mem fun {f g} hf hg hlt => ?_
  have hsegments : ∀ e ∈ (directory entries).files.mergeSort fun f g => namesLe f.1 g.1,
      Path.segments (pathBelow dir e.1) = Path.segments dir ++ e.1 := by
    intro e he
    have hcontent := (mem_files_iff hproper).mp (List.mem_mergeSort.mp he)
    exact Path.segments_foldl_join dir (isName_of_contentAt? hproper hcontent)
  rw [hsegments f hf, hsegments g hg]
  exact List.append_left_lt hlt

/-! ### Results -/

end FileTree

/-- The result for a component file: the migration of its text, or that its bytes are none. -/
structure FileMigration.IsOf (r : FileMigration) (o : Options) (file stem : Text)
    (content : ByteArray) : Prop where
  path : r.path = file
  ofText : ∀ source : String, source.toUTF8 = content →
    r.result = migrateComponent source.toList
      { o with componentName := some stem, filePath := file }
  ofBytes : (∀ source : String, source.toUTF8 ≠ content) →
    r.result = .error (.diagnosed (.bare .unreadableFile file))

/-- A file is read as a text if its bytes are those of the text. -/
lemma fromUTF8?_eq_some_iff {content : ByteArray} {source : String} :
    String.fromUTF8? content = some source ↔ source.toUTF8 = content := by
  rw [String.fromUTF8?]
  split_ifs with h
  · rw [Option.some.injEq]
    constructor
    · rintro rfl
      rfl
    · rintro rfl
      rfl
  · refine iff_of_false (by simp) ?_
    rintro rfl
    exact h source.isValidUTF8

namespace FileMigration

variable {r r' : FileMigration} {o : Options} {file stem : Text} {content : ByteArray}

/-- A result has the path of its file. -/
lemma path_migrate (f : ComponentFile) : (f.migrate o).path = f.path := by
  rw [ComponentFile.migrate]
  split <;> rfl

/-- A result is that of its content, read as a text and migrated under the name of the file. -/
lemma isOf_migrate {f : ComponentFile} (h : Path.stem? f.path = some stem) :
    (f.migrate o).IsOf o f.path stem f.content := by
  rw [ComponentFile.migrate]
  cases hread : String.fromUTF8? f.content with
  | none =>
      refine ⟨rfl, fun source hsource => ?_, fun _ => rfl⟩
      rw [fromUTF8?_eq_some_iff.mpr hsource] at hread
      cases hread
  | some source =>
      refine ⟨rfl, fun source' hsource => ?_, fun h => ?_⟩
      · rw [fromUTF8?_eq_some_iff.mpr hsource] at hread
        cases hread
        rw [Options.withFile, h]
      · exact absurd (fromUTF8?_eq_some_iff.mp hread) (h source)

/-- There is one result for a component file. -/
lemma IsOf.unique (h : r.IsOf o file stem content) (h' : r'.IsOf o file stem content) : r = r' := by
  have hresult : r.result = r'.result := by
    by_cases hsource : ∃ source : String, source.toUTF8 = content
    · obtain ⟨source, hsource⟩ := hsource
      rw [h.ofText source hsource, h'.ofText source hsource]
    · have hbytes := not_exists.mp hsource
      rw [h.ofBytes hbytes, h'.ofBytes hbytes]
  cases r
  cases r'
  exact FileMigration.mk.injEq .. ▸ ⟨h.path.trans h'.path.symm, hresult⟩

end FileMigration

namespace FileTree

variable {t : FileTree} {entries : List (Text × FileTree)} {dir : Text} {o : Options}

/-- The stem of a component file is its name without the extension. -/
lemma stem?_pathBelow {above : List Text} {stem : Text} (hstem : stem ≠ [])
    (hnames : ∀ n ∈ above ++ [stem ++ '.' :: componentExtension], Path.IsName n) :
    Path.stem? (pathBelow dir (above ++ [stem ++ '.' :: componentExtension])) = some stem := by
  have hdot : '.' ∉ componentExtension := by decide
  rw [Path.stem?, pathBelow, Path.fileName?_foldl_join dir (fun n hn => hnames n (by simp [hn]))
    (hnames _ (by simp)), Option.map_some, Path.cutExtension_append stem hdot, if_neg hstem]

/-- The results are those of the component files. -/
lemma mem_migrate_iff (hproper : (directory entries).IsProper)
    (hdir : t.at? dir = some (.directory entries)) {r : FileMigration} :
    r ∈ t.migrate dir o ↔ ∃ above stem content, stem ≠ [] ∧
      (directory entries).contentAt? (above ++ [stem ++ '.' :: componentExtension])
        = some content ∧
      r.IsOf o (pathBelow dir (above ++ [stem ++ '.' :: componentExtension])) stem content := by
  rw [migrate, List.mem_map]
  constructor
  · rintro ⟨f, hf, rfl⟩
    obtain ⟨above, stem, hstem, hcontent, hpath⟩ := (mem_componentFiles_iff hproper hdir).mp hf
    have hstem? : Path.stem? f.path = some stem :=
      hpath ▸ stem?_pathBelow hstem (isName_of_contentAt? hproper hcontent)
    exact ⟨above, stem, f.content, hstem, hcontent, hpath ▸ FileMigration.isOf_migrate hstem?⟩
  · rintro ⟨above, stem, content, hstem, hcontent, hr⟩
    -- The file that the names lead to is one of the component files, and it has one result only.
    have hf : ⟨_, content⟩ ∈ t.componentFiles dir :=
      (mem_componentFiles_iff hproper hdir).mpr ⟨above, stem, hstem, hcontent, rfl⟩
    have hstem? : Path.stem? (pathBelow dir _) = some stem :=
      stem?_pathBelow hstem (isName_of_contentAt? hproper hcontent)
    exact ⟨_, hf, (FileMigration.isOf_migrate hstem?).unique hr⟩

/-- A path below a directory belongs to one list of names. -/
lemma pathBelow_inj {names names' : List Text} (hnames : ∀ n ∈ names, Path.IsName n)
    (hnames' : ∀ n ∈ names', Path.IsName n) (h : pathBelow dir names = pathBelow dir names') :
    names = names' := by
  have hsegments := congrArg Path.segments h
  rw [pathBelow, pathBelow, Path.segments_foldl_join dir hnames,
    Path.segments_foldl_join dir hnames'] at hsegments
  exact List.append_cancel_left hsegments

/-- The result for a file is a result in every tree that agrees on the file. -/
lemma mem_migrate_of_contentAt? {t' : FileTree} {entries' : List (Text × FileTree)}
    (hproper : (directory entries).IsProper) (hdir : t.at? dir = some (.directory entries))
    (hproper' : (directory entries').IsProper) (hdir' : t'.at? dir = some (.directory entries'))
    {names : List Text} {content : ByteArray}
    (hcontent : (directory entries).contentAt? names = some content)
    (hcontent' : (directory entries').contentAt? names = some content) {r : FileMigration}
    (hpath : r.path = pathBelow dir names) (hr : r ∈ t.migrate dir o) : r ∈ t'.migrate dir o := by
  obtain ⟨above, stem, content₁, hstem, hcontent₁, hresult⟩ := (mem_migrate_iff hproper hdir).mp hr
  obtain rfl : names = above ++ [stem ++ '.' :: componentExtension] :=
    pathBelow_inj (isName_of_contentAt? hproper hcontent) (isName_of_contentAt? hproper hcontent₁)
      (hpath.symm.trans hresult.path)
  obtain rfl := Option.some.inj (hcontent₁.symm.trans hcontent)
  exact (mem_migrate_iff hproper' hdir').mpr ⟨above, stem, _, hstem, hcontent', hresult⟩

/-- **A directory is migrated file by file.** The results below a directory of a proper tree are
those of the files whose name is a stem with the extension of components, each once and in
increasing order of their segments. The result for a file is the migration of its text with the
names of the options, the stem and its path, or that its bytes are no text. So it is the same in
every tree that agrees on the file. -/
theorem migrate_isolates (t : FileTree) (dir : Text) (o : Options)
    (entries : List (Text × FileTree)) (ht : t.IsProper)
    (hdir : t.at? dir = some (.directory entries)) :
    (∀ r, r ∈ t.migrate dir o ↔ ∃ above stem content, stem ≠ [] ∧
      (directory entries).contentAt? (above ++ [stem ++ '.' :: componentExtension])
        = some content ∧
      r.IsOf o (pathBelow dir (above ++ [stem ++ '.' :: componentExtension])) stem content) ∧
    (t.migrate dir o).Pairwise (fun r r' => Path.segments r.path < Path.segments r'.path) ∧
    ∀ (t' : FileTree) (entries' : List (Text × FileTree)), t'.IsProper →
      t'.at? dir = some (.directory entries') → ∀ names content,
        (directory entries).contentAt? names = some content →
        (directory entries').contentAt? names = some content →
          ∀ r, r.path = pathBelow dir names → (r ∈ t.migrate dir o ↔ r ∈ t'.migrate dir o) := by
  have hproper := isProper_of_at? ht hdir
  refine ⟨fun r => mem_migrate_iff hproper hdir, ?_, ?_⟩
  · rw [migrate, List.pairwise_map]
    simp only [FileMigration.path_migrate]
    exact pairwise_componentFiles hproper hdir
  -- What a result is depends on the names and the content of its file, and on nothing else.
  · intro t' entries' ht' hdir' names content hcontent hcontent' r hpath
    have hproper' := isProper_of_at? ht' hdir'
    exact ⟨mem_migrate_of_contentAt? hproper hdir hproper' hdir' hcontent hcontent' hpath,
      mem_migrate_of_contentAt? hproper' hdir' hproper hdir hcontent' hcontent hpath⟩

/-- A component beside another one, in a directory that is named like a component, that is no
text; and a file that is only an extension. -/
def batch : FileTree :=
  ((empty.put ["src", "b.vue"] "<template><p /></template>".toUTF8).put
    ["src", "a.vue", "c.vue"] ⟨#[0xFF]⟩).put ["src", ".vue"] ⟨#[]⟩

/-- The same with the component at the side replaced and one more in front. -/
def changedBatch : FileTree :=
  (batch.put ["src", "a.vue", "c.vue"] "</p>".toUTF8).put ["src", "a", "b.vue"] ⟨#[]⟩

example : (batch.at? "/src/../../src/a.vue").isSome = true := by decide

theorem migrate_isolates_batch :
    batch.IsProper ∧ changedBatch.IsProper ∧
      (∃ r ∈ batch.migrate "src" {}, r.path = "src/b.vue" ∧
        r.result = migrateComponent "<template><p /></template>"
          { componentName := some "b", filePath := "src/b.vue" }) ∧
      (batch.migrate "src" {}).Pairwise (fun r r' => Path.segments r.path < Path.segments r'.path) ∧
      ∀ r : FileMigration, r.path = "src/b.vue" →
        (r ∈ batch.migrate "src" {} ↔ r ∈ changedBatch.migrate "src" {}) := by
  have hbatch : batch.IsProper :=
    ((isProper_empty.put (by decide) _).put (by decide) _).put (by decide) _
  have hchanged : changedBatch.IsProper := (hbatch.put (by decide) _).put (by decide) _
  obtain ⟨hresults, hordered, hother⟩ := migrate_isolates batch "src" {} _ hbatch rfl
  have hresult : ((⟨"src/b.vue", "<template><p /></template>".toUTF8⟩ : ComponentFile).migrate
      {}).IsOf {} "src/b.vue" "b" "<template><p /></template>".toUTF8 :=
    FileMigration.isOf_migrate (by decide)
  have hmem := (hresults _).mpr ⟨[], "b", _, by decide, rfl, hresult⟩
  exact ⟨hbatch, hchanged, ⟨_, hmem, hresult.path, hresult.ofText _ rfl⟩, hordered,
    hother changedBatch _ hchanged rfl ["b.vue"] _ rfl rfl⟩

end FileTree

end ComponentMigration
