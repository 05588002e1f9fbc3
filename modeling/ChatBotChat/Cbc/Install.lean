/-
What an install changes, and what it writes through.

The place of a skill is classified without following a link, and a link there is not
written through.  The backup of an outdated file is not classified: it is written to
`SKILL.md.bak`, wherever that leads.

* `install_frame_iff` — an install changes nothing but the skill's own files, and leaves
  what the links there point to as it is, exactly if it does not come to a backup through
  a link that would change something.
-/
import ChatBotChat.Cbc.Skill

namespace ChatBotChat

namespace Skill

open FileTree

variable {t : Tree} {nodes nodes' : Nodes} {n : ℕ} {base skillDir : Path} {skill : BundledSkill}
  {force : Bool} {b : List UInt8}

/-! ### The frame -/

/-- A change that an install may make at a path. -/
inductive Permitted (nodes nodes' : Nodes) (skillDir : Path) (force : Bool) (p : Path) : Prop
  /-- A regular `SKILL.md` or backup in a real directory. -/
  | file (hp : p = skillDir ++ [skillName] ∨ p = skillDir ++ [backupName])
      (hold : Writable nodes p)
      (hnew : ∃ bytes, nodes' p = some (.file bytes)) (hdir : nodes' skillDir = some .dir)
  /-- A directory on the way. -/
  | dir (hp : p <+: skillDir) (hold : nodes p = none) (hnew : nodes' p = some .dir)
  /-- With force, a link that is replaced. -/
  | link (hforce : force = true) (hold : ∃ target, nodes p = some (.link target))
      (hnew : (p = skillDir ∧ nodes' p = some .dir) ∨
        (p = skillDir ++ [skillName] ∧ ∃ bytes, nodes' p = some (.file bytes)))

/-- Nothing but the skill's own files is changed, and nothing that a link at the paths of
the installer leads to. -/
structure Framed (nodes nodes' : Nodes) (links : ℕ) (skillDir : Path) (force : Bool) : Prop where
  changes : ∀ p, nodes' p ≠ nodes p → Permitted nodes nodes' skillDir force p
  targets : ∀ path ∈ [skillDir, skillDir ++ [skillName], skillDir ++ [backupName]],
    (∃ target, nodes path = some (.link target)) → ∀ loc node,
      locate nodes links path = .ok loc → nodes loc = some node → nodes' loc = some node

/-- An outdated file is backed up through a link: to a file that is not there, that has
another content, or that is the outdated file itself. -/
def ThroughBackup (nodes : Nodes) (links : ℕ) (skillDir : Path) (body : List UInt8) : Prop :=
  ∃ original loc, nodes skillDir = some .dir ∧
    nodes (skillDir ++ [skillName]) = some (.file original) ∧ original ≠ body ∧
    (∃ target, nodes (skillDir ++ [backupName]) = some (.link target)) ∧
    locate nodes links (skillDir ++ [backupName]) = .ok loc ∧ Writable nodes loc ∧
    (loc = skillDir ++ [skillName] ∨ nodes loc ≠ some (.file original))

theorem framed_refl (nodes : Nodes) (links : ℕ) (skillDir : Path) (force : Bool) :
    Framed nodes nodes links skillDir force :=
  ⟨fun _ hne => absurd rfl hne, fun _ _ _ _ _ _ hnode => hnode⟩

/-! ### The steps of an install -/

theorem proper_skillName : Proper skillName := by decide

theorem proper_backupName : Proper backupName := by decide

theorem proper_bundled (h : skill.name ∈ bundledNames) : Proper skill.name := by
  have hall : ∀ name ∈ bundledNames, Proper name := by decide
  exact hall _ h

theorem append_ne (p : Path) (c : Name) : p ++ [c] ≠ p := by simp

theorem not_prefix_append (p : Path) (c : Name) : ¬ p ++ [c] <+: p := by
  intro h
  have hlength := h.length_le
  rw [List.length_append, List.length_singleton] at hlength
  omega

/-- In a directory the body is written where it can be. -/
theorem writeSkill_dirs {p : Path} {c : Name} (hproper : ∀ a ∈ p ++ [c], Proper a)
    (hdirs : Dirs nodes (p ++ [c])) (h : Writable nodes (p ++ [c] ++ [skillName])) :
    writeSkill nodes n b (p ++ [c]) =
      (Function.update nodes (p ++ [c] ++ [skillName]) (some (.file b)), .ok ()) := by
  rw [writeSkill, createDirAll_dirs hproper hdirs]
  simp only
  rw [write_in_dirs hproper hdirs proper_skillName h]

/-- A directory that is missing is created with what it stands in. -/
theorem writeSkill_missing (t : Tree) {p : Path} (h : Real t.nodes p) (hnone : t.nodes p = none) :
    writeSkill t.nodes n b p =
      (Function.update (fill t.nodes p) (p ++ [skillName]) (some (.file b)), .ok ()) := by
  have hfile : fill t.nodes p (p ++ [skillName]) = none := by
    rw [fill_elsewhere (not_prefix_append p skillName), t.nodes_eq_none (by simp [hnone])]
  rw [writeSkill, createDirAll_real t h]
  simp only
  rw [write_in_dirs h.proper (dirs_fill t.nodes p) proper_skillName (.inl hfile)]

section

variable (hbase : Real t.nodes base) (hname : skill.name ∈ bundledNames)

include hbase hname

theorem proper_skillDir : ∀ a ∈ base ++ [skill.name], Proper a := by
  intro a ha
  rcases List.mem_append.mp ha with ha | ha
  · exact hbase.proper a ha
  · rw [List.mem_singleton.mp ha]
    exact proper_bundled hname

/-- A skill whose place is empty. -/
theorem installOne_absent (h : t.nodes (base ++ [skill.name]) = none) :
    (installOne t.nodes n base skill force).1 =
      Function.update (fill t.nodes (base ++ [skill.name])) (base ++ [skill.name] ++ [skillName])
        (some (.file skill.body)) := by
  have hreal : Real t.nodes (base ++ [skill.name]) := by
    refine ⟨proper_skillDir hbase hname, fun q hq => ?_⟩
    rcases List.prefix_concat_iff.mp hq with rfl | hq
    · exact .inr h
    · exact hbase.nodes q hq
  have hclassify : classify t.nodes n base skill.name skill.body = .ok .absent := by
    rw [classify]
    rcases hbase.nodes base List.prefix_rfl with hdir | hnone
    · rw [lstat_dirs hbase.proper (t.dirs_of_dir hdir), h]
      rfl
    · rw [lstat, findDir_missing hbase hnone]
      rfl
  rw [installOne, hclassify]
  simp only
  rw [writeSkill_missing t hreal h]
  rfl

/-- A link in the place of the skill is left alone, or replaced. -/
theorem installOne_link {target : Target} (h : t.nodes (base ++ [skill.name]) = some (.link target)) :
    (installOne t.nodes n base skill force).1 = if force then
      Function.update (Function.update t.nodes (base ++ [skill.name]) (some .dir))
        (base ++ [skill.name] ++ [skillName]) (some (.file skill.body)) else t.nodes := by
  have hdirs := t.dirs_of_dir (t.rooted base skill.name (by simp [h]))
  have hclassify : classify t.nodes n base skill.name skill.body =
      .ok (.symlink base skill.name target) := by
    rw [classify, lstat_dirs hbase.proper hdirs, h]
    rfl
  rw [installOne, hclassify]
  cases force with
  | false => rfl
  | true =>
    simp only [Bool.not_true, Bool.false_eq_true, if_false, if_true,
      removeFile_link hbase.proper hdirs h]
    -- without the link the place is empty, and its directory is created
    have hcleared : (t.unlink h).nodes (base ++ [skill.name]) = none := Function.update_self _ _ _
    have hbase' : Dirs (t.unlink h).nodes base := hdirs.update (by simp [h]) none
    have hreal : Real (t.unlink h).nodes (base ++ [skill.name]) := by
      refine ⟨proper_skillDir hbase hname, fun q hq => ?_⟩
      rcases List.prefix_concat_iff.mp hq with rfl | hq
      · exact .inr hcleared
      · exact .inl (hbase' q hq)
    have hwrite := writeSkill_missing (n := n) (b := skill.body) (t.unlink h) hreal hcleared
    have hfill : fill (t.unlink h).nodes (base ++ [skill.name]) =
        Function.update t.nodes (base ++ [skill.name]) (some .dir) := by
      rw [fill_append, fill_of_dirs hbase']
      exact Function.update_idem _ _ _
    rw [hfill] at hwrite
    show (yields .replacedSymlink (writeSkill (t.unlink h).nodes n skill.body _)).1 = _
    rw [hwrite]
    rfl

/-- What is no directory and no link is left alone. -/
theorem installOne_file {bytes : List UInt8}
    (h : t.nodes (base ++ [skill.name]) = some (.file bytes)) :
    (installOne t.nodes n base skill force).1 = t.nodes := by
  have hdirs := t.dirs_of_dir (t.rooted base skill.name (by simp [h]))
  have hname' := proper_bundled hname
  have hlocate : locate t.nodes n (base ++ [skill.name]) = .ok (base ++ [skill.name]) :=
    locate_in_dirs hbase.proper hdirs hname' (by simp [h])
  have hinner : lstat t.nodes n (base ++ [skill.name]) skillName = .error .notDirectory := by
    rw [lstat, findDir, hlocate]
    simp only [Bind.bind, Except.bind, h]
  have hbelow : locate t.nodes n (base ++ [skill.name] ++ [skillName]) =
      .error .notDirectory := by
    rw [List.append_assoc, locate_dirs_append hbase.proper hdirs]
    exact walk_file hname' h
  have hfind : find t.nodes n (base ++ [skill.name] ++ [skillName]) = .error .notDirectory := by
    rw [find, hbelow]
    rfl
  have hread : readFile t.nodes n (base ++ [skill.name] ++ [skillName]) =
      .error .notDirectory := by
    rw [readFile, hfind]
    rfl
  have hclassify : classify t.nodes n base skill.name skill.body = .ok (.realDir false) := by
    rw [classify, lstat_dirs hbase.proper hdirs, h]
    simp only [Option.elim_some, hinner, hread]
  -- nothing is found below the file, so there is nothing to back up
  have hbackUp : backUp t.nodes n (base ++ [skill.name]) = (t.nodes, .ok ()) := by
    rw [backUp]
    simp only [exists_, hfind, Bool.false_eq_true, if_false]
  have hdir : isDir t.nodes n (base ++ [skill.name]) = false := by
    refine decide_eq_false ?_
    rw [find_in_dirs hbase.proper hdirs hname' (by simp [h]), h]
    simp
  have hcreate : createDirAll t.nodes n (base ++ [skill.name]) =
      (t.nodes, .error .alreadyExists) := by
    rw [createDirAll, List.reverse_append, List.reverse_singleton, List.singleton_append,
      createDirAllRev]
    simp only [List.reverse_reverse, mkdir_of_some hbase.proper hdirs h, hdir, Bool.false_eq_true,
      if_false]
  rw [installOne, hclassify]
  simp only [hbackUp, writeSkill, hcreate]
  rfl

/-- In a real directory a `SKILL.md` that is no link is found where it stands. -/
theorem find_skillFile {entry : Option Node} (h : t.nodes (base ++ [skill.name]) = some .dir)
    (hfile : t.nodes (base ++ [skill.name] ++ [skillName]) = entry)
    (hnot : ∀ target, entry ≠ some (.link target)) :
    find t.nodes n (base ++ [skill.name] ++ [skillName]) = entry.elim (.error .notFound) .ok := by
  subst hfile
  exact find_in_dirs (proper_skillDir hbase hname) (t.dirs_of_dir h) proper_skillName hnot

/-- In a real directory the place of `SKILL.md` decides. -/
theorem classify_dir (h : t.nodes (base ++ [skill.name]) = some .dir) :
    classify t.nodes n base skill.name skill.body =
      match t.nodes (base ++ [skill.name] ++ [skillName]) with
      | some (.link target) => .ok (.symlink (base ++ [skill.name]) skillName target)
      | some (.file bytes) => .ok (.realDir (bytes = skill.body))
      | _ => .ok (.realDir false) := by
  have hdirs := t.dirs_of_dir h
  have hproper := proper_skillDir hbase hname
  have hbaseDirs := t.dirs_of_dir (t.rooted base skill.name (by simp [h]))
  rw [classify, lstat_dirs hbase.proper hbaseDirs, h]
  simp only [Option.elim_some]
  rw [lstat_dirs hproper hdirs]
  cases hfile : t.nodes (base ++ [skill.name] ++ [skillName]) with
  | none =>
    have hread : readFile t.nodes n (base ++ [skill.name] ++ [skillName]) = .error .notFound := by
      rw [readFile, find_skillFile hbase hname h hfile (by simp)]
      rfl
    simp only [Option.elim_none, hread]
  | some node =>
    cases node with
    | link target => rfl
    | dir =>
      have hread : readFile t.nodes n (base ++ [skill.name] ++ [skillName]) =
          .error .isDirectory := by
        rw [readFile, find_skillFile hbase hname h hfile (by simp)]
        rfl
      simp only [Option.elim_some, hread]
    | file bytes =>
      have hread : readFile t.nodes n (base ++ [skill.name] ++ [skillName]) = .ok bytes := by
        rw [readFile, find_skillFile hbase hname h hfile (by simp)]
        rfl
      simp only [Option.elim_some, hread]

/-- A link in the place of `SKILL.md` is left alone, or replaced. -/
theorem installOne_innerLink {target : Target} (h : t.nodes (base ++ [skill.name]) = some .dir)
    (hfile : t.nodes (base ++ [skill.name] ++ [skillName]) = some (.link target)) :
    (installOne t.nodes n base skill force).1 = if force then
      Function.update t.nodes (base ++ [skill.name] ++ [skillName]) (some (.file skill.body))
        else t.nodes := by
  have hdirs := t.dirs_of_dir h
  have hproper := proper_skillDir hbase hname
  have hclassify := classify_dir (n := n) hbase hname h
  rw [hfile] at hclassify
  rw [installOne, hclassify]
  cases force with
  | false => rfl
  | true =>
    have hcleared : Function.update t.nodes (base ++ [skill.name] ++ [skillName]) none
        (base ++ [skill.name] ++ [skillName]) = none := Function.update_self _ _ _
    have hdirs' : Dirs (Function.update t.nodes (base ++ [skill.name] ++ [skillName]) none)
        (base ++ [skill.name]) := hdirs.update (by rw [hfile]; simp) none
    have hwrite := writeSkill_dirs (n := n) (b := skill.body) hproper hdirs' (.inl hcleared)
    simp only [Bool.not_true, Bool.false_eq_true, if_false, if_true,
      removeFile_link hproper hdirs hfile, hwrite]
    exact Function.update_idem _ _ _

/-- A directory without a `SKILL.md` gets one. -/
theorem installOne_empty (h : t.nodes (base ++ [skill.name]) = some .dir)
    (hfile : t.nodes (base ++ [skill.name] ++ [skillName]) = none) :
    (installOne t.nodes n base skill force).1 =
      Function.update t.nodes (base ++ [skill.name] ++ [skillName]) (some (.file skill.body)) := by
  have hdirs := t.dirs_of_dir h
  have hproper := proper_skillDir hbase hname
  have hclassify := classify_dir (n := n) hbase hname h
  rw [hfile] at hclassify
  have hfind : find t.nodes n (base ++ [skill.name] ++ [skillName]) = .error .notFound := by
    rw [find_skillFile hbase hname h hfile (by simp)]
    rfl
  have hbackUp : backUp t.nodes n (base ++ [skill.name]) = (t.nodes, .ok ()) := by
    rw [backUp]
    simp only [exists_, hfind, Bool.false_eq_true, if_false]
  have hwrite := writeSkill_dirs (n := n) (b := skill.body) hproper hdirs (.inl hfile)
  rw [installOne, hclassify]
  simp only [hbackUp, hwrite]
  rfl

/-- A directory in the place of `SKILL.md` is an error. -/
theorem installOne_innerDir (h : t.nodes (base ++ [skill.name]) = some .dir)
    (hfile : t.nodes (base ++ [skill.name] ++ [skillName]) = some .dir) :
    (installOne t.nodes n base skill force).1 = t.nodes := by
  have hdirs := t.dirs_of_dir h
  have hproper := proper_skillDir hbase hname
  have hclassify := classify_dir (n := n) hbase hname h
  rw [hfile] at hclassify
  have hfind : find t.nodes n (base ++ [skill.name] ++ [skillName]) = .ok .dir := by
    rw [find_skillFile hbase hname h hfile (by simp)]
    rfl
  have hread : readFile t.nodes n (base ++ [skill.name] ++ [skillName]) = .error .isDirectory := by
    rw [readFile, hfind]
    rfl
  have hbackUp : backUp t.nodes n (base ++ [skill.name]) =
      (t.nodes, .error (.reading (base ++ [skill.name] ++ [skillName]) .isDirectory)) := by
    rw [backUp]
    simp only [exists_, hfind, hread, if_true]
  rw [installOne, hclassify]
  simp only [hbackUp]

/-- A file that is up to date is left alone. -/
theorem installOne_upToDate (h : t.nodes (base ++ [skill.name]) = some .dir)
    (hfile : t.nodes (base ++ [skill.name] ++ [skillName]) = some (.file skill.body)) :
    (installOne t.nodes n base skill force).1 = t.nodes := by
  have hclassify := classify_dir (n := n) hbase hname h
  rw [hfile] at hclassify
  simp only [decide_eq_true] at hclassify
  rw [installOne, hclassify]

/-- An outdated file is backed up to where the backup's name leads, and overwritten; if
nothing can be written there, nothing is. -/
theorem installOne_outdated (n : ℕ) (force : Bool) {original : List UInt8}
    (h : t.nodes (base ++ [skill.name]) = some .dir)
    (hfile : t.nodes (base ++ [skill.name] ++ [skillName]) = some (.file original))
    (hne : original ≠ skill.body) :
    (∃ loc, locate t.nodes n (base ++ [skill.name] ++ [backupName]) = .ok loc ∧
      Writable t.nodes loc ∧ (installOne t.nodes n base skill force).1 =
        Function.update (Function.update t.nodes loc (some (.file original)))
          (base ++ [skill.name] ++ [skillName]) (some (.file skill.body))) ∨
    ((installOne t.nodes n base skill force).1 = t.nodes ∧ ∀ loc,
      locate t.nodes n (base ++ [skill.name] ++ [backupName]) = .ok loc →
      ¬ Writable t.nodes loc) := by
  have hdirs := t.dirs_of_dir h
  have hproper := proper_skillDir hbase hname
  have hclassify := classify_dir (n := n) hbase hname h
  rw [hfile] at hclassify
  simp only [decide_eq_false hne] at hclassify
  have hfind : find t.nodes n (base ++ [skill.name] ++ [skillName]) = .ok (.file original) := by
    rw [find_skillFile hbase hname h hfile (by simp)]
    rfl
  have hread : readFile t.nodes n (base ++ [skill.name] ++ [skillName]) = .ok original := by
    rw [readFile, hfind]
    rfl
  rw [installOne, hclassify]
  simp only [backUp, exists_, hfind, hread, if_true]
  cases hlocate : locate t.nodes n (base ++ [skill.name] ++ [backupName]) with
  | error e =>
    have hwrite : write t.nodes n (base ++ [skill.name] ++ [backupName]) original = .error e := by
      rw [write, hlocate]
      rfl
    refine .inr ⟨by simp only [hwrite], fun loc hloc => by cases hloc⟩
  | ok loc =>
    by_cases hwritable : Writable t.nodes loc
    · refine .inl ⟨loc, rfl, hwritable, ?_⟩
      -- what stands in the place of the file is still a file
      have hstill : Function.update t.nodes loc (some (.file original))
          (base ++ [skill.name] ++ [skillName]) = some (.file original) := by
        rw [Function.update_apply]
        split_ifs
        · rfl
        · exact hfile
      have hbody := writeSkill_dirs (n := n) (b := skill.body) hproper
        (hdirs.update hwritable.ne_dir (some (.file original))) (.inr ⟨_, hstill⟩)
      simp only [write_of_writable hlocate hwritable, hbody]
      rfl
    · obtain ⟨e, he⟩ := write_of_not_writable (b := original) hlocate hwritable
      refine .inr ⟨by simp only [he], fun loc' hloc' => ?_⟩
      rwa [← Except.ok.inj hloc']

end

/-! ### The frame of each step -/

/-- A node that is no file and no gap. -/
theorem not_writable_link {p : Path} {target : Target} (h : nodes p = some (.link target)) :
    ¬ Writable nodes p := by
  rintro (hnone | ⟨bytes, hbytes⟩)
  · rw [h] at hnone
    cases hnone
  · rw [h] at hbytes
    cases hbytes

theorem framed_absent (h : ∀ q, q <+: skillDir → t.nodes q = some .dir ∨ t.nodes q = none)
    (hnone : t.nodes skillDir = none) :
    Framed t.nodes (Function.update (fill t.nodes skillDir) (skillDir ++ [skillName]) (some (.file b)))
      n skillDir force := by
  have hempty : ∀ c, t.nodes (skillDir ++ [c]) = none := fun c => t.nodes_eq_none (by simp [hnone])
  have hdir : Function.update (fill t.nodes skillDir) (skillDir ++ [skillName]) (some (.file b))
      skillDir = some .dir := by
    rw [Function.update_of_ne (append_ne _ _).symm]
    exact dirs_fill t.nodes skillDir skillDir List.prefix_rfl
  refine ⟨fun p hp => ?_, fun path hpath hlink => ?_⟩
  · by_cases hfile : p = skillDir ++ [skillName]
    · subst hfile
      exact .file (.inl rfl) (.inl (hempty _)) ⟨b, Function.update_self _ _ _⟩ hdir
    · rw [Function.update_of_ne hfile] at hp
      by_cases hprefix : p <+: skillDir
      · have hnew := dirs_fill t.nodes skillDir p hprefix
        rcases h p hprefix with hold | hold
        · exact absurd (hnew.trans hold.symm) hp
        · refine .dir hprefix hold ?_
          rw [Function.update_of_ne hfile, hnew]
      · exact absurd (fill_elsewhere hprefix) hp
  · -- no link stands at a path of the installer
    obtain ⟨target, htarget⟩ := hlink
    simp only [List.mem_cons, List.not_mem_nil, or_false] at hpath
    rcases hpath with rfl | rfl | rfl
    · rw [hnone] at htarget
      cases htarget
    · rw [hempty] at htarget
      cases htarget
    · rw [hempty] at htarget
      cases htarget

theorem framed_replaced {target : Target} (h : t.nodes skillDir = some (.link target)) :
    Framed t.nodes (Function.update (Function.update t.nodes skillDir (some .dir))
      (skillDir ++ [skillName]) (some (.file b))) n skillDir true := by
  have hempty : ∀ c, t.nodes (skillDir ++ [c]) = none := fun c => t.nodes_eq_none (by simp [h])
  have hdir : Function.update (Function.update t.nodes skillDir (some .dir))
      (skillDir ++ [skillName]) (some (.file b)) skillDir = some .dir := by
    rw [Function.update_of_ne (append_ne _ _).symm, Function.update_self]
  refine ⟨fun p hp => ?_, fun path _ _ loc node hloc hnode => ?_⟩
  · by_cases hfile : p = skillDir ++ [skillName]
    · subst hfile
      exact .file (.inl rfl) (.inl (hempty _)) ⟨b, Function.update_self _ _ _⟩ hdir
    · rw [Function.update_of_ne hfile] at hp
      by_cases hskill : p = skillDir
      · subst hskill
        exact .link rfl ⟨target, h⟩ (.inl ⟨rfl, hdir⟩)
      · exact absurd (Function.update_of_ne hskill _ _) hp
  · -- a walk ends neither at the link nor below it
    have hfile : loc ≠ skillDir ++ [skillName] := by
      rintro rfl
      rw [hempty] at hnode
      cases hnode
    have hskill : loc ≠ skillDir := by
      rintro rfl
      exact t.walk_ne_link t.root hloc target h
    rw [Function.update_of_ne hfile, Function.update_of_ne hskill, hnode]

theorem framed_written (h : t.nodes skillDir = some .dir)
    (hfile : t.nodes (skillDir ++ [skillName]) = none ∨
      (force = true ∧ ∃ target, t.nodes (skillDir ++ [skillName]) = some (.link target))) :
    Framed t.nodes (Function.update t.nodes (skillDir ++ [skillName]) (some (.file b))) n skillDir
      force := by
  have hdir : Function.update t.nodes (skillDir ++ [skillName]) (some (.file b)) skillDir =
      some .dir := by
    rw [Function.update_of_ne (append_ne _ _).symm, h]
  refine ⟨fun p hp => ?_, fun path _ _ loc node hloc hnode => ?_⟩
  · by_cases hp' : p = skillDir ++ [skillName]
    · subst hp'
      have hnew := Function.update_self (skillDir ++ [skillName]) (some (Node.file b)) t.nodes
      rcases hfile with hnone | ⟨hforce, hlink⟩
      · exact .file (.inl rfl) (.inl hnone) ⟨b, hnew⟩ hdir
      · exact .link hforce hlink (.inr ⟨rfl, b, hnew⟩)
    · exact absurd (Function.update_of_ne hp' _ _) hp
  · have hne : loc ≠ skillDir ++ [skillName] := by
      rintro rfl
      rcases hfile with hnone | ⟨-, target, hlink⟩
      · rw [hnone] at hnode
        cases hnode
      · exact t.walk_ne_link t.root hloc target hlink
    rw [Function.update_of_ne hne, hnode]

/-- A backup that is a file of its own, or is not there. -/
theorem framed_backedUp {original : List UInt8} (h : t.nodes skillDir = some .dir)
    (hfile : t.nodes (skillDir ++ [skillName]) = some (.file original))
    (hbackup : Writable t.nodes (skillDir ++ [backupName])) :
    Framed t.nodes (Function.update (Function.update t.nodes (skillDir ++ [backupName])
      (some (.file original))) (skillDir ++ [skillName]) (some (.file b))) n skillDir force := by
  have hdir : Function.update (Function.update t.nodes (skillDir ++ [backupName])
      (some (.file original))) (skillDir ++ [skillName]) (some (.file b)) skillDir = some .dir := by
    rw [Function.update_of_ne (append_ne _ _).symm, Function.update_of_ne (append_ne _ _).symm, h]
  refine ⟨fun p hp => ?_, fun path hpath hlink => ?_⟩
  · by_cases hp' : p = skillDir ++ [skillName]
    · subst hp'
      exact .file (.inl rfl) (.inr ⟨original, hfile⟩) ⟨b, Function.update_self _ _ _⟩ hdir
    · rw [Function.update_of_ne hp'] at hp
      by_cases hp'' : p = skillDir ++ [backupName]
      · subst hp''
        refine .file (.inr rfl) hbackup ⟨original, ?_⟩ hdir
        rw [Function.update_of_ne hp', Function.update_self]
      · exact absurd (Function.update_of_ne hp'' _ _) hp
  · obtain ⟨target, htarget⟩ := hlink
    simp only [List.mem_cons, List.not_mem_nil, or_false] at hpath
    rcases hpath with rfl | rfl | rfl
    · rw [h] at htarget
      cases htarget
    · rw [hfile] at htarget
      cases htarget
    · exact absurd hbackup (not_writable_link htarget)

/-- A backup through a link to a file that has the content already. -/
theorem framed_rewritten {original : List UInt8} {loc : Path} {target : Target}
    (h : t.nodes skillDir = some .dir)
    (hfile : t.nodes (skillDir ++ [skillName]) = some (.file original))
    (hlink : t.nodes (skillDir ++ [backupName]) = some (.link target))
    (hloc : locate t.nodes n (skillDir ++ [backupName]) = .ok loc)
    (hsame : t.nodes loc = some (.file original)) (hne : loc ≠ skillDir ++ [skillName]) :
    Framed t.nodes (Function.update (Function.update t.nodes loc (some (.file original)))
      (skillDir ++ [skillName]) (some (.file b))) n skillDir force := by
  have hrewrite : Function.update t.nodes loc (some (.file original)) = t.nodes :=
    Function.update_eq_self_iff.mpr hsame.symm
  rw [hrewrite]
  have hdir : Function.update t.nodes (skillDir ++ [skillName]) (some (.file b)) skillDir =
      some .dir := by
    rw [Function.update_of_ne (append_ne _ _).symm, h]
  refine ⟨fun p hp => ?_, fun path hpath hpathLink loc' node hloc' hnode => ?_⟩
  · by_cases hp' : p = skillDir ++ [skillName]
    · subst hp'
      exact .file (.inl rfl) (.inr ⟨original, hfile⟩) ⟨b, Function.update_self _ _ _⟩ hdir
    · exact absurd (Function.update_of_ne hp' _ _) hp
  · -- the backup is the one link at a path of the installer
    obtain ⟨target', htarget'⟩ := hpathLink
    simp only [List.mem_cons, List.not_mem_nil, or_false] at hpath
    rcases hpath with rfl | rfl | rfl
    · rw [h] at htarget'
      cases htarget'
    · rw [hfile] at htarget'
      cases htarget'
    · obtain rfl : loc = loc' := Except.ok.inj (hloc.symm.trans hloc')
      rw [Function.update_of_ne hne, hnode]

/-- A backup that is not through a link that changes something. -/
theorem framed_outdated {original : List UInt8} {loc : Path} (hbase : Real t.nodes base)
    (hname : skill.name ∈ bundledNames)
    (hnot : ¬ ThroughBackup t.nodes n (base ++ [skill.name]) skill.body)
    (h : t.nodes (base ++ [skill.name]) = some .dir)
    (hfile : t.nodes (base ++ [skill.name] ++ [skillName]) = some (.file original))
    (hne : original ≠ skill.body)
    (hloc : locate t.nodes n (base ++ [skill.name] ++ [backupName]) = .ok loc)
    (hwritable : Writable t.nodes loc) :
    Framed t.nodes (Function.update (Function.update t.nodes loc (some (.file original)))
      (base ++ [skill.name] ++ [skillName]) (some (.file skill.body))) n (base ++ [skill.name])
      force := by
  have hproper := proper_skillDir hbase hname
  by_cases hlink : ∃ target, t.nodes (base ++ [skill.name] ++ [backupName]) = some (.link target)
  · obtain ⟨target, htarget⟩ := hlink
    by_cases hself : loc = base ++ [skill.name] ++ [skillName]
    · exact absurd ⟨original, loc, h, hfile, hne, ⟨target, htarget⟩, hloc, hwritable, .inl hself⟩ hnot
    by_cases hcontent : t.nodes loc = some (.file original)
    · exact framed_rewritten h hfile htarget hloc hcontent hself
    · exact absurd ⟨original, loc, h, hfile, hne, ⟨target, htarget⟩, hloc, hwritable, .inr hcontent⟩
        hnot
  · have hplain := locate_in_dirs (n := n) hproper (t.dirs_of_dir h) proper_backupName
      fun target htarget => hlink ⟨target, htarget⟩
    obtain rfl := Except.ok.inj (hloc.symm.trans hplain)
    exact framed_backedUp h hfile hwritable

/-- A backup through a link that changes something is no frame. -/
theorem not_framed_through {original : List UInt8} {loc : Path} {target : Target}
    (hne : original ≠ b) (hfile : nodes (skillDir ++ [skillName]) = some (.file original))
    (hlink : nodes (skillDir ++ [backupName]) = some (.link target))
    (hloc : locate nodes n (skillDir ++ [backupName]) = .ok loc) (hwritable : Writable nodes loc)
    (hchange : loc = skillDir ++ [skillName] ∨ nodes loc ≠ some (.file original)) :
    ¬ Framed nodes (Function.update (Function.update nodes loc (some (.file original)))
      (skillDir ++ [skillName]) (some (.file b))) n skillDir force := by
  intro hframed
  by_cases hself : loc = skillDir ++ [skillName]
  · -- the backup is the file itself
    subst hself
    have htarget := hframed.targets _ (by simp) ⟨target, hlink⟩ _ _ hloc hfile
    rw [Function.update_self] at htarget
    exact hne (Node.file.inj (Option.some_inj.mp htarget)).symm
  · have hother := hchange.resolve_left hself
    have hnew : Function.update (Function.update nodes loc (some (.file original)))
        (skillDir ++ [skillName]) (some (.file b)) loc = some (.file original) := by
      rw [Function.update_of_ne hself, Function.update_self]
    -- the changed node is that of a file that is not the installer's
    have hpermitted := hframed.changes loc (by rw [hnew]; exact hother.symm)
    cases hpermitted with
    | file hp _ _ _ =>
      refine hp.elim hself fun hbackup => ?_
      subst hbackup
      exact not_writable_link hlink hwritable
    | dir _ _ hdir =>
      rw [hnew] at hdir
      cases hdir
    | link _ hold _ =>
      obtain ⟨target', htarget'⟩ := hold
      exact not_writable_link htarget' hwritable

/-- **An install keeps to its files and writes through no link**, exactly if it does not
back an outdated file up through a link that would change something. -/
theorem install_frame_iff (t : Tree) (links : ℕ) (base : Path) (skill : BundledSkill) (force : Bool)
    (hbase : Real t.nodes base) (hname : skill.name ∈ bundledNames) :
    Framed t.nodes (installOne t.nodes links base skill force).1 links (base ++ [skill.name]) force ↔
      ¬ ThroughBackup t.nodes links (base ++ [skill.name]) skill.body := by
  constructor
  · rintro hframed ⟨original, loc, hdir, hfile, hne, ⟨target, hlink⟩, hloc, hwritable, hchange⟩
    rcases installOne_outdated hbase hname links force hdir hfile hne with
      ⟨loc', hloc', -, heq⟩ | ⟨-, hrefused⟩
    · obtain rfl : loc = loc' := Except.ok.inj (hloc.symm.trans hloc')
      rw [heq] at hframed
      exact not_framed_through hne hfile hlink hloc hwritable hchange hframed
    · exact hrefused loc hloc hwritable
  · intro hnot
    cases hskill : t.nodes (base ++ [skill.name]) with
    | none =>
      rw [installOne_absent hbase hname hskill]
      refine framed_absent (fun q hq => ?_) hskill
      rcases List.prefix_concat_iff.mp hq with rfl | hq
      · exact .inr hskill
      · exact hbase.nodes q hq
    | some node =>
      cases node with
      | file bytes =>
        rw [installOne_file hbase hname hskill]
        exact framed_refl _ _ _ _
      | link target =>
        rw [installOne_link hbase hname hskill]
        cases force with
        | false => exact framed_refl _ _ _ _
        | true => exact framed_replaced hskill
      | dir =>
        cases hfile : t.nodes (base ++ [skill.name] ++ [skillName]) with
        | none =>
          rw [installOne_empty hbase hname hskill hfile]
          exact framed_written hskill (.inl hfile)
        | some inner =>
          cases inner with
          | dir =>
            rw [installOne_innerDir hbase hname hskill hfile]
            exact framed_refl _ _ _ _
          | link target =>
            rw [installOne_innerLink hbase hname hskill hfile]
            cases force with
            | false => exact framed_refl _ _ _ _
            | true => exact framed_written hskill (.inr ⟨rfl, target, hfile⟩)
          | file original =>
            by_cases hsame : original = skill.body
            · rw [installOne_upToDate hbase hname hskill (hsame ▸ hfile)]
              exact framed_refl _ _ _ _
            · rcases installOne_outdated hbase hname links force hskill hfile hsame
                with ⟨loc, hloc, hwritable, heq⟩ | ⟨heq, -⟩
              · rw [heq]
                exact framed_outdated hbase hname hnot hskill hfile hsame hloc hwritable
              · rw [heq]
                exact framed_refl _ _ _ _

/-- A skill that is out of date, whose backup is a link to some notes. -/
def linkedBackup : Tree :=
  Tree.ofList [([], .dir), (["notes".toList], .file [2]), (["skills".toList], .dir),
      (["skills".toList, "cbc".toList], .dir),
      (["skills".toList, "cbc".toList, skillName], .file [1]),
      (["skills".toList, "cbc".toList, backupName], .link ⟨true, ["notes".toList]⟩)]
    (by decide) (by decide)

theorem real_skills : Real linkedBackup.nodes ["skills".toList] := by
  refine ⟨by decide, fun q hq => ?_⟩
  have hdirs := linkedBackup.dirs_of_dir (show linkedBackup.nodes ["skills".toList] = some .dir by decide)
  exact .inl (hdirs q hq)

theorem install_frame_iff_linkedBackup :
    Framed linkedBackup.nodes
        (installOne linkedBackup.nodes 40 ["skills".toList] ⟨"cbc".toList, [3]⟩ false).1 40
        (["skills".toList] ++ ["cbc".toList]) false ↔
      ¬ ThroughBackup linkedBackup.nodes 40 (["skills".toList] ++ ["cbc".toList]) [3] :=
  install_frame_iff linkedBackup 40 ["skills".toList] ⟨"cbc".toList, [3]⟩ false real_skills (by decide)

/-- The notes are overwritten with the backup. -/
theorem not_install_frame : ¬ ∀ (t : Tree) (links : ℕ) (base : Path) (skill : BundledSkill)
    (force : Bool), Real t.nodes base → skill.name ∈ bundledNames →
      Framed t.nodes (installOne t.nodes links base skill force).1 links (base ++ [skill.name])
        force := by
  intro h
  have hframed := h linkedBackup 40 ["skills".toList] ⟨"cbc".toList, [3]⟩ false real_skills (by decide)
  cases hframed.changes ["notes".toList] (by decide) with
  | file hp _ _ _ => exact absurd hp (by decide)
  | dir hp _ _ => exact absurd hp (by decide)
  | link hforce _ _ => cases hforce

end Skill

end ChatBotChat
