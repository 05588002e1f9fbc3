/-
File trees with symbolic links.

A tree gives every path without links and dots the node that stands there, and each node
stands in a directory.  Calls name their file by a path that is walked link by link
(`walk`), as many links as the system allows, and act on the path it ends at.  Along
directories a walk goes nowhere else (`walk_dirs`), and a path whose directories are partly
missing is filled up by `createDirAll` (`createDirAll_real`).
-/
import Mathlib.Data.List.Basic
import Mathlib.Data.List.Infix
import Mathlib.Logic.Function.Basic

namespace FileTree

abbrev Name : Type := List Char

abbrev Path : Type := List Name

/-- Where a link points to: from the root, or from its own directory. -/
structure Target where
  absolute : Bool
  steps : Path
deriving DecidableEq

inductive Node where
  | file (bytes : List UInt8)
  | dir
  | link (target : Target)
deriving DecidableEq

inductive Errno where
  | notFound
  | notDirectory
  | isDirectory
  | alreadyExists
  | loop
deriving DecidableEq

abbrev Nodes : Type := Path → Option Node

structure Tree where
  nodes : Nodes
  root : nodes [] = some .dir
  rooted : ∀ p c, nodes (p ++ [c]) ≠ none → nodes p = some .dir

/-- A tree from the list of its nodes. -/
def Tree.ofList (entries : List (Path × Node))
    (root : (entries.find? fun e => e.1 = []).map Prod.snd = some .dir)
    (rooted : ∀ e ∈ entries, e.1 ≠ [] →
      (entries.find? fun f => f.1 = e.1.dropLast).map Prod.snd = some .dir) : Tree where
  nodes p := (entries.find? fun e => e.1 = p).map Prod.snd
  root := root
  rooted p c hnode := by
    obtain ⟨node, hsome⟩ := Option.ne_none_iff_exists'.mp hnode
    obtain ⟨e, he, -⟩ := Option.map_eq_some_iff.mp hsome
    have hfound := List.find?_some he
    have hpath : e.1 = p ++ [c] := of_decide_eq_true hfound
    have hparent := rooted e (List.mem_of_find?_eq_some he) (by simp [hpath])
    rwa [hpath, List.dropLast_concat] at hparent

/-! ### Walking a path -/

def here : Name := ['.']

def up : Name := ['.', '.']

/-- A walk that goes on behind a link as `follow` says. -/
def walkVia (nodes : Nodes) (follow : Path → Path → Except Errno Path) :
    Path → Path → Except Errno Path
  | cur, [] => .ok cur
  | cur, c :: rest =>
    if c = here then walkVia nodes follow cur rest
    else if c = up then walkVia nodes follow cur.dropLast rest
    else match nodes (cur ++ [c]) with
      | some .dir => walkVia nodes follow (cur ++ [c]) rest
      | some (.link target) =>
        follow (if target.absolute then [] else cur) (target.steps ++ rest)
      | some (.file _) => if rest = [] then .ok (cur ++ [c]) else .error .notDirectory
      | none => if rest = [] then .ok (cur ++ [c]) else .error .notFound

/-- A walk from a directory over as many links as are left. -/
def walk (nodes : Nodes) : ℕ → Path → Path → Except Errno Path
  | 0 => walkVia nodes fun _ _ => .error .loop
  | links + 1 => walkVia nodes (walk nodes links)

variable (nodes : Nodes) (links : ℕ)

/-- Where a path leads, from the root. -/
def locate (path : Path) : Except Errno Path := walk nodes links [] path

/-! ### Calls -/

/-- The node that a path leads to. -/
def find (path : Path) : Except Errno Node := do
  match nodes (← locate nodes links path) with
  | some node => .ok node
  | none => .error .notFound

/-- The directory that a path leads to. -/
def findDir (path : Path) : Except Errno Path := do
  let loc ← locate nodes links path
  match nodes loc with
  | some .dir => .ok loc
  | none => .error .notFound
  | _ => .error .notDirectory

/-- `symlink_metadata` and `read_link`: the last name is not followed. -/
def lstat (dir : Path) (name : Name) : Except Errno Node := do
  let loc ← findDir nodes links dir
  match nodes (loc ++ [name]) with
  | some node => .ok node
  | none => .error .notFound

def readFile (path : Path) : Except Errno (List UInt8) := do
  match ← find nodes links path with
  | .file bytes => .ok bytes
  | .dir => .error .isDirectory
  | .link _ => .error .loop

def exists_ (path : Path) : Bool :=
  match find nodes links path with
  | .ok _ => true
  | .error _ => false

def isDir (path : Path) : Bool := find nodes links path = .ok .dir

/-- The file is created or overwritten. -/
def write (path : Path) (bytes : List UInt8) : Except Errno Nodes := do
  let loc ← locate nodes links path
  match nodes loc with
  | some .dir => .error .isDirectory
  | some (.link _) => .error .loop
  | _ => .ok (Function.update nodes loc (some (.file bytes)))

/-- The file or the link itself is removed. -/
def removeFile (dir : Path) (name : Name) : Except Errno Nodes := do
  let loc ← findDir nodes links dir
  match nodes (loc ++ [name]) with
  | none => .error .notFound
  | some .dir => .error .isDirectory
  | _ => .ok (Function.update nodes (loc ++ [name]) none)

def mkdir (dir : Path) (name : Name) : Except Errno Nodes := do
  let loc ← findDir nodes links dir
  match nodes (loc ++ [name]) with
  | none => .ok (Function.update nodes (loc ++ [name]) (some .dir))
  | some _ => .error .alreadyExists

/-- The directory of the reversed path, and every directory on its way that is missing. -/
def createDirAllRev (nodes : Nodes) : Path → Nodes × Except Errno Unit
  | [] => (nodes, .ok ())
  | name :: parents =>
    let path := parents.reverse ++ [name]
    match mkdir nodes links parents.reverse name with
    | .ok nodes => (nodes, .ok ())
    | .error .notFound =>
      match createDirAllRev nodes parents with
      | (nodes, .error e) => (nodes, .error e)
      | (nodes, .ok ()) =>
        match mkdir nodes links parents.reverse name with
        | .ok nodes => (nodes, .ok ())
        | .error e => (nodes, if isDir nodes links path then .ok () else .error e)
    | .error e => (nodes, if isDir nodes links path then .ok () else .error e)

def createDirAll (path : Path) : Nodes × Except Errno Unit :=
  createDirAllRev links nodes path.reverse

/-! ### Walks along directories -/

variable {nodes} {n : ℕ} {p q r : Path} {cur : Path} {c : Name} {b : List UInt8}

/-- A name that is no dot. -/
def Proper (c : Name) : Prop := c ≠ here ∧ c ≠ up

instance : Decidable (Proper c) := inferInstanceAs (Decidable (_ ∧ _))

/-- Directories all the way. -/
def Dirs (nodes : Nodes) (p : Path) : Prop := ∀ q, q <+: p → nodes q = some .dir

/-- Directories as far as there is anything. -/
structure Real (nodes : Nodes) (p : Path) : Prop where
  proper : ∀ c ∈ p, Proper c
  nodes : ∀ q, q <+: p → nodes q = some .dir ∨ nodes q = none

/-- A change where no directory stands leaves them. -/
theorem Dirs.update (h : Dirs nodes p) {loc : Path} (hloc : nodes loc ≠ some .dir)
    (node : Option Node) : Dirs (Function.update nodes loc node) p := by
  intro q hq
  have hne : q ≠ loc := by
    rintro rfl
    exact hloc (h q hq)
  rw [Function.update_of_ne hne, h q hq]

theorem walkVia_dirs {follow : Path → Path → Except Errno Path} (hproper : ∀ c ∈ p, Proper c)
    (hdirs : ∀ q, q <+: p → q ≠ [] → nodes (cur ++ q) = some .dir) :
    walkVia nodes follow cur (p ++ r) = walkVia nodes follow (cur ++ p) r := by
  induction p generalizing cur with
  | nil => rw [List.append_nil, List.nil_append]
  | cons c p ih =>
    obtain ⟨hhere, hup⟩ := hproper c List.mem_cons_self
    -- the rest of the path starts one directory further down
    have hnode : nodes (cur ++ [c]) = some .dir :=
      hdirs [c] (List.prefix_cons_inj c |>.mpr List.nil_prefix) (by simp)
    rw [List.cons_append, walkVia, if_neg hhere, if_neg hup, hnode]
    simp only
    rw [ih (fun c hc => hproper c (List.mem_cons_of_mem _ hc)), List.append_assoc]
    · rfl
    · intro q hq hne
      rw [List.append_assoc]
      exact hdirs (c :: q) ((List.prefix_cons_inj c).mpr hq) (by simp)

/-- However many links are left, they are followed in one way. -/
theorem exists_walkVia (nodes : Nodes) (n : ℕ) : ∃ follow, walk nodes n = walkVia nodes follow := by
  cases n with
  | zero => exact ⟨_, rfl⟩
  | succ n => exact ⟨_, rfl⟩

/-- **Along directories a walk goes straight on.** -/
theorem walk_dirs (hproper : ∀ c ∈ p, Proper c) (hdirs : Dirs nodes p) :
    walk nodes n [] (p ++ r) = walk nodes n p r := by
  obtain ⟨follow, hwalk⟩ := exists_walkVia nodes n
  rw [hwalk]
  exact walkVia_dirs hproper fun q hq _ => hdirs q hq

theorem walk_nil : walk nodes n cur [] = .ok cur := by
  cases n <;> rfl

/-- The last name of a walk, where no link stands there. -/
theorem walk_single (hc : Proper c) (hlink : ∀ target, nodes (cur ++ [c]) ≠ some (.link target)) :
    walk nodes n cur [c] = .ok (cur ++ [c]) := by
  obtain ⟨follow, hwalk⟩ := exists_walkVia nodes n
  rw [hwalk, walkVia, if_neg hc.1, if_neg hc.2]
  cases hnode : nodes (cur ++ [c]) with
  | none => rfl
  | some node =>
    cases node with
    | file bytes => rfl
    | dir => rfl
    | link target => exact absurd hnode (hlink target)

/-- Nothing stands in a file. -/
theorem walk_file {d : Name} (hc : Proper c) (hfile : nodes (cur ++ [c]) = some (.file b)) :
    walk nodes n cur [c, d] = .error .notDirectory := by
  obtain ⟨follow, hwalk⟩ := exists_walkVia nodes n
  rw [hwalk, walkVia, if_neg hc.1, if_neg hc.2, hfile]
  rfl

theorem locate_dirs (hproper : ∀ c ∈ p, Proper c) (hdirs : Dirs nodes p) :
    locate nodes n p = .ok p := by
  have hwalk := walk_dirs (n := n) (r := []) hproper hdirs
  rw [List.append_nil, walk_nil] at hwalk
  exact hwalk

theorem locate_dirs_append (hproper : ∀ c ∈ p, Proper c) (hdirs : Dirs nodes p) :
    locate nodes n (p ++ r) = walk nodes n p r := walk_dirs hproper hdirs

theorem findDir_dirs (hproper : ∀ c ∈ p, Proper c) (hdirs : Dirs nodes p) :
    findDir nodes n p = .ok p := by
  rw [findDir, locate_dirs hproper hdirs]
  show (match nodes p with | some .dir => _ | none => _ | _ => _) = _
  rw [hdirs p List.prefix_rfl]

theorem walkVia_real {follow : Path → Path → Except Errno Path} (hproper : ∀ c ∈ p, Proper c)
    (hnodes : ∀ q, q <+: p → q ≠ [] → nodes (cur ++ q) = some .dir ∨ nodes (cur ++ q) = none) :
    walkVia nodes follow cur p = .ok (cur ++ p) ∨
      walkVia nodes follow cur p = .error .notFound := by
  induction p generalizing cur with
  | nil => exact .inl (by rw [List.append_nil]; rfl)
  | cons c p ih =>
    obtain ⟨hhere, hup⟩ := hproper c List.mem_cons_self
    rw [walkVia, if_neg hhere, if_neg hup]
    rcases hnodes [c] ((List.prefix_cons_inj c).mpr List.nil_prefix) (by simp) with hdir | hnode
    · have hbelow : ∀ q, q <+: p → q ≠ [] →
          nodes (cur ++ [c] ++ q) = some .dir ∨ nodes (cur ++ [c] ++ q) = none := by
        intro q hq _
        rw [List.append_assoc]
        exact hnodes (c :: q) ((List.prefix_cons_inj c).mpr hq) (by simp)
      have hrest := ih (fun c hc => hproper c (List.mem_cons_of_mem _ hc)) hbelow
      rw [hdir]
      rwa [List.append_assoc] at hrest
    · rw [hnode]
      by_cases hp : p = []
      · simp [hp]
      · simp [hp]

/-- A walk ends at its path, unless a directory on the way is missing. -/
theorem locate_real (h : Real nodes p) :
    locate nodes n p = .ok p ∨ locate nodes n p = .error .notFound := by
  obtain ⟨follow, hwalk⟩ := exists_walkVia nodes n
  rw [locate, hwalk]
  exact walkVia_real h.proper fun q hq _ => h.nodes q hq

theorem findDir_missing (h : Real nodes p) (hnone : nodes p = none) :
    findDir nodes n p = .error .notFound := by
  rw [findDir]
  rcases locate_real (n := n) h with hok | herror
  · rw [hok]
    show (match nodes p with | some .dir => _ | none => _ | _ => _) = _
    rw [hnone]
  · rw [herror]
    rfl

/-! ### Directories that are filled up -/

/-- The tree with every directory on the way to `p`. -/
def fill (nodes : Nodes) (p : Path) : Nodes := fun q => if q <+: p then some .dir else nodes q

theorem dirs_fill (nodes : Nodes) (p : Path) : Dirs (fill nodes p) p := fun _ hq => if_pos hq

theorem fill_of_dirs (h : Dirs nodes p) : fill nodes p = nodes := by
  funext q
  rw [fill]
  split_ifs with hq
  · exact (h q hq).symm
  · rfl

theorem fill_append (nodes : Nodes) (p : Path) (c : Name) :
    fill nodes (p ++ [c]) = Function.update (fill nodes p) (p ++ [c]) (some .dir) := by
  funext q
  rw [fill, Function.update_apply, fill]
  by_cases hq : q = p ++ [c]
  · rw [if_pos hq, if_pos (hq ▸ List.prefix_rfl)]
  · rw [if_neg hq]
    refine if_congr ?_ rfl rfl
    rw [List.prefix_concat_iff]
    exact or_iff_right hq

/-- What is no prefix stays. -/
theorem fill_elsewhere (h : ¬ q <+: p) : fill nodes p q = nodes q := if_neg h

namespace Tree

variable (t : Tree)

/-- All that a directory stands in are directories. -/
theorem dirs_of_dir {p : Path} (h : t.nodes p = some .dir) : Dirs t.nodes p := by
  induction p using List.reverseRecOn with
  | nil =>
    intro q hq
    rw [List.prefix_nil.mp hq]
    exact h
  | append_singleton p c ih =>
    have hparent : t.nodes p = some .dir := t.rooted p c (by rw [h]; simp)
    intro q hq
    rcases List.prefix_concat_iff.mp hq with rfl | hq
    · exact h
    · exact ih hparent q hq

/-- Nothing stands in what is no directory. -/
theorem nodes_eq_none {p : Path} {c : Name} (h : t.nodes p ≠ some .dir) :
    t.nodes (p ++ [c]) = none := by
  by_contra hne
  exact h (t.rooted p c hne)

end Tree

namespace Tree

/-- The tree without a link. -/
def unlink (t : Tree) {p : Path} {target : Target} (h : t.nodes p = some (.link target)) : Tree where
  nodes := Function.update t.nodes p none
  root := by
    rw [Function.update_of_ne, t.root]
    rintro rfl
    rw [t.root] at h
    cases h
  rooted q c hnode := by
    have hold : t.nodes (q ++ [c]) ≠ none := by
      by_cases hq : q ++ [c] = p
      · rw [hq, h]
        simp
      · rwa [Function.update_of_ne hq] at hnode
    have hparent := t.rooted q c hold
    rw [Function.update_of_ne, hparent]
    rintro rfl
    rw [h] at hparent
    cases hparent

/-- A walk from a directory ends at no link. -/
theorem walk_ne_link (t : Tree) {cur path loc : Path} (hcur : t.nodes cur = some .dir)
    (h : walk t.nodes n cur path = .ok loc) (target : Target) :
    t.nodes loc ≠ some (.link target) := by
  -- along the path for one number of links left, then over that number
  have hvia : ∀ follow : Path → Path → Except Errno Path,
      (∀ cur path, t.nodes cur = some .dir → follow cur path = .ok loc →
        t.nodes loc ≠ some (.link target)) →
      ∀ path cur, t.nodes cur = some .dir → walkVia t.nodes follow cur path = .ok loc →
        t.nodes loc ≠ some (.link target) := by
    intro follow hfollow path
    induction path with
    | nil =>
      intro cur hcur h
      obtain rfl : cur = loc := Except.ok.inj h
      simp [hcur]
    | cons c rest ih =>
      intro cur hcur h
      rw [walkVia] at h
      by_cases hhere : c = here
      · rw [if_pos hhere] at h
        exact ih cur hcur h
      rw [if_neg hhere] at h
      by_cases hup : c = up
      · rw [if_pos hup] at h
        refine ih cur.dropLast ?_ h
        rcases List.eq_nil_or_concat' cur with rfl | ⟨q, a, rfl⟩
        · exact hcur
        · rw [List.dropLast_concat]
          exact t.rooted q a (by simp [hcur])
      rw [if_neg hup] at h
      cases hnode : t.nodes (cur ++ [c]) with
      | none =>
        simp only [hnode] at h
        split_ifs at h
        obtain rfl := Except.ok.inj h
        simp [hnode]
      | some node =>
        cases node with
        | dir =>
          rw [hnode] at h
          exact ih (cur ++ [c]) hnode h
        | file bytes =>
          simp only [hnode] at h
          split_ifs at h
          obtain rfl := Except.ok.inj h
          simp [hnode]
        | link target =>
          rw [hnode] at h
          refine hfollow _ _ ?_ h
          split_ifs
          · exact t.root
          · exact hcur
  induction n generalizing cur path with
  | zero => exact hvia _ (fun _ _ _ h => by cases h) path cur hcur h
  | succ n ih => exact hvia _ (fun _ _ hcur h => ih hcur h) path cur hcur h

end Tree

theorem Real.dropLast (h : Real nodes (p ++ [c])) : Real nodes p :=
  ⟨fun a ha => h.proper a (List.mem_append_left _ ha),
    fun q hq => h.nodes q (hq.trans (List.prefix_append p [c]))⟩

theorem mkdir_of_dirs (hproper : ∀ c ∈ p, Proper c) (hdirs : Dirs nodes p)
    (hnone : nodes (p ++ [c]) = none) :
    mkdir nodes n p c = .ok (Function.update nodes (p ++ [c]) (some .dir)) := by
  rw [mkdir, findDir_dirs hproper hdirs]
  show (match nodes (p ++ [c]) with | none => _ | some _ => _) = _
  rw [hnone]

theorem mkdir_of_some {node : Node} (hproper : ∀ c ∈ p, Proper c) (hdirs : Dirs nodes p)
    (hnode : nodes (p ++ [c]) = some node) : mkdir nodes n p c = .error .alreadyExists := by
  rw [mkdir, findDir_dirs hproper hdirs]
  show (match nodes (p ++ [c]) with | none => _ | some _ => _) = _
  rw [hnode]

theorem mkdir_missing (h : Real nodes p) (hnone : nodes p = none) :
    mkdir nodes n p c = .error .notFound := by
  rw [mkdir, findDir_missing h hnone]
  rfl

theorem find_dirs (hproper : ∀ c ∈ p, Proper c) (hdirs : Dirs nodes p) :
    find nodes n p = .ok .dir := by
  rw [find, locate_dirs hproper hdirs]
  show (match nodes p with | some node => _ | none => _) = _
  rw [hdirs p List.prefix_rfl]

theorem isDir_dirs (hproper : ∀ c ∈ p, Proper c) (hdirs : Dirs nodes p) :
    isDir nodes n p = true := decide_eq_true (find_dirs hproper hdirs)

/-- **A path of directories is filled up**, as far as it is missing. -/
theorem createDirAll_real (t : Tree) (h : Real t.nodes p) :
    createDirAll t.nodes n p = (fill t.nodes p, .ok ()) := by
  rw [createDirAll]
  induction p using List.reverseRecOn with
  | nil =>
    rw [fill_of_dirs (t.dirs_of_dir t.root)]
    rfl
  | append_singleton p c ih =>
    have hp := h.dropLast
    have hall := ih hp
    rw [List.reverse_append, List.reverse_singleton, List.singleton_append, createDirAllRev]
    simp only [List.reverse_reverse]
    -- `mkdir` alone is enough where the parent is there; else the parent comes first
    rcases hp.nodes p List.prefix_rfl with hdir | hmissing
    · have hdirs := t.dirs_of_dir hdir
      rw [fill_append, fill_of_dirs hdirs]
      rcases h.nodes (p ++ [c]) List.prefix_rfl with hthere | hnone
      · rw [mkdir_of_some hp.proper hdirs hthere]
        simp only [isDir_dirs h.proper (t.dirs_of_dir hthere), if_true]
        rw [Function.update_eq_self_iff.mpr hthere.symm]
      · rw [mkdir_of_dirs hp.proper hdirs hnone]
    · have hnone : t.nodes (p ++ [c]) = none := t.nodes_eq_none (by rw [hmissing]; simp)
      have hlast : fill t.nodes p (p ++ [c]) = none := by
        rw [fill_elsewhere, hnone]
        intro hprefix
        have hlength := hprefix.length_le
        rw [List.length_append, List.length_singleton] at hlength
        omega
      rw [mkdir_missing hp hmissing, fill_append]
      simp only [hall, mkdir_of_dirs hp.proper (dirs_fill t.nodes p) hlast]

/-- Where the directory is there, nothing is created. -/
theorem createDirAll_dirs (hproper : ∀ a ∈ p ++ [c], Proper a) (hdirs : Dirs nodes (p ++ [c])) :
    createDirAll nodes n (p ++ [c]) = (nodes, .ok ()) := by
  have hproper' : ∀ a ∈ p, Proper a := fun a ha => hproper a (List.mem_append_left _ ha)
  have hdirs' : Dirs nodes p := fun q hq => hdirs q (hq.trans (List.prefix_append p [c]))
  rw [createDirAll, List.reverse_append, List.reverse_singleton, List.singleton_append,
    createDirAllRev]
  simp only [List.reverse_reverse, mkdir_of_some hproper' hdirs' (hdirs _ List.prefix_rfl),
    isDir_dirs hproper hdirs, if_true]

/-! ### Writes -/

/-- A file may be written there. -/
def Writable (nodes : Nodes) (loc : Path) : Prop :=
  nodes loc = none ∨ ∃ bytes, nodes loc = some (.file bytes)

theorem write_of_writable {path loc : Path} (hloc : locate nodes n path = .ok loc)
    (h : Writable nodes loc) : write nodes n path b =
      .ok (Function.update nodes loc (some (.file b))) := by
  rw [write, hloc]
  show (match nodes loc with | some .dir => _ | some (.link _) => _ | _ => _) = _
  rcases h with hnone | ⟨old, hold⟩
  · rw [hnone]
  · rw [hold]

theorem write_of_not_writable {path loc : Path} (hloc : locate nodes n path = .ok loc)
    (h : ¬ Writable nodes loc) : ∃ e, write nodes n path b = .error e := by
  have hwrite : write nodes n path b = (match nodes loc with
      | some .dir => .error .isDirectory
      | some (.link _) => .error .loop
      | _ => .ok (Function.update nodes loc (some (.file b)))) := by
    rw [write, hloc]
    rfl
  rw [hwrite]
  cases hnode : nodes loc with
  | none => exact absurd (.inl hnode) h
  | some node =>
    cases node with
    | file bytes => exact absurd (.inr ⟨bytes, hnode⟩) h
    | dir => exact ⟨_, rfl⟩
    | link target => exact ⟨_, rfl⟩

theorem Writable.ne_dir {loc : Path} (h : Writable nodes loc) : nodes loc ≠ some .dir := by
  rcases h with hnone | ⟨bytes, hbytes⟩
  · rw [hnone]
    simp
  · rw [hbytes]
    simp

/-! ### Calls in a directory -/

section

variable (hproper : ∀ a ∈ p, Proper a) (hdirs : Dirs nodes p)

include hproper hdirs

theorem lstat_dirs : lstat nodes n p c = (nodes (p ++ [c])).elim (.error .notFound) .ok := by
  rw [lstat, findDir_dirs hproper hdirs]
  show (match nodes (p ++ [c]) with | some node => _ | none => _) = _
  cases nodes (p ++ [c]) <;> rfl

theorem locate_in_dirs (hc : Proper c) (hlink : ∀ target, nodes (p ++ [c]) ≠ some (.link target)) :
    locate nodes n (p ++ [c]) = .ok (p ++ [c]) := by
  rw [locate_dirs_append hproper hdirs, walk_single hc hlink]

theorem find_in_dirs (hc : Proper c) (hlink : ∀ target, nodes (p ++ [c]) ≠ some (.link target)) :
    find nodes n (p ++ [c]) = (nodes (p ++ [c])).elim (.error .notFound) .ok := by
  rw [find, locate_in_dirs hproper hdirs hc hlink]
  show (match nodes (p ++ [c]) with | some node => _ | none => _) = _
  cases nodes (p ++ [c]) <;> rfl

/-- A name is written where it stands. -/
theorem write_in_dirs (hc : Proper c) (h : Writable nodes (p ++ [c])) :
    write nodes n (p ++ [c]) b =
      .ok (Function.update nodes (p ++ [c]) (some (.file b))) := by
  refine write_of_writable (locate_in_dirs hproper hdirs hc fun target hlink => ?_) h
  rcases h with hnone | ⟨old, hold⟩
  · rw [hnone] at hlink
    cases hlink
  · rw [hold] at hlink
    cases hlink

theorem removeFile_link {target : Target} (hlink : nodes (p ++ [c]) = some (.link target)) :
    removeFile nodes n p c = .ok (Function.update nodes (p ++ [c]) none) := by
  rw [removeFile, findDir_dirs hproper hdirs]
  show (match nodes (p ++ [c]) with | none => _ | some .dir => _ | _ => _) = _
  rw [hlink]

end

end FileTree
