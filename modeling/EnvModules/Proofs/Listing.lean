import EnvModules.Proofs.Resolution
import EnvModules.Proofs.Spelling
import Mathlib.Data.List.Infix
import Mathlib.Data.List.Nodup
import Mathlib.Data.List.Sort

/-!
What a listing of the available modules shows. Main statement: below every root that is a directory it shows
the modules that the root holds, each of them once and in order. A module that is shown is what its name
resolves to unless an earlier root has something under that name, and the mark stands after the version that
the package alone resolves to.
-/

namespace EnvModules

namespace Node

theorem distinct_sublist (entries : List (String × Node)) : (distinct entries).Sublist entries := by
  induction entries with
  | nil => exact List.Sublist.refl _
  | cons e rest ih => exact (List.filter_sublist.trans ih).cons_cons e

theorem mem_map_fst_distinct {entries : List (String × Node)} {name : String} :
    name ∈ (distinct entries).map Prod.fst ↔ name ∈ entries.map Prod.fst := by
  constructor
  · exact fun h => ((distinct_sublist entries).map Prod.fst).subset h
  · intro h
    induction entries with
    | nil => exact h
    | cons e rest ih =>
      rw [distinct, List.map_cons, List.mem_cons]
      rw [List.map_cons, List.mem_cons] at h
      by_cases he : name = e.1
      · exact .inl he
      · obtain ⟨e', he', rfl⟩ := List.mem_map.1 (ih (h.resolve_left he))
        exact .inr (List.mem_map_of_mem (List.mem_filter.2 ⟨he', by simpa using he⟩))

theorem nodup_map_fst_distinct (entries : List (String × Node)) :
    ((distinct entries).map Prod.fst).Nodup := by
  induction entries with
  | nil => exact List.nodup_nil
  | cons e rest ih =>
    rw [distinct, List.map_cons, List.nodup_cons]
    constructor
    · intro h
      obtain ⟨e', he', hn⟩ := List.mem_map.1 h
      have hne := (List.mem_filter.1 he').2
      simp [hn] at hne
    · exact ih.sublist (List.filter_sublist.map Prod.fst)

mutual

/-- The entries in a directory and in those below it, each with the directory that holds it. -/
def entriesUnder (dir : Place) : Node → List (Place × String × Node)
  | .directory entries => listUnder dir entries
  | .file _ | .link _ => []

def listUnder (dir : Place) : List (String × Node) → List (Place × String × Node)
  | [] => []
  | (name, child) :: rest =>
    (dir, name, child) :: (child.entriesUnder (dir ++ [name]) ++ listUnder dir rest)

end

theorem mem_listUnder {dir : Place} {entries : List (String × Node)} {e : String × Node}
    (h : e ∈ entries) : (dir, e) ∈ listUnder dir entries := by
  induction entries with
  | nil => exact absurd h List.not_mem_nil
  | cons first rest ih =>
    obtain ⟨name, child⟩ := first
    rw [listUnder]
    rcases List.mem_cons.1 h with rfl | hr
    · exact List.mem_cons_self
    · exact List.mem_cons_of_mem _ (List.mem_append_right _ (ih hr))

theorem entriesUnder_subset_of_lookup {dir : Place} {entries : List (String × Node)} {name : String}
    {child : Node} (h : entries.lookup name = some child) :
    child.entriesUnder (dir ++ [name]) ⊆ listUnder dir entries := by
  induction entries with
  | nil => exact nomatch h
  | cons first rest ih =>
    obtain ⟨other, node⟩ := first
    rw [listUnder]
    rw [List.lookup_cons] at h
    split at h
    · next he =>
      obtain rfl := eq_of_beq he
      obtain rfl := Option.some.inj h
      exact List.subset_cons_of_subset _ (List.subset_append_left _ _)
    · exact List.subset_cons_of_subset _ (List.subset_append_of_subset_right _ (ih h))

theorem mem_entriesUnder {n : Node} {dir place : Place} {entries : List (String × Node)} {e : String × Node}
    (hd : n.descend? place = some (.directory entries)) (he : e ∈ entries) :
    (dir ++ place, e) ∈ n.entriesUnder dir := by
  induction place generalizing n dir with
  | nil =>
    obtain rfl := Option.some.inj hd
    rw [List.append_nil, entriesUnder]
    exact mem_listUnder he
  | cons name names ih =>
    cases n with
    | file _ | link _ => exact nomatch hd
    | directory held =>
      rw [descend?] at hd
      obtain ⟨child, hl, hd⟩ := Option.bind_eq_some_iff.1 hd
      rw [entriesUnder, List.append_cons]
      exact entriesUnder_subset_of_lookup hl (ih hd)

def isLink : Node → Bool
  | .link _ => true
  | .file _ | .directory _ => false

end Node

/-- A tree whose entries can be reached under their names, and without a link that leads back to a directory
that the link lies in. -/
structure FileTree.IsOrderly (t : FileTree) : Prop where
  named : ∀ e ∈ t.root.entriesUnder [], IsFileName e.2.1
  acyclic : ∀ e ∈ t.root.entriesUnder [], e.2.2.isLink = true → ∀ above ∈ e.1.inits,
    t.walkLinks FileTree.linkLimit e.1 [e.2.1] ≠ .ok above

instance (t : FileTree) : Decidable t.IsOrderly :=
  decidable_of_iff
    ((∀ e ∈ t.root.entriesUnder [], IsFileName e.2.1) ∧
      ∀ e ∈ t.root.entriesUnder [], e.2.2.isLink = true → ∀ above ∈ e.1.inits,
        t.walkLinks FileTree.linkLimit e.1 [e.2.1] ≠ .ok above)
    ⟨fun h => ⟨h.1, h.2⟩, fun h => ⟨h.named, h.acyclic⟩⟩

namespace FileTree

variable {t : FileTree} {root : Path} {n : Name}

theorem exists_of_mem_list {p : Path} {listed : List (String × Node)} (hl : t.list p = .ok listed) {name : String}
    (hn : name ∈ listed.map Prod.fst) : ∃ e ∈ t.root.entriesUnder [], e.2.1 = name := by
  obtain ⟨entries, hnode, rfl⟩ := list_eq_ok_iff.1 hl
  obtain ⟨place, -, hd⟩ := node_eq_ok_iff.1 hnode
  obtain ⟨e, he, rfl⟩ := List.mem_map.1 (Node.mem_map_fst_distinct.1 hn)
  exact ⟨_, Node.mem_entriesUnder hd he, rfl⟩

theorem isFileName_of_mem_list (ht : t.IsOrderly) {p : Path} {listed : List (String × Node)}
    (hl : t.list p = .ok listed) {name : String} (hn : name ∈ listed.map Prod.fst) : IsFileName name := by
  obtain ⟨e, he, rfl⟩ := exists_of_mem_list hl hn
  exact ht.named e he

/-- What is found under a file name is an entry of the directory, or what an entry leads to. -/
theorem exists_of_locate_fileName {p : Path} {name : String} {place : Place} (hp : p.text ≠ "")
    (hn : IsFileName name) (h : t.locate (p.join ⟨name⟩) = .ok place) :
    ∃ dir entries child, t.locate p = .ok dir ∧ t.root.descend? dir = some (.directory entries) ∧
      entries.lookup name = some child ∧
      (child.isLink = true ∧ t.walkLinks linkLimit dir [name] = .ok place ∨ place = dir ++ [name]) := by
  have hc := Path.components_join_of_isFileName hp hn
  obtain ⟨dir, entries, hdir, hd, left, hle, hw⟩ :=
    exists_of_locate_join hp (Path.isAbsolute_of_isFileName hn) (by simp) hc h
  obtain ⟨entries', child, hd', hl, hchild⟩ := walkLinks_singleton hn hw
  obtain rfl : entries = entries' := by simpa [hd] using hd'
  refine ⟨dir, entries, child, hdir, hd, hl, ?_⟩
  rcases hchild with ⟨target, rfl⟩ | hplace
  · exact .inl ⟨rfl, walkLinks_mono hle hw⟩
  · exact .inr hplace

theorem mem_list_of_pathExists {p : Path} {name : String} (hp : p.text ≠ "") (hn : IsFileName name)
    (h : t.pathExists (p.join ⟨name⟩) = true) :
    ∃ listed, t.list p = .ok listed ∧ name ∈ listed.map Prod.fst := by
  obtain ⟨node, hnode⟩ := pathExists_iff.1 h
  obtain ⟨place, hloc, -⟩ := node_eq_ok_iff.1 hnode
  obtain ⟨dir, entries, child, hdir, hd, hl, -⟩ := exists_of_locate_fileName hp hn hloc
  refine ⟨_, list_eq_ok_iff.2 ⟨entries, node_eq_ok_iff.2 ⟨dir, hdir, hd⟩, rfl⟩, ?_⟩
  obtain ⟨l₁, l₂, rfl, -⟩ := List.lookup_eq_some_iff.1 hl
  exact Node.mem_map_fst_distinct.2 (by simp)

/-- No entry leads back to the directory that it lies in. -/
theorem locate_entry_ne (ht : t.IsOrderly) {p : Path} {name : String} (hp : p.text ≠ "")
    (hn : IsFileName name) (h : t.pathExists (p.join ⟨name⟩) = true) :
    (t.locate (p.join ⟨name⟩)).toOption ≠ (t.locate p).toOption := by
  obtain ⟨node, hnode⟩ := pathExists_iff.1 h
  obtain ⟨place, hloc, -⟩ := node_eq_ok_iff.1 hnode
  obtain ⟨dir, entries, child, hdir, hd, hl, hplace⟩ := exists_of_locate_fileName hp hn hloc
  rw [hloc, hdir]
  intro he
  obtain rfl : place = dir := Option.some.inj he
  -- Only a link could lead back, and what is no link lies one level deeper.
  rcases hplace with ⟨hlink, hw⟩ | hne
  · obtain ⟨l₁, l₂, rfl, -⟩ := List.lookup_eq_some_iff.1 hl
    have hmem : ([] ++ place, name, child) ∈ t.root.entriesUnder [] := Node.mem_entriesUnder hd (by simp)
    exact ht.acyclic _ hmem hlink place ((List.mem_inits _ _).2 (List.prefix_refl _)) hw
  · simpa using congrArg List.length hne

/-- A module below a root is a descriptor that is an entry of the root, or of a directory that is one. -/
structure Holds (t : FileTree) (root : Path) (n : Name) : Prop where
  directory : t.isDirectory root = true
  package : IsFileName n.package
  version : ∀ version ∈ n.version, IsFileName version ∧ t.isDirectory (root.join ⟨n.package⟩) = true
  ne_pin : n.version.getD n.package ≠ pinName
  descriptor : t.isDescriptor (root.join n.relativePath) = true

instance (t : FileTree) (root : Path) (n : Name) : Decidable (t.Holds root n) :=
  decidable_of_iff
    (t.isDirectory root = true ∧ IsFileName n.package ∧
      (∀ version ∈ n.version, IsFileName version ∧ t.isDirectory (root.join ⟨n.package⟩) = true) ∧
      n.version.getD n.package ≠ pinName ∧ t.isDescriptor (root.join n.relativePath) = true)
    ⟨fun h => ⟨h.1, h.2.1, h.2.2.1, h.2.2.2.1, h.2.2.2.2⟩,
      fun h => ⟨h.directory, h.package, h.version, h.ne_pin, h.descriptor⟩⟩

/-- Whether a module is what the directory of its package has as a default. -/
def IsDefault (t : FileTree) (root : Path) (n : Name) : Prop :=
  ∃ found, t.findDefault (root.join ⟨n.package⟩) n.package = .ok found ∧ found.name = n

theorem isDefault_iff :
    t.IsDefault root n ↔
      (t.findDefault (root.join ⟨n.package⟩) n.package).toOption.map Resolved.name = some n := by
  rw [IsDefault]
  cases t.findDefault (root.join ⟨n.package⟩) n.package <;> simp [Except.toOption]

instance (t : FileTree) (root : Path) (n : Name) : Decidable (t.IsDefault root n) :=
  decidable_of_iff _ isDefault_iff.symm

/-- How a module is shown. -/
def label (t : FileTree) (root : Path) (n : Name) : String :=
  if t.IsDefault root n then n.text ++ "(default)" else n.text

/-- A listing of a root shows each module that the root holds once, and puts them in order. -/
def IsListing (t : FileTree) (l : Listing) : Prop :=
  ∃ names : List Name, names.Nodup ∧ (∀ n, n ∈ names ↔ t.Holds l.root n) ∧
    l.modules.Perm (names.map (t.label l.root)) ∧ l.modules.Pairwise (· ≤ ·)

/-- The names of the modules in the directory of a package. -/
def versions (t : FileTree) (directory : Path) (package : String) : List Name :=
  match t.list directory with
  | .error _ => []
  | .ok entries =>
    ((entries.map Prod.fst).filter fun version => Registry.lists t (directory.join ⟨version⟩) version).map
      fun version => ⟨package, some version⟩

/-- The names of the modules below a root. -/
def modules (t : FileTree) (root : Path) : List Name :=
  match t.list root with
  | .error _ => []
  | .ok entries => (entries.map Prod.fst).flatMap fun package =>
    if t.isDirectory (root.join ⟨package⟩) then t.versions (root.join ⟨package⟩) package
    else if Registry.lists t (root.join ⟨package⟩) package then [⟨package, none⟩]
    else []

theorem relativePath_some {root : Path} {package version : String} :
    root.join (Name.relativePath ⟨package, some version⟩) = (root.join ⟨package⟩).join ⟨version⟩ :=
  (Path.join_assoc _ _ _).symm

theorem lists_iff {p : Path} {name : String} :
    Registry.lists t p name = true ↔ name ≠ pinName ∧ t.isDescriptor p = true := by
  rw [Registry.lists, Bool.and_eq_true, bne_iff_ne]

theorem mem_versions {directory : Path} {package : String} :
    n ∈ t.versions directory package ↔ ∃ listed version, t.list directory = .ok listed ∧
      version ∈ listed.map Prod.fst ∧ version ≠ pinName ∧
      t.isDescriptor (directory.join ⟨version⟩) = true ∧ n = ⟨package, some version⟩ := by
  rw [versions]
  split
  · next fault hl => simp [hl]
  · next listed hl =>
    simp only [hl, List.mem_map, List.mem_filter, lists_iff, Except.ok.injEq]
    grind

theorem mem_modules :
    n ∈ t.modules root ↔ ∃ listed package, t.list root = .ok listed ∧ package ∈ listed.map Prod.fst ∧
      (t.isDirectory (root.join ⟨package⟩) = true ∧ n ∈ t.versions (root.join ⟨package⟩) package ∨
        package ≠ pinName ∧ t.isDescriptor (root.join ⟨package⟩) = true ∧ n = ⟨package, none⟩) := by
  rw [modules]
  split
  · next fault hl => simp [hl]
  · next listed hl =>
    rw [List.mem_flatMap]
    constructor
    · rintro ⟨package, hp, hn⟩
      refine ⟨listed, package, hl, hp, ?_⟩
      split at hn
      · next hd => exact .inl ⟨hd, hn⟩
      · split at hn
        · next hlists =>
          obtain ⟨hne, hdesc⟩ := lists_iff.1 hlists
          exact .inr ⟨hne, hdesc, List.mem_singleton.1 hn⟩
        · exact absurd hn List.not_mem_nil
    · rintro ⟨listed', package, hl', hp, h⟩
      obtain rfl := Except.ok.inj (hl.symm.trans hl')
      refine ⟨package, hp, ?_⟩
      rcases h with ⟨hd, hn⟩ | ⟨hne, hdesc, rfl⟩
      · rwa [if_pos hd]
      · rw [if_neg (by simp [isDirectory_of_isDescriptor hdesc]), if_pos (lists_iff.2 ⟨hne, hdesc⟩)]
        exact List.mem_singleton_self _

/-- The two levels that a listing goes through hold what a root holds. -/
theorem mem_modules_iff_holds (ht : t.IsOrderly) : n ∈ t.modules root ↔ t.Holds root n := by
  rw [mem_modules]
  constructor
  · rintro ⟨listed, package, hl, hp, ⟨hd, hn⟩ | ⟨hne, hdesc, rfl⟩⟩
    · obtain ⟨held, version, hl', hv, hne, hdesc, rfl⟩ := mem_versions.1 hn
      exact {
        directory := isDirectory_of_list hl
        package := isFileName_of_mem_list ht hl hp
        version := fun _ h => Option.some.inj h ▸ ⟨isFileName_of_mem_list ht hl' hv, hd⟩
        ne_pin := hne
        descriptor := by rwa [relativePath_some] }
    · exact {
        directory := isDirectory_of_list hl
        package := isFileName_of_mem_list ht hl hp
        version := fun _ h => nomatch h
        ne_pin := hne
        descriptor := hdesc }
  · obtain ⟨package, version⟩ := n
    intro h
    have hroot := text_ne_empty_of_isDirectory h.directory
    cases version with
    | none =>
      obtain ⟨listed, hl, hp⟩ :=
        mem_list_of_pathExists hroot h.package (pathExists_of_isDescriptor h.descriptor)
      exact ⟨listed, package, hl, hp, .inr ⟨h.ne_pin, h.descriptor, rfl⟩⟩
    | some version =>
      obtain ⟨hv, hd⟩ := h.version version rfl
      have hdesc := h.descriptor
      rw [relativePath_some] at hdesc
      obtain ⟨listed, hl, hp⟩ := mem_list_of_pathExists hroot h.package (pathExists_of_isDirectory hd)
      obtain ⟨held, hl', hv'⟩ :=
        mem_list_of_pathExists (text_ne_empty_of_isDirectory hd) hv (pathExists_of_isDescriptor hdesc)
      have hn : ⟨package, some version⟩ ∈ t.versions (root.join ⟨package⟩) package :=
        mem_versions.2 ⟨held, version, hl', hv', h.ne_pin, hdesc, rfl⟩
      exact ⟨listed, package, hl, hp, .inl ⟨hd, hn⟩⟩

theorem nodup_versions {directory : Path} {package : String} : (t.versions directory package).Nodup := by
  rw [versions]
  split
  · exact List.nodup_nil
  · next listed hl =>
    obtain ⟨entries, -, rfl⟩ := list_eq_ok_iff.1 hl
    have hnodup := (Node.nodup_map_fst_distinct entries).filter fun version =>
      Registry.lists t (directory.join ⟨version⟩) version
    exact hnodup.map fun v v' h => Option.some.inj (congrArg Name.version h)

theorem nodup_modules : (t.modules root).Nodup := by
  rw [modules]
  split
  · exact List.nodup_nil
  · next listed hl =>
    obtain ⟨entries, -, rfl⟩ := list_eq_ok_iff.1 hl
    -- What comes from one entry has the entry as its package.
    have hpackage (package : String) (n : Name)
        (hn : n ∈ if t.isDirectory (root.join ⟨package⟩) then t.versions (root.join ⟨package⟩) package
          else if Registry.lists t (root.join ⟨package⟩) package then [⟨package, none⟩] else []) :
        n.package = package := by
      split at hn
      · obtain ⟨_, version, -, -, -, -, rfl⟩ := mem_versions.1 hn
        rfl
      · split at hn
        · rw [List.mem_singleton.1 hn]
        · exact absurd hn List.not_mem_nil
    refine List.nodup_flatMap.2 ⟨?_, ?_⟩
    · intro package _
      split
      · exact nodup_versions
      · split
        · exact List.nodup_singleton _
        · exact List.nodup_nil
    · refine (Node.nodup_map_fst_distinct entries).imp fun {p p'} hne n hn hn' => hne ?_
      rw [← hpackage p n hn, hpackage p' n hn']

/-- A module that is a file has no version to be the default. -/
theorem not_isDefault_of_none {package : String} (h : t.isDescriptor (root.join ⟨package⟩) = true) :
    ¬ t.IsDefault root ⟨package, none⟩ := by
  rintro ⟨found, hf, hn⟩
  rcases findDefault_cases hf with ⟨version, rfl⟩ | ⟨hd, -⟩
  · exact nomatch hn
  · rw [isDirectory_of_isDescriptor h] at hd
    exact nomatch hd

/-- The default of a package is a path below its directory, if it is a version at all. -/
theorem eq_of_isDefault {package version : String} (hp : IsFileName package)
    (h : t.IsDefault root ⟨package, some version⟩) :
    t.findDefault (root.join ⟨package⟩) package =
      .ok ⟨⟨package, some version⟩, (root.join ⟨package⟩).join ⟨version⟩⟩ := by
  obtain ⟨found, hf, hn⟩ := h
  rcases findDefault_cases hf with ⟨version', rfl⟩ | ⟨-, rfl⟩
  · obtain rfl : version' = version := Option.some.inj (congrArg Name.version hn)
    exact hf
  · have hv := congrArg Name.version hn
    rw [Name.version_parse_eq_none hp.free] at hv
    exact nomatch hv

end FileTree

namespace Registry

variable {r : Registry} {t : FileTree} {root : Path} {n : Name}

theorem listPackage_eq (t : FileTree) (root : Path) (package : String) :
    listPackage t (root.join ⟨package⟩) package =
      (t.versions (root.join ⟨package⟩) package).map (t.label root) := by
  rw [listPackage, FileTree.versions]
  cases t.list (root.join ⟨package⟩) with
  | error fault => rfl
  | ok entries =>
    simp only [List.map_map]
    refine List.map_congr_left fun version _ => ?_
    simp only [Function.comp_apply, FileTree.label, FileTree.isDefault_iff]

/-- A listing shows the modules that a root holds, in order. -/
theorem listRoot_eq (ht : t.IsOrderly) (root : Path) :
    listRoot t root = ((t.modules root).map (t.label root)).mergeSort fun a b => decide (a ≤ b) := by
  rw [listRoot, FileTree.modules]
  cases hl : t.list root with
  | error fault => exact List.mergeSort_nil.symm
  | ok entries =>
    have hroot := FileTree.text_ne_empty_of_isDirectory (FileTree.isDirectory_of_list hl)
    simp only [List.map_flatMap]
    congr 1
    refine List.flatMap_congr fun package hp => ?_
    split
    · next hd =>
      have hne := FileTree.locate_entry_ne ht hroot (FileTree.isFileName_of_mem_list ht hl hp)
        (FileTree.pathExists_of_isDirectory hd)
      rw [if_neg hne, listPackage_eq]
    · split
      · next hlists =>
        have hdesc := (FileTree.lists_iff.1 hlists).2
        rw [List.map_singleton, FileTree.label, if_neg (FileTree.not_isDefault_of_none hdesc)]
        rfl
      · rfl

theorem isListing_listRoot (ht : t.IsOrderly) (root : Path) : t.IsListing ⟨root, listRoot t root⟩ := by
  refine ⟨t.modules root, FileTree.nodup_modules, fun n => FileTree.mem_modules_iff_holds ht, ?_, ?_⟩
  · rw [listRoot_eq ht]
    exact List.mergeSort_perm _ _
  · rw [listRoot_eq ht]
    have hs : (((t.modules root).map (t.label root)).mergeSort fun a b => decide (a ≤ b)).Pairwise
        fun a b => decide (a ≤ b) = true :=
      List.pairwise_mergeSort (by simpa using fun a b c => String.le_trans) (by simpa using String.le_total) _
    simpa using hs

theorem isEmpty_listRoot_iff (ht : t.IsOrderly) (root : Path) :
    (listRoot t root).isEmpty = true ↔ ∀ n, ¬ t.Holds root n := by
  rw [listRoot_eq ht, List.isEmpty_iff, ← List.length_eq_zero_iff, List.length_mergeSort, List.length_map,
    List.length_eq_zero_iff, List.eq_nil_iff_forall_not_mem]
  simp only [FileTree.mem_modules_iff_holds ht]

theorem available_eq (ht : t.IsOrderly) (r : Registry) :
    (∃ root ∈ r.roots, ∃ n, t.Holds root n) ∧
        r.available t = .ok ((r.roots.filter t.isDirectory).map fun root => ⟨root, listRoot t root⟩) ∨
      (∀ root ∈ r.roots, ∀ n, ¬ t.Holds root n) ∧ r.available t = .error .noneAvailable := by
  -- Only a root that is a directory holds anything.
  have hall : ((r.roots.filter t.isDirectory).map fun root => (⟨root, listRoot t root⟩ : Listing)).all
      (·.modules.isEmpty) = true ↔ ∀ root ∈ r.roots, ∀ n, ¬ t.Holds root n := by
    simp only [List.all_eq_true, List.forall_mem_map, List.mem_filter, isEmpty_listRoot_iff ht]
    exact ⟨fun h root hr n hn => h root ⟨hr, hn.directory⟩ n hn, fun h root hr => h root hr.1⟩
  rw [available]
  by_cases h : ∀ root ∈ r.roots, ∀ n, ¬ t.Holds root n
  · exact .inr ⟨h, if_pos (hall.2 h)⟩
  · refine .inl ⟨?_, if_neg fun he => h (hall.1 he)⟩
    push Not at h
    exact h

theorem find?_roots {earlier : List Path} (later : List Path) {p : Path}
    (he : ∀ above ∈ earlier, t.pathExists (above.join p) = false) (hp : t.pathExists (root.join p) = true) :
    ((earlier ++ root :: later).map (·.join p)).find? t.pathExists = some (root.join p) := by
  refine List.find?_eq_some_iff_append.2
    ⟨hp, earlier.map (·.join p), later.map (·.join p), by simp, List.forall_mem_map.2 ?_⟩
  intro above ha
  rw [he above ha]
  rfl

theorem resolve_of_holds {earlier later : List Path} (hr : r.roots = earlier ++ root :: later)
    (hn : t.Holds root n) (he : ∀ above ∈ earlier, t.pathExists (above.join n.relativePath) = false) :
    r.resolve t n = .ok (some ⟨n, root.join n.relativePath⟩) := by
  have hfind := find?_roots later he (FileTree.pathExists_of_isDescriptor hn.descriptor)
  rw [← hr] at hfind
  refine resolve_eq_ok_iff.2 ⟨_, hfind, ?_, hn.descriptor⟩
  rw [FileTree.isDirectory_of_isDescriptor hn.descriptor]
  rfl

theorem isDefault_iff_resolve {earlier later : List Path} (hr : r.roots = earlier ++ root :: later)
    (hn : t.Holds root n) (hv : n.version ≠ none)
    (he : ∀ above ∈ earlier, t.pathExists (above.join ⟨n.package⟩) = false) :
    t.IsDefault root n ↔ ∃ found, r.resolve t ⟨n.package, none⟩ = .ok (some found) ∧ found.name = n := by
  obtain ⟨package, version⟩ := n
  obtain ⟨version, rfl⟩ := Option.ne_none_iff_exists'.1 hv
  have hdir := (hn.version version rfl).2
  have hfind := find?_roots later he (FileTree.pathExists_of_isDirectory hdir)
  rw [← hr] at hfind
  -- The directory of the package in this root decides, and the version that it leads to is a descriptor.
  constructor
  · intro hd
    have hf := FileTree.eq_of_isDefault hn.package hd
    refine ⟨⟨⟨package, some version⟩, (root.join ⟨package⟩).join ⟨version⟩⟩,
      resolve_eq_ok_iff.2 ⟨_, hfind, ?_, ?_⟩, rfl⟩
    · rw [if_pos hdir]
      exact hf
    · rw [← FileTree.relativePath_some]
      exact hn.descriptor
  · rintro ⟨found, hf, hname⟩
    obtain ⟨candidate, hc, hf, -⟩ := resolve_eq_ok_iff.1 hf
    obtain rfl : root.join ⟨package⟩ = candidate := Option.some.inj (hfind.symm.trans hc)
    rw [if_pos hdir] at hf
    exact ⟨found, hf, hname⟩

/-- There are modules to show unless no root holds any, and then each root that is a directory shows those
that it holds. What is shown is what its name resolves to, if no earlier root has anything under the name, and
the default version is what its package alone resolves to, if no earlier root has the package. -/
theorem available_agrees (r : Registry) (t : FileTree) (ht : t.IsOrderly) :
    (r.available t = .error .noneAvailable ↔ ∀ root ∈ r.roots, ∀ n, ¬ t.Holds root n) ∧
    ((∃ root ∈ r.roots, ∃ n, t.Holds root n) → ∃ listings, r.available t = .ok listings ∧
      listings.map Listing.root = r.roots.filter t.isDirectory ∧ ∀ l ∈ listings, t.IsListing l) ∧
    ∀ earlier root later, r.roots = earlier ++ root :: later → ∀ n, t.Holds root n →
      ((∀ above ∈ earlier, t.pathExists (above.join n.relativePath) = false) →
        r.resolve t n = .ok (some ⟨n, root.join n.relativePath⟩)) ∧
      (n.version ≠ none → (∀ above ∈ earlier, t.pathExists (above.join ⟨n.package⟩) = false) →
        (t.IsDefault root n ↔ ∃ found, r.resolve t ⟨n.package, none⟩ = .ok (some found) ∧ found.name = n)) := by
  refine ⟨?_, ?_, fun earlier root later hr n hn => ⟨resolve_of_holds hr hn, isDefault_iff_resolve hr hn⟩⟩
  · rcases available_eq ht r with ⟨⟨root, hr, n, hn⟩, h⟩ | ⟨hnone, h⟩
    · simp only [h, reduceCtorEq, false_iff]
      exact fun hnone => hnone root hr n hn
    · exact ⟨fun _ => hnone, fun _ => h⟩
  · rintro ⟨root, hr, n, hn⟩
    rcases available_eq ht r with ⟨-, h⟩ | ⟨hnone, -⟩
    · refine ⟨_, h, ?_, List.forall_mem_map.2 fun root _ => isListing_listRoot ht root⟩
      rw [List.map_map]
      exact List.map_id _
    · exact absurd hn (hnone root hr n)

/-- A file that is no module and a link in the first root, and a package with a pin in the second. -/
theorem available_agrees_of_pin :
    let r : Registry := ⟨[⟨"/a"⟩, ⟨"/b"⟩]⟩
    let t : FileTree := ⟨.directory [
      ("a", .directory [("notes", .file "none".toUTF8), ("icc", .link ⟨"../b/gcc/4"⟩)]),
      ("b", .directory [("gcc", .directory [(".version", .file (sentinel ++ "\nversion 5").toUTF8),
        ("4", .file sentinel.toUTF8), ("5", .link ⟨"4"⟩)])])], []⟩
    t.IsOrderly ∧ t.Holds ⟨"/b"⟩ ⟨"gcc", some "5"⟩ ∧
      (∃ listings, r.available t = .ok listings ∧ listings.map Listing.root = r.roots ∧
        ∀ l ∈ listings, t.IsListing l) ∧
      r.resolve t ⟨"gcc", some "5"⟩ = .ok (some ⟨⟨"gcc", some "5"⟩, ⟨"/b/gcc/5"⟩⟩) ∧
      ∃ found, r.resolve t ⟨"gcc", none⟩ = .ok (some found) ∧ found.name = ⟨"gcc", some "5"⟩ := by
  intro r t
  have ht : t.IsOrderly := by decide +kernel
  have hn : t.Holds ⟨"/b"⟩ ⟨"gcc", some "5"⟩ := by decide +kernel
  obtain ⟨-, hlist, hresolve⟩ := available_agrees r t ht
  obtain ⟨listings, h, hroots, hl⟩ := hlist ⟨⟨"/b"⟩, by decide, _, hn⟩
  obtain ⟨hfull, hdefault⟩ := hresolve [⟨"/a"⟩] ⟨"/b"⟩ [] rfl _ hn
  refine ⟨ht, hn, ⟨listings, h, ?_, hl⟩, ?_, ?_⟩
  · rw [hroots]
    decide +kernel
  · exact hfull (by decide +kernel)
  · exact (hdefault (by decide) (by decide +kernel)).1 (by decide +kernel)

end Registry

end EnvModules
