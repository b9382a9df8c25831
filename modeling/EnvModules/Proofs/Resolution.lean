import EnvModules.Proofs.Paths
import EnvModules.Registry
import Mathlib.Data.List.Basic

/-!
What a name resolves to. The full name of a module leads back to it, unless the name that it was found by had
a version and led to a directory. It is never empty: the path of the empty name is the root with a slash after
it, which leads to nothing but a directory.
-/

namespace EnvModules

namespace FileTree

variable {t : FileTree}

theorem list_eq_ok_iff {p : Path} {listed : List (String × Node)} :
    t.list p = .ok listed ↔ ∃ entries, t.node p = .ok (.directory entries) ∧ Node.distinct entries = listed := by
  rw [list]
  rcases t.node p with _ | _ | _ | _ <;> simp

theorem isDirectory_of_list {p : Path} {listed : List (String × Node)} (h : t.list p = .ok listed) :
    t.isDirectory p = true := by
  obtain ⟨entries, hn, -⟩ := list_eq_ok_iff.1 h
  exact isDirectory_iff.2 ⟨entries, hn⟩

/-- The default of a directory is one of its versions, or else the package that the directory stands for. -/
theorem findDefault_cases {directory : Path} {package : String} {found : Resolved}
    (h : t.findDefault directory package = .ok found) :
    (∃ version, found = ⟨⟨package, some version⟩, directory.join ⟨version⟩⟩) ∨
      t.isDirectory directory = true ∧ found = ⟨Name.parse package, directory⟩ := by
  rw [findDefault] at h
  split at h
  -- A pin decides if there is one, and else the first entry.
  · cases hv : t.readPin (directory.join ⟨pinName⟩) with
    | error fault =>
      rw [hv] at h
      exact nomatch h
    | ok version =>
      rw [hv] at h
      simp only [bind, Except.bind] at h
      split at h
      · exact .inl ⟨version, (Except.ok.inj h).symm⟩
      · exact nomatch h
  · split at h
    · exact nomatch h
    · next listed hlist =>
      split at h
      · next version _ => exact .inl ⟨version, (Except.ok.inj h).symm⟩
      · exact .inr ⟨isDirectory_of_list hlist, (Except.ok.inj h).symm⟩

theorem version_or_directory_of_findDefault {directory : Path} {package : String} {found : Resolved}
    (h : t.findDefault directory package = .ok found) :
    (∃ version, found = ⟨⟨package, some version⟩, directory.join ⟨version⟩⟩) ∨
      found.path = directory := by
  rcases findDefault_cases h with hv | ⟨-, rfl⟩
  · exact .inl hv
  · exact .inr rfl

theorem node_of_isDescriptor {p : Path} (h : t.isDescriptor p = true) :
    ∃ content, t.node p = .ok (.file content) := by
  rw [isDescriptor, readBytes] at h
  rcases hn : t.node p with fault | content | target | entries
  · simp [hn] at h
  · exact ⟨content, rfl⟩
  · simp [hn] at h
  · simp [hn] at h

theorem pathExists_of_isDescriptor {p : Path} (h : t.isDescriptor p = true) : t.pathExists p = true := by
  obtain ⟨content, hn⟩ := node_of_isDescriptor h
  exact pathExists_iff.2 ⟨_, hn⟩

theorem isDirectory_of_isDescriptor {p : Path} (h : t.isDescriptor p = true) :
    t.isDirectory p = false := by
  obtain ⟨content, hn⟩ := node_of_isDescriptor h
  rw [isDirectory, hn]

end FileTree

namespace Registry

variable {r : Registry} {t : FileTree} {name : Name} {found : Resolved}

theorem resolve_eq_ok_iff : r.resolve t name = .ok (some found) ↔
    ∃ candidate, (r.roots.map (·.join name.relativePath)).find? t.pathExists = some candidate ∧
      (if t.isDirectory candidate then t.findDefault candidate name.package
        else .ok ⟨name, candidate⟩) = .ok found ∧
      t.isDescriptor found.path = true := by
  rw [resolve]
  cases (r.roots.map (·.join name.relativePath)).find? t.pathExists with
  | none => simp
  | some candidate =>
    -- Either way the descriptor that has been come to is checked at the end.
    have checked {x : Except Fault Resolved} : (x >>= fun resolved =>
        if t.isDescriptor resolved.path then .ok (some resolved)
        else .error (.content resolved.path .notModule)) = .ok (some found) ↔
          x = .ok found ∧ t.isDescriptor found.path = true := by
      cases x with
      | error fault => simp [bind, Except.bind]
      | ok resolved =>
        by_cases hd : t.isDescriptor resolved.path
        · simp only [bind, Except.bind, hd, if_true, Except.ok.injEq, Option.some.injEq]
          exact ⟨fun he => ⟨he, he ▸ hd⟩, And.left⟩
        · simp only [bind, Except.bind, hd, if_false, reduceCtorEq, false_iff, not_and]
          intro he hf
          rw [Except.ok.inj he] at hd
          exact hd hf
    simp only [Option.some.injEq, exists_eq_left']
    split <;> exact checked

theorem package_of_resolve (h : r.resolve t name = .ok (some found)) :
    found.name.package = name.package := by
  obtain ⟨candidate, -, hf, hd⟩ := resolve_eq_ok_iff.1 h
  split at hf
  · next hdir =>
    rcases FileTree.version_or_directory_of_findDefault hf with ⟨version, rfl⟩ | hp
    · rfl
    · rw [hp] at hd
      exact absurd hdir (by simp [FileTree.isDirectory_of_isDescriptor hd])
  · obtain rfl := Except.ok.inj hf
    rfl

/-- A module that is found has a name that can be written down. -/
theorem text_ne_empty_of_resolve (h : r.resolve t name = .ok (some found)) : found.name.text ≠ "" := by
  obtain ⟨candidate, hc, hf, hd⟩ := resolve_eq_ok_iff.1 h
  have versioned (package version : String) : Name.text ⟨package, some version⟩ ≠ "" := by
    intro he
    have hc := congrArg String.toList he
    simp [Name.text] at hc
  split at hf
  · next hdir =>
    rcases FileTree.version_or_directory_of_findDefault hf with ⟨version, rfl⟩ | hp
    · exact versioned _ _
    · rw [hp] at hd
      exact absurd hdir (by simp [FileTree.isDirectory_of_isDescriptor hd])
  · next hdir =>
    obtain rfl := Except.ok.inj hf
    intro he
    have hname : name = ⟨"", none⟩ := by
      obtain ⟨package, _ | version⟩ := name
      · simpa [Name.text] using he
      · exact absurd he (versioned _ _)
    -- The module lies at the root itself, which is no directory and yet has a slash at its end.
    obtain ⟨root, -, rfl⟩ := List.mem_map.1 (List.mem_of_find?_eq_some hc)
    have hex : t.pathExists (root.join name.relativePath) = true := List.find?_some hc
    have hne := FileTree.text_ne_empty_of_pathExists hex
    have hrel : name.relativePath = ⟨""⟩ := by rw [hname, Name.relativePath]
    rw [hrel] at hne hex hdir
    have hroot : root.text ≠ "" := by
      intro hroot
      rw [Path.join_of_text_eq_empty hroot] at hne
      exact hne rfl
    refine hdir (FileTree.isDirectory_of_pathExists ?_ hex)
    rw [Path.join_eq hroot rfl, String.append_empty]
    exact root.getLast?_append_slash

/-- The root that is the first to have anything under a path is also the first to have anything below it. -/
theorem find?_join {roots : List Path} {p q candidate : Path}
    (hc : (roots.map (·.join p)).find? t.pathExists = some candidate)
    (he : t.pathExists (candidate.join q) = true) (hne : ∀ root ∈ roots, (root.join p).text ≠ "") :
    (roots.map (·.join (p.join q))).find? t.pathExists = some (candidate.join q) := by
  induction roots with
  | nil => exact nomatch hc
  | cons root rest ih =>
    obtain ⟨hroot, hrest⟩ := List.forall_mem_cons.1 hne
    rw [List.map_cons, List.find?_cons] at hc ⊢
    rw [← Path.join_assoc]
    cases hp : t.pathExists (root.join p) with
    | true =>
      rw [hp] at hc
      obtain rfl := Option.some.inj hc
      rw [he]
    | false =>
      rw [hp] at hc
      cases hq : t.pathExists ((root.join p).join q) with
      | false => exact ih hc hrest
      | true =>
        -- An absolute path is the same below every root.
        cases ha : q.isAbsolute with
        | true => simp only [Path.join_of_isAbsolute ha]
        | false => simp [FileTree.pathExists_of_join hroot ha hq] at hp

/-- The full name of a module leads back to the module, if the name that it was found by is its full name or
has no version. The empty package is found below a root that is not empty itself. -/
theorem resolve_resolve (r : Registry) (t : FileTree) (name : Name) (found : Resolved)
    (h : r.resolve t name = .ok (some found))
    (hn : found.name = name ∨ name.version = none ∧
      (name.package ≠ "" ∨ ∀ root ∈ r.roots, root.text ≠ "")) :
    r.resolve t found.name = .ok (some found) := by
  rcases hn with he | ⟨hv, hp⟩
  · rwa [he]
  obtain ⟨candidate, hc, hf, hd⟩ := resolve_eq_ok_iff.1 h
  split at hf
  · next hdir =>
    rcases FileTree.version_or_directory_of_findDefault hf with ⟨version, rfl⟩ | hpath
    · have hrel : name.relativePath = ⟨name.package⟩ := by rw [Name.relativePath, hv]
      rw [hrel] at hc
      -- The version leads on from the directory of the package, to what is no directory any more.
      refine resolve_eq_ok_iff.2 ⟨candidate.join ⟨version⟩, ?_, ?_, hd⟩
      · apply find?_join hc (FileTree.pathExists_of_isDescriptor hd)
        intro root hroot
        apply Path.text_join_ne_empty
        rcases hp with hpackage | hroots
        · exact .inr hpackage
        · exact .inl (hroots root hroot)
      · rw [FileTree.isDirectory_of_isDescriptor hd]
        rfl
    · rw [hpath] at hd
      exact absurd hdir (by simp [FileTree.isDirectory_of_isDescriptor hd])
  · obtain rfl := Except.ok.inj hf
    exact h

/-- A version with a directory in it, which the pin of a package in the second root binds. -/
theorem resolve_resolve_of_pin :
    let r : Registry := ⟨[⟨"/a"⟩, ⟨"/b"⟩]⟩
    let t : FileTree := ⟨.directory [("a", .directory [("icc", .file sentinel.toUTF8)]),
      ("b", .directory [("gcc", .directory [(".version", .file (sentinel ++ "\nversion 5/x").toUTF8),
        ("5", .directory [("x", .file sentinel.toUTF8)])])])], []⟩
    let found : Resolved := ⟨⟨"gcc", some "5/x"⟩, ⟨"/b/gcc/5/x"⟩⟩
    r.resolve t found.name = .ok (some found) := by
  intro r t found
  apply resolve_resolve r t ⟨"gcc", none⟩ found
  · decide +kernel
  · exact .inr ⟨rfl, .inl (by decide)⟩

/-- In a directory that a version leads to, the first entry takes the place of the version, and the path to
the directory is lost. -/
theorem resolve_ne_of_version_directory :
    let r : Registry := ⟨[⟨"/mods"⟩]⟩
    let t : FileTree := ⟨.directory [("mods", .directory [("gcc", .directory
      [("5", .directory [("x", .file sentinel.toUTF8)])])])], []⟩
    r.resolve t ⟨"gcc", some "5"⟩ = .ok (some ⟨⟨"gcc", some "x"⟩, ⟨"/mods/gcc/5/x"⟩⟩) ∧
      r.resolve t ⟨"gcc", some "x"⟩ = .ok none := by
  decide +kernel

end Registry

end EnvModules
