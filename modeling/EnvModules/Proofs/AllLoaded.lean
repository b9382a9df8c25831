import EnvModules.Proofs.Events
import EnvModules.Proofs.Unload
import Mathlib.Data.List.Forall2
import Mathlib.Data.List.Nodup

/-!
Operations on all that is loaded. They go through the record as it was at the start, but each step looks its
entry up in the record as it is by then, and rewrites it.
-/

namespace EnvModules

open Statement TransitionM

namespace Loaded

variable {l : Loaded} {n : Name}

/-- Looked up by its own name, the most recent entry is found even if it has no version, -/
theorem find?_of_cons {rest : List Name} (h : l.entries = n :: rest) : l.find? n = some n := by
  simp [find?, h]

/-- and so is an entry with a package of its own. -/
theorem find?_of_package (hn : n ∈ l.entries) (h : ∀ n' ∈ l.entries, n'.package = n.package → n' = n) :
    l.find? n = some n := by
  have hsome : (l.find? n).isSome = true := List.find?_isSome.2 ⟨n, hn, by simp⟩
  obtain ⟨n', hf⟩ := Option.isSome_iff_exists.1 hsome
  have hp : n'.package = n.package := by
    have hmatch := List.find?_some hf
    simp only [Bool.and_eq_true, beq_iff_eq] at hmatch
    exact hmatch.1
  rw [hf, h n' (List.mem_of_find?_eq_some hf) hp]

end Loaded

theorem Machine.Reaches.trans {start m m' : Machine} {names names' : List Name}
    {visits visits' : List Visit} (h : start.Reaches names visits m) (h' : m.Reaches names' visits' m') :
    start.Reaches names' (visits ++ visits') m' where
  live := h'.live
  registers := h'.registers
  visits := by rw [h'.visits, h.visits, List.append_assoc]

theorem erase_concat_of_nodup {names : List Name} {n : Name} (h : (names ++ [n]).Nodup) :
    (names ++ [n]).erase n = names := by
  have hn : n ∉ names := by
    rw [List.nodup_append_comm] at h
    exact (List.nodup_cons.1 h).1
  rw [List.erase_append_right _ hn, List.erase_cons_head, List.append_nil]

/-- The visits of entries that are reloaded from the oldest one on, each with what has come in its place. -/
def reloadVisits (entries current : List Name) : List Visit :=
  (entries.zip current).reverse.flatMap fun p => [⟨0, .unload, p.1⟩, ⟨0, .load, p.2⟩]

theorem reloadVisits_concat {entries current : List Name} (h : entries.length = current.length)
    (n c : Name) :
    reloadVisits (entries ++ [n]) (current ++ [c]) =
      [⟨0, .unload, n⟩, ⟨0, .load, c⟩] ++ reloadVisits entries current := by
  rw [reloadVisits, List.zip_append h, List.reverse_append, List.flatMap_append]
  rfl

namespace Site

/-- A recorded name that leads to a module of just this name, whose statements leave the record alone. -/
structure Upholds (s : Site) (entry : Name) : Prop where
  found : ∃ path, s.registry.resolve s.tree entry = .ok (some ⟨entry, path⟩)
  spares : ∀ found, s.registry.resolve s.tree entry = .ok (some found) →
    ∀ st ∈ blockLeaves (s.body found.path), loadedVariable ∉ s.config.targets found.name st

/-- A recorded name whose package alone is read as a package. The module that it leads to, if any, can be
recorded, brings in no others and leaves the record alone. -/
structure Renews (s : Site) (entry : Name) : Prop where
  bare : Name.parse entry.package = ⟨entry.package, none⟩
  canonical : ∀ found, s.registry.resolve s.tree ⟨entry.package, none⟩ = .ok (some found) →
    found.name.IsCanonical
  spares : ∀ found, s.registry.resolve s.tree ⟨entry.package, none⟩ = .ok (some found) →
    ∀ st ∈ blockLeaves (s.body found.path),
      loadedVariable ∉ s.config.targets found.name st ∧ st.bringsIn = false

/-- The full name that the package of an entry leads to now. -/
def IsDefault (s : Site) (entry current : Name) : Prop :=
  ∃ path, s.registry.resolve s.tree ⟨entry.package, none⟩ = .ok (some ⟨current, path⟩)

variable {s : Site} {m m' : Machine} {names : List Name} {entry : Name}

theorem Upholds.of_resolve {path : Path}
    (h : s.registry.resolve s.tree entry = .ok (some ⟨entry, path⟩))
    (hst : ∀ st ∈ blockLeaves (s.body path), loadedVariable ∉ s.config.targets entry st) :
    s.Upholds entry := by
  refine ⟨⟨path, h⟩, ?_⟩
  intro found hf
  obtain rfl := Option.some.inj (Except.ok.inj (h.symm.trans hf))
  exact hst

theorem Renews.of_resolve {found : Resolved} (hb : Name.parse entry.package = ⟨entry.package, none⟩)
    (h : s.registry.resolve s.tree ⟨entry.package, none⟩ = .ok (some found))
    (hc : found.name.IsCanonical)
    (hst : ∀ st ∈ blockLeaves (s.body found.path),
      loadedVariable ∉ s.config.targets found.name st ∧ st.bringsIn = false) : s.Renews entry := by
  have same {other : Resolved}
      (ho : s.registry.resolve s.tree ⟨entry.package, none⟩ = .ok (some other)) : found = other :=
    Option.some.inj (Except.ok.inj (h.symm.trans ho))
  exact ⟨hb, fun _ ho => same ho ▸ hc, fun _ ho => same ho ▸ hst⟩

theorem IsDefault.unique {current current' : Name} (h : s.IsDefault entry current)
    (h' : s.IsDefault entry current') : current = current' := by
  obtain ⟨path, hr⟩ := h
  obtain ⟨path', hr'⟩ := h'
  exact congrArg Resolved.name (Option.some.inj (Except.ok.inj (hr.symm.trans hr')))

theorem IsDefault.eq_of_forall₂ {entries current : List Name}
    (h : List.Forall₂ s.IsDefault entries current) (hs : ∀ n ∈ entries, s.IsDefault n n) :
    current = entries := by
  induction h with
  | nil => rfl
  | cons hc _ ih =>
    obtain ⟨hn, hrest⟩ := List.forall_mem_cons.1 hs
    rw [hc.unique hn, ih hrest]

/-- An entry that is found under its own name is visited and goes, and the others stay as they are. -/
theorem reaches_run_unload (hd : m.backend.isDisplay = false) (hr : m.env.Records names)
    (hn : entry ∈ names) (hu : s.Upholds entry) (he : m.loaded.find? entry = some entry)
    (h : s.run .unload [entry.text] m = (.ok (), m')) :
    m.Reaches (names.erase entry) [⟨0, .unload, entry⟩] m' := by
  obtain ⟨path, hres⟩ := hu.found
  have hfind : m.loaded.find? (.parse entry.text) = some entry := by
    rwa [(hr.canonical entry hn).parse]
  have hv := s.visited_unload_of_find? hfind
  have hmem : m.loaded.contains entry = true := hr.contains_iff.2 hn
  simp only [hres, hmem, if_true] at hv
  rw [s.run_singleton_apply, s.runOne_apply, hv] at h
  exact reaches_visit_unload (hu.spares _ hres) hd hr hn h

/-- If a package is not loaded, then its default is visited and put in front of what is loaded. -/
theorem reaches_run_load (hd : m.backend.isDisplay = false) (hr : m.env.Records names)
    (hn : ∀ n ∈ names, n.package ≠ entry.package) (hs : s.Renews entry)
    (h : s.run .load [entry.package] m = (.ok (), m')) :
    ∃ current, s.IsDefault entry current ∧ current.package = entry.package ∧
      m.Reaches (current :: names) [⟨0, .load, current⟩] m' := by
  rw [s.run_singleton_apply, s.runOne_apply] at h
  rcases hf : s.find entry.package with fault | found
  · simp only [visited, hf, Except.map] at h
    exact absurd h error_ne_ok
  have hres := s.find_eq_ok_iff.1 hf
  rw [hs.bare] at hres
  have hpackage := Registry.package_of_resolve hres
  have hnew : found.name ∉ names := fun hm => hn _ hm hpackage
  have hc : m.loaded.contains found.name = false := by
    rw [← Bool.not_eq_true]
    exact fun hc => hnew (hr.contains_iff.1 hc)
  rw [s.visited_load_eq_ok_iff.2 ⟨hf, hc⟩] at h
  obtain ⟨last, ha, hl⟩ := agreesAt_visit h (fun st hst => .inr (hs.spares _ hres st hst).2)
    (fun st hst => (hs.spares _ hres st hst).1)
  obtain rfl : m' = last := by rw [hl, Machine.leaving_load]
  refine ⟨found.name, ⟨found.path, hres⟩, hpackage, ?_, ?_, ?_⟩
  · rw [ha.isDisplay]
    simpa using hd
  · have henter : (m.entering 0 .load found.name).env.Registers (found.name :: names) := by
      rw [Machine.env_entering_load _ _ hd]
      exact hr.registers_enter (hs.canonical _ hres) hnew
    exact henter.congr ha.value ha.pending
  · rw [ha.visits, Machine.visits_entering]

/-- The entries go one by one, and the one whose turn it is has become the most recent. -/
theorem reaches_unloadEach (hd : m.backend.isDisplay = false) (hr : m.env.Records names)
    (hnil : names = [] → m.env.Registers []) (hu : ∀ n ∈ names, s.Upholds n)
    (h : (names.forM fun n => s.run .unload [n.text]) m = (.ok (), m')) :
    m.Reaches [] (names.map fun n => ⟨0, .unload, n⟩) m' := by
  induction names generalizing m with
  | nil =>
    obtain rfl : m = m' := congrArg Prod.snd h
    exact ⟨hd, hnil rfl, (List.append_nil _).symm⟩
  | cons n rest ih =>
    obtain ⟨hn, hrest⟩ := List.forall_mem_cons.1 hu
    rw [forM_cons_apply] at h
    obtain ⟨_, m₁, h₁, h₂⟩ := proceed_eq_ok h
    have hfirst := reaches_run_unload hd hr List.mem_cons_self hn (Loaded.find?_of_cons hr.entries_eq) h₁
    rw [List.erase_cons_head] at hfirst
    have hnil' (he : rest = []) : m₁.env.Registers [] := he ▸ hfirst.registers
    exact hfirst.trans (ih hfirst.live hfirst.registers.toRecords hnil' hrest h₂)

/-- One entry goes, and the default of its package is put in front. -/
theorem reaches_reload (hd : m.backend.isDisplay = false) (hr : m.env.Records names)
    (hp : (names.map Name.package).Nodup) (hn : entry ∈ names) (hu : s.Upholds entry)
    (hs : s.Renews entry)
    (h : (do s.run .unload [entry.text]; s.run .load [entry.package]) m = (.ok (), m')) :
    ∃ current, s.IsDefault entry current ∧ current.package = entry.package ∧
      m.Reaches (current :: names.erase entry) [⟨0, .unload, entry⟩, ⟨0, .load, current⟩] m' := by
  have alone : ∀ n ∈ names, n.package = entry.package → n = entry :=
    fun n hm he => List.inj_on_of_nodup_map hp hm hn he
  have hfind : m.loaded.find? entry = some entry := by
    apply Loaded.find?_of_package
    · rwa [Machine.loaded, hr.entries_eq]
    · rwa [Machine.loaded, hr.entries_eq]
  rw [bind_apply] at h
  obtain ⟨_, m₁, h₁, h₂⟩ := proceed_eq_ok h
  have hout := reaches_run_unload hd hr hn hu hfind h₁
  have hrest : ∀ n ∈ names.erase entry, n.package ≠ entry.package := by
    intro n hm he
    obtain ⟨hne, hmem⟩ := hr.nodup.mem_erase_iff.1 hm
    exact hne (alone n hmem he)
  obtain ⟨current, hc, hpackage, hin⟩ :=
    reaches_run_load hout.live hout.registers.toRecords hrest hs h₂
  exact ⟨current, hc, hpackage, hout.trans hin⟩

/-- Entries that are reloaded from the back of the record have their defaults in front of it in the end, in the
same order. -/
theorem reaches_reloadEach (queue fresh : List Name) (hd : m.backend.isDisplay = false)
    (hr : m.env.Records (fresh ++ queue.reverse)) (hnil : queue = [] → m.env.Registers fresh)
    (hp : ((fresh ++ queue.reverse).map Name.package).Nodup)
    (hu : ∀ n ∈ queue, s.Upholds n) (hs : ∀ n ∈ queue, s.Renews n)
    (h : (queue.forM fun n => do s.run .unload [n.text]; s.run .load [n.package]) m = (.ok (), m')) :
    ∃ current, List.Forall₂ s.IsDefault queue.reverse current ∧
      m.Reaches (current ++ fresh) (reloadVisits queue.reverse current) m' := by
  -- The record is what has been reloaded so far, and behind it what is left of the queue, from its end.
  induction queue generalizing m fresh with
  | nil =>
    obtain rfl : m = m' := congrArg Prod.snd h
    exact ⟨[], .nil, hd, hnil rfl, (List.append_nil _).symm⟩
  | cons n rest ih =>
    obtain ⟨hun, hurest⟩ := List.forall_mem_cons.1 hu
    obtain ⟨hsn, hsrest⟩ := List.forall_mem_cons.1 hs
    rw [List.reverse_cons, ← List.append_assoc] at hr hp
    rw [forM_cons_apply] at h
    obtain ⟨_, m₁, h₁, h₂⟩ := proceed_eq_ok h
    obtain ⟨c, hc, hpackage, hfirst⟩ := reaches_reload hd hr hp (by simp) hun hsn h₁
    rw [erase_concat_of_nodup hr.nodup, ← List.cons_append] at hfirst
    have hp' : ((c :: fresh ++ rest.reverse).map Name.package).Nodup := by
      rw [List.map_append, List.nodup_append_comm] at hp
      rw [List.cons_append, List.map_cons, hpackage]
      exact hp
    have hnil' (he : rest = []) : m₁.env.Registers (c :: fresh) := by
      simpa [he] using hfirst.registers
    obtain ⟨current, hall, hreach⟩ :=
      ih (c :: fresh) hfirst.live hfirst.registers.toRecords hnil' hp' hurest hsrest h₂
    refine ⟨current ++ [c], ?_, ?_⟩
    · rw [List.reverse_cons]
      exact List.rel_append hall (.cons hc .nil)
    · rw [List.reverse_cons, reloadVisits_concat hall.length_eq, List.append_assoc]
      exact hfirst.trans hreach

end Site

namespace Session

variable {s : Session} {tree : FileTree} {op : Operation} {b : Backend} {t : Streams}

theorem entries_of_reaches {m : Machine} {names : List Name} {visits : List Visit}
    (hsession : (s.perform tree op b t).session = { s with env := m.env.applyUnsets })
    (hvisits : (s.perform tree op b t).visits = m.visits) (h : (s.machine b t).Reaches names visits m) :
    (s.perform tree op b t).session.loaded.entries = names ∧
      (s.perform tree op b t).visits = visits := by
  constructor
  · rw [loaded, hsession]
    exact h.registers.applyUnsets.entries_eq
  · rw [hvisits, h.visits]
    rfl

/-- If all is unloaded, then each entry of the record has been visited once, from the most recent one on, and
nothing else has. To visit a module is to run its descriptor, and no statements are run but those. It makes no
difference that a package may be recorded without a version beside its versions: each entry is the most recent one
when its turn comes. In the end nothing is loaded, and the record is undefined. -/
theorem perform_unloadAll_empties (s : Session) (tree : FileTree) (hs : s.env.Records s.loaded.entries)
    (hne : s.loaded.entries ≠ []) (hu : ∀ n ∈ s.loaded.entries, (s.site tree).Upholds n)
    {b : Backend} (hd : b.isDisplay = false) (t : Streams)
    (hok : (s.perform tree .unloadAll b t).outcome = .ok ()) :
    let done := s.perform tree .unloadAll b t
    done.visits = s.loaded.entries.map (fun n => ⟨0, .unload, n⟩) ∧
      Operation.unloadAll.Evaluates (s.site tree) (s.machine b t) done.visits ∧
      done.session.loaded.entries = [] ∧ done.session.env.get? loadedVariable = none := by
  intro done
  obtain ⟨m, hm, hsession, hvisits⟩ := perform_of_ok .unloadAll nofun hd hok
  have hrun : (s.loaded.entries.forM fun n => (s.site tree).run .unload [n.text]) (s.machine b t) =
      (.ok (), m) := hm
  have hreach := Site.reaches_unloadEach (m := s.machine b t) hd hs (fun he => absurd he hne) hu hrun
  obtain ⟨hentries, hv⟩ := entries_of_reaches hsession hvisits hreach
  refine ⟨hv, s.evaluates_perform tree .unloadAll nofun b t, hentries, ?_⟩
  rw [hsession]
  exact hreach.registers.lists.get?_applyUnsets

/-- A package is recorded without a version, and behind it with one. -/
theorem perform_unloadAll_empties_of_versions :
    let s : Session := ⟨.default, ⟨[⟨"/a"⟩, ⟨"/b"⟩]⟩,
      .ofVars (.ofList [(loadedVariable, "gcc:icc:gcc/5"), ("V", "5")])⟩
    let file (lines : List String) : Node := .file ("\n".intercalate (sentinel :: lines)).toUTF8
    let tree : FileTree := ⟨.directory [("a", .directory [("gcc", file ["load icc"])]),
      ("b", .directory [("icc", file ["if loaded gcc", "swap gcc icc", "end"]),
        ("gcc", .directory [("5", file ["setVar 5 V"])])])], []⟩
    let done := s.perform tree .unloadAll (.commands .posix .empty) .unlimited
    done.visits = s.loaded.entries.map (fun n => ⟨0, .unload, n⟩) ∧
      Operation.unloadAll.Evaluates (s.site tree) (s.machine (.commands .posix .empty) .unlimited) done.visits ∧
      done.session.loaded.entries = [] ∧ done.session.env.get? loadedVariable = none := by
  intro s file tree
  have upheld : ∀ n ∈ s.loaded.entries, ∃ path ∈ ["/a/gcc", "/b/icc", "/b/gcc/5"],
      (s.site tree).registry.resolve (s.site tree).tree n = .ok (some ⟨n, ⟨path⟩⟩) ∧
        ∀ st ∈ blockLeaves ((s.site tree).body ⟨path⟩),
          loadedVariable ∉ (s.site tree).config.targets n st := by
    decide +kernel
  refine perform_unloadAll_empties s tree ?_ ?_ ?_ rfl _ ?_
  · decide +kernel
  · decide
  · intro n hn
    obtain ⟨path, -, hres, hst⟩ := upheld n hn
    exact .of_resolve hres hst
  · decide +kernel

theorem perform_reloadAll_of_nil (hs : s.env.Records []) (hd : b.isDisplay = false)
    (hok : (s.perform tree .reloadAll b t).outcome = .ok ()) :
    (s.perform tree .reloadAll b t).session.loaded.entries = [] ∧
      (s.perform tree .reloadAll b t).visits = [] := by
  obtain ⟨m, hm, hsession, hvisits⟩ := perform_of_ok .reloadAll nofun hd hok
  have hrun : (s.loaded.entries.reverse.forM fun n => do
      (s.site tree).run .unload [n.text]
      (s.site tree).run .load [n.package]) (s.machine b t) = (.ok (), m) := hm
  rw [loaded, hs.entries_eq] at hrun
  obtain rfl : s.machine b t = m := congrArg Prod.snd hrun
  refine ⟨?_, hvisits⟩
  rw [loaded, hsession]
  exact (hs.applyUnsets.elim id id).entries_eq

/-- If all is reloaded, then each entry of the record is replaced in its place by the default of its package. If
all are the defaults already, then the record is the same. The visits alternate between the two, from the oldest
entry on. -/
theorem perform_reloadAll_replaces (s : Session) (tree : FileTree) (hs : s.env.Records s.loaded.entries)
    (hp : (s.loaded.entries.map Name.package).Nodup)
    (hu : ∀ n ∈ s.loaded.entries, (s.site tree).Upholds n)
    (hr : ∀ n ∈ s.loaded.entries, (s.site tree).Renews n)
    {b : Backend} (hd : b.isDisplay = false) (t : Streams)
    (hok : (s.perform tree .reloadAll b t).outcome = .ok ()) :
    let done := s.perform tree .reloadAll b t
    List.Forall₂ (s.site tree).IsDefault s.loaded.entries done.session.loaded.entries ∧
      ((∀ n ∈ s.loaded.entries, (s.site tree).IsDefault n n) →
        done.session.loaded.entries = s.loaded.entries) ∧
      done.visits = reloadVisits s.loaded.entries done.session.loaded.entries := by
  intro done
  have hreached : List.Forall₂ (s.site tree).IsDefault s.loaded.entries done.session.loaded.entries ∧
      done.visits = reloadVisits s.loaded.entries done.session.loaded.entries := by
    by_cases hnil : s.loaded.entries = []
    · rw [hnil] at hs ⊢
      obtain ⟨hentries, hv⟩ := perform_reloadAll_of_nil hs hd hok
      rw [show done.session.loaded.entries = [] from hentries]
      exact ⟨.nil, hv⟩
    · obtain ⟨m, hm, hsession, hvisits⟩ := perform_of_ok .reloadAll nofun hd hok
      have hrun : (s.loaded.entries.reverse.forM fun n => do
          (s.site tree).run .unload [n.text]
          (s.site tree).run .load [n.package]) (s.machine b t) = (.ok (), m) := hm
      obtain ⟨current, hall, hreach⟩ := Site.reaches_reloadEach (m := s.machine b t)
        s.loaded.entries.reverse [] hd (by rwa [List.reverse_reverse])
        (fun he => absurd (List.reverse_eq_nil_iff.1 he) hnil) (by rwa [List.reverse_reverse])
        (fun n hn => hu n (List.mem_reverse.1 hn)) (fun n hn => hr n (List.mem_reverse.1 hn)) hrun
      rw [List.reverse_reverse] at hall hreach
      obtain ⟨hentries, hv⟩ := entries_of_reaches hsession hvisits hreach
      rw [hentries, List.append_nil]
      exact ⟨hall, hv⟩
  exact ⟨hreached.1, Site.IsDefault.eq_of_forall₂ hreached.1, hreached.2⟩

/-- One of two packages is pinned to another version than the one that is loaded. -/
theorem perform_reloadAll_replaces_of_pin :
    let s : Session := .ofVars [("LOADEDENVMASTER", "icc:gcc/4"), ("V", "4")]
    let file (lines : List String) : Node := .file ("\n".intercalate (sentinel :: lines)).toUTF8
    let tree : FileTree := ⟨.directory [("mods", .directory [("icc", file ["prereq gcc"]),
      ("gcc", .directory [(".version", file ["version 5/b"]), ("4", file ["setVar 4 V"]),
        ("5", .directory [("b", file ["if defined V", "setVar 5 V", "end"])])])])], []⟩
    let done := s.perform tree .reloadAll (.commands .posix .empty) .unlimited
    List.Forall₂ (s.site tree).IsDefault s.loaded.entries done.session.loaded.entries ∧
      ((∀ n ∈ s.loaded.entries, (s.site tree).IsDefault n n) →
        done.session.loaded.entries = s.loaded.entries) ∧
      done.visits = reloadVisits s.loaded.entries done.session.loaded.entries := by
  intro s file tree
  have upheld : ∀ n ∈ s.loaded.entries, ∃ path ∈ ["/mods/icc", "/mods/gcc/4"],
      (s.site tree).registry.resolve (s.site tree).tree n = .ok (some ⟨n, ⟨path⟩⟩) ∧
        ∀ st ∈ blockLeaves ((s.site tree).body ⟨path⟩),
          loadedVariable ∉ (s.site tree).config.targets n st := by
    decide +kernel
  have renewed : ∀ n ∈ s.loaded.entries, Name.parse n.package = ⟨n.package, none⟩ ∧
      ∃ found ∈ ([⟨⟨"icc", none⟩, ⟨"/mods/icc"⟩⟩,
        ⟨⟨"gcc", some "5/b"⟩, ⟨"/mods/gcc/5/b"⟩⟩] : List Resolved),
      (s.site tree).registry.resolve (s.site tree).tree ⟨n.package, none⟩ = .ok (some found) ∧
        found.name.IsCanonical ∧ ∀ st ∈ blockLeaves ((s.site tree).body found.path),
          loadedVariable ∉ (s.site tree).config.targets found.name st ∧ st.bringsIn = false := by
    decide +kernel
  refine perform_reloadAll_replaces s tree ?_ ?_ ?_ ?_ rfl _ ?_
  · decide +kernel
  · decide
  · intro n hn
    obtain ⟨path, -, hres, hst⟩ := upheld n hn
    exact .of_resolve hres hst
  · intro n hn
    obtain ⟨hb, found, -, hres, hc, hst⟩ := renewed n hn
    exact .of_resolve hb hres hc hst
  · decide +kernel

end Session

end EnvModules
