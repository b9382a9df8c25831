import EnvModules.Proofs.Stable

/-!
The record of loaded modules over the life of a session. Whatever is loaded, unloaded, swapped or shown, and
whatever fails, it stays a list of different names.
-/

namespace EnvModules

open TransitionM

/-- A name that may be asked for, in full and by its package. -/
def Name.InUse (used : String → Prop) (n : Name) : Prop := used n.text ∧ used n.package

/-- An environment whose record is in order. -/
def Environment.InOrder (used : String → Prop) (env : Environment) : Prop :=
  ∃ names, env.Records names ∧ ∀ n ∈ names, n.InUse used

namespace Environment.InOrder

variable {used : String → Prop} {env env' : Environment} {n : Name}

theorem congr (h : env.InOrder used) (hg : env'.get? loadedVariable = env.get? loadedVariable) :
    env'.InOrder used := by
  obtain ⟨names, hr, hu⟩ := h
  exact ⟨names, hr.congr hg, hu⟩

theorem applyUnsets (h : env.InOrder used) : env.applyUnsets.InOrder used := by
  obtain ⟨names, hr, hu⟩ := h
  rcases hr.applyUnsets with hr | hr
  · exact ⟨names, hr, hu⟩
  · exact ⟨[], hr, by simp⟩

theorem enter (h : env.InOrder used) (hn : n.IsCanonical) (hu : n.InUse used)
    (hc : (Loaded.ofEnvironment env).contains n = false) :
    (env.changePath true n.text loadedVariable).1.InOrder used := by
  obtain ⟨names, hr, hnames⟩ := h
  have hm : n ∉ names := fun hm => by simp [hr.contains_iff.2 hm] at hc
  exact ⟨n :: names, hr.enter hn hm, List.forall_mem_cons.2 ⟨hu, hnames⟩⟩

theorem leave (h : env.InOrder used) (hn : n.IsCanonical) :
    (env.changePath false n.text loadedVariable).1.InOrder used := by
  obtain ⟨names, hr, hu⟩ := h
  exact ⟨names.erase n, hr.leave hn, fun n hn => hu n (List.mem_of_mem_erase hn)⟩

end Environment.InOrder

namespace Site

variable {s : Site} {used : String → Prop} (hr : s.Regular used)
include hr

theorem inOrder_visit_unload {depth : Nat} {nested : Mode → List String → TransitionM Unit}
    {found : Resolved} (hf : s.Offers used found) {m : Machine} (hm : m.env.InOrder used) :
    (s.visit depth nested .unload found m).2.env.InOrder used := by
  apply s.visit_keeps (P := fun m => m.env.InOrder used) hm
  · -- The statements leave the record alone, as the module itself is only taken out after them.
    have ha := Subject.agreesAt_runBlock ⟨s, found.name, .unload, nested⟩ (fun _ _ => .inl nofun)
      (hr.spares found hf) ⟨m.entering depth .unload found.name, .equal⟩
    have hg := ha.value
    rw [Machine.env_entering_unload] at hg
    exact hm.congr hg
  · intro m hm
    cases hd : m.backend.isDisplay with
    | true => rwa [Machine.env_leaving_of_isDisplay _ _ hd]
    | false =>
      rw [Machine.env_leaving_unload _ hd]
      exact hm.leave (hr.canonical found hf)

theorem inOrder_runWithin_unload (levels : Nat) (names : List String) :
    Maintains (fun m => m.env.InOrder used) (fun m => m.env.InOrder used)
      (s.runWithin levels .unload names) := by
  rw [s.runWithin_eq]
  apply Maintains.forM
  intro name _
  apply maintains_iff_snd.2
  intro m hm
  rw [s.runOne_apply]
  split
  · exact hm
  · exact hm
  · next found hv =>
    -- The entry that stands for the module is in use, and its text leads to the module as well.
    obtain ⟨entry, he, hres, -⟩ := s.visited_unload_eq_ok hv
    obtain ⟨entries, hrec, hu⟩ := hm
    have hentry : entry ∈ entries := by
      have hmem := List.mem_of_find?_eq_some he
      rwa [Machine.loaded, hrec.entries_eq] at hmem
    have hf : s.Offers used found :=
      ⟨entry.text, (hu entry hentry).1, by rwa [(hrec.canonical entry hentry).parse]⟩
    exact inOrder_visit_unload hr hf ⟨entries, hrec, hu⟩

variable (hu : ∀ found, s.Offers used found → found.name.InUse used)
include hu

theorem stable_inOrder : s.Stable used fun m => m.env.InOrder used where
  agrees ha hm := hm.congr ha.value
  enters {m found} depth hf hc hm := by
    cases hd : m.backend.isDisplay with
    | true => rwa [Machine.env_entering_of_isDisplay _ _ _ hd]
    | false =>
      rw [Machine.env_entering_load _ _ hd]
      exact hm.enter (hr.canonical found hf) (hu found hf) hc
  unloads _ levels names := inOrder_runWithin_unload hr levels names

/-- Any operation leaves the record in order, on the way and at the end, be it a success or not. -/
theorem inOrder_transition {op : Operation} (ho : ∀ n ∈ op.loads, used n) :
    Maintains (fun m => m.env.InOrder used) (fun m => m.env.InOrder used) (op.transition s) := by
  have flushed {P : Machine → Prop} (hP : ∀ m, P m → P (flush m).2) : Maintains P P flush :=
    maintains_iff_snd.2 hP
  have flush_env (m : Machine) (hm : m.env.InOrder used) : (flush m).2.env.InOrder used := by
    rcases env_flush m with he | he <;> rw [he]
    · exact hm
    · exact hm.applyUnsets
  by_cases hop : ∃ names, op = .display names
  · -- A display flushes as well, and that is all it does to the environment.
    obtain ⟨names, rfl⟩ := hop
    have hd := display_maintains (Machine.kept_env_of_isDisplay (Environment.InOrder used))
      (fun _ hm => ⟨by simpa using hm.1, hm.2⟩)
      (flushed fun m hm => ⟨(isDisplay_flush m).trans hm.1, flush_env m hm.2⟩) s names
    apply maintains_iff_snd.2
    intro m hm
    exact (maintains_iff_snd.1 hd { m with backend := .display ⟨none, []⟩ } ⟨rfl, hm⟩).2
  · rw [op.transition_eq s fun names he => hop ⟨names, he⟩]
    refine Maintains.bind ?_ fun _ => flushed flush_env
    refine Operation.staging_maintains (fun names => inOrder_runWithin_unload hr nestingLimit names)
      (fun names hn => (stable_inOrder hr hu).runWithin hr nestingLimit hn) ?_ ho
    rintro m ⟨names, hrec, hnames⟩ entry he
    rw [Machine.loaded, hrec.entries_eq] at he
    exact (hnames entry he).2

end Site

namespace Session

variable {s : Session} {tree : FileTree} {used : String → Prop}

theorem inOrder_attemptAll (hr : (s.site tree).Regular used)
    (hu : ∀ found, (s.site tree).Offers used found → found.name.InUse used) (hs : s.env.InOrder used)
    {attempts : List Attempt} (ho : ∀ a ∈ attempts, ∀ n ∈ a.operation.loads, used n) :
    (s.attemptAll tree attempts).env.InOrder used := by
  induction attempts generalizing s with
  | nil => exact hs
  | cons a rest ih =>
    obtain ⟨ha, hrest⟩ := List.forall_mem_cons.1 ho
    have hm := Site.inOrder_transition hr hu ha (s.machine a.backend a.streams) hs
    have hone : (s.perform tree a.operation a.backend a.streams).session.env.InOrder used := by
      rw [(s.perform_eq tree a.operation a.backend a.streams).2]
      rcases ht : a.operation.transition (s.site tree) (s.machine a.backend a.streams) with ⟨_ | _, m⟩
      -- After a failure the session is the one before.
      · exact hs
      · rwa [ht] at hm
    exact ih (s := (s.perform tree a.operation a.backend a.streams).session) hr hu hone hrest

/-- After any operations the record of loaded modules is undefined, or the text of its own entries, none of
which is there twice. -/
theorem attemptAll_records (s : Session) (tree : FileTree) (used : String → Prop)
    (hr : (s.site tree).Regular used)
    (hu : ∀ found, (s.site tree).Offers used found → found.name.InUse used)
    (hs : s.env.Records s.loaded.entries) (hn : ∀ n ∈ s.loaded.entries, n.InUse used)
    (attempts : List Attempt) (ho : ∀ a ∈ attempts, ∀ n ∈ a.operation.loads, used n) :
    let last := s.attemptAll tree attempts
    (last.env.get? loadedVariable = none ∨ last.env.get? loadedVariable = some last.loaded.value) ∧
      last.loaded.entries.Nodup := by
  intro last
  obtain ⟨names, hrec, -⟩ := inOrder_attemptAll hr hu ⟨s.loaded.entries, hs, hn⟩ ho
  have he : last.loaded.entries = names := hrec.entries_eq
  refine ⟨hrec.get?_eq, ?_⟩
  rw [he]
  exact hrec.nodup

/-- A module that is swapped in by a module that it loads itself. One operation fails, and one has a backend
that changes nothing. -/
theorem attemptAll_records_of_cycle :
    let s : Session := .ofVars [("LOADEDENVMASTER", "c")]
    let tree := FileTree.ofDescriptors [("a", ["load b", "setVar 1 A"]),
      ("b", ["if loaded c", "swap c a", "end", "setPath /b P"]), ("c", ["setVar 1 C"])]
    let attempts : List Attempt := [⟨.load ["a"], .silent, .unlimited⟩,
      ⟨.unload ["d"], .silent, .unlimited⟩, ⟨.reloadAll, .display ⟨none, []⟩, .unlimited⟩,
      ⟨.swap "b" "c", .commands .posix .empty, .unlimited⟩]
    let last := s.attemptAll tree attempts
    (last.env.get? loadedVariable = none ∨ last.env.get? loadedVariable = some last.loaded.value) ∧
      last.loaded.entries.Nodup := by
  intro s tree attempts
  let names := ["a", "b", "c"]
  let modules : List Resolved :=
    [⟨⟨"a", none⟩, ⟨"/mods/a"⟩⟩, ⟨⟨"b", none⟩, ⟨"/mods/b"⟩⟩, ⟨⟨"c", none⟩, ⟨"/mods/c"⟩⟩]
  have resolved : ∀ n ∈ names, (s.site tree).registry.resolve (s.site tree).tree (.parse n) ∈
      modules.map fun found => .ok (some found) := by
    decide +kernel
  have described : ∀ found ∈ modules, ∀ st ∈ Statement.blockLeaves ((s.site tree).body found.path),
      loadedVariable ∉ (s.site tree).config.targets found.name st ∧
        ∀ text ∈ st.incoming, '$' ∉ text.toList ∧ text ∈ names := by
    decide +kernel
  refine attemptAll_records s tree (· ∈ names) (.of_names resolved ?_ ?_ ?_) ?_ ?_ ?_ attempts ?_
  · decide
  · exact fun found hf st hst => (described found hf st hst).1
  · exact fun found hf st hst => (described found hf st hst).2
  · have used : ∀ found ∈ modules, found.name.text ∈ names ∧ found.name.package ∈ names := by decide
    exact fun found hf => used found (Site.offers_of_names resolved hf)
  · decide
  · have used : ∀ n ∈ s.loaded.entries, n.text ∈ names ∧ n.package ∈ names := by decide
    exact used
  · decide

end Session

end EnvModules
