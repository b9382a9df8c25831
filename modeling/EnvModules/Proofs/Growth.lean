import EnvModules.Proofs.Commands
import EnvModules.Proofs.Events
import EnvModules.Proofs.Stable

/-!
Loads without swaps. They only put modules in front of those that are loaded, each of them is visited once,
and to load the same again does nothing.
-/

namespace EnvModules

open TransitionM

theorem Stream.write_empty (s : Stream) : s.write "" = (true, s) := by
  obtain ⟨written, room⟩ := s
  have hb : "".toUTF8 = ByteArray.empty := rfl
  have hw : written ++ "".toUTF8 = written := by
    rw [hb, ByteArray.append_empty]
  rw [write]
  cases room with
  | none => simp only [hw]
  | some room =>
    have hs : "".toUTF8.size = 0 := rfl
    simp only [hs, Nat.zero_le, if_true, hw, Nat.sub_zero]

namespace Machine

/-- A machine that loads have led to from a start. They have put modules in front of those that were loaded
then, and each of these has been visited, in the order in which they came. -/
structure Grown (start m : Machine) : Prop where
  live : m.backend.isDisplay = false
  stands : m.env.RecordStands
  record : ∃ fresh visits, m.env.Records (fresh ++ start.loaded.entries) ∧
    m.visits = start.visits ++ visits ∧ visits.map Visit.subject = fresh.reverse ∧
    ∀ v ∈ visits, v.mode = .load

namespace Grown

variable {start m m' : Machine}

theorem refl (hd : m.backend.isDisplay = false) (hs : m.env.RecordStands)
    (hr : m.env.Records m.loaded.entries) : Grown m m :=
  ⟨hd, hs, [], [], hr, (List.append_nil _).symm, rfl, by simp⟩

theorem restart (h : Grown start m) : Grown m m := by
  obtain ⟨fresh, -, hr, -⟩ := h.record
  refine .refl h.live h.stands ?_
  rwa [loaded, hr.entries_eq]

theorem subset (h : Grown start m) : start.loaded.entries ⊆ m.loaded.entries := by
  obtain ⟨fresh, -, hr, -⟩ := h.record
  have he : m.loaded.entries = fresh ++ start.loaded.entries := hr.entries_eq
  rw [he]
  exact List.subset_append_right _ _

theorem agrees (ha : m.AgreesAt loadedVariable m') (h : Grown start m) : Grown start m' where
  live := ha.isDisplay.trans h.live
  stands := by
    intro hp
    have hs := h.stands (ha.pending.1 hp)
    rwa [Environment.getNonEmpty?, ha.value]
  record := by
    obtain ⟨fresh, visits, hr, hv, hrest⟩ := h.record
    exact ⟨fresh, visits, hr.congr ha.value, ha.visits.trans hv, hrest⟩

theorem enters {name : Name} (hn : name.IsCanonical) (depth : Nat)
    (hc : m.loaded.contains name = false) (h : Grown start m) :
    Grown start (m.entering depth .load name) where
  live := by simpa using h.live
  stands := by
    rw [env_entering_load _ _ h.live]
    exact m.env.recordStands_changePath true name.text
  record := by
    obtain ⟨fresh, visits, hr, hv, hs, hl⟩ := h.record
    -- The record is asked before a module is visited, so that the module is new to it.
    have hm : name ∉ fresh ++ start.loaded.entries := by
      intro hm
      rw [loaded, hr.contains_iff.2 hm] at hc
      cases hc
    refine ⟨name :: fresh, visits ++ [⟨depth, .load, name⟩], ?_, ?_, ?_, ?_⟩
    · rw [env_entering_load _ _ h.live]
      exact hr.enter hn hm
    · rw [visits_entering, hv, List.append_assoc]
    · rw [List.map_append, hs, List.reverse_cons]
      rfl
    · intro v hm
      rcases List.mem_append.1 hm with hm | hm
      · exact hl v hm
      · rw [List.mem_singleton.1 hm]

end Grown

end Machine

namespace Site

variable {s : Site} {used : String → Prop} (hr : s.Regular used) (hs : ¬ s.Swaps used)
include hr hs

theorem stable_grown (start : Machine) : s.Stable used start.Grown where
  agrees ha hm := hm.agrees ha
  enters {_ found} depth hf hc hm := hm.enters (hr.canonical found hf) depth hc
  unloads hswaps := absurd hswaps hs

/-- A name that a load has come through leads to a module that is loaded afterwards. -/
theorem loaded_of_runOne (levels depth : Nat) {name : String} (hn : used name) {m m' : Machine}
    (hm : m.Grown m)
    (h : s.runOne (s.visit depth (s.nestedWithin levels)) .load name m = (.ok (), m')) :
    ∃ found, s.find name = .ok found ∧ found.name ∈ m'.loaded.entries := by
  rw [s.runOne_apply] at h
  split at h
  · exact absurd h error_ne_ok
  · next hv =>
    obtain rfl : m = m' := congrArg Prod.snd h
    obtain ⟨found, hf, hc⟩ := s.visited_load_eq_none_iff.1 hv
    exact ⟨found, hf, List.contains_iff_mem.1 hc⟩
  · next found hv =>
    obtain ⟨hf, hc⟩ := s.visited_load_eq_ok_iff.1 hv
    have ho : s.Offers used found := offers_of_visited_load hn hv
    have hcanonical := hr.canonical found ho
    obtain ⟨fresh, -, hrec, -⟩ := hm.record
    have hnew : found.name ∉ fresh ++ m.loaded.entries := by
      intro hmem
      rw [Machine.loaded, hrec.contains_iff.2 hmem] at hc
      cases hc
    -- The module is recorded before its statements run, and they take nothing out.
    have hmem : found.name ∈ (m.entering depth .load found.name).loaded.entries := by
      rw [Machine.loaded, Machine.env_entering_load _ _ hm.live, (hrec.enter hcanonical hnew).entries_eq]
      exact List.mem_cons_self
    have hstart := (hm.enters hcanonical depth hc).restart
    have hstable := stable_grown hr hs (m.entering depth .load found.name)
    have hgrown := hstable.visit_ok hr ho (fun names hn => hstable.nestedWithin hr levels hn)
      (fun hswaps => absurd hswaps hs) hstart h
    exact ⟨found, hf, hgrown.subset hmem⟩

theorem loaded_of_runWithin (levels : Nat) {names : List String} (hn : ∀ n ∈ names, used n)
    {m m' : Machine} (hm : m.Grown m) (h : s.runWithin levels .load names m = (.ok (), m')) :
    ∀ n ∈ names, ∃ found, s.find n = .ok found ∧ found.name ∈ m'.loaded.entries := by
  rw [s.runWithin_eq] at h
  -- The names come one after the other. What is loaded for one of them stays while the rest are loaded.
  induction names generalizing m with
  | nil => simp
  | cons name rest ih =>
    obtain ⟨hname, hrest⟩ := List.forall_mem_cons.1 hn
    rw [forM_cons_apply] at h
    obtain ⟨_, m₁, h₁, h₂⟩ := proceed_eq_ok h
    have hstable (start : Machine) := stable_grown hr hs start
    have hone : m.Grown m₁ := ((hstable m).runOne hr (fun names hn => (hstable m).nestedWithin hr levels hn)
      (fun hswaps => absurd hswaps hs) _ hname).of_ok hm h₁
    have hlast : m₁.Grown m' := by
      rw [← s.runWithin_eq] at h₂
      exact ((hstable m₁).runWithin hr levels hrest).of_ok hone.restart h₂
    obtain ⟨found, hf, hmem⟩ := loaded_of_runOne hr hs levels _ hname hm h₁
    exact List.forall_mem_cons.2 ⟨⟨found, hf, hlast.subset hmem⟩, ih hrest hone.restart h₂⟩

omit hr hs in
/-- There is nothing to do for modules that are loaded. -/
theorem run_load_of_loaded {names : List String} {m : Machine}
    (h : ∀ n ∈ names, ∃ found, s.find n = .ok found ∧ found.name ∈ m.loaded.entries) :
    s.run .load names m = (.ok (), m) := by
  rw [s.run_eq, s.runWithin_eq]
  induction names with
  | nil => rfl
  | cons name rest ih =>
    obtain ⟨⟨found, hf, hm⟩, hrest⟩ := List.forall_mem_cons.1 h
    have hv : s.visited m.loaded name .load = .ok none :=
      s.visited_load_eq_none_iff.2 ⟨found, hf, List.contains_iff_mem.2 hm⟩
    rw [forM_cons_apply, s.runOne_apply, hv]
    exact ih hrest

end Site

/-- If nothing is staged, then nothing is written. -/
theorem TransitionM.flush_of_staged_empty {m : Machine} (hd : m.backend.isDisplay = false)
    (hb : m.backend.staged = .empty) : flush m = (.ok (), { m with env := m.env.applyUnsets }) := by
  obtain ⟨env, backend, streams, visits⟩ := m
  cases backend with
  | commands dialect batch =>
    obtain rfl : batch = .empty := hb
    simp only [flush, Backend.flush, Dialect.script_empty, Stream.write_empty, if_true]
  | silent => rfl
  | display report => exact absurd hd (by simp [Backend.isDisplay])

namespace Session

/-- A load that succeeds has loaded what it was asked for. It has put modules in front of those that were
loaded before, and has visited each of them once and no other. To visit a module is to run its descriptor, and
no statements are run but those. The same load once more succeeds, visits nothing, writes nothing and leaves the
session as it is. The record stands at the start, as it does in any session that awaits no unset. -/
theorem perform_load_grows (s : Session) (tree : FileTree) (used : String → Prop)
    (hr : (s.site tree).Regular used) (hno : ¬ (s.site tree).Swaps used)
    (hs : s.env.Records s.loaded.entries) (hst : s.env.RecordStands) (names : List String)
    (hn : ∀ n ∈ names, used n) {b : Backend} (hd : b.isDisplay = false) (t : Streams)
    (hok : (s.perform tree (.load names) b t).outcome = .ok ()) :
    let done := s.perform tree (.load names) b t
    (∀ n ∈ names, ∃ found, s.registry.resolve tree (.parse n) = .ok (some found) ∧
        found.name ∈ done.session.loaded.entries) ∧
      (∃ fresh, done.session.loaded.entries = fresh ++ s.loaded.entries ∧
        (fresh ++ s.loaded.entries).Nodup ∧ done.visits.map Visit.subject = fresh.reverse ∧
        ∀ v ∈ done.visits, v.mode = .load) ∧
      (Operation.load names).Evaluates (s.site tree) (s.machine b t) done.visits ∧
      ∀ b' t', b'.isDisplay = false → b'.staged = .empty →
        let again := done.session.perform tree (.load names) b' t'
        again.outcome = .ok () ∧ again.session = done.session ∧ again.visits = [] ∧
          again.streams = t' := by
  intro done
  obtain ⟨m, hm, hsession, hvisits⟩ := perform_of_ok (.load names) nofun hd hok
  have hstart : (s.machine b t).Grown (s.machine b t) := .refl hd hst hs
  have hgrown : (s.machine b t).Grown m :=
    ((Site.stable_grown hr hno (s.machine b t)).runWithin hr nestingLimit hn).of_ok hstart hm
  have hloaded := Site.loaded_of_runWithin hr hno nestingLimit hn hstart hm
  obtain ⟨fresh, visits, hrec, hv, hsub, hl⟩ := hgrown.record
  -- The flush does not take the record away, since it awaits no unset.
  have hrec' : done.session.env.Records (fresh ++ s.loaded.entries) := by
    rw [hsession]
    exact hrec.applyUnsets_of_stands hgrown.stands
  have hentries : done.session.loaded.entries = fresh ++ s.loaded.entries := hrec'.entries_eq
  have hsame : done.session.loaded.entries = m.loaded.entries := by
    rw [hentries, Machine.loaded, hrec.entries_eq]
    rfl
  have hfind : ∀ n ∈ names, ∃ found, (s.site tree).find n = .ok found ∧
      found.name ∈ done.session.loaded.entries := by
    rw [hsame]
    exact hloaded
  refine ⟨?_, ⟨fresh, hentries, hrec'.nodup, ?_, ?_⟩, s.evaluates_perform tree (.load names) nofun b t, ?_⟩
  · intro n hn
    obtain ⟨found, hf, hmem⟩ := hfind n hn
    exact ⟨found, (s.site tree).find_eq_ok_iff.1 hf, hmem⟩
  · rw [hvisits, hv]
    exact hsub
  · rw [hvisits, hv]
    exact hl
  · intro b' t' hd' hb' again
    -- Each name finds its module loaded. That leaves the flush, of nothing.
    have hsite : done.session.site tree = s.site tree := by rw [hsession, site, site]
    have hrun : (done.session.site tree).run .load names (done.session.machine b' t') =
        (.ok (), done.session.machine b' t') := by
      rw [hsite]
      exact Site.run_load_of_loaded hfind
    have hpending : done.session.env.applyUnsets = done.session.env := by
      apply Environment.applyUnsets_of_pending_eq_nil
      rw [hsession]
      rfl
    have htransition : Operation.transition (done.session.site tree) (.load names)
        (done.session.machine b' t') = (.ok (), done.session.machine b' t') := by
      rw [Operation.transition_eq _ (.load names) nofun, bind_apply]
      show proceed ((done.session.site tree).run .load names _) _ = _
      rw [hrun, proceed_ok, TransitionM.flush_of_staged_empty hd' hb']
      show _ = (Except.ok (), (⟨done.session.env, b', t', []⟩ : Machine))
      rw [← hpending]
      rfl
    obtain ⟨ho, hs'⟩ := done.session.perform_eq tree (.load names) b' t'
    rw [htransition] at ho hs'
    refine ⟨ho, hs', ?_, ?_⟩
    · exact congrArg (fun p => p.2.visits) htransition
    · exact congrArg (fun p => p.2.streams) htransition

/-- Two modules that both load a third, which loads the first again. One more module is loaded before. -/
theorem perform_load_grows_of_diamond :
    let s : Session := .ofVars [("LOADEDENVMASTER", "x")]
    let tree := FileTree.ofDescriptors [("a", ["load b", "if not loaded c", "load c", "end"]),
      ("b", ["load d x", "setPath /b P"]), ("c", ["load d", "setVar 1 C"]), ("d", ["load a"]),
      ("x", ["setVar 1 X"])]
    let names := ["a", "d", "a"]
    let done := s.perform tree (.load names) (.commands .posix .empty) .unlimited
    (∀ n ∈ names, ∃ found, s.registry.resolve tree (.parse n) = .ok (some found) ∧
        found.name ∈ done.session.loaded.entries) ∧
      (∃ fresh, done.session.loaded.entries = fresh ++ s.loaded.entries ∧
        (fresh ++ s.loaded.entries).Nodup ∧ done.visits.map Visit.subject = fresh.reverse ∧
        ∀ v ∈ done.visits, v.mode = .load) ∧
      (Operation.load names).Evaluates (s.site tree) (s.machine (.commands .posix .empty) .unlimited) done.visits ∧
      ∀ b' t', b'.isDisplay = false → b'.staged = .empty →
        let again := done.session.perform tree (.load names) b' t'
        again.outcome = .ok () ∧ again.session = done.session ∧ again.visits = [] ∧
          again.streams = t' := by
  intro s tree names
  let used := ["a", "b", "c", "d", "x"]
  let modules : List Resolved := used.map fun n => ⟨⟨n, none⟩, ⟨"/mods/" ++ n⟩⟩
  have resolved : ∀ n ∈ used, (s.site tree).registry.resolve (s.site tree).tree (.parse n) ∈
      modules.map fun found => .ok (some found) := by
    decide +kernel
  -- The descriptors are read once for all that is asked of their statements.
  have described : ∀ found ∈ modules, ∀ st ∈ Statement.blockLeaves ((s.site tree).body found.path),
      loadedVariable ∉ (s.site tree).config.targets found.name st ∧
        (∀ text ∈ st.incoming, '$' ∉ text.toList ∧ text ∈ used) ∧ st.isSwap = false := by
    decide +kernel
  have regular : (s.site tree).Regular (· ∈ used) := by
    refine .of_names resolved ?_ ?_ ?_
    · decide +kernel
    · exact fun found hf st hst => (described found hf st hst).1
    · exact fun found hf st hst => (described found hf st hst).2.1
  refine perform_load_grows s tree (· ∈ used) regular ?_ ?_ ?_ names ?_ rfl _ ?_
  · rintro ⟨found, hf, st, hst, hswap⟩
    rw [(described found (Site.offers_of_names resolved hf) st hst).2.2] at hswap
    cases hswap
  · decide
  · intro h
    exact absurd h (by decide)
  · decide
  · decide +kernel

end Session

end EnvModules
