import EnvModules.Proofs.Convergence
import EnvModules.Proofs.Targets

/-!
Unloading the module that a name refers to. What the record has for the name is looked up once more, and it is
the full name of what is found that is taken out of the record.
-/

namespace EnvModules

open Statement TransitionM

/-- A machine that changes variables, and that visits have led to from a start. Its record has these names. -/
structure Machine.Reaches (start : Machine) (names : List Name) (visits : List Visit) (m : Machine) :
    Prop where
  live : m.backend.isDisplay = false
  registers : m.env.Registers names
  visits : m.visits = start.visits ++ visits

namespace Site

variable {s : Site} {nested : Mode → List String → TransitionM Unit} {depth : Nat}

/-- A module that brings in no other leaves a variable that it is not about to the record of what is loaded. -/
theorem agreesAt_visit {k : String} {mode : Mode} {found : Resolved} {m m' : Machine}
    (h : s.visit depth nested mode found m = (.ok (), m'))
    (hb : ∀ st ∈ blockLeaves (s.body found.path), mode ≠ .load ∨ st.bringsIn = false)
    (hk : ∀ st ∈ blockLeaves (s.body found.path), k ∉ s.config.targets found.name st) :
    ∃ last, (m.entering depth mode found.name).AgreesAt k last ∧ m' = last.leaving mode found.name := by
  obtain ⟨statements, e, hst, hrun, rfl⟩ := s.visit_eq_ok h
  obtain rfl : s.body found.path = statements := by rw [body, hst]; rfl
  have ha := Subject.agreesAt_runBlock ⟨s, found.name, mode, nested⟩ hb hk
    ⟨m.entering depth mode found.name, .equal⟩
  rw [hrun] at ha
  exact ⟨e.machine, ha, rfl⟩

/-- A visit on an unload takes its module out of the record, and does nothing else to the record. -/
theorem reaches_visit_unload {found : Resolved} {m m' : Machine} {names : List Name}
    (hspares : ∀ st ∈ blockLeaves (s.body found.path), loadedVariable ∉ s.config.targets found.name st)
    (hd : m.backend.isDisplay = false) (hr : m.env.Records names) (hn : found.name ∈ names)
    (h : s.visit depth nested .unload found m = (.ok (), m')) :
    m.Reaches (names.erase found.name) [⟨depth, .unload, found.name⟩] m' := by
  obtain ⟨last, ha, rfl⟩ := agreesAt_visit h (fun _ _ => .inl nofun) hspares
  have hlive : last.backend.isDisplay = false := by
    rw [ha.isDisplay]
    simpa using hd
  have hlast : last.env.Records names := by
    apply hr.congr
    rw [ha.value, Machine.env_entering_unload]
  refine ⟨by simpa using hlive, ?_, ?_⟩
  · rw [Machine.env_leaving_unload _ hlive]
    exact hlast.registers_leave (hr.canonical found.name hn)
  · rw [Machine.visits_leaving, ha.visits, Machine.visits_entering]

theorem records_visit_unload {found : Resolved} {m m' : Machine} {names : List Name}
    (hspares : ∀ st ∈ blockLeaves (s.body found.path), loadedVariable ∉ s.config.targets found.name st)
    (hd : m.backend.isDisplay = false) (hr : m.env.Records names) (hn : found.name ∈ names)
    (h : s.visit depth nested .unload found m = (.ok (), m')) :
    m'.env.RecordStands ∧ m'.env.Records (names.erase found.name) := by
  have hreach := reaches_visit_unload hspares hd hr hn h
  exact ⟨hreach.registers.stands, hreach.registers.toRecords⟩

end Site

namespace Session

/-- Unloading a name that something is loaded under fails and changes nothing, or what the record has for the
name leads to a module. If this module is in the record under its full name, then it is taken out and the
others stay. If it is not, then nothing is unloaded. -/
theorem perform_unload_entry (s : Session) (tree : FileTree) (name : String) (entry : Name)
    (hs : s.env.Records s.loaded.entries) (he : s.loaded.find? (.parse name) = some entry)
    (hspares : ∀ found, s.registry.resolve tree entry = .ok (some found) →
      ∀ st ∈ blockLeaves ((s.site tree).body found.path),
        loadedVariable ∉ s.config.targets found.name st)
    {b : Backend} (hd : b.isDisplay = false) (t : Streams) :
    let done := s.perform tree (.unload [name]) b t
    (done.outcome = .ok () → ∃ found, s.registry.resolve tree entry = .ok (some found) ∧
      (found.name ∈ s.loaded.entries → found.name ∉ done.session.loaded.entries ∧
        done.session.loaded.entries = s.loaded.entries.erase found.name) ∧
      (found.name ∉ s.loaded.entries → done.session = { s with env := s.env.applyUnsets })) ∧
      (done.outcome ≠ .ok () → done.session = s) := by
  intro done
  constructor
  · intro hok
    obtain ⟨m, hm, hsession, -⟩ := perform_of_ok (.unload [name]) nofun hd hok
    have hentry : (s.machine b t).loaded.find? (.parse name) = some entry := he
    have hvisited := (s.site tree).visited_unload_of_find? hentry
    have hrun : (s.site tree).run .unload [name] (s.machine b t) = (.ok (), m) := hm
    rw [Site.run_singleton_apply, Site.runOne_apply, hvisited] at hrun
    rcases hres : s.registry.resolve tree entry with fault | _ | found <;>
      simp only [site, hres] at hrun
    · exact absurd hrun error_ne_ok
    · exact absurd hrun error_ne_ok
    · refine ⟨found, rfl, ?_, ?_⟩
      · intro hmem
        have hc : (s.machine b t).loaded.contains found.name = true := List.contains_iff_mem.2 hmem
        simp only [hc, if_true] at hrun
        obtain ⟨hstands, hrec⟩ := Site.records_visit_unload (hspares found hres) hd hs hmem hrun
        have hdone : done.session.env.Records (s.loaded.entries.erase found.name) := by
          rw [hsession]
          exact hrec.applyUnsets_of_stands hstands
        have hentries : done.session.loaded.entries = s.loaded.entries.erase found.name :=
          hdone.entries_eq
        rw [hentries]
        exact ⟨hs.nodup.not_mem_erase, rfl⟩
      · intro hmem
        have hc : (s.machine b t).loaded.contains found.name = false := by
          rw [← Bool.not_eq_true]
          exact fun hc => hmem (List.contains_iff_mem.1 hc)
        simp only [hc, Bool.false_eq_true, if_false] at hrun
        obtain rfl : s.machine b t = m := congrArg Prod.snd hrun
        exact hsession
  · exact session_of_ne_ok (.unload [name])

/-- The package alone stands for the more recent of its two versions. -/
theorem perform_unload_entry_of_package :
    let s : Session := .ofVars [("LOADEDENVMASTER", "icc:gcc/5:gcc/4"), ("V", "5")]
    let content := (sentinel ++ "\nsetVar 5 V\nif defined V\nsetPath /gcc P\nend").toUTF8
    let tree : FileTree := ⟨.directory [("mods", .directory
      [("gcc", .directory [("4", .file sentinel.toUTF8), ("5", .file content)])])], []⟩
    let done := s.perform tree (.unload ["gcc"]) (.commands .posix .empty) .unlimited
    (done.outcome = .ok () → ∃ found, s.registry.resolve tree ⟨"gcc", some "5"⟩ = .ok (some found) ∧
      (found.name ∈ s.loaded.entries → found.name ∉ done.session.loaded.entries ∧
        done.session.loaded.entries = s.loaded.entries.erase found.name) ∧
      (found.name ∉ s.loaded.entries → done.session = { s with env := s.env.applyUnsets })) ∧
      (done.outcome ≠ .ok () → done.session = s) := by
  intro s content tree
  refine perform_unload_entry s tree "gcc" ⟨"gcc", some "5"⟩ ?_ ?_ ?_ rfl _
  · decide +kernel
  · decide +kernel
  · intro found hf
    have hres : s.registry.resolve tree ⟨"gcc", some "5"⟩ =
        .ok (some ⟨⟨"gcc", some "5"⟩, ⟨"/mods/gcc/5"⟩⟩) := by
      decide +kernel
    obtain rfl := Option.some.inj (Except.ok.inj (hres.symm.trans hf))
    decide +kernel

/-- If a package stands in the record without a version, and has one now, then its full name is not in the
record. Unloading it is a success that leaves it there. -/
theorem mem_entries_of_perform_unload :
    let s : Session := .ofVars [("LOADEDENVMASTER", "gcc")]
    let tree : FileTree := ⟨.directory [("mods", .directory
      [("gcc", .directory [("5.0", .file (sentinel ++ "\nsetVar 5 V").toUTF8)])])], []⟩
    let done := s.perform tree (.unload ["gcc"]) .silent .unlimited
    s.env.Records s.loaded.entries ∧ s.loaded.find? (.parse "gcc") = some ⟨"gcc", none⟩ ∧
      done.outcome = .ok () ∧ ⟨"gcc", none⟩ ∈ done.session.loaded.entries := by
  decide +kernel

end Session

end EnvModules
