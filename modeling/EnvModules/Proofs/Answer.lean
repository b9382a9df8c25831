import EnvModules.CommandLine
import EnvModules.Proofs.Commands

/-!
Answers to command lines. What a caller evaluates is all that an operation has to write, or nothing.
-/

namespace EnvModules

namespace Backend

variable {name : String} {b : Backend} {dialect : Dialect}

/-- A backend is new when it is chosen by its name. -/
theorem staged_of_ofName? (h : ofName? name = some b) : b.staged = .empty := by
  simp only [ofName?] at h
  repeat' split at h
  all_goals cases h <;> rfl

theorem eq_commands_of_ofName? (h : ofName? name = some b) (hd : b.dialect? = some dialect) :
    b = .commands dialect .empty := by
  obtain ⟨batch, rfl⟩ := eq_commands_of_dialect? hd
  have hb : batch = .empty := staged_of_ofName? h
  rw [hb]

end Backend

/-- The words of a command line that asks for something name a command, which asks for it. -/
theorem CommandLine.request_eq_ok {line : CommandLine} {request : Request}
    (h : line.request = .ok request) :
    ∃ word c shell words, line.command = some word ∧ Command.ofName? word = some c ∧
      request = c.request shell words := by
  unfold CommandLine.request at h
  split at h
  · next shell word hs hw =>
    split at h
    · exact nomatch h
    · next c hc =>
      split at h
      · exact nomatch h
      · next words _ => exact ⟨word, c, shell, words, hw, hc, (Except.ok.inj h).symm⟩
  · exact nomatch h

namespace Session

/-- The text of the commands that a request leads to. Requests that only read lead to none. -/
def scriptFor (s : Session) (tree : FileTree) (t : Streams) : Request → String
  | .operation name op =>
    match (Backend.ofName? name).bind Backend.dialect? with
    | some dialect => dialect.script (s.emitted t ⟨tree, op, dialect⟩)
    | none => ""
  | _ => ""

variable {s : Session} {tree : FileTree} {t : Streams}

theorem scriptFor_request {c : Command} (h : c ∈ [Command.available, .list, .help, .display])
    (shell : String) (words : List String) : s.scriptFor tree t (c.request shell words) = "" := by
  simp only [List.mem_cons, List.not_mem_nil, or_false] at h
  obtain rfl | rfl | rfl | rfl := h <;> rfl

/-- A request writes its commands, whole, or nothing. -/
theorem commands_answer (request : Request) (ht : t.commands.room = none) :
    (s.answer tree t request).streams.commands =
      ⟨t.commands.written ++ (s.scriptFor tree t request).toUTF8, none⟩ := by
  have idle : t.commands = ⟨t.commands.written ++ "".toUTF8, none⟩ := by
    rw [← ht]
    simp
  cases request with
  | available =>
    refine Eq.trans ?_ idle
    simp only [answer]
    split <;> rfl
  | list => exact idle
  | help => exact idle
  | display names => exact (commands_perform_display names).trans idle
  | operation name op =>
    simp only [answer, scriptFor]
    cases hb : Backend.ofName? name with
    | none => exact idle
    | some b =>
      rw [Option.bind_some]
      cases hd : b.dialect? with
      | none => exact (commands_perform_of_dialect? op hd).trans idle
      | some dialect =>
        obtain rfl := Backend.eq_commands_of_ofName? hb hd
        exact commands_play ⟨tree, op, dialect⟩ ht

/-- An operation that fails changes nothing and writes no command. -/
theorem carryOut_of_ne_ok {op : Operation} {b : Backend} (ht : t.commands.room = none)
    (h : (s.carryOut tree op b t).outcome ≠ .ok ()) :
    (s.carryOut tree op b t).streams.commands = t.commands ∧
      (s.carryOut tree op b t).session = s := by
  have hne : (s.perform tree op b t).outcome ≠ .ok () := by
    intro hok
    apply h
    show (s.perform tree op b t).outcome.mapError _ = _
    rw [hok]
    rfl
  exact ⟨commands_perform_of_ne_ok ht hne, session_of_ne_ok op hne⟩

theorem answer_of_ne_ok {request : Request} (ht : t.commands.room = none)
    (h : (s.answer tree t request).outcome ≠ .ok ()) :
    (s.answer tree t request).streams.commands = t.commands ∧
      (s.answer tree t request).session = s := by
  cases request with
  | available =>
    simp only [answer]
    split <;> exact ⟨rfl, rfl⟩
  | list => exact ⟨rfl, rfl⟩
  | help => exact ⟨rfl, rfl⟩
  | display names => exact carryOut_of_ne_ok ht h
  | operation name op =>
    simp only [answer] at h ⊢
    cases hb : Backend.ofName? name with
    | none => exact ⟨rfl, rfl⟩
    | some b =>
      rw [hb] at h
      exact carryOut_of_ne_ok ht h

/-- What goes to the stream of commands may be evaluated as it stands. A command line that fails, for
whatever reason and however deep, writes nothing there and leaves the session as it was, with all variables
that await their unset. Commands that only read write nothing there either. All others write the commands for
all changes of an operation. -/
theorem dispatch_commands (s : Session) (tree : FileTree) (line : CommandLine) (t : Streams)
    (ht : t.commands.room = none) :
    let answered := s.dispatch tree line t
    (answered.outcome ≠ .ok () → answered.streams.commands = t.commands ∧ answered.session = s) ∧
      (∀ word c, line.command = some word → Command.ofName? word = some c →
        c ∈ [Command.available, .list, .help, .display] → answered.streams.commands = t.commands) ∧
      ∀ request, line.request = .ok request → answered.streams.commands =
        ⟨t.commands.written ++ (s.scriptFor tree t request).toUTF8, none⟩ := by
  intro answered
  cases hr : line.request with
  | error fault =>
    have he : answered = ⟨.error (.usage fault), s, t⟩ := by
      simp only [answered, dispatch, hr]
    rw [he]
    exact ⟨fun _ => ⟨rfl, rfl⟩, fun _ _ _ _ _ => rfl, nofun⟩
  | ok request =>
    have he : answered = s.answer tree t request := by
      simp only [answered, dispatch, hr]
    have hc : (s.answer tree t request).streams.commands =
        ⟨t.commands.written ++ (s.scriptFor tree t request).toUTF8, none⟩ := commands_answer request ht
    rw [he]
    refine ⟨answer_of_ne_ok ht, ?_, ?_⟩
    · intro word c hw hn hm
      obtain ⟨word', c', shell, words, hw', hn', rfl⟩ := line.request_eq_ok hr
      obtain rfl : word = word' := Option.some.inj (hw.symm.trans hw')
      obtain rfl : c = c' := Option.some.inj (hn.symm.trans hn')
      rw [hc, scriptFor_request hm, ← ht]
      simp
    · intro request' hr'
      obtain rfl : request = request' := Except.ok.inj hr'
      exact hc

/-- Of three command lines one is refused in a module that another one brings in, one only reads, and one
loads a module. -/
theorem dispatch_commands_of_nested_conflict :
    let s : Session := .ofVars [("P", "/usr")]
    let tree := FileTree.ofDescriptors [("a", ["setVar 1 A"]), ("b", ["setPath /b P", "load c"]),
      ("c", ["setVar $P C", "conflict a"])]
    let refused := s.dispatch tree ⟨some "ZSH", some "Add", ["a", "b"]⟩ .unlimited
    let shown := s.dispatch tree ⟨some "none", some "show", ["b"]⟩ .unlimited
    let loaded := s.dispatch tree ⟨some "csh", some "load", ["a"]⟩ .unlimited
    (refused.outcome ≠ .ok () ∧ refused.streams.commands = .unlimited ∧ refused.session = s) ∧
      shown.streams.commands = .unlimited ∧
      loaded.streams.commands =
        ⟨"setenv A '1';\nsetenv LOADEDENVMASTER 'a';\n".toUTF8, none⟩ := by
  intro s tree refused shown loaded
  obtain ⟨unchanged, -, -⟩ :=
    dispatch_commands s tree ⟨some "ZSH", some "Add", ["a", "b"]⟩ .unlimited rfl
  obtain ⟨-, silent, -⟩ := dispatch_commands s tree ⟨some "none", some "show", ["b"]⟩ .unlimited rfl
  obtain ⟨-, -, whole⟩ := dispatch_commands s tree ⟨some "csh", some "load", ["a"]⟩ .unlimited rfl
  have hne : refused.outcome ≠ .ok () := by decide +kernel
  have hn : Command.ofName? "show" = some .display := by decide +kernel
  have hr : CommandLine.request ⟨some "csh", some "load", ["a"]⟩ =
      .ok (.operation "csh" (.load ["a"])) := by
    decide +kernel
  have script : s.scriptFor tree .unlimited (.operation "csh" (.load ["a"])) =
      "setenv A '1';\nsetenv LOADEDENVMASTER 'a';\n" := by
    decide +kernel
  refine ⟨⟨hne, unchanged hne⟩, silent "show" .display rfl hn (by simp), ?_⟩
  have hc := whole _ hr
  rw [script] at hc
  exact hc

end Session

end EnvModules
