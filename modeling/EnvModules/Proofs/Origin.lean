import EnvModules.Proofs.Events

/-!
Where the steps of a transition come from. Each is a statement of a descriptor that has been visited, for a
module that some name leads to, be it asked for or brought in by other modules.
-/

namespace EnvModules

namespace Statement

mutual

/-- A statement, and if it is a choice those inside it as well. -/
def parts : Statement → List Statement
  | .choose branches otherwise =>
    .choose branches otherwise :: (branchParts branches ++ blockParts otherwise)
  | st => [st]

def branchParts : List (Condition × List Statement) → List Statement
  | [] => []
  | (_, body) :: rest => blockParts body ++ branchParts rest

/-- The statements of a block, however deep they lie inside choices. -/
def blockParts : List Statement → List Statement
  | [] => []
  | st :: rest => st.parts ++ blockParts rest

end

theorem mem_parts (st : Statement) : st ∈ st.parts := by
  cases st <;> exact List.mem_cons_self

theorem blockParts_subset_branchParts {branches : List (Condition × List Statement)}
    {branch : Condition × List Statement} (h : branch ∈ branches) :
    blockParts branch.2 ⊆ branchParts branches := by
  induction branches with
  | nil => exact nomatch h
  | cons first rest ih =>
    obtain ⟨condition, body⟩ := first
    rw [branchParts]
    rcases List.mem_cons.1 h with rfl | h
    · exact List.subset_append_left _ _
    · exact List.Subset.trans (ih h) (List.subset_append_right _ _)

end Statement

open Statement

/-- A step is a statement of the descriptor of a module, and the module has been visited for it. -/
structure Step.Origin (s : Site) (visits : List Visit) (x : Step) (found : Resolved) : Prop where
  offers : s.Offers (fun _ => True) found
  site : x.subject.site = s
  name : x.subject.name = found.name
  statement : x.statement ∈ blockParts (s.body found.path)
  visited : ∃ depth, ⟨depth, x.subject.mode, found.name⟩ ∈ visits

/-- The steps of a block itself are about its statements, however deep these lie inside choices. -/
theorem Subject.mem_blockParts_of_mem_traceBlock {s : Subject} {block : List Statement} {e : Evaluation} {x : Step}
    (h : x ∈ s.traceBlock (fun _ _ _ => []) block e) : x.subject = s ∧ x.statement ∈ blockParts block := by
  have following {α : Type} {p : Except Fault α × Evaluation} {rest : List Statement}
      (ih : ∀ {e}, x ∈ s.traceBlock (fun _ _ _ => []) rest e → x.subject = s ∧ x.statement ∈ blockParts rest)
      (h : x ∈ following p (s.traceBlock (fun _ _ _ => []) rest)) :
      x.subject = s ∧ x.statement ∈ blockParts rest := by
    rcases p with ⟨fault | a, e⟩
    · exact absurd h List.not_mem_nil
    · exact ih h
  induction block using Statement.block_induction generalizing e with
  | nil =>
    rw [traceBlock] at h
    exact absurd h List.not_mem_nil
  | simple st rest hst ih =>
    rw [traceBlock, ownSteps_eq hst] at h
    rw [blockParts]
    rcases List.mem_append.1 h with h | h
    · obtain rfl := List.mem_singleton.1 h
      exact ⟨rfl, List.mem_append_left _ st.mem_parts⟩
    · exact (following ih h).imp_right (List.mem_append_right _)
  | choose branches otherwise rest hb ho ih =>
    rw [traceBlock, traceStatement, traceBranches_eq] at h
    rw [blockParts, parts]
    rcases List.mem_append.1 h with h | h
    · rcases List.mem_cons.1 h with rfl | h
      · exact ⟨rfl, List.mem_append_left _ List.mem_cons_self⟩
      -- The block that is chosen is one of those inside the choice.
      let Good (block : List Statement) : Prop := x ∈ s.traceBlock (fun _ _ _ => []) block e →
        x.subject = s ∧ x.statement ∈ branchParts branches ++ blockParts otherwise
      have hchosen : Good (s.chosen e otherwise branches) := by
        apply s.chosen_induction (P := Good) e
        · exact fun b hm h => (hb b hm h).imp_right fun hx =>
            List.mem_append_left _ (blockParts_subset_branchParts hm hx)
        · exact fun h => (ho h).imp_right (List.mem_append_right _)
      exact (hchosen h).imp_right fun hx => List.mem_append_left _ (List.mem_cons_of_mem _ hx)
    · exact (following ih h).imp_right (List.mem_append_right _)

/-- All steps of a transition come from descriptors that it has visited. -/
theorem Site.Accounts.origin {s : Site} {m : Machine} {result : Except Fault Unit × Machine} {events : List Event}
    {steps : List Step} (h : s.Accounts m result events [] steps) :
    ∀ x ∈ steps, ∃ found, x.Origin s result.2.visits found := by
  intro x hx
  have hx : x ∈ (events.filterMap Event.run?).flatMap (Run.steps s) := h.perm.mem_iff.1 hx
  obtain ⟨r, hr, hx⟩ := List.mem_flatMap.1 hx
  have hbegins := h.begins r hr
  rw [hbegins.steps_eq] at hx
  obtain ⟨hsubject, hstatement⟩ := Subject.mem_blockParts_of_mem_traceBlock hx
  have hvisit : r.visit ∈ result.2.visits := by
    rw [h.passes.visits]
    exact List.mem_append_right _ (List.mem_map_of_mem hr)
  refine ⟨r.found, hbegins.offers, ?_, ?_, hstatement, r.depth, ?_⟩
  · rw [hsubject]
    rfl
  · rw [hsubject]
    rfl
  · rw [hsubject]
    exact hvisit

end EnvModules
