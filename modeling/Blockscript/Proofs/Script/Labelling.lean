import Blockscript.Proofs.Lr.Progress
import Blockscript.Proofs.Script.Expecting

/-!
The label of a failed parse.  A parse fails before its first token, where a sample
fails too, or with a production begun in some state of its stack: no lookahead is
refused once it has been taken as the end of a routine.
-/

namespace Blockscript.Script

/-! ### Rules in progress -/

theorem unshadowed_rows : ∀ row ∈ rows,
    (∀ edge ∈ row.shifts, row.shift? edge.1 = some edge.2) ∧
      ∀ edge ∈ row.gotos, row.goto? edge.1 = some edge.2 := by
  decide +kernel

theorem unshadowed : table.Unshadowed := by
  intro state target htarget
  rcases row_mem_or state with hmem | hempty
  · obtain ⟨hshifts, hgotos⟩ := unshadowed_rows _ hmem
    rw [Lr.Row.targets, List.mem_append, List.mem_map, List.mem_map] at htarget
    rcases htarget with ⟨edge, hedge, rfl⟩ | ⟨edge, hedge, rfl⟩
    · exact ⟨.terminal edge.1, hshifts edge hedge⟩
    · exact ⟨.rule edge.1, hgotos edge hedge⟩
  · rw [hempty] at htarget
    contradiction

theorem leading_mem {found : List (Rule × Nat)} {entry : Rule × Nat}
    (hleading : leading found = some entry) : entry ∈ found := by
  induction found with
  | nil => contradiction
  | cons first found ih =>
      rw [leading] at hleading
      split at hleading
      · cases hleading
        exact List.mem_cons_self
      · rename_i best hbest
        split at hleading
        · cases hleading
          exact List.mem_cons_of_mem _ (ih hbest)
        · cases hleading
          exact List.mem_cons_self

theorem exists_leading {found : List (Rule × Nat)} (hfound : found ≠ []) :
    ∃ entry, leading found = some entry := by
  cases found with
  | nil => contradiction
  | cons first found =>
      rw [leading]
      split
      · exact ⟨_, rfl⟩
      · split
        · exact ⟨_, rfl⟩
        · exact ⟨_, rfl⟩

/-- Some production stands midway in a state. -/
def Underway (state : Nat) : Prop :=
  ∃ p k, table.Midway grammar state p k

/-- A rule is in progress on a stack where some production stands midway. -/
theorem exists_ruleInProgress {states : List Nat} (hstates : ∃ state ∈ states, Underway state) :
    ∃ r, ruleInProgress states = some r := by
  obtain ⟨state, hstate, p, k, hmidway⟩ := hstates
  obtain ⟨j, hmem⟩ := hmidway.exists_mem_unfinished grounded unshadowed mem_productions
  obtain ⟨entry, hentry⟩ := exists_leading (List.ne_nil_of_mem hmem)
  rw [← Option.isSome_iff_exists, ruleInProgress, List.findSome?_isSome_iff]
  exact ⟨state, hstate, by simp [hentry]⟩

/-! ### Where a parse can fail -/

/-- Whatever the first symbol on the stack, a production has been begun with it, or
it is a whole routine and nothing but its end is missing. -/
theorem begun_or_whole : ∀ edge ∈ Lr.Row.edges (rows[0]?.getD {}),
    (∃ p ∈ Production.all, 1 < p.rhs.length ∧
      Lr.Table.finishes ⟨rows.toArray⟩ p edge.2 (p.rhs.drop 1) = true) ∨
    Lr.Row.edges (rows[edge.2]?.getD {}) = [] ∧
      ∃ r ∈ [Rule.routine, .eventDef, .processDef, .functionDef], edge.1 = .rule r ∧
        ∀ lookahead ∈ lookaheadsAfter r, (rows[edge.2]?.getD {}).reduction? lookahead ≠ none := by
  decide +kernel

theorem lookaheads_rows : ∀ row ∈ rows, ∀ entry ∈ row.reductions,
    entry.2 = lookaheadsAfter entry.1.lhs := by
  decide +kernel

theorem mem_lookaheadsAfter {state : Nat} {lookahead : Option Terminal} {p : Production}
    (hreduce : (table.row state).reduction? lookahead = some p) :
    lookahead ∈ lookaheadsAfter p.lhs := by
  obtain ⟨entry, hentry, rfl, hmem⟩ := Lr.Row.exists_of_reduction? hreduce
  rcases row_mem_or state with hrow | hempty
  · rwa [← lookaheads_rows _ hrow entry hentry]
  · rw [hempty] at hentry
    contradiction

theorem Stage.Refuses.traced {stage : Stage} {failure : Failure} (hrefuses : stage.Refuses failure)
    (htraced : Lr.Stack.Traced table stage.stack) : Lr.Stack.Traced table failure.stack := by
  cases hrefuses with
  | atEnd hread hfeeds => exact hfeeds.traced htraced
  | rejected hread hfeeds => exact hfeeds.traced htraced
  | unexpected hread => exact htraced
  | unreadable hread => exact htraced

/-- A stack on top of which lies a token, or a rule that some lookahead can follow,
though it is of no use in the state. -/
def IsDeadEnd (stack : Stack) : Prop :=
  ∀ frame ∈ stack.head?, (∃ t, frame.symbol = .terminal t) ∨
    ∃ r lookahead, frame.symbol = .rule r ∧ lookahead ∈ lookaheadsAfter r ∧
      (table.row frame.state).reduction? lookahead = none

theorem isDeadEnd_of_shifts {stack : Stack} {tokens : List Token}
    (hshifts : Lr.Stack.Shifts table [] tokens stack) : IsDeadEnd stack := by
  have hnone : ∀ frame ∈ ([] : Stack).head?, ∃ t, frame.symbol = .terminal t := by simp
  intro frame hframe
  exact .inl (hshifts.exists_terminal hnone frame hframe)

theorem isDeadEnd_of_rejected {stack left : Stack} (hstack : IsDeadEnd stack)
    {lookahead : Option Token}
    (hrejects : Lr.Stack.Feeds table stack lookahead (.rejected left)) : IsDeadEnd left := by
  rcases hrejects.entered_of_rejected with rfl | ⟨state, p, top, below, rfl, hsymbol, hreduce⟩
  · exact hstack
  · rintro frame ⟨⟩
    have hfollows := mem_lookaheadsAfter hreduce
    exact .inr ⟨p.lhs, _, hsymbol, hfollows, hrejects.reduction?_of_rejected⟩

theorem Stage.Refuses.isDeadEnd {stage : Stage} {failure : Failure}
    (hrefuses : stage.Refuses failure) {tokens : List Token}
    (hshifts : Lr.Stack.Shifts table [] tokens stage.stack) : IsDeadEnd failure.stack := by
  have hstage := isDeadEnd_of_shifts hshifts
  cases hrefuses with
  | atEnd hread hrejects => exact isDeadEnd_of_rejected hstage hrejects
  | rejected hread hrejects => exact isDeadEnd_of_rejected hstage hrejects
  | unexpected hread => exact hstage
  | unreadable hread => exact hstage

/-- Behind the first token something is underway wherever a parse fails. -/
theorem Stage.Refuses.exists_underway {stage : Stage} {failure : Failure}
    (hrefuses : stage.Refuses failure) {tokens : List Token}
    (hshifts : Lr.Stack.Shifts table [] tokens stage.stack) (hsome : failure.stack ≠ []) :
    ∃ state ∈ failure.states, Underway state := by
  have htraced := hrefuses.traced (hshifts.traced .nil)
  obtain ⟨above, frame, hstack⟩ := (List.eq_nil_or_concat' failure.stack).resolve_left hsome
  rw [hstack] at htraced
  obtain ⟨hlowest, hleft⟩ := htraced.lowest
  have hedge := Lr.Table.mem_edges_of_target? hlowest
  rw [row_eq] at hedge
  rcases begun_or_whole _ hedge with ⟨p, -, hlong, hfinishes⟩ | ⟨hnone, r, -, hsymbol, huse⟩
  · rw [← table_eq] at hfinishes
    refine ⟨frame.state, ?_, p, 1, Nat.one_pos, hlong, hfinishes⟩
    simp [Failure.states, Lr.Stack.states, hstack]
  · -- A whole routine is alone on the stack, and its end is not refused.
    exfalso
    have halone : above = [] := by
      by_contra habove
      obtain ⟨x, target, htarget⟩ := hleft habove
      have hmem := Lr.Table.mem_edges_of_target? htarget
      rw [row_eq, hnone] at hmem
      contradiction
    rw [halone, List.nil_append] at hstack
    rcases hrefuses.isDeadEnd hshifts frame (by rw [hstack]; rfl) with
      ⟨t, hterminal⟩ | ⟨s, lookahead, hrule, hmem, hno⟩
    · exact absurd (hsymbol.symm.trans hterminal) nofun
    · obtain rfl : r = s := Lr.Symbol.rule.inj (hsymbol.symm.trans hrule)
      rw [row_eq] at hno
      exact huse lookahead hmem hno

/-! ### Labels -/

/-- The rules that stand for a repetition inside another rule. -/
def repetitions : List Rule :=
  [.routines, .statements, .steps, .values]

-- Stated of the function: unfolding it at a failure would have the samples parsed.
theorem label?_eq : Failure.label? = fun failure =>
    match sampleSpots.lookup failure.spot with
    | some label => some label
    | none => (ruleInProgress failure.states).map Rule.label := by
  rfl

end Blockscript.Script
