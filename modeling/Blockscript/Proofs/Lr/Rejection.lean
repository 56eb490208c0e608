import Blockscript.Proofs.Lr.Outline

/-!
The stack on which a lookahead is rejected.  The machine may have reduced before
it found out.  In a steady table this loses no token: a state that reduces does
nothing else, whatever the lookahead, so what could have been shifted is still
expected on the stack that is left.
-/

namespace Blockscript.Lr

variable {τ ν π : Type} {g : Grammar τ ν π} {a : Attribution g}
variable [DecidableEq τ] [DecidableEq ν] {table : Table τ ν π}

/-- A table in which a state that reduces a production does so on every lookahead
it has a use for, up to the productions of the start rule, and these never go
on. -/
structure Steady (g : Grammar τ ν π) (table : Table τ ν π) : Prop where
  alone : ∀ state lookahead p, (table.row state).reduction? lookahead = some p →
    g.lhs p ≠ g.start → (table.row state).shifts = [] ∧
      ∀ other q, (table.row state).reduction? other = some q → q = p
  final : ∀ state, (table.row state).goto? g.start = none

/-- A token that could have been shifted is a lookahead of the stack on which
another one is rejected. -/
theorem Stack.Feeds.mem_lookaheads_of_rejected (hsteady : Steady g table)
    {stack left next : Stack a} {lookahead : Option a.Token} {token : a.Token}
    (hrejects : Stack.Feeds table stack lookahead (.rejected left))
    (hshifts : Stack.Feeds table stack (some token) (.shifted next)) :
    some (a.kind token) ∈ (table.row left.top).lookaheads := by
  generalize houtcome : Outcome.rejected left = outcome at hrejects
  induction hrejects with
  | shift => contradiction
  | accept => contradiction
  | reject hshift hreduce =>
      cases houtcome
      exact hshifts.mem_lookaheads
  | @reduce stack below lookahead p meanings target outcome hshift hreduce hpop hgoes hgoto
      hrest ih =>
      have hlhs : g.lhs p ≠ g.start := by
        intro hstart
        rw [hstart, hsteady.final] at hgoto
        contradiction
      obtain ⟨hnone, hsame⟩ := hsteady.alone _ _ _ hreduce hlhs
      -- The token takes the machine through the same reduction.
      cases hshifts with
      | shift hother =>
          rw [Row.shift?, hnone] at hother
          contradiction
      | @reduce _ below _ q _ _ _ _ hother hotherPop _ hotherGoto hotherRest =>
          obtain rfl := hsame _ _ hother
          rw [hpop] at hotherPop
          cases hotherPop
          rw [hgoto] at hotherGoto
          cases hotherGoto
          exact ih hotherRest houtcome

/-- The state in which a lookahead is rejected has no use for it. -/
theorem Stack.Feeds.reduction?_of_rejected {stack left : Stack a} {lookahead : Option a.Token}
    (hrejects : Stack.Feeds table stack lookahead (.rejected left)) :
    (table.row left.top).reduction? (lookahead.map a.kind) = none := by
  generalize houtcome : Outcome.rejected left = outcome at hrejects
  induction hrejects with
  | shift => contradiction
  | accept => contradiction
  | reject hshift hreduce =>
      cases houtcome
      exact hreduce
  | reduce hshift hreduce hpop hgoes hgoto hrest ih => exact ih houtcome

/-- A lookahead is rejected on the stack it was fed to, or in a state that was
entered by a reduction which it allows. -/
theorem Stack.Feeds.entered_of_rejected {stack left : Stack a} {lookahead : Option a.Token}
    (hrejects : Stack.Feeds table stack lookahead (.rejected left)) :
    left = stack ∨ ∃ (state : Nat) (p : π) (frame : Frame a) (below : Stack a),
      left = frame :: below ∧ frame.symbol = .rule (g.lhs p) ∧
        (table.row state).reduction? (lookahead.map a.kind) = some p := by
  generalize houtcome : Outcome.rejected left = outcome at hrejects
  induction hrejects with
  | shift => contradiction
  | accept => contradiction
  | reject hshift hreduce =>
      cases houtcome
      exact .inl rfl
  | @reduce stack below lookahead p meanings target outcome hshift hreduce hpop hgoes hgoto
      hrest ih =>
      rcases ih houtcome with rfl | hentered
      · exact .inr ⟨stack.top, p, _, below, rfl, rfl, hreduce⟩
      · exact .inr hentered

/-! ### What is on top of the tokens read -/

theorem Stack.Feeds.symbol_of_shifted {stack next : Stack a} {token : a.Token}
    (hfeeds : Stack.Feeds table stack (some token) (.shifted next)) :
    ∀ frame ∈ next.head?, frame.symbol = .terminal (a.kind token) := by
  generalize hlookahead : some token = lookahead at hfeeds
  generalize houtcome : Outcome.shifted next = outcome at hfeeds
  induction hfeeds with
  | shift hshift =>
      cases hlookahead
      cases houtcome
      rintro frame ⟨⟩
      rfl
  | reject => contradiction
  | accept => contradiction
  | reduce hshift hreduce hpop hgoes hgoto hrest ih => exact ih hlookahead houtcome

/-- Between two tokens nothing lies on top, or a token. -/
theorem Stack.Shifts.exists_terminal {stack last : Stack a} {tokens : List a.Token}
    (hshifts : Stack.Shifts table stack tokens last)
    (hstack : ∀ frame ∈ stack.head?, ∃ t, frame.symbol = .terminal t) :
    ∀ frame ∈ last.head?, ∃ t, frame.symbol = .terminal t := by
  induction hshifts with
  | nil => exact hstack
  | read hfeeds hrest ih =>
      apply ih
      intro frame hframe
      exact ⟨_, hfeeds.symbol_of_shifted frame hframe⟩

/-- The lowest state of a stack is entered from the initial one, and left if
anything lies above it. -/
theorem Stack.Traced.lowest {above : Stack a} {frame : Frame a}
    (htraced : Stack.Traced table (above ++ [frame])) :
    table.target? 0 frame.symbol = some frame.state ∧
      (above ≠ [] → ∃ x target, table.target? frame.state x = some target) := by
  induction above with
  | nil =>
      cases htraced with
      | cons hbelow hedge => exact ⟨hedge, nofun⟩
  | cons next above ih =>
      cases htraced with
      | cons hbelow hedge =>
          obtain ⟨hlowest, hleft⟩ := ih hbelow
          refine ⟨hlowest, fun _ => ?_⟩
          by_cases habove : above = []
          · subst habove
            exact ⟨_, _, hedge⟩
          · exact hleft habove

end Blockscript.Lr
