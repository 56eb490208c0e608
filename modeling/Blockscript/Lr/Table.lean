import Blockscript.Lr.Automaton

/-!
Parse tables.  A row holds the shifts and gotos of a state and its completed productions, each with
the lookaheads on which it is reduced: those that can follow its rule anywhere.  Lookaheads gathered
for each state from the stacks that lead to it could be fewer, but not where every production is
completed in one state only: that state is reached from all the places where the rule can stand.
-/

namespace Blockscript.Lr

/-- What a state does with each symbol.  `none` as a lookahead is the end of the input. -/
structure Row (τ ν π : Type) where
  shifts : List (τ × Nat) := []
  gotos : List (ν × Nat) := []
  reductions : List (π × List (Option τ)) := []

/-- One row per state; state 0 is the initial one. -/
structure Table (τ ν π : Type) where
  rows : Array (Row τ ν π)

namespace Row

variable {τ ν π : Type} [DecidableEq τ] [DecidableEq ν] (row : Row τ ν π)

/-- The state entered by reading a terminal. -/
def shift? (t : τ) : Option Nat :=
  row.shifts.lookup t

/-- The state entered after a rule has been reduced. -/
def goto? (r : ν) : Option Nat :=
  row.gotos.lookup r

/-- The production reduced on a lookahead. -/
def reduction? (lookahead : Option τ) : Option π :=
  (row.reductions.find? fun entry => lookahead ∈ entry.2).map Prod.fst

/-- The lookaheads that are shifted or reduced on, once each. -/
def lookaheads : List (Option τ) :=
  addNew [] (row.shifts.map (fun entry => some entry.1) ++ row.reductions.flatMap Prod.snd)

/-- The states one symbol away. -/
def targets : List Nat :=
  row.shifts.map Prod.snd ++ row.gotos.map Prod.snd

end Row

/-- The row of a state; a number that names no state has an empty row. -/
def Table.row {τ ν π : Type} (table : Table τ ν π) (state : Nat) : Row τ ν π :=
  table.rows[state]?.getD {}

namespace Grammar

variable {τ ν π : Type} [DecidableEq τ] [DecidableEq ν] [DecidableEq π] (g : Grammar τ ν π)

def stateOf (kernels : List (List (Item π))) (kernel : List (Item π)) : Nat :=
  kernels.findIdx (sameItems kernel)

/-- The row of a kernel, given all kernels and all lookaheads that follow a rule. -/
def rowOf (kernels : List (List (Item π))) (follow : List (ν × Option τ))
    (kernel : List (Item π)) : Row τ ν π :=
  let items := g.closure kernel
  let edges := (g.expectedSymbols items).map fun x => (x, stateOf kernels (g.advance items x))
  { shifts := edges.filterMap fun
      | (.terminal t, target) => some (t, target)
      | (.rule _, _) => none
    gotos := edges.filterMap fun
      | (.terminal _, _) => none
      | (.rule r, target) => some (r, target)
    reductions := (g.completed items).map fun p =>
      (p, (follow.filter fun pair => pair.1 = g.lhs p).map Prod.snd) }

/-- The parse table of a grammar: the automaton of item sets, with a reduction on every lookahead
that can follow its rule. -/
def table : Table τ ν π :=
  let kernels := g.kernels
  let follow := g.follows
  ⟨(kernels.map (g.rowOf kernels follow)).toArray⟩

end Grammar

end Blockscript.Lr
