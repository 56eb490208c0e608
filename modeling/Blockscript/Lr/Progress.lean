import Blockscript.Lr.Table

/-!
Rules left unfinished in a state, read off a table that no longer holds items.  A production that is
completed after a walk shorter than itself was begun before the walk, so an item of it stands in the
state where the walk started.
-/

namespace Blockscript.Lr

namespace Table

variable {τ ν π : Type} [DecidableEq ν] (g : Grammar τ ν π) (table : Table τ ν π)

/-- The states one symbol beyond a layer, once each. -/
def beyond (layer : List Nat) : List Nat :=
  addNew [] (layer.flatMap fun state => (table.row state).targets)

/-- The productions completed in a layer that are longer than the walk to it, as their rule and the
number of symbols read before the walk. -/
def overhang (depth : Nat) (layer : List Nat) : List (ν × Nat) :=
  layer.flatMap fun state => (table.row state).reductions.filterMap fun entry =>
    let length := (g.rhs entry.1).length
    if 0 < depth ∧ depth < length then some (g.lhs entry.1, length - depth) else none

/-- What the walk finds in the layers from `depth` on. -/
def walk : Nat → Nat → List Nat → List (ν × Nat)
  | 0, _, _ => []
  | rounds + 1, depth, layer =>
      overhang g table depth layer ++ walk rounds (depth + 1) (beyond table layer)

/-- The largest progress noted for a rule. -/
def furthest (r : ν) (found : List (ν × Nat)) : Nat :=
  found.foldl (fun most entry => if entry.1 = r then max most entry.2 else most) 0

/-- The rules begun and not completed in a state, each with the most symbols read of it.  No
production is longer than the longest, so the walk stops there. -/
def unfinished (state : Nat) : List (ν × Nat) :=
  let found := walk g table g.longest 0 [state]
  (addNew [] (found.map Prod.fst)).map fun r => (r, furthest r found)

end Table

end Blockscript.Lr
