import Blockscript.Lr.Grammar

/-!
Items and the automaton of item sets.  A state is given by its kernel, the items that have just
been advanced; its closure adds the items of every rule that can begin at a dot.
-/

namespace Blockscript.Lr

/-- A production with a dot before its symbol number `dot`. -/
structure Item (π : Type) where
  production : π
  dot : Nat
deriving DecidableEq, Repr

namespace Grammar

variable {τ ν π : Type} [DecidableEq τ] [DecidableEq ν] [DecidableEq π] (g : Grammar τ ν π)

/-- The symbol after the dot. -/
def next? (item : Item π) : Option (Symbol τ ν) :=
  (g.rhs item.production)[item.dot]?

/-- The items of a rule with the dot in front. -/
def beginningItems (r : ν) : List (Item π) :=
  (g.alternatives r).map fun p => ⟨p, 0⟩

/-- The rules that stand after a dot. -/
def expectedRules (items : List (Item π)) : List ν :=
  items.filterMap fun item =>
    match g.next? item with
    | some (.rule r) => some r
    | _ => none

/-- A kernel together with the items of all rules that can begin at one of its dots. -/
def closure (kernel : List (Item π)) : List (Item π) :=
  addNew kernel ((g.predicted (g.expectedRules kernel)).flatMap g.beginningItems)

/-- The symbols that stand after a dot, once each. -/
def expectedSymbols (items : List (Item π)) : List (Symbol τ ν) :=
  addNew [] (items.filterMap g.next?)

/-- The items whose next symbol is `x`, with the dot moved past it. -/
def advance (items : List (Item π)) (x : Symbol τ ν) : List (Item π) :=
  (items.filter fun item => g.next? item = some x).map fun item => ⟨item.production, item.dot + 1⟩

/-- The productions whose dot has reached the end. -/
def completed (items : List (Item π)) : List π :=
  (items.filter fun item => (g.rhs item.production).length = item.dot).map Item.production

def startKernel : List (Item π) :=
  g.beginningItems g.start

/-- The kernels one symbol away. -/
def successors (kernel : List (Item π)) : List (List (Item π)) :=
  let items := g.closure kernel
  (g.expectedSymbols items).map (g.advance items)

/-- Two kernels name the same state when they hold the same items. -/
def sameItems (left right : List (Item π)) : Bool :=
  left.all (fun item => decide (item ∈ right)) && right.all (fun item => decide (item ∈ left))

/-- Keep the first of the candidates for every state that is not yet known. -/
def freshKernels (known : List (List (Item π))) :
    List (List (Item π)) → List (List (Item π))
  | [] => []
  | kernel :: rest =>
      if known.any (sameItems kernel) then freshKernels known rest
      else kernel :: freshKernels (kernel :: known) rest

/-- Expand the frontier round by round; a state enters the frontier once. -/
def explore : Nat → List (List (Item π)) → List (List (Item π)) → List (List (Item π))
  | 0, known, _ => known
  | rounds + 1, known, frontier =>
      let fresh := freshKernels known (frontier.flatMap g.successors)
      if fresh.isEmpty then known else explore rounds (known ++ fresh) fresh

/-- The kernels of all states, the initial one first.  There are at most as many states as sets of
items, and every round but the last finds one. -/
def kernels : List (List (Item π)) :=
  g.explore (Nat.pow 2 g.size) [g.startKernel] [g.startKernel]

end Grammar

end Blockscript.Lr
