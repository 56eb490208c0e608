/-!
Context-free grammars whose productions are named by a type, with the sets that a parse table is
computed from: the rules predicted by a rule, the rules that derive the empty word, the terminals
that begin a rule, and the lookaheads that may follow it.
-/

namespace Blockscript.Lr

/-- A grammar symbol: a terminal, or the name of a rule. -/
inductive Symbol (τ ν : Type) where
  | terminal (t : τ)
  | rule (r : ν)
deriving DecidableEq, Repr

/-- A context-free grammar.  The productions are values of `π`, so a parse tree can name the
production used at each of its nodes. -/
structure Grammar (τ ν π : Type) where
  start : ν
  productions : List π
  lhs : π → ν
  rhs : π → List (Symbol τ ν)

/-- Append the elements of `new` that are not yet present, in order and once each. -/
def addNew {α : Type} [DecidableEq α] (known : List α) : List α → List α
  | [] => known
  | x :: new => if x ∈ known then addNew known new else addNew (known ++ [x]) new

/-- Add what `grow` finds until nothing new appears, for at most the given number of rounds. -/
def saturate {α : Type} [DecidableEq α] (grow : List α → List α) : Nat → List α → List α
  | 0, known => known
  | rounds + 1, known =>
      let larger := addNew known (grow known)
      if larger.length = known.length then known else saturate grow rounds larger

namespace Grammar

variable {τ ν π : Type} [DecidableEq τ] [DecidableEq ν] (g : Grammar τ ν π)

def alternatives (r : ν) : List π :=
  g.productions.filter fun p => g.lhs p = r

/-- The number of items of the grammar. -/
def size : Nat :=
  g.productions.foldl (fun n p => n + (g.rhs p).length + 1) 0

/-- The length of the longest right-hand side. -/
def longest : Nat :=
  g.productions.foldl (fun n p => max n (g.rhs p).length) 0

/-- The rules that stand first in some production of `r`. -/
def leads (r : ν) : List ν :=
  (g.alternatives r).filterMap fun p =>
    match g.rhs p with
    | .rule s :: _ => some s
    | _ => none

/-- All rules that can begin where one of `rules` begins.  A chain of distinct rules is at most as
long as the list of productions, so that many rounds suffice. -/
def predicted (rules : List ν) : List ν :=
  saturate (fun known => known.flatMap g.leads) g.productions.length (addNew [] rules)

/-- Whether every symbol is a rule of `empty`. -/
def allIn (empty : List ν) (symbols : List (Symbol τ ν)) : Bool :=
  symbols.all fun
    | .terminal _ => false
    | .rule r => decide (r ∈ empty)

/-- The rules that derive the empty word. -/
def nullable : List ν :=
  saturate (fun known => (g.productions.filter fun p => allIn known (g.rhs p)).map g.lhs)
    g.productions.length []

/-- The terminals that can begin a word of `symbols`, given those known to begin each rule. -/
def beginnings (empty : List ν) (known : List (ν × τ)) : List (Symbol τ ν) → List τ
  | [] => []
  | .terminal t :: _ => [t]
  | .rule r :: rest =>
      let here := (known.filter fun pair => pair.1 = r).map Prod.snd
      if r ∈ empty then here ++ beginnings empty known rest else here

/-- Pairs of a rule and a terminal that can begin it. -/
def firsts : List (ν × τ) :=
  let empty := g.nullable
  saturate
    (fun known => g.productions.flatMap fun p =>
      (beginnings empty known (g.rhs p)).map fun t => (g.lhs p, t))
    g.productions.length []

/-- What can follow each rule of a right-hand side: the beginnings of the rest, and what follows
the whole when the rest can be empty. -/
def followersIn (empty : List ν) (first : List (ν × τ)) (after : List (Option τ)) :
    List (Symbol τ ν) → List (ν × Option τ)
  | [] => []
  | .terminal _ :: rest => followersIn empty first after rest
  | .rule r :: rest =>
      let next := (beginnings empty first rest).map some
      let next := if allIn empty rest then next ++ after else next
      next.map (fun t => (r, t)) ++ followersIn empty first after rest

/-- Pairs of a rule and a lookahead that can follow it; `none` is the end of the input. -/
def follows : List (ν × Option τ) :=
  let empty := g.nullable
  let first := g.firsts
  saturate
    (fun known => g.productions.flatMap fun p =>
      let after := (known.filter fun pair => pair.1 = g.lhs p).map Prod.snd
      followersIn empty first after (g.rhs p))
    g.productions.length [(g.start, none)]

end Grammar

end Blockscript.Lr
