import Blockscript.Lr.Table

/-!
The shift/reduce machine.  Every symbol has a type of meanings, the stack holds a meaning for each of
its symbols, and every production says how the meanings of its symbols give one of its rule.
-/

namespace Blockscript.Lr

/-- The meanings of a symbol: a terminal means its token. -/
def Carrier {τ ν : Type} (κ : Type) (M : ν → Type) : Symbol τ ν → Type
  | .terminal _ => κ
  | .rule r => M r

/-- One meaning for each symbol of a list. -/
def Meanings {τ ν : Type} (κ : Type) (M : ν → Type) : List (Symbol τ ν) → Type
  | [] => Unit
  | x :: xs => Carrier κ M x × Meanings κ M xs

/-- What the words of a grammar mean: tokens with their kinds, a type of meanings for each rule, and
the meaning that each production gives to its rule. -/
structure Attribution {τ ν π : Type} (g : Grammar τ ν π) where
  Token : Type
  kind : Token → τ
  Meaning : ν → Type
  interpret : (p : π) → Meanings Token Meaning (g.rhs p) → Meaning (g.lhs p)

/-- A symbol on the stack, its meaning, and the state entered with it. -/
structure Frame {τ ν π : Type} {g : Grammar τ ν π} (a : Attribution g) where
  state : Nat
  symbol : Symbol τ ν
  meaning : Carrier a.Token a.Meaning symbol

/-- The stack, its top first. -/
abbrev Stack {τ ν π : Type} {g : Grammar τ ν π} (a : Attribution g) : Type :=
  List (Frame a)

/-- What becomes of one lookahead.  A machine derails when its table asks for symbols that are not
on the stack, or sends a rule nowhere. -/
inductive Outcome {τ ν π : Type} {g : Grammar τ ν π} (a : Attribution g) where
  | shifted (stack : Stack a)
  | accepted (meaning : a.Meaning g.start)
  | rejected (stack : Stack a)
  | derailed (stack : Stack a)

variable {τ ν π : Type} {g : Grammar τ ν π} {a : Attribution g}

/-- The states on the stack, the top first and the initial one last. -/
def Stack.states (stack : Stack a) : List Nat :=
  stack.map Frame.state ++ [0]

def Stack.top (stack : Stack a) : Nat :=
  match stack with
  | [] => 0
  | frame :: _ => frame.state

variable [DecidableEq τ] [DecidableEq ν]

/-- Take the given symbols off the stack, the last of them on top. -/
def Stack.pop : (symbols : List (Symbol τ ν)) → Stack a →
    Option (Meanings a.Token a.Meaning symbols × Stack a)
  | [], stack => some ((), stack)
  | x :: xs, stack =>
      match Stack.pop xs stack with
      | some (meanings, frame :: rest) =>
          if h : frame.symbol = x then some ((h ▸ frame.meaning, meanings), rest) else none
      | _ => none

/-- Reduce while the table says so, then shift, accept or reject the lookahead.  Reducing a start
production over an empty stack at the end of the input accepts. -/
def Stack.feedWithin (table : Table τ ν π) : Nat → Stack a → Option a.Token → Outcome a
  | 0, stack, _ => .derailed stack
  | rounds + 1, stack, lookahead =>
      let row := table.row stack.top
      match lookahead.bind fun token => (row.shift? (a.kind token)).map fun target => (token, target) with
      | some (token, target) => .shifted (⟨target, .terminal (a.kind token), token⟩ :: stack)
      | none =>
        match row.reduction? (lookahead.map a.kind) with
        | none => .rejected stack
        | some p =>
          match Stack.pop (g.rhs p) stack with
          | none => .derailed stack
          | some (meanings, rest) =>
            let meaning := a.interpret p meanings
            if h : lookahead.isNone = true ∧ rest.isEmpty = true ∧ g.lhs p = g.start then
              .accepted (h.2.2 ▸ meaning)
            else
              match (table.row (Stack.top rest)).goto? (g.lhs p) with
              | none => .derailed stack
              | some target =>
                  Stack.feedWithin table rounds (⟨target, .rule (g.lhs p), meaning⟩ :: rest) lookahead

/-- Feed one lookahead, or the end of the input.  A reduction of two or more symbols shortens the
stack, and between two such reductions each rule is entered at most once, which bounds the rounds. -/
def Stack.feed (table : Table τ ν π) (stack : Stack a) (lookahead : Option a.Token) : Outcome a :=
  Stack.feedWithin table ((stack.length + 1) * (g.productions.length + 1)) stack lookahead

end Blockscript.Lr
