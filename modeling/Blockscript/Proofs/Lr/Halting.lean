import Blockscript.Proofs.Lr.Outline
import Mathlib.Logic.Relation

/-!
The machine step by step, with no bound on its rounds.  A traced stack is never short
of the symbols that a reduction takes off, nor without a way on; and no stack whatever,
be it traced or not, goes on being reduced for ever.
-/

namespace Blockscript.Lr

variable {τ ν π : Type} {g : Grammar τ ν π} {a : Attribution g}

/-! ### Single steps -/

/-- What the machine does next with a lookahead. -/
inductive Move (a : Attribution g) where
  | shift (next : Stack a)
  | reduce (next : Stack a)
  | accept (meaning : a.Meaning g.start)
  | reject
  /-- The symbols of the production to be reduced are not on the stack. -/
  | short
  /-- The rule that has been reduced leads nowhere. -/
  | lost

variable [DecidableEq τ] [DecidableEq ν]

/-- Reduce a production, or accept. -/
def Stack.reduceBy (table : Table τ ν π) (stack : Stack a) (lookahead : Option a.Token) (p : π) :
    Move a :=
  (Stack.pop (g.rhs p) stack).elim .short fun parts =>
    if h : lookahead.isNone = true ∧ parts.2.isEmpty = true ∧ g.lhs p = g.start then
      .accept (h.2.2 ▸ a.interpret p parts.1)
    else
      ((table.row (Stack.top parts.2)).goto? (g.lhs p)).elim .lost fun target =>
        .reduce (⟨target, .rule (g.lhs p), a.interpret p parts.1⟩ :: parts.2)

/-- One step of the machine: a shift if there is one, else a reduction if there is one. -/
def Stack.move (table : Table τ ν π) (stack : Stack a) (lookahead : Option a.Token) : Move a :=
  let row := table.row stack.top
  (lookahead.bind fun token => (row.shift? (a.kind token)).map fun target => (token, target)).elim
    ((row.reduction? (lookahead.map a.kind)).elim .reject (stack.reduceBy table lookahead))
    fun edge => .shift (⟨edge.2, .terminal (a.kind edge.1), edge.1⟩ :: stack)

variable {table : Table τ ν π}

/-- When the machine makes each of its moves. -/
inductive Stack.Moves (table : Table τ ν π) (stack : Stack a) :
    Option a.Token → Move a → Prop
  | shift {token : a.Token} {target : Nat}
      (hshift : (table.row stack.top).shift? (a.kind token) = some target) :
      Moves table stack (some token)
        (.shift (⟨target, .terminal (a.kind token), token⟩ :: stack))
  | reject {lookahead : Option a.Token}
      (hshift : ∀ token ∈ lookahead, (table.row stack.top).shift? (a.kind token) = none)
      (hreduce : (table.row stack.top).reduction? (lookahead.map a.kind) = none) :
      Moves table stack lookahead .reject
  | accept {p : π} {meanings : Meanings a.Token a.Meaning (g.rhs p)}
      (hreduce : (table.row stack.top).reduction? none = some p)
      (hpop : Stack.pop (g.rhs p) stack = some (meanings, []))
      (hstart : g.lhs p = g.start) :
      Moves table stack none (.accept (hstart ▸ a.interpret p meanings))
  | reduce {lookahead : Option a.Token} {p : π} {below : Stack a}
      {meanings : Meanings a.Token a.Meaning (g.rhs p)} {target : Nat}
      (hshift : ∀ token ∈ lookahead, (table.row stack.top).shift? (a.kind token) = none)
      (hreduce : (table.row stack.top).reduction? (lookahead.map a.kind) = some p)
      (hpop : Stack.pop (g.rhs p) stack = some (meanings, below))
      (hgoes : ¬ (lookahead.isNone = true ∧ below.isEmpty = true ∧ g.lhs p = g.start))
      (hgoto : (table.row (Stack.top below)).goto? (g.lhs p) = some target) :
      Moves table stack lookahead
        (.reduce (⟨target, .rule (g.lhs p), a.interpret p meanings⟩ :: below))
  | short {lookahead : Option a.Token} {p : π}
      (hshift : ∀ token ∈ lookahead, (table.row stack.top).shift? (a.kind token) = none)
      (hreduce : (table.row stack.top).reduction? (lookahead.map a.kind) = some p)
      (hpop : Stack.pop (g.rhs p) stack = none) : Moves table stack lookahead .short
  | lost {lookahead : Option a.Token} {p : π} {below : Stack a}
      {meanings : Meanings a.Token a.Meaning (g.rhs p)}
      (hshift : ∀ token ∈ lookahead, (table.row stack.top).shift? (a.kind token) = none)
      (hreduce : (table.row stack.top).reduction? (lookahead.map a.kind) = some p)
      (hpop : Stack.pop (g.rhs p) stack = some (meanings, below))
      (hgoes : ¬ (lookahead.isNone = true ∧ below.isEmpty = true ∧ g.lhs p = g.start))
      (hgoto : (table.row (Stack.top below)).goto? (g.lhs p) = none) :
      Moves table stack lookahead .lost

theorem Stack.moves_reduceBy {stack : Stack a} {lookahead : Option a.Token} {p : π}
    (hshift : ∀ token ∈ lookahead, (table.row stack.top).shift? (a.kind token) = none)
    (hreduce : (table.row stack.top).reduction? (lookahead.map a.kind) = some p) :
    stack.Moves table lookahead (stack.reduceBy table lookahead p) := by
  rw [Stack.reduceBy]
  cases hpop : Stack.pop (g.rhs p) stack with
  | none => exact .short hshift hreduce hpop
  | some parts =>
      obtain ⟨meanings, below⟩ := parts
      rw [Option.elim_some]
      split
      · rename_i haccept
        obtain ⟨hnone, hempty, hstart⟩ := haccept
        obtain rfl := Option.isNone_iff_eq_none.mp hnone
        obtain rfl := List.isEmpty_iff.mp hempty
        exact .accept hreduce hpop hstart
      · rename_i hgoes
        cases hgoto : (table.row (Stack.top below)).goto? (g.lhs p) with
        | none => exact .lost hshift hreduce hpop hgoes hgoto
        | some target => exact .reduce hshift hreduce hpop hgoes hgoto

theorem Stack.moves_move (table : Table τ ν π) (stack : Stack a) (lookahead : Option a.Token) :
    stack.Moves table lookahead (stack.move table lookahead) := by
  rw [Stack.move]
  cases hfound : (lookahead.bind fun token =>
    ((table.row stack.top).shift? (a.kind token)).map fun target => (token, target)) with
  | some edge =>
      obtain ⟨rfl, hshift⟩ := bind_shift?_eq_some_iff.mp hfound
      exact .shift hshift
  | none =>
      have hshift := bind_shift?_eq_none_iff.mp hfound
      cases hreduce : (table.row stack.top).reduction? (lookahead.map a.kind) with
      | none => exact .reject hshift hreduce
      | some p => exact Stack.moves_reduceBy hshift hreduce

/-- Feeding a lookahead goes on from step to step. -/
theorem Stack.feedWithin_succ (rounds : Nat) (stack : Stack a) (lookahead : Option a.Token) :
    Stack.feedWithin table (rounds + 1) stack lookahead =
      match stack.move table lookahead with
      | .shift next => .shifted next
      | .reduce next => Stack.feedWithin table rounds next lookahead
      | .accept meaning => .accepted meaning
      | .reject => .rejected stack
      | .short | .lost => .derailed stack := by
  have hmoves := stack.moves_move table lookahead
  generalize stack.move table lookahead = move at hmoves
  cases hmoves with
  | shift hshift => simp only [Stack.feedWithin, Option.bind_some, hshift, Option.map_some]
  | reject hshift hreduce =>
      rw [Stack.feedWithin, bind_shift?_eq_none_iff.mpr hshift]
      simp only [hreduce]
  | accept hreduce hpop hstart =>
      rw [Stack.feedWithin]
      simp only [Option.bind_none, Option.map_none, hreduce, hpop, Option.isNone_none,
        List.isEmpty_nil, hstart, and_self, ↓reduceDIte]
  | reduce hshift hreduce hpop hgoes hgoto =>
      rw [Stack.feedWithin, bind_shift?_eq_none_iff.mpr hshift]
      simp only [hreduce, hpop, hgoes, ↓reduceDIte, hgoto]
  | short hshift hreduce hpop =>
      rw [Stack.feedWithin, bind_shift?_eq_none_iff.mpr hshift]
      simp only [hreduce, hpop]
  | lost hshift hreduce hpop hgoes hgoto =>
      rw [Stack.feedWithin, bind_shift?_eq_none_iff.mpr hshift]
      simp only [hreduce, hpop, hgoes, ↓reduceDIte, hgoto]

theorem Stack.Moves.exists_token {stack next : Stack a} {lookahead : Option a.Token}
    (hmoves : stack.Moves table lookahead (.shift next)) : ∃ token, lookahead = some token := by
  cases hmoves with
  | shift hshift => exact ⟨_, rfl⟩

/-- The step that ends in an outcome. -/
def Outcome.EndsWith (table : Table τ ν π) (left : Stack a) (lookahead : Option a.Token) :
    Outcome a → Prop
  | .shifted next => left.move table lookahead = .shift next
  | .accepted meaning => left.move table lookahead = .accept meaning
  | .rejected stack => stack = left ∧ left.move table lookahead = .reject
  | .derailed _ => False

/-- A lookahead that does not derail the machine takes it through a number of reductions
and one last step. -/
theorem Stack.exists_reductions {rounds : Nat} {stack : Stack a} {lookahead : Option a.Token}
    {outcome : Outcome a} (hfeed : Stack.feedWithin table rounds stack lookahead = outcome)
    (hon : ∀ left, outcome ≠ .derailed left) :
    ∃ left, Relation.ReflTransGen
        (fun stack next => Stack.move table stack lookahead = .reduce next) stack left ∧
      outcome.EndsWith table left lookahead := by
  induction rounds generalizing stack with
  | zero => exact absurd hfeed.symm (hon stack)
  | succ rounds ih =>
      rw [Stack.feedWithin_succ] at hfeed
      split at hfeed
      · rename_i next hmove
        subst hfeed
        exact ⟨stack, .refl, hmove⟩
      · rename_i next hmove
        obtain ⟨left, hreductions, hends⟩ := ih hfeed
        exact ⟨left, .head hmove hreductions, hends⟩
      · rename_i meaning hmove
        subst hfeed
        exact ⟨stack, .refl, hmove⟩
      · rename_i hmove
        subst hfeed
        exact ⟨stack, .refl, rfl, hmove⟩
      · exact absurd hfeed.symm (hon stack)
      · exact absurd hfeed.symm (hon stack)

/-! ### Traced stacks -/

theorem Stack.Moves.traced_of_shift {stack next : Stack a} {lookahead : Option a.Token}
    (hmoves : stack.Moves table lookahead (.shift next)) (htraced : Stack.Traced table stack) :
    Stack.Traced table next := by
  cases hmoves with
  | shift hshift => exact .cons htraced hshift

theorem Stack.Moves.traced_of_reduce {stack next : Stack a} {lookahead : Option a.Token}
    (hmoves : stack.Moves table lookahead (.reduce next)) (htraced : Stack.Traced table stack) :
    Stack.Traced table next := by
  cases hmoves with
  | reduce hshift hreduce hpop hgoes hgoto => exact .cons (htraced.of_pop hpop) hgoto

variable [DecidableEq π] {rank : ν → Nat}

/-- A traced stack holds what is taken off it, and its rules lead on. -/
theorem Stack.Moves.ne_of_traced (hground : Grounded g table rank) {stack : Stack a}
    {lookahead : Option a.Token} {move : Move a} (hmoves : stack.Moves table lookahead move)
    (htraced : Stack.Traced table stack) : move ≠ .short ∧ move ≠ .lost := by
  cases hmoves with
  | short hshift hreduce hnone =>
      obtain ⟨meanings, below, hpop, -, -⟩ :=
        htraced.exists_reduction hground (Table.finishes_of_reduction? hreduce)
      rw [hpop] at hnone
      contradiction
  | lost hshift hreduce hpop hgoes hnone =>
      obtain ⟨meanings, below, hsame, -, hway⟩ :=
        htraced.exists_reduction hground (Table.finishes_of_reduction? hreduce)
      rw [hpop] at hsame
      cases hsame
      rcases hway with ⟨hempty, hstart⟩ | ⟨target, hgoto⟩
      · have hend := Option.map_eq_none_iff.mp (hground.ending _ _ _ hreduce hstart)
        exact absurd ⟨by simp [hend], by simp [hempty], hstart⟩ hgoes
      · rw [Table.target?, hnone] at hgoto
        contradiction
  | shift | reject | accept | reduce => simp

/-! ### Any states whatever -/

/-- A reduction as far as states go: as many are taken off as the production of the top
one has symbols, and its rule leads on from the state below.  Nothing is asked of the
states, nor of the lookahead. -/
inductive Table.Reduces (g : Grammar τ ν π) (table : Table τ ν π) : List Nat → List Nat → Prop
  | intro {top state target : Nat} {states below : List Nat} {lookahead : Option τ} {p : π}
      (hreduce : (table.row top).reduction? lookahead = some p)
      (hbelow : (top :: states).drop (g.rhs p).length = state :: below)
      (hgoto : (table.row state).goto? (g.lhs p) = some target) :
      Reduces g table (top :: states) (target :: state :: below)

omit [DecidableEq τ] [DecidableEq ν] [DecidableEq π] in
theorem Stack.exists_states (stack : Stack a) : ∃ rest, stack.states = stack.top :: rest := by
  cases stack with
  | nil => exact ⟨[], rfl⟩
  | cons frame below => exact ⟨_, rfl⟩

omit [DecidableEq π] in
theorem Stack.states_of_pop {symbols : List (Symbol τ ν)} {stack below : Stack a}
    {meanings : Meanings a.Token a.Meaning symbols}
    (hpop : Stack.pop symbols stack = some (meanings, below)) :
    stack.states.drop symbols.length = Stack.states below := by
  obtain ⟨taken, rfl, htaken⟩ := Stack.exists_of_pop hpop
  have hlength : symbols.length = (taken.map Frame.state).length := by
    rw [← List.length_reverse, ← htaken, List.length_map, List.length_map]
  rw [Stack.states, List.map_append, List.append_assoc, hlength, List.drop_left]
  rfl

omit [DecidableEq π] in
/-- The machine reduces its states. -/
theorem Stack.Moves.reduces {stack next : Stack a} {lookahead : Option a.Token}
    (hmoves : stack.Moves table lookahead (.reduce next)) :
    table.Reduces g stack.states next.states := by
  cases hmoves with
  | @reduce _ p below meanings target hshift hreduce hpop hgoes hgoto =>
      obtain ⟨rest, hrest⟩ := stack.exists_states
      obtain ⟨under, hunder⟩ := Stack.exists_states below
      have hdrop := Stack.states_of_pop hpop
      rw [hrest, hunder] at hdrop
      change table.Reduces g stack.states (target :: Stack.states below)
      rw [hrest, hunder]
      exact .intro hreduce hdrop hgoto

omit [DecidableEq π] in
/-- A reduction leaves fewer states, or it replaces the top one. -/
theorem Table.Reduces.shorter_or {order : Symbol τ ν → Nat} (horder : Descending g table order)
    {states next : List Nat} (hreduces : table.Reduces g states next) :
    next.length < states.length ∨
      ∃ top rest state target lookahead p x, states = top :: rest ∧ next = target :: rest ∧
        (table.row top).reduction? lookahead = some p ∧ g.rhs p = [x] ∧
        table.target? state (.rule (g.lhs p)) = some target := by
  cases hreduces with
  | @intro top state target rest below lookahead p hreduce hbelow hgoto =>
      have hlength := congrArg List.length hbelow
      simp only [List.length_drop, List.length_cons] at hlength ⊢
      rcases hrhs : g.rhs p with _ | ⟨x, _ | ⟨y, more⟩⟩
      · rw [horder.empty p _ hrhs] at hgoto
        contradiction
      · refine .inr ⟨top, rest, state, target, lookahead, p, x, rfl, ?_, hreduce, hrhs, hgoto⟩
        rw [hrhs] at hbelow
        rw [← hbelow]
        rfl
      · rw [hrhs] at hlength
        simp only [List.length_cons] at hlength
        omega

/-- Every symbol that the top state completes by itself has a rank below `bound`. -/
def Table.SinglesBelow (g : Grammar τ ν π) (table : Table τ ν π) (order : Symbol τ ν → Nat)
    (bound : Nat) (states : List Nat) : Prop :=
  ∀ top ∈ states.head?, ∀ lookahead p x, (table.row top).reduction? lookahead = some p →
    g.rhs p = [x] → order x < bound

omit [DecidableEq π] in
theorem Table.singlesBelow {order : Symbol τ ν → Nat} (horder : Descending g table order)
    (states : List Nat) : table.SinglesBelow g order (g.productions.length + 1) states := by
  intro top _ lookahead p x _ _
  exact Nat.lt_succ_of_le (horder.bounded x)

/-- A state that is entered by a rule completes no other symbol by itself than this
rule. -/
theorem Table.singlesBelow_of_edge (hground : Grounded g table rank)
    (order : Symbol τ ν → Nat) {state target : Nat} {r : ν}
    (hedge : table.target? state (.rule r) = some target) {bound : Nat}
    (hbound : order (.rule r) < bound) (rest : List Nat) :
    table.SinglesBelow g order bound (target :: rest) := by
  rintro _ ⟨⟩ lookahead p x hreduce hrhs
  obtain rfl := hground.passed _ _ _ hedge p [] x [] hrhs (Table.finishes_of_reduction? hreduce)
  exact hbound

theorem Table.acc_reduces (hground : Grounded g table rank) {order : Symbol τ ν → Nat}
    (horder : Descending g table order) {states : List Nat} {bound : Nat}
    (hbelow : table.SinglesBelow g order bound states) :
    Acc (fun next states => table.Reduces g states next) states := by
  -- The induction is on the number of states, and among as many of them on the rank of
  -- what the top one completes.
  induction hlength : states.length using Nat.strongRecOn generalizing states bound with
  | ind length ihLength =>
      induction bound using Nat.strongRecOn generalizing states with
      | ind bound ihBound =>
          constructor
          intro next hreduces
          rcases hreduces.shorter_or horder with hshorter |
            ⟨top, rest, state, target, lookahead, p, x, rfl, rfl, hreduce, hrhs, hedge⟩
          · exact ihLength next.length (hlength ▸ hshorter) (Table.singlesBelow horder next) rfl
          · have hless : order x < bound := hbelow top rfl lookahead p x hreduce hrhs
            have hlower := horder.single p x hrhs
            exact ihBound (order x) hless
              (Table.singlesBelow_of_edge hground order hedge hlower rest) hlength

/-- No states whatever can be reduced for ever, under any lookaheads. -/
theorem Table.wellFounded_reduces (hground : Grounded g table rank) {order : Symbol τ ν → Nat}
    (horder : Descending g table order) :
    WellFounded fun next states => table.Reduces g states next :=
  ⟨fun states => Table.acc_reduces hground horder (Table.singlesBelow horder states)⟩

end Blockscript.Lr
