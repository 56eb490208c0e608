import Blockscript.Lr.Machine

/-!
Runs of the shift/reduce machine without a bound on their rounds, and the proof
that the machine's own bound is enough: a reduction of several symbols shortens
the stack, and one of a single symbol lowers the rank of its top.
-/

namespace Blockscript.Lr

variable {τ ν π : Type} {g : Grammar τ ν π} {a : Attribution g}

section Lookup

variable [DecidableEq τ]

/-- A lookahead that the machine finds no shift for. -/
theorem bind_shift?_eq_none_iff {row : Row τ ν π} {lookahead : Option a.Token} :
    (lookahead.bind fun token => (row.shift? (a.kind token)).map fun target =>
      (token, target)) = none ↔ ∀ token ∈ lookahead, row.shift? (a.kind token) = none := by
  cases lookahead <;> simp

theorem bind_shift?_eq_some_iff {row : Row τ ν π} {lookahead : Option a.Token}
    {token : a.Token} {target : Nat} :
    (lookahead.bind fun token => (row.shift? (a.kind token)).map fun target =>
      (token, target)) = some (token, target) ↔
    lookahead = some token ∧ row.shift? (a.kind token) = some target := by
  cases lookahead with
  | none => simp
  | some read =>
      simp only [Option.bind_some, Option.map_eq_some_iff, Prod.mk.injEq,
        Option.some.injEq]
      constructor
      · rintro ⟨_, hshift, rfl, rfl⟩
        exact ⟨rfl, hshift⟩
      · rintro ⟨rfl, hshift⟩
        exact ⟨target, hshift, rfl, rfl⟩

end Lookup

variable [DecidableEq τ] [DecidableEq ν]

/-- What feeding a lookahead comes to when the machine does not derail. -/
inductive Stack.Feeds (table : Table τ ν π) :
    Stack a → Option a.Token → Outcome a → Prop
  | shift {stack : Stack a} {token : a.Token} {target : Nat}
      (hshift : (table.row stack.top).shift? (a.kind token) = some target) :
      Feeds table stack (some token)
        (.shifted (⟨target, .terminal (a.kind token), token⟩ :: stack))
  | reject {stack : Stack a} {lookahead : Option a.Token}
      (hshift : ∀ token ∈ lookahead, (table.row stack.top).shift? (a.kind token) = none)
      (hreduce : (table.row stack.top).reduction? (lookahead.map a.kind) = none) :
      Feeds table stack lookahead (.rejected stack)
  | accept {stack : Stack a} {p : π} {meanings : Meanings a.Token a.Meaning (g.rhs p)}
      (hreduce : (table.row stack.top).reduction? none = some p)
      (hpop : Stack.pop (g.rhs p) stack = some (meanings, []))
      (hstart : g.lhs p = g.start) :
      Feeds table stack none (.accepted (hstart ▸ a.interpret p meanings))
  | reduce {stack below : Stack a} {lookahead : Option a.Token} {p : π}
      {meanings : Meanings a.Token a.Meaning (g.rhs p)} {target : Nat} {outcome : Outcome a}
      (hshift : ∀ token ∈ lookahead, (table.row stack.top).shift? (a.kind token) = none)
      (hreduce : (table.row stack.top).reduction? (lookahead.map a.kind) = some p)
      (hpop : Stack.pop (g.rhs p) stack = some (meanings, below))
      (hgoes : ¬ (lookahead.isNone = true ∧ below.isEmpty = true ∧ g.lhs p = g.start))
      (hgoto : (table.row (Stack.top below)).goto? (g.lhs p) = some target)
      (hrest : Feeds table (⟨target, .rule (g.lhs p), a.interpret p meanings⟩ :: below)
        lookahead outcome) :
      Feeds table stack lookahead outcome

variable {table : Table τ ν π}

/-- A run rejects, or it accepts the end of the input, or it shifts a token. -/
theorem Stack.Feeds.cases_outcome {stack : Stack a} {lookahead : Option a.Token}
    {outcome : Outcome a} (hfeeds : Stack.Feeds table stack lookahead outcome) :
    (∃ left, outcome = .rejected left) ∨
      (lookahead = none ∧ ∃ meaning, outcome = .accepted meaning) ∨
      ∃ token next, lookahead = some token ∧ outcome = .shifted next := by
  induction hfeeds with
  | shift hshift => exact .inr (.inr ⟨_, _, rfl, rfl⟩)
  | reject hshift hreduce => exact .inl ⟨_, rfl⟩
  | accept hreduce hpop hstart => exact .inr (.inl ⟨rfl, _, rfl⟩)
  | reduce hshift hreduce hpop hgoes hgoto hrest ih => exact ih

theorem Stack.Feeds.ne_derailed {stack : Stack a} {lookahead : Option a.Token}
    {outcome : Outcome a} (hfeeds : Stack.Feeds table stack lookahead outcome) (left : Stack a) :
    outcome ≠ .derailed left := by
  rcases hfeeds.cases_outcome with ⟨_, rfl⟩ | ⟨-, _, rfl⟩ | ⟨_, _, -, rfl⟩ <;> exact nofun

/-- A bounded run that does not derail is a run. -/
theorem Stack.feeds_of_feedWithin {rounds : Nat} {stack : Stack a}
    {lookahead : Option a.Token} {outcome : Outcome a}
    (hfeed : Stack.feedWithin table rounds stack lookahead = outcome)
    (hon : ∀ left, outcome ≠ .derailed left) :
    Stack.Feeds table stack lookahead outcome := by
  induction rounds generalizing stack with
  | zero => exact absurd hfeed.symm (hon stack)
  | succ rounds ih =>
      rw [Stack.feedWithin] at hfeed
      split at hfeed
      · rename_i token target hfound
        obtain ⟨rfl, hshift⟩ := bind_shift?_eq_some_iff.mp hfound
        subst hfeed
        exact .shift hshift
      · rename_i hfound
        have hshift := bind_shift?_eq_none_iff.mp hfound
        split at hfeed
        · rename_i hreduce
          subst hfeed
          exact .reject hshift hreduce
        · rename_i p hreduce
          split at hfeed
          · exact absurd hfeed.symm (hon stack)
          · rename_i meanings below hpop
            split at hfeed
            · rename_i haccept
              obtain ⟨hnone, hempty, hstart⟩ := haccept
              obtain rfl := Option.isNone_iff_eq_none.mp hnone
              obtain rfl := List.isEmpty_iff.mp hempty
              subst hfeed
              exact .accept hreduce hpop hstart
            · rename_i hgoes
              split at hfeed
              · exact absurd hfeed.symm (hon stack)
              · rename_i target hgoto
                exact .reduce hshift hreduce hpop hgoes hgoto (ih hfeed)

/-! ### Lookaheads and shifts -/

theorem mem_addNew {α : Type} [DecidableEq α] {known new : List α} {x : α} :
    x ∈ addNew known new ↔ x ∈ known ∨ x ∈ new := by
  induction new generalizing known with
  | nil => simp [addNew]
  | cons y new ih =>
      rw [addNew]
      split
      · rename_i hy
        rw [ih, List.mem_cons]
        constructor
        · rintro (hknown | hnew)
          · exact .inl hknown
          · exact .inr (.inr hnew)
        · rintro (hknown | rfl | hnew)
          · exact .inl hknown
          · exact .inl hy
          · exact .inr hnew
      · rw [ih, List.mem_append, List.mem_singleton, List.mem_cons, or_assoc]

omit [DecidableEq ν] in
theorem Row.mem_lookaheads_of_shift? {row : Row τ ν π} {t : τ} {target : Nat}
    (hshift : row.shift? t = some target) : some t ∈ row.lookaheads := by
  obtain ⟨before, behind, hshifts, -⟩ := List.lookup_eq_some_iff.mp hshift
  simp [Row.lookaheads, mem_addNew, hshifts]

omit [DecidableEq ν] in
theorem Row.mem_lookaheads_of_reduction? {row : Row τ ν π} {lookahead : Option τ} {p : π}
    (hreduce : row.reduction? lookahead = some p) : lookahead ∈ row.lookaheads := by
  simp only [Row.reduction?, Option.map_eq_some_iff] at hreduce
  obtain ⟨entry, hfind, -⟩ := hreduce
  have hentry := List.mem_of_find?_eq_some hfind
  have hlookahead := List.find?_some hfind
  simp only [decide_eq_true_eq] at hlookahead
  rw [Row.lookaheads, mem_addNew, List.mem_append]
  exact .inr (.inr (List.mem_flatMap.mpr ⟨entry, hentry, hlookahead⟩))

/-- A token that is shifted is a lookahead of the state that it is fed to. -/
theorem Stack.Feeds.mem_lookaheads {stack next : Stack a} {token : a.Token}
    (hfeeds : Stack.Feeds table stack (some token) (.shifted next)) :
    some (a.kind token) ∈ (table.row stack.top).lookaheads := by
  cases hfeeds with
  | shift hshift => exact Row.mem_lookaheads_of_shift? hshift
  | reduce hshift hreduce => exact Row.mem_lookaheads_of_reduction? hreduce

/-- A shift enters a state through an edge of its token. -/
theorem Stack.Feeds.exists_shift? {stack next : Stack a} {token : a.Token}
    (hfeeds : Stack.Feeds table stack (some token) (.shifted next)) :
    ∃ state, (table.row state).shift? (a.kind token) = some next.top := by
  generalize hlookahead : some token = lookahead at hfeeds
  generalize houtcome : Outcome.shifted next = outcome at hfeeds
  induction hfeeds with
  | @shift stack token target hshift =>
      cases hlookahead
      cases houtcome
      exact ⟨stack.top, hshift⟩
  | reject => contradiction
  | accept => contradiction
  | reduce hshift hreduce hpop hgoes hgoto hrest ih => exact ih hlookahead houtcome

/-! ### The bound on the rounds -/

/-- What is taken off a stack lies on top of what is left, the last symbol first. -/
theorem Stack.exists_of_pop {symbols : List (Symbol τ ν)} {stack below : Stack a}
    {meanings : Meanings a.Token a.Meaning symbols}
    (hpop : Stack.pop symbols stack = some (meanings, below)) :
    ∃ taken, stack = taken ++ below ∧ taken.map Frame.symbol = symbols.reverse := by
  induction symbols generalizing below with
  | nil =>
      cases hpop
      exact ⟨[], rfl, rfl⟩
  | cons x xs ih =>
      rw [Stack.pop] at hpop
      split at hpop
      · rename_i inner frame rest hinner
        split at hpop
        · rename_i hsymbol
          cases hpop
          obtain ⟨taken, rfl, htaken⟩ := ih hinner
          refine ⟨taken ++ [frame], by simp, ?_⟩
          simp [htaken, hsymbol]
        · contradiction
      · contradiction

theorem Stack.length_of_pop {symbols : List (Symbol τ ν)} {stack below : Stack a}
    {meanings : Meanings a.Token a.Meaning symbols}
    (hpop : Stack.pop symbols stack = some (meanings, below)) :
    stack.length = below.length + symbols.length := by
  obtain ⟨taken, rfl, htaken⟩ := Stack.exists_of_pop hpop
  have hlength := congrArg List.length htaken
  rw [List.length_map, List.length_reverse] at hlength
  rw [List.length_append, hlength, Nat.add_comm]

theorem Stack.pop_singleton {symbols : List (Symbol τ ν)} {x : Symbol τ ν}
    (hsymbols : symbols = [x]) {stack below : Stack a}
    {meanings : Meanings a.Token a.Meaning symbols}
    (hpop : Stack.pop symbols stack = some (meanings, below)) :
    ∃ frame, stack = frame :: below ∧ frame.symbol = x := by
  obtain ⟨taken, rfl, htaken⟩ := Stack.exists_of_pop hpop
  rw [hsymbols, List.reverse_singleton] at htaken
  obtain ⟨frame, rfl, hsymbol⟩ := List.map_eq_singleton_iff.mp htaken
  exact ⟨frame, rfl, hsymbol⟩

/-- Taking back a symbol that has just been pushed below `xs`. -/
theorem Stack.pop_cons {x : Symbol τ ν} {xs : List (Symbol τ ν)} {stack below : Stack a}
    {target : Nat} {meaning : Carrier a.Token a.Meaning x}
    {meanings : Meanings a.Token a.Meaning xs}
    (hpop : Stack.pop xs stack = some (meanings, ⟨target, x, meaning⟩ :: below)) :
    Stack.pop (x :: xs) stack = some ((meaning, meanings), below) := by
  rw [Stack.pop]
  simp only [hpop, ↓reduceDIte]
  rfl

/-- A rank of the symbols under which the machine cannot go on reducing: a
production of one symbol goes down, and one of no symbol leads nowhere. -/
structure Descending (g : Grammar τ ν π) (table : Table τ ν π)
    (rank : Symbol τ ν → Nat) : Prop where
  bounded : ∀ x, rank x ≤ g.productions.length
  single : ∀ p x, g.rhs p = [x] → rank (.rule (g.lhs p)) < rank x
  empty : ∀ p state, g.rhs p = [] → (table.row state).goto? (g.lhs p) = none

/-- The number of reductions that a stack leaves possible. -/
def Stack.weight (rank : Symbol τ ν → Nat) (stack : Stack a) : Nat :=
  match stack with
  | [] => 0
  | frame :: below =>
      (below.length + 1) * (g.productions.length + 1) + rank frame.symbol

omit [DecidableEq τ] in
theorem Stack.weight_lt {rank : Symbol τ ν → Nat} (hrank : Descending g table rank)
    (stack : Stack a) :
    stack.weight rank < (stack.length + 1) * (g.productions.length + 1) := by
  cases stack with
  | nil => simp [Stack.weight]
  | cons frame below =>
      have hbound := hrank.bounded frame.symbol
      rw [Stack.weight, List.length_cons, Nat.succ_mul (below.length + 1)]
      omega

/-- Every reduction that goes on leaves fewer reductions possible. -/
theorem Stack.weight_reduce {rank : Symbol τ ν → Nat} (hrank : Descending g table rank)
    {stack below : Stack a} {p : π} {meanings : Meanings a.Token a.Meaning (g.rhs p)}
    {target : Nat} (hpop : Stack.pop (g.rhs p) stack = some (meanings, below))
    (hgoto : (table.row (Stack.top below)).goto? (g.lhs p) = some target) :
    Stack.weight rank (⟨target, .rule (g.lhs p), a.interpret p meanings⟩ :: below) <
      stack.weight rank := by
  have hlength := Stack.length_of_pop hpop
  have hbound := hrank.bounded (.rule (g.lhs p))
  rcases hrhs : g.rhs p with _ | ⟨x, _ | ⟨y, rest⟩⟩
  · rw [hrank.empty p _ hrhs] at hgoto
    contradiction
  · obtain ⟨frame, rfl, hsymbol⟩ := Stack.pop_singleton hrhs hpop
    have hsingle := hrank.single p x hrhs
    simp only [Stack.weight, hsymbol]
    omega
  · simp only [hrhs, List.length_cons] at hlength
    cases stack with
    | nil => simp at hlength
    | cons frame under =>
        have hunder : below.length + 2 ≤ under.length + 1 := by
          simp only [List.length_cons] at hlength
          omega
        have hmul := Nat.mul_le_mul_right (g.productions.length + 1) hunder
        rw [Nat.succ_mul (below.length + 1)] at hmul
        simp only [Stack.weight]
        omega

/-- A run is found by the machine in any number of rounds beyond the weight
of its stack. -/
theorem Stack.Feeds.feedWithin_eq {rank : Symbol τ ν → Nat}
    (hrank : Descending g table rank) {stack : Stack a} {lookahead : Option a.Token}
    {outcome : Outcome a} (hfeeds : Stack.Feeds table stack lookahead outcome)
    {rounds : Nat} (hrounds : stack.weight rank < rounds) :
    Stack.feedWithin table rounds stack lookahead = outcome := by
  induction hfeeds generalizing rounds with
  | shift hshift =>
      obtain ⟨left, rfl⟩ := Nat.exists_eq_add_of_lt hrounds
      simp only [Stack.feedWithin, Option.bind_some, hshift, Option.map_some]
  | reject hshift hreduce =>
      obtain ⟨left, rfl⟩ := Nat.exists_eq_add_of_lt hrounds
      rw [Stack.feedWithin, bind_shift?_eq_none_iff.mpr hshift]
      simp only [hreduce]
  | accept hreduce hpop hstart =>
      obtain ⟨left, rfl⟩ := Nat.exists_eq_add_of_lt hrounds
      rw [Stack.feedWithin]
      simp only [Option.bind_none, Option.map_none, hreduce, hpop, Option.isNone_none,
        List.isEmpty_nil, hstart, and_self, ↓reduceDIte]
  | reduce hshift hreduce hpop hgoes hgoto hrest ih =>
      obtain ⟨left, rfl⟩ := Nat.exists_eq_add_of_lt hrounds
      have hless := Stack.weight_reduce hrank hpop hgoto
      rw [Stack.feedWithin, bind_shift?_eq_none_iff.mpr hshift]
      simp only [hreduce, hpop, hgoes, ↓reduceDIte, hgoto]
      exact ih (by omega)

/-- The machine's own number of rounds is enough for every run. -/
theorem Stack.Feeds.feed_eq {rank : Symbol τ ν → Nat} (hrank : Descending g table rank)
    {stack : Stack a} {lookahead : Option a.Token} {outcome : Outcome a}
    (hfeeds : Stack.Feeds table stack lookahead outcome) :
    Stack.feed table stack lookahead = outcome :=
  hfeeds.feedWithin_eq hrank (Stack.weight_lt hrank stack)

/-! ### Runs over all tokens -/

/-- The machine reads the tokens one by one and accepts at their end. -/
inductive Stack.Accepts (table : Table τ ν π) :
    Stack a → List a.Token → a.Meaning g.start → Prop
  | finish {stack : Stack a} {meaning : a.Meaning g.start}
      (hfeeds : Stack.Feeds table stack none (.accepted meaning)) :
      Accepts table stack [] meaning
  | read {stack next : Stack a} {token : a.Token} {rest : List a.Token}
      {meaning : a.Meaning g.start}
      (hfeeds : Stack.Feeds table stack (some token) (.shifted next))
      (hrest : Accepts table next rest meaning) :
      Accepts table stack (token :: rest) meaning

/-- A reduction on the first of the tokens leaves the rest of the run. -/
theorem Stack.Accepts.reduce {stack below : Stack a} {word : List a.Token} {p : π}
    {meanings : Meanings a.Token a.Meaning (g.rhs p)} {target : Nat}
    {meaning : a.Meaning g.start}
    (hshift : ∀ token ∈ word.head?, (table.row stack.top).shift? (a.kind token) = none)
    (hreduce : (table.row stack.top).reduction? (word.head?.map a.kind) = some p)
    (hpop : Stack.pop (g.rhs p) stack = some (meanings, below))
    (hgoes : g.lhs p ≠ g.start)
    (hgoto : (table.row (Stack.top below)).goto? (g.lhs p) = some target)
    (hrest : Stack.Accepts table
      (⟨target, .rule (g.lhs p), a.interpret p meanings⟩ :: below) word meaning) :
    Stack.Accepts table stack word meaning := by
  cases hrest with
  | finish hfeeds =>
      exact .finish (.reduce hshift hreduce hpop (fun h => hgoes h.2.2) hgoto hfeeds)
  | read hfeeds hrest =>
      exact .read (.reduce hshift hreduce hpop (fun h => hgoes h.2.2) hgoto hfeeds) hrest

end Blockscript.Lr
