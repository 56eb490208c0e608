import Blockscript.Proofs.Lr.Completeness

/-!
Stacks that a run can leave.  Their states are a path through the table.  When
the table is grounded in its grammar, no lookahead derails the machine on such a
stack, and the tokens read so far begin a word of the grammar.
-/

namespace Blockscript.Lr

variable {τ ν π : Type} {g : Grammar τ ν π} {a : Attribution g}

/-! ### Productions begun on a stack -/

/-- A production stands on a stack with only `rest` of its symbols missing, and
what it belongs to has been begun below it. -/
inductive Stack.Awaits : Stack a → π → List (Symbol τ ν) → Prop
  | start {p : π} (hstart : g.lhs p = g.start) : Awaits [] p (g.rhs p)
  | begin {stack : Stack a} {p q : π} {rest : List (Symbol τ ν)}
      (houter : Awaits stack p (.rule (g.lhs q) :: rest)) : Awaits stack q (g.rhs q)
  | advance {frame : Frame a} {below : Stack a} {p : π} {rest : List (Symbol τ ν)}
      (hbelow : Awaits below p (frame.symbol :: rest)) : Awaits (frame :: below) p rest

/-- The kinds of a word that symbols derive, whatever else its tokens are. -/
def Yields (a : Attribution g) (xs : List (Symbol τ ν)) (kinds : List τ) : Prop :=
  ∀ word : List a.Token, word.map a.kind = kinds → ∃ meanings, DerivesAll a xs meanings word

theorem Yields.terminal {t : τ} {xs : List (Symbol τ ν)} {kinds : List τ}
    (hyields : Yields a xs kinds) : Yields a (.terminal t :: xs) (t :: kinds) := by
  intro word hword
  obtain ⟨token, rest, rfl, hkind, hrest⟩ := List.map_eq_cons_iff.mp hword
  obtain ⟨meanings, hall⟩ := hyields rest hrest
  exact ⟨(token, meanings), .token hkind hall⟩

theorem Yields.production {p : π} (hp : p ∈ g.productions) {xs : List (Symbol τ ν)}
    {first rest : List τ} (hparts : Yields a (g.rhs p) first) (hyields : Yields a xs rest) :
    Yields a (.rule (g.lhs p) :: xs) (first ++ rest) := by
  intro word hword
  obtain ⟨left, right, rfl, hleft, hright⟩ := List.map_eq_append_iff.mp hword
  obtain ⟨inner, hinner⟩ := hparts left hleft
  obtain ⟨meanings, hall⟩ := hyields right hright
  exact ⟨(a.interpret p inner, meanings), .cons (.production p hp hinner) hall⟩

/-- A production for each rule that leads to a word: its rules are lower than
the one it belongs to. -/
structure Productive (g : Grammar τ ν π) (simplest : ν → π) (height : ν → Nat) : Prop where
  listed : ∀ r, simplest r ∈ g.productions
  belongs : ∀ r, g.lhs (simplest r) = r
  lower : ∀ r s, Symbol.rule s ∈ g.rhs (simplest r) → height s < height r

theorem Productive.exists_yields_of {simplest : ν → π} {height : ν → Nat}
    (hproductive : Productive g simplest height) {xs : List (Symbol τ ν)}
    (hrules : ∀ r, Symbol.rule r ∈ xs → ∃ kinds, Yields a (g.rhs (simplest r)) kinds) :
    ∃ kinds, Yields a xs kinds := by
  induction xs with
  | nil =>
      refine ⟨[], fun word hword => ?_⟩
      obtain rfl := List.map_eq_nil_iff.mp hword
      exact ⟨(), .nil⟩
  | cons x xs ih =>
      obtain ⟨rest, hrest⟩ := ih fun r hr => hrules r (List.mem_cons_of_mem x hr)
      cases x with
      | terminal t => exact ⟨t :: rest, hrest.terminal⟩
      | rule r =>
          obtain ⟨first, hfirst⟩ := hrules r List.mem_cons_self
          have hall := hfirst.production (hproductive.listed r) hrest
          rw [hproductive.belongs r] at hall
          exact ⟨first ++ rest, hall⟩

/-- Every list of symbols derives some word. -/
theorem Productive.exists_yields {simplest : ν → π} {height : ν → Nat}
    (hproductive : Productive g simplest height) (a : Attribution g)
    (xs : List (Symbol τ ν)) : ∃ kinds, Yields a xs kinds := by
  have hrules : ∀ r, ∃ kinds, Yields a (g.rhs (simplest r)) kinds := by
    intro r
    induction hheight : height r using Nat.strongRecOn generalizing r with
    | ind n ih =>
        apply hproductive.exists_yields_of
        intro s hs
        exact ih (height s) (hheight ▸ hproductive.lower r s hs) s rfl
  exact hproductive.exists_yields_of fun r _ => hrules r

/-- Where a production is awaited, any word of its missing symbols goes on to a
word of the grammar. -/
theorem Stack.Awaits.exists_ending {simplest : ν → π} {height : ν → Nat}
    (hproductive : Productive g simplest height) (hall : ∀ p : π, p ∈ g.productions)
    {stack : Stack a} {p : π} {rest : List (Symbol τ ν)} (hawaits : Stack.Awaits stack p rest)
    {word : List a.Token} (hspans : Stack.Spans stack word) :
    ∃ ending : List τ, ∀ meanings inner, DerivesAll a rest meanings inner →
      ∀ tail : List a.Token, tail.map a.kind = ending →
        ∃ result, Derives a (.rule g.start) result (word ++ (inner ++ tail)) := by
  induction hawaits generalizing word with
  | @start p hstart =>
      cases hspans
      refine ⟨[], fun meanings inner hinner tail htail => ?_⟩
      obtain rfl := List.map_eq_nil_iff.mp htail
      rw [List.nil_append, List.append_nil]
      exact ⟨_, Derives.cast hstart (.production p (hall p) hinner)⟩
  | @begin stack p q rest houter ih =>
      obtain ⟨outer, houter⟩ := ih hspans
      obtain ⟨kinds, hkinds⟩ := hproductive.exists_yields a rest
      refine ⟨kinds ++ outer, fun meanings inner hinner tail htail => ?_⟩
      obtain ⟨left, right, rfl, hleft, hright⟩ := List.map_eq_append_iff.mp htail
      obtain ⟨others, hothers⟩ := hkinds left hleft
      have hparts := DerivesAll.cons (.production q (hall q) hinner) hothers
      rw [← List.append_assoc inner]
      exact houter _ _ hparts right hright
  | advance hbelow ih =>
      cases hspans with
      | cons hspans hframe =>
          obtain ⟨ending, hending⟩ := ih hspans
          refine ⟨ending, fun meanings inner hinner tail htail => ?_⟩
          rw [List.append_assoc, ← List.append_assoc _ inner]
          exact hending _ _ (.cons hframe hinner) tail htail

/-! ### Stacks along the edges of a table -/

variable [DecidableEq τ] [DecidableEq ν]

/-- Every state of a stack is entered from the one below it with the symbol
between them. -/
inductive Stack.Traced (table : Table τ ν π) : Stack a → Prop
  | nil : Traced table []
  | cons {frame : Frame a} {below : Stack a} (hbelow : Traced table below)
      (hedge : table.target? (Stack.top below) frame.symbol = some frame.state) :
      Traced table (frame :: below)

def Outcome.Traced (table : Table τ ν π) : Outcome a → Prop
  | .accepted _ => True
  | .shifted stack | .rejected stack | .derailed stack => Stack.Traced table stack

variable {table : Table τ ν π}

theorem Stack.Traced.of_append {taken below : Stack a}
    (htraced : Stack.Traced table (taken ++ below)) : Stack.Traced table below := by
  induction taken with
  | nil => exact htraced
  | cons frame taken ih =>
      cases htraced with
      | cons hbelow hedge => exact ih hbelow

theorem Stack.Traced.of_pop {symbols : List (Symbol τ ν)} {stack below : Stack a}
    {meanings : Meanings a.Token a.Meaning symbols} (htraced : Stack.Traced table stack)
    (hpop : Stack.pop symbols stack = some (meanings, below)) :
    Stack.Traced table below := by
  obtain ⟨taken, rfl, -⟩ := Stack.exists_of_pop hpop
  exact htraced.of_append

/-- Feeding a lookahead keeps a stack traced. -/
theorem Stack.Feeds.traced {stack : Stack a} {lookahead : Option a.Token}
    {outcome : Outcome a} (hfeeds : Stack.Feeds table stack lookahead outcome)
    (htraced : Stack.Traced table stack) : outcome.Traced table := by
  induction hfeeds with
  | shift hshift => exact .cons htraced hshift
  | reject hshift hreduce => exact htraced
  | accept hreduce hpop hstart => trivial
  | reduce hshift hreduce hpop hgoes hgoto hrest ih => exact ih (.cons (htraced.of_pop hpop) hgoto)

/-! ### Grounded tables -/

variable [DecidableEq π] {rank : ν → Nat}

/-- Whether the given symbols, the last ones of a production, lead from a state
to one that reduces the production on some lookahead. -/
def Table.finishes (table : Table τ ν π) (p : π) : Nat → List (Symbol τ ν) → Bool
  | state, [] => (table.row state).reductions.any fun entry => entry.1 = p
  | state, x :: rest =>
      match table.target? state x with
      | some next => table.finishes p next rest
      | none => false

/-- A table whose states stand for what has been begun in them: an edge enters a
state with a symbol that all productions begun before it have just passed, and a
production begins only where its rule is expected. -/
structure Grounded (g : Grammar τ ν π) (table : Table τ ν π) (rank : ν → Nat) : Prop where
  initial : ∀ p before y rest, g.rhs p = before ++ y :: rest →
    table.finishes p 0 rest = false
  fresh : ∀ state x, table.target? state x ≠ some 0
  entered : ∀ state x target, table.target? state x = some target →
    ∃ p before rest, g.rhs p = before ++ x :: rest ∧
      table.finishes p target rest = true
  passed : ∀ state x target, table.target? state x = some target →
    ∀ p before y rest, g.rhs p = before ++ y :: rest →
      table.finishes p target rest = true → y = x
  begun : ∀ state p, table.finishes p state (g.rhs p) = true →
    (state = 0 ∧ g.lhs p = g.start) ∨
      ∃ q before rest, g.rhs q = before ++ .rule (g.lhs p) :: rest ∧
        table.finishes q state (.rule (g.lhs p) :: rest) = true ∧
        (before ≠ [] ∨ rank (g.lhs q) < rank (g.lhs p))
  ending : ∀ state lookahead p, (table.row state).reduction? lookahead = some p →
    g.lhs p = g.start → lookahead = none

theorem Stack.Traced.eq_nil (hground : Grounded g table rank) {stack : Stack a}
    (htraced : Stack.Traced table stack) (htop : stack.top = 0) : stack = [] := by
  cases htraced with
  | nil => rfl
  | @cons frame below hbelow hedge =>
      have hzero : frame.state = 0 := htop
      rw [hzero] at hedge
      exact absurd hedge (hground.fresh _ _)

theorem Table.exists_target?_of_finishes {p : π} {state : Nat} {x : Symbol τ ν}
    {rest : List (Symbol τ ν)} (hfinishes : table.finishes p state (x :: rest) = true) :
    ∃ next, table.target? state x = some next ∧ table.finishes p next rest = true := by
  rw [Table.finishes] at hfinishes
  split at hfinishes
  · rename_i next htarget
    exact ⟨next, htarget, hfinishes⟩
  · contradiction

theorem Table.finishes_cons {state next : Nat} {x : Symbol τ ν}
    (hedge : table.target? state x = some next) (p : π) (rest : List (Symbol τ ν)) :
    table.finishes p state (x :: rest) = table.finishes p next rest := by
  rw [Table.finishes, hedge]

/-- Productions begin where others that are begun expect them. -/
theorem Grounded.awaits_rhs (hground : Grounded g table rank) {stack : Stack a}
    (hempty : stack.top = 0 → stack = [])
    (hbegun : ∀ p before y rest, g.rhs p = before ++ y :: rest →
      table.finishes p stack.top rest = true → Stack.Awaits stack p rest)
    {p : π} (hfinishes : table.finishes p stack.top (g.rhs p) = true) :
    Stack.Awaits stack p (g.rhs p) := by
  induction hrank : rank (g.lhs p) using Nat.strongRecOn generalizing p with
  | ind n ih =>
      rcases hground.begun _ p hfinishes with ⟨htop, hstart⟩ | ⟨q, before, rest, hrhs, hq, hless⟩
      · rw [hempty htop]
        exact .start hstart
      · suffices houter : Stack.Awaits stack q (.rule (g.lhs p) :: rest) from .begin houter
        rcases List.eq_nil_or_concat' before with rfl | ⟨start, y, rfl⟩
        · rw [List.nil_append] at hrhs
          rw [← hrhs] at hq ⊢
          exact ih _ (hrank ▸ hless.resolve_left (absurd rfl)) hq rfl
        · refine hbegun q start y _ ?_ hq
          rw [hrhs, List.append_assoc, List.singleton_append]

/-- What the state of a traced stack finishes is awaited on the stack. -/
theorem Stack.Traced.awaits (hground : Grounded g table rank) {stack : Stack a}
    (htraced : Stack.Traced table stack) {p : π} {before rest : List (Symbol τ ν)}
    (hrhs : g.rhs p = before ++ rest)
    (hfinishes : table.finishes p stack.top rest = true) :
    Stack.Awaits stack p rest := by
  induction htraced generalizing p before rest with
  | nil =>
      rcases List.eq_nil_or_concat' before with rfl | ⟨start, y, rfl⟩
      · rw [List.nil_append] at hrhs
        subst hrhs
        refine hground.awaits_rhs (fun _ => rfl) ?_ hfinishes
        intro q start y rest hq hzero
        exact absurd hzero (by simp [Stack.top, hground.initial q start y rest hq])
      · rw [List.append_assoc, List.singleton_append] at hrhs
        exact absurd hfinishes (by simp [Stack.top, hground.initial p start y rest hrhs])
  | @cons frame below hbelow hedge ih =>
      have hbegun : ∀ q start y rest, g.rhs q = start ++ y :: rest →
          table.finishes q frame.state rest = true →
          Stack.Awaits (frame :: below) q rest := by
        intro q start y rest hq hnext
        obtain rfl := hground.passed _ _ _ hedge q start y rest hq hnext
        exact .advance (ih hq ((Table.finishes_cons hedge q rest).trans hnext))
      rcases List.eq_nil_or_concat' before with rfl | ⟨start, y, rfl⟩
      · rw [List.nil_append] at hrhs
        subst hrhs
        exact hground.awaits_rhs ((Stack.Traced.cons hbelow hedge).eq_nil hground) hbegun
          hfinishes
      · rw [List.append_assoc, List.singleton_append] at hrhs
        exact hbegun p start y rest hrhs hfinishes

/-- Something is awaited on every traced stack. -/
theorem Stack.Traced.exists_awaits (hground : Grounded g table rank)
    {first : π} (hfirst : g.lhs first = g.start) {stack : Stack a}
    (htraced : Stack.Traced table stack) : ∃ p rest, Stack.Awaits stack p rest := by
  cases htraced with
  | nil => exact ⟨first, _, .start hfirst⟩
  | @cons frame below hbelow hedge =>
      obtain ⟨p, before, rest, hrhs, hfinishes⟩ := hground.entered _ _ _ hedge
      have hsplit : g.rhs p = (before ++ [frame.symbol]) ++ rest := by
        rw [hrhs, List.append_assoc, List.singleton_append]
      exact ⟨p, rest, (Stack.Traced.cons hbelow hedge).awaits hground hsplit hfinishes⟩

/-- The tokens of a traced stack begin a word of the grammar: they go on to one
with any tokens of some kinds. -/
theorem Stack.Traced.exists_ending (hground : Grounded g table rank)
    {simplest : ν → π} {height : ν → Nat} (hproductive : Productive g simplest height)
    (hall : ∀ p : π, p ∈ g.productions) {stack : Stack a}
    (htraced : Stack.Traced table stack) {word : List a.Token}
    (hspans : Stack.Spans stack word) :
    ∃ kinds : List τ, ∀ tail : List a.Token, tail.map a.kind = kinds →
      ∃ result, Derives a (.rule g.start) result (word ++ tail) := by
  obtain ⟨p, rest, hawaits⟩ := htraced.exists_awaits hground (hproductive.belongs g.start)
  obtain ⟨ending, hending⟩ := hawaits.exists_ending hproductive hall hspans
  obtain ⟨missing, hmissing⟩ := hproductive.exists_yields a rest
  refine ⟨missing ++ ending, fun tail htail => ?_⟩
  obtain ⟨left, right, rfl, hleft, hright⟩ := List.map_eq_append_iff.mp htail
  obtain ⟨meanings, hinner⟩ := hmissing left hleft
  exact hending meanings left hinner right hright

/-! ### The machine stays on the table -/

/-- A production that the state of a traced stack reduces can be taken off it. -/
theorem Stack.Traced.exists_pop (hground : Grounded g table rank) {stack : Stack a}
    {p : π} {before taken : List (Symbol τ ν)} (hrhs : g.rhs p = before ++ taken)
    {meanings : Meanings a.Token a.Meaning taken} {under : Stack a}
    (hpop : Stack.pop taken stack = some (meanings, under))
    (htraced : Stack.Traced table under)
    (hfinishes : table.finishes p under.top taken = true) :
    ∃ all below, Stack.pop (g.rhs p) stack = some (all, below) ∧ Stack.Traced table below ∧
      table.finishes p (Stack.top below) (g.rhs p) = true := by
  induction before using List.reverseRecOn generalizing taken under with
  | nil =>
      rw [List.nil_append] at hrhs
      subst hrhs
      exact ⟨meanings, under, hpop, htraced, hfinishes⟩
  | append_singleton start y ih =>
      rw [List.append_assoc, List.singleton_append] at hrhs
      cases htraced with
      | nil =>
          have hzero := hground.initial p start y taken hrhs
          rw [Stack.top, hzero] at hfinishes
          contradiction
      | @cons frame below hbelow hedge =>
          obtain rfl := hground.passed _ _ _ hedge p start y taken hrhs hfinishes
          exact ih hrhs (Stack.pop_cons hpop) hbelow
            ((Table.finishes_cons hedge p taken).trans hfinishes)

omit [DecidableEq τ] [DecidableEq ν] [DecidableEq π] in
theorem Row.exists_of_reduction? [DecidableEq τ] {row : Row τ ν π} {lookahead : Option τ}
    {p : π} (hreduce : row.reduction? lookahead = some p) :
    ∃ entry ∈ row.reductions, entry.1 = p ∧ lookahead ∈ entry.2 := by
  simp only [Row.reduction?, Option.map_eq_some_iff] at hreduce
  obtain ⟨entry, hfind, rfl⟩ := hreduce
  exact ⟨entry, List.mem_of_find?_eq_some hfind, rfl, by simpa using List.find?_some hfind⟩

/-- A production that the state of a traced stack reduces is on the stack; if it is not
one of the start rule on its own, its rule leads on. -/
theorem Stack.Traced.exists_reduction (hground : Grounded g table rank) {stack : Stack a}
    (htraced : Stack.Traced table stack) {p : π}
    (hreduces : table.finishes p stack.top [] = true) :
    ∃ meanings below, Stack.pop (g.rhs p) stack = some (meanings, below) ∧
      Stack.Traced table below ∧ ((below = [] ∧ g.lhs p = g.start) ∨
        ∃ target, table.target? (Stack.top below) (.rule (g.lhs p)) = some target) := by
  have hnothing : Stack.pop [] stack = some ((), stack) := rfl
  obtain ⟨meanings, below, hpop, hbelow, hfinishes⟩ :=
    Stack.Traced.exists_pop hground (List.append_nil (g.rhs p)).symm hnothing htraced hreduces
  refine ⟨meanings, below, hpop, hbelow, ?_⟩
  rcases hground.begun _ p hfinishes with ⟨htop, hstart⟩ | ⟨q, before, rest, -, hq, -⟩
  · exact .inl ⟨hbelow.eq_nil hground htop, hstart⟩
  · obtain ⟨target, hgoto, -⟩ := Table.exists_target?_of_finishes hq
    exact .inr ⟨target, hgoto⟩

theorem Table.finishes_of_reduction? {state : Nat} {lookahead : Option τ} {p : π}
    (hreduce : (table.row state).reduction? lookahead = some p) :
    table.finishes p state [] = true := by
  obtain ⟨entry, hentry, hp, -⟩ := Row.exists_of_reduction? hreduce
  exact List.any_eq_true.mpr ⟨entry, hentry, decide_eq_true hp⟩

/-- A traced stack is never derailed: every lookahead is shifted, accepted or
rejected. -/
theorem Stack.Traced.exists_feeds (hground : Grounded g table rank)
    {order : Symbol τ ν → Nat} (horder : Descending g table order) {stack : Stack a}
    (htraced : Stack.Traced table stack) (lookahead : Option a.Token) :
    ∃ outcome, Stack.Feeds table stack lookahead outcome := by
  induction hweight : stack.weight order using Nat.strongRecOn generalizing stack with
  | ind n ih =>
      by_cases hshift : ∀ token ∈ lookahead, (table.row stack.top).shift? (a.kind token) = none
      · cases hreduce : (table.row stack.top).reduction? (lookahead.map a.kind) with
        | none => exact ⟨_, .reject hshift hreduce⟩
        | some p =>
            obtain ⟨meanings, below, hpop, hbelow, hway⟩ :=
              htraced.exists_reduction hground (Table.finishes_of_reduction? hreduce)
            by_cases hgoes : lookahead.isNone = true ∧ below.isEmpty = true ∧ g.lhs p = g.start
            · obtain ⟨hnone, hempty, hstart⟩ := hgoes
              obtain rfl := Option.isNone_iff_eq_none.mp hnone
              obtain rfl := List.isEmpty_iff.mp hempty
              exact ⟨_, .accept hreduce hpop hstart⟩
            · rcases hway with ⟨hempty, hstart⟩ | ⟨target, hgoto⟩
              · have hnone : lookahead = none :=
                  Option.map_eq_none_iff.mp (hground.ending _ _ _ hreduce hstart)
                exact absurd ⟨by simp [hnone], by simp [hempty], hstart⟩ hgoes
              · obtain ⟨outcome, hrest⟩ := ih _ (hweight ▸ Stack.weight_reduce horder hpop hgoto)
                  (.cons hbelow hgoto) rfl
                exact ⟨outcome, .reduce hshift hreduce hpop hgoes hgoto hrest⟩
      · simp only [not_forall] at hshift
        obtain ⟨token, htoken, hshift⟩ := hshift
        obtain ⟨target, hshift⟩ := Option.ne_none_iff_exists'.mp hshift
        rw [Option.mem_def.mp htoken]
        exact ⟨_, .shift hshift⟩

/-! ### Checking a table -/

/-- The edges of a row: a symbol and the state entered with it. -/
def Row.edges (row : Row τ ν π) : List (Symbol τ ν × Nat) :=
  row.shifts.map (fun edge => (.terminal edge.1, edge.2)) ++
    row.gotos.map fun edge => (.rule edge.1, edge.2)

/-- The symbols that the productions begun before a state have just passed. -/
def Table.passedAt (g : Grammar τ ν π) (table : Table τ ν π) (state : Nat) :
    List (Symbol τ ν) :=
  g.productions.flatMap fun p => (g.rhs p).tails.filterMap fun
    | y :: rest => if table.finishes p state rest then some y else none
    | [] => none

/-- Whether some production that a state finishes expects a rule there. -/
def Table.expects (g : Grammar τ ν π) (table : Table τ ν π) (rank : ν → Nat) (state : Nat)
    (r : ν) : Bool :=
  g.productions.any fun q => (g.rhs q).tails.any fun
    | .rule s :: rest =>
        s = r && table.finishes q state (.rule s :: rest) &&
          (rest.length + 1 < (g.rhs q).length || rank (g.lhs q) < rank r)
    | _ => false

def Table.groundedAt (g : Grammar τ ν π) (table : Table τ ν π) (rank : ν → Nat)
    (state : Nat) : Bool :=
  decide (state = 0) == (table.passedAt g state).isEmpty &&
  (table.passedAt g state).all (fun y => table.rows.toList.all fun row => row.edges.all fun edge =>
    edge.2 ≠ state || edge.1 = y) &&
  (table.row state).edges.all (fun edge => edge.2 ≠ 0 && edge.2 < table.rows.size) &&
  (table.row state).reductions.all (fun entry =>
    g.lhs entry.1 ≠ g.start || entry.2.all (· = none)) &&
  g.productions.all fun p => !table.finishes p state (g.rhs p) ||
    (state = 0 && g.lhs p = g.start) || table.expects g rank state (g.lhs p)

def Table.checkGrounded (g : Grammar τ ν π) (table : Table τ ν π) (rank : ν → Nat) : Bool :=
  decide (0 < table.rows.size) &&
    (List.range table.rows.size).all (table.groundedAt g rank)

omit [DecidableEq π] in
theorem Table.mem_edges_of_target? {state target : Nat} {x : Symbol τ ν}
    (hedge : table.target? state x = some target) :
    (x, target) ∈ (table.row state).edges := by
  cases x with
  | terminal t =>
      obtain ⟨before, behind, hshifts, -⟩ := List.lookup_eq_some_iff.mp hedge
      simp [Row.edges, hshifts]
  | rule r =>
      obtain ⟨before, behind, hgotos, -⟩ := List.lookup_eq_some_iff.mp hedge
      simp [Row.edges, hgotos]

omit [DecidableEq τ] [DecidableEq ν] [DecidableEq π] in
theorem Table.row_mem {state : Nat} (hstate : state < table.rows.size) :
    table.row state ∈ table.rows.toList := by
  simp [Table.row, hstate]

theorem Table.mem_passedAt {state : Nat} {y : Symbol τ ν} :
    (∃ p ∈ g.productions, ∃ before rest, g.rhs p = before ++ y :: rest ∧
      table.finishes p state rest = true) ↔ y ∈ table.passedAt g state := by
  simp only [Table.passedAt, List.mem_flatMap, List.mem_filterMap, List.mem_tails]
  constructor
  · rintro ⟨p, hp, before, rest, hrhs, hfinishes⟩
    exact ⟨p, hp, y :: rest, ⟨before, hrhs.symm⟩, by simp [hfinishes]⟩
  · rintro ⟨p, hp, tail, ⟨before, hrhs⟩, htail⟩
    split at htail
    · rename_i z rest
      simp only [Option.ite_none_right_eq_some, Option.some.injEq] at htail
      obtain ⟨hfinishes, rfl⟩ := htail
      exact ⟨p, hp, before, rest, hrhs.symm, hfinishes⟩
    · contradiction

theorem Table.exists_of_expects {state : Nat} {r : ν}
    (hexpects : table.expects g rank state r = true) :
    ∃ q before rest, g.rhs q = before ++ .rule r :: rest ∧
      table.finishes q state (.rule r :: rest) = true ∧
      (before ≠ [] ∨ rank (g.lhs q) < rank r) := by
  simp only [Table.expects, List.any_eq_true, List.mem_tails] at hexpects
  obtain ⟨q, -, tail, ⟨before, hrhs⟩, htail⟩ := hexpects
  split at htail
  · rename_i s rest
    simp only [Bool.and_eq_true, Bool.or_eq_true, decide_eq_true_eq] at htail
    obtain ⟨⟨rfl, hfinishes⟩, hless⟩ := htail
    refine ⟨q, before, rest, hrhs.symm, hfinishes, hless.imp_left ?_⟩
    rintro hlonger rfl
    rw [← hrhs, List.nil_append, List.length_cons] at hlonger
    exact Nat.lt_irrefl _ hlonger
  · contradiction

/-- What the check says of one state. -/
structure GroundedAt (g : Grammar τ ν π) (table : Table τ ν π) (rank : ν → Nat)
    (state : Nat) : Prop where
  passes : state = 0 ↔ table.passedAt g state = []
  agrees : ∀ y ∈ table.passedAt g state, ∀ row ∈ table.rows.toList, ∀ edge ∈ row.edges,
    edge.2 = state → edge.1 = y
  inside : ∀ edge ∈ (table.row state).edges, edge.2 ≠ 0 ∧ edge.2 < table.rows.size
  ending : ∀ entry ∈ (table.row state).reductions, g.lhs entry.1 = g.start →
    ∀ lookahead ∈ entry.2, lookahead = none
  begun : ∀ p ∈ g.productions, table.finishes p state (g.rhs p) = true →
    (state = 0 ∧ g.lhs p = g.start) ∨ table.expects g rank state (g.lhs p) = true

theorem Table.groundedAt_of_check {state : Nat}
    (hcheck : table.groundedAt g rank state = true) : GroundedAt g table rank state := by
  simp only [Table.groundedAt, Bool.and_eq_true, List.all_eq_true, beq_iff_eq, Bool.or_eq_true,
    Bool.not_eq_true', decide_eq_true_eq] at hcheck
  obtain ⟨⟨⟨⟨hpasses, hagrees⟩, hinside⟩, hending⟩, hbegun⟩ := hcheck
  constructor
  · rw [← List.isEmpty_iff, ← hpasses, decide_eq_true_iff]
  · intro y hy row hrow edge hedge hstate
    exact (hagrees y hy row hrow edge hedge).resolve_left (absurd hstate)
  · exact hinside
  · intro entry hentry hstart
    exact (hending entry hentry).resolve_left (absurd hstart)
  · intro p hp hfinishes
    refine or_assoc.mp (hbegun p hp) |>.resolve_left ?_
    simp [hfinishes]

theorem Table.grounded_of_check (hall : ∀ p : π, p ∈ g.productions)
    (hcheck : table.checkGrounded g rank = true) : Grounded g table rank := by
  simp only [Table.checkGrounded, Bool.and_eq_true, List.all_eq_true, List.mem_range,
    decide_eq_true_eq] at hcheck
  obtain ⟨hsome, hcheck⟩ := hcheck
  have hstates : ∀ state < table.rows.size, GroundedAt g table rank state :=
    fun state hlt => Table.groundedAt_of_check (hcheck state hlt)
  -- Whatever leaves a state leaves one of the table: the row of any other number is empty.
  have hleaves : ∀ state x target, table.target? state x = some target →
      state < table.rows.size := by
    intro state x target hedge
    by_contra hge
    have hmem := Table.mem_edges_of_target? hedge
    rw [Table.row_eq_empty (Nat.le_of_not_lt hge)] at hmem
    contradiction
  have hinside : ∀ state x target, table.target? state x = some target →
      target ≠ 0 ∧ target < table.rows.size := by
    intro state x target hedge
    exact (hstates state (hleaves state x target hedge)).inside _
      (Table.mem_edges_of_target? hedge)
  have hpassed : ∀ state x target, table.target? state x = some target →
      ∀ y ∈ table.passedAt g target, x = y := by
    intro state x target hedge y hy
    exact (hstates target (hinside state x target hedge).2).agrees y hy _
      (Table.row_mem (hleaves state x target hedge)) _ (Table.mem_edges_of_target? hedge) rfl
  constructor
  · intro p before y rest hrhs
    by_contra hfinishes
    have hy := Table.mem_passedAt.mp
      ⟨p, hall p, before, rest, hrhs, Bool.not_eq_false _ |>.mp hfinishes⟩
    rw [(hstates 0 hsome).passes.mp rfl] at hy
    contradiction
  · intro state x hedge
    exact (hinside state x 0 hedge).1 rfl
  · intro state x target hedge
    obtain ⟨hzero, hlt⟩ := hinside state x target hedge
    obtain ⟨y, hy⟩ := List.exists_mem_of_ne_nil _ ((hstates target hlt).passes.not.mp hzero)
    obtain ⟨p, -, before, rest, hrhs, hfinishes⟩ := Table.mem_passedAt.mpr hy
    rw [hpassed state x target hedge y hy]
    exact ⟨p, before, rest, hrhs, hfinishes⟩
  · intro state x target hedge p before y rest hrhs hfinishes
    exact (hpassed state x target hedge y
      (Table.mem_passedAt.mp ⟨p, hall p, before, rest, hrhs, hfinishes⟩)).symm
  · intro state p hfinishes
    by_cases hlt : state < table.rows.size
    · exact ((hstates state hlt).begun p (hall p) hfinishes).imp_right Table.exists_of_expects
    · have hempty := Table.row_eq_empty (Nat.le_of_not_lt hlt)
      cases hrhs : g.rhs p with
      | nil => simp [hrhs, Table.finishes, hempty] at hfinishes
      | cons x rest =>
          rw [hrhs] at hfinishes
          obtain ⟨target, hedge, -⟩ := Table.exists_target?_of_finishes hfinishes
          exact absurd (hleaves state x target hedge) hlt
  · intro state lookahead p hreduce hstart
    obtain ⟨entry, hentry, rfl, hlookahead⟩ := Row.exists_of_reduction? hreduce
    by_cases hlt : state < table.rows.size
    · exact (hstates state hlt).ending entry hentry hstart lookahead hlookahead
    · rw [Table.row_eq_empty (Nat.le_of_not_lt hlt)] at hentry
      contradiction

end Blockscript.Lr
