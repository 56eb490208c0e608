import Blockscript.Proofs.Lr.Derivation
import Mathlib.Data.List.Infix

/-!
Completeness of the shift/reduce machine.  A table is complete for a grammar
when, wherever a rule can begin, following the symbols of each of its
productions leads to a state that reduces the production on every lookahead
that can follow the rule.  Then a derivation of a word drives the machine
through the word.
-/

namespace Blockscript.Lr

variable {τ ν π : Type} {g : Grammar τ ν π} {a : Attribution g} [DecidableEq ν]

/-! ### Lookaheads -/

/-- Sets of empty rules, of beginnings and of followers that are closed under
the productions of a grammar. -/
structure Saturated (g : Grammar τ ν π) (empty : List ν) (first : List (ν × τ))
    (follow : List (ν × Option τ)) : Prop where
  closedEmpty : ∀ p, Grammar.allIn empty (g.rhs p) = true → g.lhs p ∈ empty
  closedFirst : ∀ p, ∀ t ∈ Grammar.beginnings empty first (g.rhs p), (g.lhs p, t) ∈ first
  startEnds : (g.start, none) ∈ follow
  closedFollow : ∀ p, ∀ pair ∈ Grammar.followersIn empty first
    ((follow.filter fun pair => pair.1 = g.lhs p).map Prod.snd) (g.rhs p), pair ∈ follow

/-- The sets account for a word of the given symbols: its first token is one of
their beginnings, and without a token all of them can be empty. -/
def Heads (a : Attribution g) (empty : List ν) (first : List (ν × τ))
    (xs : List (Symbol τ ν)) (word : List a.Token) : Prop :=
  match word with
  | [] => Grammar.allIn empty xs = true
  | token :: _ => a.kind token ∈ Grammar.beginnings empty first xs

theorem mem_beginnings_cons_iff {empty : List ν} {first : List (ν × τ)} {t : τ}
    {x : Symbol τ ν} {xs : List (Symbol τ ν)} :
    t ∈ Grammar.beginnings empty first (x :: xs) ↔
      t ∈ Grammar.beginnings empty first [x] ∨
        Grammar.allIn empty [x] = true ∧ t ∈ Grammar.beginnings empty first xs := by
  cases x with
  | terminal u => simp [Grammar.beginnings, Grammar.allIn]
  | rule r => by_cases hr : r ∈ empty <;> simp [Grammar.beginnings, Grammar.allIn, hr]

theorem allIn_cons {empty : List ν} {x : Symbol τ ν} {xs : List (Symbol τ ν)} :
    Grammar.allIn empty (x :: xs) = (Grammar.allIn empty [x] && Grammar.allIn empty xs) := by
  simp [Grammar.allIn]

variable {empty : List ν} {first : List (ν × τ)} {follow : List (ν × Option τ)}

theorem Heads.append {x : Symbol τ ν} {xs : List (Symbol τ ν)}
    {left right : List a.Token} (hleft : Heads a empty first [x] left)
    (hright : Heads a empty first xs right) :
    Heads a empty first (x :: xs) (left ++ right) := by
  cases left with
  | cons token left => exact mem_beginnings_cons_iff.mpr (.inl hleft)
  | nil =>
      have hempty : Grammar.allIn empty [x] = true := hleft
      cases right with
      | nil =>
          have hrest : Grammar.allIn empty xs = true := hright
          change Grammar.allIn empty (x :: xs) = true
          rw [allIn_cons, hempty, hrest]
          rfl
      | cons token right => exact mem_beginnings_cons_iff.mpr (.inr ⟨hempty, hright⟩)

theorem Heads.of_production (hsat : Saturated g empty first follow) {p : π}
    {word : List a.Token} (hparts : Heads a empty first (g.rhs p) word) :
    Heads a empty first [.rule (g.lhs p)] word := by
  cases word with
  | nil =>
      have hmem := hsat.closedEmpty p hparts
      simp [Heads, Grammar.allIn, hmem]
  | cons token word =>
      have hmem := hsat.closedFirst p _ hparts
      have hhere : a.kind token ∈
          (first.filter fun pair => pair.1 = g.lhs p).map Prod.snd := by
        simp only [List.mem_map, List.mem_filter, decide_eq_true_eq]
        exact ⟨_, ⟨hmem, rfl⟩, rfl⟩
      by_cases hempty : g.lhs p ∈ empty
      · simpa [Heads, Grammar.beginnings, hempty] using hhere
      · simpa [Heads, Grammar.beginnings, hempty] using hhere

mutual

theorem Derives.heads (hsat : Saturated g empty first follow) {x : Symbol τ ν}
    {meaning : Carrier a.Token a.Meaning x} {word : List a.Token} :
    Derives a x meaning word → Heads a empty first [x] word
  | .token token => by simp [Heads, Grammar.beginnings]
  | .production _ _ parts => .of_production hsat (parts.heads hsat)

theorem DerivesAll.heads (hsat : Saturated g empty first follow)
    {xs : List (Symbol τ ν)} {meanings : Meanings a.Token a.Meaning xs}
    {word : List a.Token} : DerivesAll a xs meanings word → Heads a empty first xs word
  | .nil => rfl
  | .cons head tail => (head.heads hsat).append (tail.heads hsat)

end

theorem mem_followersIn {after : List (Option τ)} {r : ν} {lookahead : Option τ}
    {before rest : List (Symbol τ ν)}
    (hnext : lookahead ∈ (Grammar.beginnings empty first rest).map some ∨
      Grammar.allIn empty rest = true ∧ lookahead ∈ after) :
    (r, lookahead) ∈ Grammar.followersIn empty first after (before ++ .rule r :: rest) := by
  induction before with
  | nil =>
      rw [List.nil_append, Grammar.followersIn]
      apply List.mem_append_left
      apply List.mem_map_of_mem
      rcases hnext with hbegins | ⟨hempty, hafter⟩
      · split
        · exact List.mem_append_left _ hbegins
        · exact hbegins
      · rw [if_pos hempty]
        exact List.mem_append_right _ hafter
  | cons x before ih =>
      cases x with
      | terminal t => exact ih
      | rule s => exact List.mem_append_right _ ih

/-- A rule in a right-hand side is followed by the rest of the right-hand side,
and by what follows the whole when the rest is empty. -/
theorem Saturated.follows (hsat : Saturated g empty first follow) {p : π} {r : ν}
    {before rest : List (Symbol τ ν)} (hrhs : g.rhs p = before ++ .rule r :: rest)
    {word tail : List a.Token} (hword : Heads a empty first rest word)
    (htail : (g.lhs p, tail.head?.map a.kind) ∈ follow) :
    (r, (word ++ tail).head?.map a.kind) ∈ follow := by
  apply hsat.closedFollow p
  rw [hrhs]
  apply mem_followersIn
  cases word with
  | nil =>
      right
      refine ⟨hword, ?_⟩
      simp only [List.mem_map, List.mem_filter, decide_eq_true_eq]
      exact ⟨_, ⟨htail, rfl⟩, rfl⟩
  | cons token word =>
      left
      exact List.mem_map_of_mem hword

/-! ### Tables that complete every production -/

variable [DecidableEq τ] [DecidableEq π]

/-- The state entered from a state with a symbol. -/
def Table.target? (table : Table τ ν π) (state : Nat) : Symbol τ ν → Option Nat
  | .terminal t => (table.row state).shift? t
  | .rule r => (table.row state).goto? r

/-- Whether a state reduces a production on every lookahead that can follow
its rule. -/
def Table.reduces (g : Grammar τ ν π) (table : Table τ ν π) (follow : List (ν × Option τ))
    (p : π) (state : Nat) : Bool :=
  follow.all fun pair => pair.1 ≠ g.lhs p ||
    (table.row state).reduction? pair.2 = some p &&
      pair.2.all fun t => ((table.row state).shift? t).isNone

/-- Whether the given symbols, the last ones of a production, lead from a state
to one that reduces the production. -/
def Table.completes (g : Grammar τ ν π) (table : Table τ ν π) (follow : List (ν × Option τ))
    (p : π) : Nat → List (Symbol τ ν) → Bool
  | state, [] => table.reduces g follow p state
  | state, x :: rest =>
      match table.target? state x with
      | some next => completes g table follow p next rest
      | none => false

/-- A table that completes the productions of the start rule from the initial
state and, wherever a rule is expected, the productions of that rule. -/
structure Complete (g : Grammar τ ν π) (table : Table τ ν π)
    (follow : List (ν × Option τ)) : Prop where
  start : ∀ p, g.lhs p = g.start → table.completes g follow p 0 (g.rhs p) = true
  fresh : ∀ p, Symbol.rule g.start ∉ g.rhs p
  closed : ∀ p before r rest state, g.rhs p = before ++ .rule r :: rest →
    table.completes g follow p state (.rule r :: rest) = true →
    ∀ q, g.lhs q = r → table.completes g follow q state (g.rhs q) = true

variable {table : Table τ ν π}

theorem Table.reduction?_of_reduces {p : π} {state : Nat} {lookahead : Option τ}
    (hreduces : table.reduces g follow p state = true)
    (hfollow : (g.lhs p, lookahead) ∈ follow) :
    (table.row state).reduction? lookahead = some p ∧
      ∀ t ∈ lookahead, (table.row state).shift? t = none := by
  have hpair := List.all_eq_true.mp hreduces _ hfollow
  simp only [ne_eq, not_true_eq_false, decide_false, Bool.false_or, Bool.and_eq_true,
    decide_eq_true_eq, Option.all_eq_true, Option.isNone_iff_eq_none] at hpair
  exact hpair

theorem Table.exists_target?_of_completes {p : π} {state : Nat} {x : Symbol τ ν}
    {rest : List (Symbol τ ν)}
    (hcompletes : table.completes g follow p state (x :: rest) = true) :
    ∃ next, table.target? state x = some next ∧
      table.completes g follow p next rest = true := by
  rw [Table.completes] at hcompletes
  split at hcompletes
  · rename_i next htarget
    exact ⟨next, htarget, hcompletes⟩
  · contradiction

/-! ### Derivations drive the machine -/

mutual

/-- A derived symbol is put on the stack, given that the current state expects
it and that what follows it is a lookahead of its rule. -/
theorem Derives.accepts (hsat : Saturated g empty first follow)
    (hcomplete : Complete g table follow) {x : Symbol τ ν}
    {meaning : Carrier a.Token a.Meaning x} {word tail : List a.Token}
    {stack : Stack a} {target : Nat} {result : a.Meaning g.start}
    (htarget : table.target? stack.top x = some target)
    (hopen : ∀ q, x = .rule (g.lhs q) →
      g.lhs q ≠ g.start ∧ (g.lhs q, tail.head?.map a.kind) ∈ follow ∧
      table.completes g follow q stack.top (g.rhs q) = true)
    (hrest : Stack.Accepts table (⟨target, x, meaning⟩ :: stack) tail result) :
    Derives a x meaning word → Stack.Accepts table stack (word ++ tail) result
  | .token token => .read (.shift htarget) hrest
  | .production p _ parts => by
      obtain ⟨hstart, hfollow, hcompletes⟩ := hopen p rfl
      apply parts.accepts hsat hcomplete (List.nil_append _).symm stack hcompletes hfollow
      intro top hpop hreduces
      obtain ⟨hreduce, hshift⟩ := Table.reduction?_of_reduces hreduces hfollow
      refine .reduce ?_ hreduce hpop hstart htarget hrest
      intro token htoken
      exact hshift _ (Option.mem_map_of_mem _ htoken)

/-- Derived symbols at the end of a production are put on the stack one after
the other, in a state that then reduces the production. -/
theorem DerivesAll.accepts (hsat : Saturated g empty first follow)
    (hcomplete : Complete g table follow) {p : π} {before xs : List (Symbol τ ν)}
    (hrhs : g.rhs p = before ++ xs) {meanings : Meanings a.Token a.Meaning xs}
    {word tail : List a.Token} {result : a.Meaning g.start} (stack : Stack a)
    (hcompletes : table.completes g follow p stack.top xs = true)
    (hfollow : (g.lhs p, tail.head?.map a.kind) ∈ follow)
    (hrest : ∀ next : Stack a, Stack.pop xs next = some (meanings, stack) →
      table.reduces g follow p next.top = true → Stack.Accepts table next tail result) :
    DerivesAll a xs meanings word → Stack.Accepts table stack (word ++ tail) result
  | .nil => hrest stack rfl hcompletes
  | @DerivesAll.cons _ _ _ _ _ x xs meaning _ _ rest head parts => by
      obtain ⟨target, htarget, hnext⟩ := Table.exists_target?_of_completes hcompletes
      rw [List.append_assoc]
      refine head.accepts hsat hcomplete htarget ?_ ?_
      · rintro q rfl
        have hfresh : Symbol.rule (g.lhs q) ∈ g.rhs p := by simp [hrhs]
        refine ⟨?_, hsat.follows hrhs (parts.heads hsat) hfollow,
          hcomplete.closed p before _ xs stack.top hrhs hcompletes q rfl⟩
        intro hstart
        rw [hstart] at hfresh
        exact hcomplete.fresh p hfresh
      · have hshort : g.rhs p = (before ++ [x]) ++ xs := by simp [hrhs]
        refine parts.accepts hsat hcomplete hshort (⟨target, x, meaning⟩ :: stack) hnext
          hfollow ?_
        intro next hpop hreduces
        exact hrest next (Stack.pop_cons hpop) hreduces

end

/-- A word derived from the start rule is accepted from the empty stack, with
the meaning of its derivation. -/
theorem Derives.accepts_start (hsat : Saturated g empty first follow)
    (hcomplete : Complete g table follow) {r : ν} {meaning : a.Meaning r}
    {word : List a.Token} (hderives : Derives a (.rule r) meaning word)
    (hstart : r = g.start) :
    Stack.Accepts table ([] : Stack a) word (hstart ▸ meaning) := by
  cases hderives with
  | production p _ parts =>
      have hfollow : (g.lhs p, (([] : List a.Token).head?).map a.kind) ∈ follow := by
        rw [hstart]
        exact hsat.startEnds
      rw [← List.append_nil word]
      refine parts.accepts hsat hcomplete (List.nil_append _).symm []
        (hcomplete.start p hstart) hfollow ?_
      intro next hpop hreduces
      obtain ⟨hreduce, -⟩ := Table.reduction?_of_reduces hreduces hfollow
      exact .finish (.accept hreduce hpop hstart)

/-! ### Checking a table -/

/-- Whether three sets are closed under the listed productions. -/
def Grammar.checkSaturated (g : Grammar τ ν π) (empty : List ν) (first : List (ν × τ))
    (follow : List (ν × Option τ)) : Bool :=
  decide ((g.start, none) ∈ follow) &&
  g.productions.all fun p =>
    (!Grammar.allIn empty (g.rhs p) || decide (g.lhs p ∈ empty)) &&
    (Grammar.beginnings empty first (g.rhs p)).all (fun t => decide ((g.lhs p, t) ∈ first)) &&
    (Grammar.followersIn empty first
      ((follow.filter fun pair => pair.1 = g.lhs p).map Prod.snd) (g.rhs p)).all
        fun pair => decide (pair ∈ follow)

omit [DecidableEq π] in
theorem Grammar.saturated_of_check (hall : ∀ p : π, p ∈ g.productions)
    (hcheck : g.checkSaturated empty first follow = true) :
    Saturated g empty first follow := by
  simp only [Grammar.checkSaturated, Bool.and_eq_true, decide_eq_true_eq,
    List.all_eq_true, Bool.or_eq_true, Bool.not_eq_true'] at hcheck
  obtain ⟨hstart, hproductions⟩ := hcheck
  constructor
  · intro p hempty
    rcases (hproductions p (hall p)).1.1 with hnot | hmem
    · rw [hempty] at hnot
      contradiction
    · exact hmem
  · exact fun p => (hproductions p (hall p)).1.2
  · exact hstart
  · exact fun p => (hproductions p (hall p)).2

/-- Whether a state completes the rules that it expects. -/
def Table.closedAt (g : Grammar τ ν π) (table : Table τ ν π) (follow : List (ν × Option τ))
    (state : Nat) : Bool :=
  g.productions.all fun p => (g.rhs p).tails.all fun
    | .rule r :: rest =>
        !table.completes g follow p state (.rule r :: rest) ||
          g.productions.all fun q => g.lhs q ≠ r || table.completes g follow q state (g.rhs q)
    | _ => true

/-- Whether a table completes every production where it is expected. -/
def Table.checkComplete (g : Grammar τ ν π) (table : Table τ ν π)
    (follow : List (ν × Option τ)) : Bool :=
  (g.productions.all fun p =>
    (g.lhs p ≠ g.start || table.completes g follow p 0 (g.rhs p)) &&
      decide (Symbol.rule g.start ∉ g.rhs p)) &&
  (List.range table.rows.size).all (table.closedAt g follow)

omit [DecidableEq ν] [DecidableEq τ] [DecidableEq π] in
theorem Table.row_eq_empty {state : Nat} (hstate : table.rows.size ≤ state) :
    table.row state = {} := by
  simp [Table.row, hstate]

theorem Table.complete_of_check (hall : ∀ p : π, p ∈ g.productions)
    (hcheck : table.checkComplete g follow = true) : Complete g table follow := by
  simp only [Table.checkComplete, Bool.and_eq_true, List.all_eq_true, Bool.or_eq_true,
    decide_eq_true_eq, List.mem_range] at hcheck
  obtain ⟨hproductions, hstates⟩ := hcheck
  constructor
  · intro p hstart
    rcases (hproductions p (hall p)).1 with hne | hcompletes
    · exact absurd hstart hne
    · exact hcompletes
  · exact fun p => (hproductions p (hall p)).2
  · intro p before r rest state hrhs hcompletes q hq
    rcases Nat.lt_or_ge state table.rows.size with hlt | hge
    · have htail : (.rule r :: rest) ∈ (g.rhs p).tails := by
        rw [List.mem_tails, hrhs]
        exact List.suffix_append _ _
      have hclosed := hstates state hlt
      simp only [Table.closedAt, List.all_eq_true] at hclosed
      have hat := hclosed p (hall p) _ htail
      simp only [hcompletes, Bool.not_true, Bool.false_or, List.all_eq_true] at hat
      have hcompletesq := hat q (hall q)
      simpa [hq] using hcompletesq
    · obtain ⟨next, htarget, -⟩ := Table.exists_target?_of_completes hcompletes
      rw [Table.target?, Table.row_eq_empty hge] at htarget
      contradiction

end Blockscript.Lr
