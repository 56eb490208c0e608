import Blockscript.Proofs.Lr.Viability

/-!
Reading tokens without coming to an end, and what it depends on: the machine
looks at the kinds of tokens and at the states and symbols of its stack, never at
meanings.
-/

namespace Blockscript.Lr

variable {τ ν π : Type} {g : Grammar τ ν π} {a : Attribution g}

/-- The states and symbols of a stack, the top first. -/
def Stack.outline (stack : Stack a) : List (Nat × Symbol τ ν) :=
  stack.map fun frame => (frame.state, frame.symbol)

/-- Outcomes of the same form, with stacks of the same outline. -/
def Outcome.Alike : Outcome a → Outcome a → Prop
  | .shifted left, .shifted right => left.outline = right.outline
  | .accepted _, .accepted _ => True
  | .rejected left, .rejected right => left.outline = right.outline
  | .derailed left, .derailed right => left.outline = right.outline
  | _, _ => False

/-- A stack of an outline, with some meaning for each symbol. -/
def Stack.ofOutline (fill : (x : Symbol τ ν) → Carrier a.Token a.Meaning x)
    (outline : List (Nat × Symbol τ ν)) : Stack a :=
  outline.map fun entry => ⟨entry.1, entry.2, fill entry.2⟩

theorem Stack.outline_ofOutline (fill : (x : Symbol τ ν) → Carrier a.Token a.Meaning x)
    (outline : List (Nat × Symbol τ ν)) : (Stack.ofOutline fill outline).outline = outline := by
  rw [Stack.ofOutline, Stack.outline, List.map_map]
  exact List.map_id outline

theorem Stack.top_eq_of_states {stack : Stack a} {state : Nat} {states : List Nat}
    (h : stack.states = state :: states) : stack.top = state := by
  cases stack <;> exact (List.cons.inj h).1

theorem Stack.top_eq_of_outline {left right : Stack a} (h : left.outline = right.outline) :
    left.top = right.top := by
  cases left with
  | nil =>
      cases right with
      | nil => rfl
      | cons frame below => contradiction
  | cons frame below =>
      cases right with
      | nil => contradiction
      | cons other under => exact congrArg Prod.fst (List.cons.inj h).1

variable [DecidableEq τ] [DecidableEq ν]

/-- Symbols that lie on top of a stack can be taken off. -/
theorem Stack.exists_pop_append {symbols : List (Symbol τ ν)} {taken : Stack a}
    (htaken : taken.map Frame.symbol = symbols.reverse) (below : Stack a) :
    ∃ meanings, Stack.pop symbols (taken ++ below) = some (meanings, below) := by
  induction symbols generalizing taken below with
  | nil =>
      obtain rfl := List.map_eq_nil_iff.mp htaken
      exact ⟨(), rfl⟩
  | cons x xs ih =>
      rw [List.reverse_cons] at htaken
      obtain ⟨inner, last, rfl, hinner, hlast⟩ := List.map_eq_append_iff.mp htaken
      obtain ⟨frame, rfl, rfl⟩ := List.map_eq_singleton_iff.mp hlast
      obtain ⟨meanings, hpop⟩ := ih hinner (frame :: below)
      rw [List.append_assoc]
      exact ⟨_, Stack.pop_cons hpop⟩

/-- The same symbols can be taken off a stack of the same outline, whatever lies
below it. -/
theorem Stack.exists_pop_of_outline {symbols : List (Symbol τ ν)} {stack other below : Stack a}
    {meanings : Meanings a.Token a.Meaning symbols} {base : List (Nat × Symbol τ ν)}
    (h : other.outline = stack.outline ++ base)
    (hpop : Stack.pop symbols stack = some (meanings, below)) :
    ∃ found under, Stack.pop symbols other = some (found, under) ∧
      Stack.outline under = Stack.outline below ++ base := by
  obtain ⟨taken, rfl, htaken⟩ := Stack.exists_of_pop hpop
  rw [Stack.outline, Stack.outline, List.map_append, List.append_assoc] at h
  obtain ⟨first, under, rfl, hfirst, hunder⟩ := List.map_eq_append_iff.mp h
  have hsymbols : first.map Frame.symbol = symbols.reverse := by
    have hsnd := congrArg (List.map Prod.snd) hfirst
    rw [List.map_map, List.map_map] at hsnd
    exact hsnd.trans htaken
  obtain ⟨found, hfound⟩ := Stack.exists_pop_append hsymbols under
  exact ⟨found, under, hfound, hunder⟩

variable {table : Table τ ν π}

omit [DecidableEq ν] in
theorem Row.shift?_eq_none_of_kind {row : Row τ ν π} {lookahead seen : Option a.Token}
    (hkind : lookahead.map a.kind = seen.map a.kind)
    (hnone : ∀ token ∈ lookahead, row.shift? (a.kind token) = none) :
    ∀ token ∈ seen, row.shift? (a.kind token) = none := by
  intro token htoken
  rw [Option.mem_def.mp htoken] at hkind
  obtain ⟨first, hfirst, hsame⟩ := Option.map_eq_some_iff.mp hkind
  rw [← hsame]
  exact hnone first hfirst

/-- Feeding a token of the same kind to a stack of the same outline comes to the
same. -/
theorem Stack.Feeds.exists_alike {stack : Stack a} {lookahead : Option a.Token}
    {outcome : Outcome a} (hfeeds : Stack.Feeds table stack lookahead outcome)
    {other : Stack a} (houtline : stack.outline = other.outline) {seen : Option a.Token}
    (hkind : lookahead.map a.kind = seen.map a.kind) :
    ∃ result, Stack.Feeds table other seen result ∧ outcome.Alike result := by
  induction hfeeds generalizing other with
  | @shift stack token target hshift =>
      obtain ⟨read, rfl, hread⟩ := Option.map_eq_some_iff.mp hkind.symm
      rw [Stack.top_eq_of_outline houtline, ← hread] at hshift
      refine ⟨_, .shift hshift, ?_⟩
      simp only [Outcome.Alike, Stack.outline, List.map_cons, hread, List.cons.injEq, true_and]
      exact houtline
  | reject hshift hreduce =>
      have hnone := Row.shift?_eq_none_of_kind hkind hshift
      rw [Stack.top_eq_of_outline houtline] at hnone hreduce
      rw [hkind] at hreduce
      exact ⟨_, .reject hnone hreduce, houtline⟩
  | accept hreduce hpop hstart =>
      obtain rfl : seen = none := Option.map_eq_none_iff.mp hkind.symm
      rw [Stack.top_eq_of_outline houtline] at hreduce
      obtain ⟨found, under, hfound, hunder⟩ := Stack.exists_pop_of_outline
        (houtline.symm.trans (List.append_nil _).symm) hpop
      obtain rfl : under = [] := List.map_eq_nil_iff.mp hunder
      exact ⟨_, .accept hreduce hfound hstart, trivial⟩
  | @reduce stack below lookahead p meanings target outcome hshift hreduce hpop hgoes hgoto
      hrest ih =>
      have hnone := Row.shift?_eq_none_of_kind hkind hshift
      obtain ⟨found, under, hfound, hunder⟩ := Stack.exists_pop_of_outline
        (houtline.symm.trans (List.append_nil _).symm) hpop
      rw [List.append_nil] at hunder
      rw [Stack.top_eq_of_outline houtline] at hnone hreduce
      rw [hkind] at hreduce
      rw [← Stack.top_eq_of_outline hunder] at hgoto
      have hstays : ¬ (seen.isNone = true ∧ under.isEmpty = true ∧ g.lhs p = g.start) := by
        rintro ⟨hempty, hbottom, hstart⟩
        refine hgoes ⟨?_, ?_, hstart⟩
        · rw [Option.isNone_iff_eq_none.mp hempty] at hkind
          exact Option.isNone_iff_eq_none.mpr (Option.map_eq_none_iff.mp hkind)
        · rw [List.isEmpty_iff.mp hbottom] at hunder
          exact List.isEmpty_iff.mpr (List.map_eq_nil_iff.mp hunder.symm)
      have hpushed : Stack.outline (⟨target, .rule (g.lhs p), a.interpret p meanings⟩ :: below) =
          Stack.outline (⟨target, .rule (g.lhs p), a.interpret p found⟩ :: under) := by
        simp only [Stack.outline, List.map_cons, List.cons.injEq, true_and]
        exact hunder.symm
      obtain ⟨result, hresult, halike⟩ := ih hpushed hkind
      exact ⟨result, .reduce hnone hreduce hfound hstays hgoto hresult, halike⟩

/-- Whether the lookahead was of use: it has been shifted, or the parse has come to its end. -/
def Outcome.taken : Outcome a → Bool
  | .shifted _ | .accepted _ => true
  | .rejected _ | .derailed _ => false

omit [DecidableEq τ] [DecidableEq ν] in
theorem Outcome.Alike.taken_eq {outcome result : Outcome a} (h : outcome.Alike result) :
    result.taken = outcome.taken := by
  cases outcome <;> cases result <;> first | rfl | exact h.elim

def Stack.takes (table : Table τ ν π) (stack : Stack a) (lookahead : Option a.Token) : Bool :=
  (Stack.feed table stack lookahead).taken

/-- Stacks of the same outline take the same. -/
theorem Stack.takes_congr {rank : Symbol τ ν → Nat} (hrank : Descending g table rank)
    {left right : Stack a} (houtline : left.outline = right.outline)
    (lookahead : Option a.Token) :
    left.takes table lookahead = right.takes table lookahead := by
  have himp : ∀ {left right : Stack a}, left.outline = right.outline →
      left.takes table lookahead = true → right.takes table lookahead = true := by
    intro left right houtline htakes
    have hfeeds : Stack.Feeds table left lookahead (Stack.feed table left lookahead) := by
      refine Stack.feeds_of_feedWithin rfl fun stack hderails => ?_
      rw [Stack.takes, hderails] at htakes
      contradiction
    obtain ⟨result, hresult, halike⟩ := hfeeds.exists_alike houtline rfl
    rw [Stack.takes, hresult.feed_eq hrank, halike.taken_eq]
    exact htakes
  exact Bool.eq_iff_iff.mpr ⟨himp houtline, himp houtline.symm⟩

/-- Feeding a lookahead has one outcome. -/
theorem Stack.Feeds.unique {rank : Symbol τ ν → Nat} (hrank : Descending g table rank)
    {stack : Stack a} {lookahead : Option a.Token} {outcome result : Outcome a}
    (hfeeds : Stack.Feeds table stack lookahead outcome)
    (hresult : Stack.Feeds table stack lookahead result) : outcome = result :=
  (hfeeds.feed_eq hrank).symm.trans (hresult.feed_eq hrank)

/-! ### Reading tokens -/

/-- The machine reads the tokens one by one. -/
inductive Stack.Shifts (table : Table τ ν π) : Stack a → List a.Token → Stack a → Prop
  | nil {stack : Stack a} : Shifts table stack [] stack
  | read {stack next last : Stack a} {token : a.Token} {rest : List a.Token}
      (hfeeds : Stack.Feeds table stack (some token) (.shifted next))
      (hrest : Shifts table next rest last) : Shifts table stack (token :: rest) last

/-- The stack that is left when tokens are fed one by one, if all are shifted. -/
def Stack.shiftAll? (table : Table τ ν π) : Stack a → List a.Token → Option (Stack a)
  | stack, [] => some stack
  | stack, token :: rest =>
      match Stack.feed table stack (some token) with
      | .shifted next => Stack.shiftAll? table next rest
      | _ => none

theorem Stack.shifts_of_shiftAll? {stack last : Stack a} {tokens : List a.Token}
    (hall : Stack.shiftAll? table stack tokens = some last) :
    Stack.Shifts table stack tokens last := by
  induction tokens generalizing stack with
  | nil =>
      cases hall
      exact .nil
  | cons token tokens ih =>
      rw [Stack.shiftAll?] at hall
      split at hall
      · rename_i next hfeed
        exact .read (Stack.feeds_of_feedWithin hfeed nofun) (ih hall)
      · contradiction

theorem Stack.Accepts.exists_shifts {stack : Stack a} {first rest : List a.Token}
    {meaning : a.Meaning g.start} (haccepts : Stack.Accepts table stack (first ++ rest) meaning) :
    ∃ next, Stack.Shifts table stack first next ∧ Stack.Accepts table next rest meaning := by
  induction first generalizing stack with
  | nil => exact ⟨stack, .nil, haccepts⟩
  | cons token first ih =>
      cases haccepts with
      | read hfeeds hrest =>
          obtain ⟨next, hshifts, haccepts⟩ := ih hrest
          exact ⟨next, .read hfeeds hshifts, haccepts⟩

theorem Stack.Shifts.exists_split {stack last : Stack a} {first rest : List a.Token}
    (hshifts : Stack.Shifts table stack (first ++ rest) last) :
    ∃ next, Stack.Shifts table stack first next ∧ Stack.Shifts table next rest last := by
  induction first generalizing stack with
  | nil => exact ⟨stack, .nil, hshifts⟩
  | cons token first ih =>
      cases hshifts with
      | read hfeeds hrest =>
          obtain ⟨next, hfirst, hlast⟩ := ih hrest
          exact ⟨next, .read hfeeds hfirst, hlast⟩

theorem Stack.Shifts.spans (hall : ∀ p : π, p ∈ g.productions) {stack next : Stack a}
    {tokens : List a.Token} (hshifts : Stack.Shifts table stack tokens next)
    {word : List a.Token} (hspans : Stack.Spans stack word) :
    Stack.Spans next (word ++ tokens) := by
  induction hshifts generalizing word with
  | nil => rwa [List.append_nil]
  | read hfeeds hrest ih =>
      obtain ⟨_, htoken, hspans⟩ := hfeeds.spans hall hspans
      cases htoken
      rw [List.append_cons]
      exact ih hspans

theorem Stack.Shifts.traced {stack next : Stack a} {tokens : List a.Token}
    (hshifts : Stack.Shifts table stack tokens next) (htraced : Stack.Traced table stack) :
    Stack.Traced table next := by
  induction hshifts with
  | nil => exact htraced
  | read hfeeds hrest ih => exact ih (hfeeds.traced htraced)

/-- Reading tokens of the same kinds leads to a stack of the same outline. -/
theorem Stack.Shifts.outline_eq {rank : Symbol τ ν → Nat} (hrank : Descending g table rank)
    {stack other next last : Stack a} {tokens seen : List a.Token}
    (hshifts : Stack.Shifts table stack tokens next) (houtline : stack.outline = other.outline)
    (hseen : Stack.Shifts table other seen last)
    (hkinds : tokens.map a.kind = seen.map a.kind) : next.outline = last.outline := by
  induction hshifts generalizing other seen with
  | nil =>
      cases hseen with
      | nil => exact houtline
      | read => contradiction
  | @read stack middle last token rest hfeeds hrest ih =>
      cases hseen with
      | nil => contradiction
      | @read _ _ _ first _ hother hseen =>
          obtain ⟨hkind, hkinds⟩ := List.cons.inj hkinds
          have hlookahead : (some token).map a.kind = (some first).map a.kind :=
            congrArg some hkind
          obtain ⟨result, hresult, halike⟩ := hfeeds.exists_alike houtline hlookahead
          cases hresult.unique hrank hother
          exact ih halike hseen hkinds

end Blockscript.Lr
