import Blockscript.Proofs.Script.Joining
import Blockscript.Proofs.Script.Unfinished

/-!
The construct that a report names, below another script.  The rule in progress is the
same whatever routines come before.  The samples are not: they tell a failure by the depth
of its stack, which the routines before make one deeper in the first routine behind them.
-/

namespace Blockscript.Script

/-! ### The rule in progress -/

-- As for single states: unfolding the function would have the table built.
theorem ruleInProgress_append (above below : List Nat) :
    ruleInProgress (above ++ below) = (ruleInProgress above).or (ruleInProgress below) := by
  have happend : ∀ f : Nat → Option Rule,
      (above ++ below).findSome? f = (above.findSome? f).or (below.findSome? f) :=
    fun _ => List.findSome?_append
  exact happend _

theorem states_eq_outline (stack : Stack) :
    Lr.Stack.states stack = stack.outline.map Prod.fst ++ [0] := by
  rw [Lr.Stack.states, Lr.Stack.outline, List.map_map]
  rfl

/-- Nothing is in progress behind a whole routine. -/
theorem ruleInProgress_of_routine {stack : Stack}
    (houtline : stack.outline = [(2, .rule .routine)]) : ruleInProgress stack.states = none := by
  rw [states_eq_outline, houtline]
  exact (ruleInProgress_of_nil rfl _).trans ruleInProgress_empty

/-- The routines before do not matter to the rule in progress. -/
theorem Beside.ruleInProgress_eq {left right : Stack} (hbeside : Beside left right)
    {r : Rule} (hrule : ruleInProgress left.states = some r) :
    ruleInProgress right.states = some r := by
  cases hbeside with
  | same houtline => rwa [states_eq_outline, ← houtline, ← states_eq_outline]
  | above hlast hbottom houtline =>
      have hempty : ruleInProgress [0] = none := ruleInProgress_empty
      rw [states_eq_outline, ruleInProgress_append, hempty, Option.or_none] at hrule
      rw [states_eq_outline, houtline, List.map_append, List.append_assoc, ruleInProgress_append,
        hrule, Option.some_or]
  | first hleft hright =>
      exact absurd ((ruleInProgress_of_routine hleft).symm.trans hrule) nofun

/-! ### Routines at the bottom of the stack -/

/-- Routines lie at the bottom of a stack. -/
def OnRoutines (stack : Stack) : Prop :=
  stack.outline.getLast? = some (1, .rule .routines)

theorem OnRoutines.push {stack : Stack} (hstack : OnRoutines stack) (frame : Lr.Frame attribution) :
    OnRoutines (frame :: stack) :=
  getLast?_cons_of_some hstack _

/-- Routines are taken off the bottom only to be put back with one more. -/
theorem OnRoutines.reduce {stack below : Stack} (hstack : OnRoutines stack) {p : Production}
    {meanings} (hpop : Lr.Stack.pop (grammar.rhs p) stack = some (meanings, below)) {target : Nat}
    (hgoto : (table.row (Lr.Stack.top below)).goto? (grammar.lhs p) = some target) :
    OnRoutines (⟨target, .rule (grammar.lhs p), attribution.interpret p meanings⟩ :: below) := by
  cases below with
  | nil =>
      have hhead := head?_rhs_of_pop hstack hpop
      cases p with
      | program => exact absurd ((goto?_program _).symm.trans hgoto) nofun
      | nextRoutine =>
          have hagain : (table.row 0).goto? .routines = some 1 := by
            rw [row_eq]
            rfl
          obtain rfl : 1 = target := Option.some.inj (hagain.symm.trans hgoto)
          rfl
      | _ => contradiction
  | cons frame below =>
      obtain ⟨taken, rfl, -⟩ := Lr.Stack.exists_of_pop hpop
      have hbelow : OnRoutines (frame :: below) := by
        rw [OnRoutines, Lr.Stack.outline, List.map_append, List.getLast?_append_of_ne_nil] at hstack
        · exact hstack
        · exact List.cons_ne_nil _ _
      exact hbelow.push _

def OutcomeOnRoutines : Lr.Outcome attribution → Prop
  | .accepted _ => True
  | .shifted stack | .rejected stack | .derailed stack => OnRoutines stack

theorem OnRoutines.of_feeds {stack : Stack} (hstack : OnRoutines stack) {lookahead : Option Token}
    {outcome : Lr.Outcome attribution} (hfeeds : Lr.Stack.Feeds table stack lookahead outcome) :
    OutcomeOnRoutines outcome := by
  induction hfeeds with
  | shift hshift => exact hstack.push _
  | reject hshift hreduce => exact hstack
  | accept hreduce hpop hstart => trivial
  | reduce hshift hreduce hpop hgoes hgoto hrest ih => exact ih (hstack.reduce hpop hgoto)

theorem OnRoutines.of_reads {stage final : Stage} (hstack : OnRoutines stage.stack)
    {tokens : List Token} (hreads : stage.Reads tokens final) : OnRoutines final.stack := by
  induction hreads with
  | nil => exact hstack
  | cons hread hfeeds hrest ih => exact ih (hstack.of_feeds hfeeds)

theorem OnRoutines.of_refuses {stage : Stage} (hstack : OnRoutines stage.stack) {failure : Failure}
    (hrefuses : stage.Refuses failure) : OnRoutines failure.stack := by
  cases hrefuses with
  | atEnd hread hfeeds => exact hstack.of_feeds hfeeds
  | rejected hread hfeeds => exact hstack.of_feeds hfeeds
  | unexpected hread => exact hstack
  | unreadable hread => exact hstack

/-- A token alone on a stack is all that has been read. -/
theorem eq_nil_of_outline {stack : Stack} {tokens : List Token} {token : Token}
    (hspans : Lr.Stack.Spans stack (tokens ++ [token])) {state : Nat} {t : Terminal}
    (houtline : stack.outline = [(state, .terminal t)]) : tokens = [] := by
  obtain ⟨frame, rfl, hframe⟩ := List.map_eq_singleton_iff.mp houtline
  obtain ⟨found, symbol, meaning⟩ := frame
  cases hframe
  generalize hword : tokens ++ [token] = word at hspans
  cases hspans with
  | cons hbelow hlast =>
      cases hbelow
      obtain ⟨-, rfl⟩ := Lr.derives_terminal_iff.mp hlast
      exact (List.append_eq_singleton_iff.mp hword).elim And.left fun h => absurd h.2 (by simp)

theorem Spells.eq_nil_iff {routines : List Routine} {tokens : List Token}
    (hspells : Spells routines tokens) : routines = [] ↔ tokens = [] := by
  cases hspells with
  | nil => simp
  | cons hroutine hrest => cases hroutine <;> simp

/-- Behind a script that has routines, these lie at the bottom. -/
theorem onRoutines_of_first {stack next : Stack} {routines : List Routine}
    (haccepts : Lr.Stack.Feeds table stack none (.accepted routines)) {tokens : List Token}
    (hspans : Lr.Stack.Spans stack tokens) (htokens : tokens ≠ []) {token : Token}
    (hfeeds : Lr.Stack.Feeds table stack (some token) (.shifted next)) : OnRoutines next := by
  rcases feeds_resumed haccepts token with
    ⟨other, state, base, hother, -, hbase, houtline⟩ | ⟨-, left, hrejects⟩
  · obtain rfl : next = other := Lr.Outcome.shifted.inj (hfeeds.unique descending hother)
    simp only [bases, List.mem_cons, List.not_mem_nil, or_false] at hbase
    rcases hbase with rfl | rfl
    · obtain ⟨_, hsame, hnext⟩ := hfeeds.spans mem_productions hspans
      cases hsame
      exact absurd (eq_nil_of_outline hnext houtline) htokens
    · rw [OnRoutines, houtline]
      rfl
  · have hsame := hfeeds.unique descending hrejects
    contradiction

/-! ### The depths of the samples -/

def failure? (source : String) : Option Failure :=
  match parse source with
  | .error failure => some failure
  | .ok _ => none

theorem failure?_eq_some_iff {source : String} {failure : Failure} :
    failure? source = some failure ↔ parse source = .error failure := by
  rw [failure?]
  cases parse source <;> simp

def sampleFailures : List (Failure × String) :=
  samples.flatMap fun sample => sample.2.filterMap fun source =>
    (failure? source).map fun failure => (failure, sample.1)

def spotsOf (failures : List (Failure × String)) : List ((Nat × Nat) × String) :=
  failures.map fun entry => (entry.1.spot, entry.2)

theorem sampleSpots_eq_spotsOf : sampleSpots = spotsOf sampleFailures := by
  rw [sampleSpots, spotsOf, sampleFailures, List.map_flatMap]
  refine List.flatMap_congr fun sample _ => ?_
  rw [List.map_filterMap]
  refine List.filterMap_congr fun source _ => ?_
  rw [failure?]
  cases parse source <;> rfl

/-- Where the samples stop the parser, and what they meet there. -/
def stops : List ((Nat × Nat) × Found × String) :=
  [((100, 11), .token "player", "missing separator"),
    ((100, 11), .token "plot", "missing separator"),
    ((20, 6), .endOfInput, "unclosed block"),
    ((100, 11), .endOfInput, "unclosed block"),
    ((110, 11), .endOfInput, "unclosed block"),
    ((66, 9), .token "\x7d", "missing argument list"),
    ((68, 9), .token ";", "missing argument list"),
    ((88, 10), .token "\x7d", "missing argument list"),
    ((0, 1), .token "player", "statement outside of a unit"),
    ((0, 1), .token "var", "statement outside of a unit"),
    ((0, 1), .token "if", "statement outside of a unit"),
    ((52, 8), .token "entity", "negation is only allowed on player conditions"),
    ((52, 8), .token "plot", "negation is only allowed on player conditions"),
    ((52, 8), .token "var", "negation is only allowed on player conditions"),
    ((50, 8), .token "add", "missing operator"),
    ((50, 9), .token "eq", "missing operator"),
    ((103, 11), .token "\x7d", "unterminated argument list"),
    ((120, 12), .token "\x7d", "unterminated argument list")]

theorem stops_eq :
    sampleFailures.map (fun entry => (entry.1.spot, entry.1.found, entry.2)) = stops := by
  decide +kernel

/-- The same without what is met. -/
def spots : List ((Nat × Nat) × String) :=
  stops.map fun stop => (stop.1, stop.2.2)

theorem sampleSpots_eq : sampleSpots = spots := by
  rw [sampleSpots_eq_spotsOf, spots, ← stops_eq, List.map_map]
  rfl

/-- The states that so many symbols lead to. -/
def statesAt (table : Lr.Table Terminal Rule Production) : Nat → List Nat
  | 0 => [0]
  | depth + 1 => table.beyond (statesAt table depth)

theorem top_mem_statesAt {stack : Stack} (htraced : Lr.Stack.Traced table stack) :
    Lr.Stack.top stack ∈ statesAt table stack.length := by
  induction htraced with
  | nil => exact List.mem_singleton_self 0
  | cons hbelow hedge ih =>
      exact Lr.Table.mem_beyond_iff.mpr ⟨_, ih, Lr.Table.mem_targets_of_target? hedge⟩

/-- Only one sample stops in a state that is reached with one symbol less, too. -/
theorem eq_of_mem_statesAt : ∀ entry ∈ spots, 2 ≤ entry.1.2 →
    entry.1.1 ∈ statesAt ⟨rows.toArray⟩ (entry.1.2 - 2) →
      entry = ((50, 9), "missing operator") := by
  decide +kernel

theorem Failure.spot_eq (failure : Failure) :
    failure.spot = (Lr.Stack.top failure.stack, failure.stack.length + 1) := by
  unfold Failure.spot Failure.states
  cases failure.stack with
  | nil => rfl
  | cons frame below => simp [Lr.Stack.states, Lr.Stack.top]

/-- A sample that a failure matches one deeper in the stack has the label that the failure
gets where it is. -/
theorem lookup_of_deeper {failure : Failure} (htraced : Lr.Stack.Traced table failure.stack)
    {label : String}
    (hlookup : sampleSpots.lookup (failure.spot.1, failure.spot.2 + 1) = some label) :
    sampleSpots.lookup failure.spot = some label := by
  have htop := top_mem_statesAt htraced
  rw [sampleSpots_eq, failure.spot_eq] at hlookup ⊢
  rw [table_eq] at htop
  obtain ⟨before, behind, hspots, -⟩ := List.lookup_eq_some_iff.mp hlookup
  have hmem : ((Lr.Stack.top failure.stack, failure.stack.length + 1 + 1), label) ∈ spots := by
    rw [hspots]
    exact List.mem_append_right before List.mem_cons_self
  have hentry := eq_of_mem_statesAt _ hmem (Nat.le_add_left 2 _) htop
  simp only [Prod.mk.injEq, Nat.reduceEqDiff] at hentry
  obtain ⟨⟨hstate, hdepth⟩, rfl⟩ := hentry
  rw [hstate, hdepth]
  rfl

/-! ### The construct that is named -/

/-- A failure at the end of a script in which a block is open. -/
def Failure.LeavesOpen (failure : Failure) (source : String) : Prop :=
  failure.found = .endOfInput ∧ unclosedBrace? source ≠ none

theorem Failure.rule_of_leavesOpen {failure : Failure} {source : String}
    (hopen : failure.LeavesOpen source) :
    (failure.report source).rule = some "unclosed block" := by
  obtain ⟨hfound, hbrace⟩ := hopen
  obtain ⟨brace, hbrace⟩ := Option.ne_none_iff_exists'.mp hbrace
  simp only [Failure.report, hfound, hbrace, Problem.report]

theorem Failure.rule_of_not_leavesOpen {failure : Failure} {source : String}
    (hclosed : ¬ failure.LeavesOpen source) :
    (failure.report source).rule = failure.label? := by
  unfold Failure.report
  cases hfound : failure.found with
  | endOfInput =>
      cases hbrace : unclosedBrace? source with
      | none => rfl
      | some brace => exact absurd ⟨hfound, by simp [hbrace]⟩ hclosed
  | token text => rfl
  | character c => rfl

theorem Failure.Lowered.leavesOpen_iff {failure other : Failure} {characters lines : Nat}
    (hlowered : failure.Lowered other characters lines) {source joined : String}
    (hbrace : unclosedBrace? joined =
      (unclosedBrace? source).map fun brace => brace.lowered characters lines) :
    other.LeavesOpen joined ↔ failure.LeavesOpen source := by
  rw [Failure.LeavesOpen, Failure.LeavesOpen, hlowered.found, hbrace, ne_eq, ne_eq,
    Option.map_eq_none_iff]

/-- The label of a sample goes before that of the rule in progress. -/
theorem Failure.label?_of_lookup {failure : Failure} {label : String}
    (hlookup : sampleSpots.lookup failure.spot = some label) : failure.label? = some label := by
  rw [label?_eq]
  beta_reduce
  rw [hlookup]

theorem Failure.label?_of_lookup_none {failure : Failure}
    (hlookup : sampleSpots.lookup failure.spot = none) :
    failure.label? = (ruleInProgress failure.states).map Rule.label := by
  rw [label?_eq]
  beta_reduce
  rw [hlookup]

/-- The label depends on the states of the stack. -/
theorem Failure.label?_congr {failure other : Failure} (hstates : other.states = failure.states) :
    other.label? = failure.label? := by
  rw [label?_eq]
  beta_reduce
  rw [Failure.spot, hstates, ← Failure.spot]

/-- A failure in the first routine of a script, of which the construct is named after a
sample that it would not match one deeper in the stack. -/
structure Failure.NamedByDepth (failure : Failure) (source : String) : Prop where
  closed : ¬ failure.LeavesOpen source
  first : ∀ frame ∈ failure.stack.getLast?, frame.symbol ≠ .rule .routines
  sampled : sampleSpots.lookup failure.spot ≠ none
  unmatched : sampleSpots.lookup (failure.spot.1, failure.spot.2 + 1) = none

theorem not_onRoutines {failure : Failure}
    (hfirst : ∀ frame ∈ failure.stack.getLast?, frame.symbol ≠ .rule .routines) :
    ¬ OnRoutines failure.stack := by
  intro hbottom
  rw [OnRoutines, Lr.Stack.outline, List.getLast?_map, Option.map_eq_some_iff] at hbottom
  obtain ⟨frame, hframe, hsymbol⟩ := hbottom
  exact hfirst frame hframe (congrArg Prod.snd hsymbol)

/-- The stack of a failure is the same below another script, or it lies in the first
routine and is one deeper. -/
theorem Beside.cases_failure {failure other : Failure}
    (hbeside : Beside failure.stack other.stack)
    (hrule : failure.stack ≠ [] → ∃ r, ruleInProgress failure.states = some r) :
    failure.stack.outline = other.stack.outline ∨
      (∀ frame ∈ failure.stack.getLast?, frame.symbol ≠ .rule .routines) ∧
      other.spot = (failure.spot.1, failure.spot.2 + 1) ∧
      ruleInProgress other.states = ruleInProgress failure.states := by
  have hrules : failure.stack.outline ≠ [] →
      ruleInProgress other.states = ruleInProgress failure.states := by
    intro hsome
    obtain ⟨r, hr⟩ := hrule fun hnone => hsome (by rw [hnone]; rfl)
    exact (hbeside.ruleInProgress_eq hr).trans hr.symm
  cases hbeside with
  | same houtline => exact .inl houtline
  | @above entry hlast hbottom houtline =>
      refine .inr ⟨?_, ?_, hrules ?_⟩
      · intro frame hframe hsymbol
        rw [Lr.Stack.outline, List.getLast?_map, hframe] at hlast
        cases hlast
        exact hbottom (by simp [hsymbol])
      · have hlength := congrArg List.length houtline
        simp only [Lr.Stack.outline, List.length_map, List.length_append,
          List.length_singleton] at hlength
        rw [other.spot_eq, failure.spot_eq, top_eq_of_append hlast houtline, hlength]
      · rintro hnone
        rw [hnone] at hlast
        contradiction
  | first hleft hright =>
      obtain ⟨r, hr⟩ := hrule fun hnone => by
        rw [hnone] at hleft
        contradiction
      rw [Failure.states, ruleInProgress_of_routine hleft] at hr
      contradiction

/-- One deeper in the stack a failure is labelled as it is, or by the rule in progress if
it no longer matches a sample. -/
theorem label?_deeper {failure other : Failure}
    (hspot : other.spot = (failure.spot.1, failure.spot.2 + 1))
    (hrule : ruleInProgress other.states = ruleInProgress failure.states)
    (htraced : Lr.Stack.Traced table failure.stack) :
    (sampleSpots.lookup other.spot = none →
      other.label? = (ruleInProgress failure.states).map Rule.label) ∧
    (sampleSpots.lookup failure.spot = none ∨ sampleSpots.lookup other.spot ≠ none →
      other.label? = failure.label?) := by
  constructor
  · intro hnone
    rw [Failure.label?_of_lookup_none hnone, hrule]
  · intro hcases
    cases hdeeper : sampleSpots.lookup other.spot with
    | none =>
        have hnone := hcases.resolve_right fun h => h hdeeper
        rw [Failure.label?_of_lookup_none hdeeper, Failure.label?_of_lookup_none hnone, hrule]
    | some label =>
        rw [Failure.label?_of_lookup hdeeper]
        rw [hspot] at hdeeper
        rw [Failure.label?_of_lookup (lookup_of_deeper htraced hdeeper)]

/-- How a failure is labelled below another script. -/
theorem label?_join {failure other : Failure} {second : String} {routines : List Routine}
    (hclosed : ¬ failure.LeavesOpen second) (htraced : Lr.Stack.Traced table failure.stack)
    (hbeside : Beside failure.stack other.stack)
    (hrule : failure.stack ≠ [] → ∃ r, ruleInProgress failure.states = some r)
    (hbottom : routines ≠ [] → OnRoutines other.stack)
    (halone : routines = [] → failure.stack.outline = other.stack.outline) :
    (routines = [] ∨ ¬ failure.NamedByDepth second → other.label? = failure.label?) ∧
    (routines ≠ [] → failure.NamedByDepth second →
      other.label? = (ruleInProgress failure.states).map Rule.label) := by
  have hequal : failure.stack.outline = other.stack.outline → other.label? = failure.label? := by
    intro houtline
    apply Failure.label?_congr
    rw [Failure.states, Failure.states, states_eq_outline, states_eq_outline, houtline]
  rcases hbeside.cases_failure hrule with houtline | ⟨hfirst, hspot, hrules⟩
  · refine ⟨fun _ => hequal houtline, fun hroutines hnamed => ?_⟩
    have hon := hbottom hroutines
    rw [OnRoutines, ← houtline] at hon
    exact absurd hon (not_onRoutines hnamed.first)
  · obtain ⟨hprogress, hlabel⟩ := label?_deeper hspot hrules htraced
    constructor
    · rintro (hroutines | hunnamed)
      · exact hequal (halone hroutines)
      · apply hlabel
        by_contra! hboth
        rw [hspot] at hboth
        exact hunnamed ⟨hclosed, hfirst, hboth.1, hboth.2⟩
    · intro _ hnamed
      apply hprogress
      rw [hspot]
      exact hnamed.unmatched

/-- What is named in the report for a script below another one. -/
theorem parse_join_rule {first second : String} {routines : List Routine} {failure : Failure}
    (hfirst : parse first = .ok routines) (hsecond : parse second = .error failure)
    (hlater : ¬ (failure.report second).AtFirstToken second) :
    ∃ other, parse (first ++ "\n" ++ second) = .error other ∧
      (routines = [] ∨ ¬ failure.NamedByDepth second →
        (other.report (first ++ "\n" ++ second)).rule = (failure.report second).rule) ∧
      (routines ≠ [] → failure.NamedByDepth second →
        (other.report (first ++ "\n" ++ second)).rule =
          (ruleInProgress failure.states).map Rule.label) := by
  obtain ⟨tokens, stack, last, cursor, hspells, haccepts, hreads, hcursor⟩ :=
    exists_reads_seam hfirst second
  obtain ⟨pieces, stage, hmore, -, -, -, -, hrefuses⟩ := exists_refuses_of_parse hsecond
  generalize placed {} pieces = word at hmore
  cases word with
  | nil =>
      cases hmore
      exact absurd hrefuses.atFirstToken hlater
  | cons token word =>
      obtain ⟨_, final, other, hbehind, hother, hlowered, hbeside, hsame, -⟩ :=
        exists_refuses_of_later haccepts hcursor hmore hrefuses last
      refine ⟨other, (hreads.append hbehind).parse_eq hother.round_eq, ?_⟩
      have hopen := hlowered.leavesOpen_iff (unclosedBrace?_join hfirst second)
      by_cases hleaves : failure.LeavesOpen second
      · rw [Failure.rule_of_leavesOpen hleaves, Failure.rule_of_leavesOpen (hopen.mpr hleaves)]
        exact ⟨fun _ => rfl, fun _ hnamed => absurd hleaves hnamed.closed⟩
      · rw [Failure.rule_of_not_leavesOpen hleaves,
          Failure.rule_of_not_leavesOpen (mt hopen.mp hleaves)]
        have hshifts := hmore.shifts
        have hrule := fun hsome =>
          exists_ruleInProgress (hrefuses.exists_underway hshifts hsome)
        refine label?_join hleaves (hrefuses.traced (hshifts.traced .nil)) hbeside hrule ?_ ?_
        · intro hroutines
          have hspans := hreads.shifts.spans mem_productions .nil
          have htokens := mt hspells.eq_nil_iff.mpr hroutines
          cases hbehind with
          | cons hread hfeeds hrest =>
              have hnext := onRoutines_of_first haccepts hspans htokens hfeeds
              exact (hnext.of_reads hrest).of_refuses hother
        · intro hroutines
          obtain rfl := hspells.eq_nil_iff.mp hroutines
          cases hreads
          exact hsame rfl

/-! ### Two actions without a separator below a function -/

/-- A function without statements. -/
def idle : List Piece :=
  [⟨[], .func, "func"⟩, ⟨[' '], .ident, "f"⟩, ⟨[], .leftParen, "("⟩, ⟨[], .rightParen, ")"⟩,
    ⟨[' '], .leftBrace, "\x7b"⟩, ⟨[], .rightBrace, "\x7d"⟩]

theorem parse_idle : parse "func f() \x7b\x7d" = .ok [⟨.function, "f", [], 1, 6⟩] := by
  have hblank : IsLayout [' '] := .blank rfl .nil
  have hname : IsName "f".toList :=
    .intro (by decide) (List.all_eq_true.mp (by decide)) (by decide)
  have hcut : Cut idle [] := .cons .nil rfl nofun (.cons hblank hname nofun (.cons .nil rfl nofun
    (.cons .nil rfl nofun (.cons hblank rfl nofun (.cons .nil rfl nofun .nil)))))
  obtain ⟨routine, hroutine, rfl⟩ : ∃ routine, SpellsRoutine routine (placed {} idle) ∧
      routine = ⟨.function, "f", [], 1, 6⟩ :=
    ⟨_, .function rfl rfl rfl rfl (.nothing rfl rfl), rfl⟩
  have hspells := Spells.cons hroutine .nil
  rw [List.append_nil] at hspells
  have hparsed : Parsed idle [] _ :=
    ⟨⟨hcut, .closed .nil⟩, by decide, hspells.derived⟩
  exact hparsed.parse_eq

/-- A token that does not stand in the first column is not the first of a script without
layout before it. -/
theorem not_atFirstToken {source : String} {failure : Failure} {c : Char}
    (hhead : source.toList.head? = some c) (hsolid : ¬ (isBlank c = true ∨ c = '/'))
    (hfound : failure.found ≠ .endOfInput) (hcolumn : failure.place.column ≠ 1) :
    ¬ (failure.report source).AtFirstToken source := by
  rintro ⟨-, gap, rest, hsplit, hgap, -, hbehind⟩
  obtain ⟨-, hreported, -, -⟩ := failure.report_eq source
  rw [hbehind, Failure.reportedPlace_eq hfound] at hreported
  cases gap with
  | nil =>
      have hfirst := Mark.known.inj hreported
      exact hcolumn (Int.natCast_inj.mp hfirst).symm
  | cons d gap =>
      rw [hsplit] at hhead
      cases hhead
      exact hsolid (hgap.head rfl)

theorem namedByDepth_unseparated {failure : Failure}
    (htraced : Lr.Stack.Traced table failure.stack)
    (hstates : failure.states = [100, 85, 66, 46, 34, 20, 16, 13, 10, 6, 0])
    (hfound : failure.found = .token "player") : failure.NamedByDepth unseparated where
  closed hopen := absurd (hfound.symm.trans hopen.1) nofun
  first := by
    intro frame hframe hsymbol
    obtain ⟨above, hstack⟩ := List.getLast?_eq_some_iff.mp hframe
    rw [hstack] at htraced
    have hstate : frame.state = 6 := by
      have hlast : above.map Lr.Frame.state ++ [frame.state, 0] =
          [100, 85, 66, 46, 34, 20, 16, 13, 10] ++ [6, 0] := by
        rw [Failure.states, Lr.Stack.states, hstack] at hstates
        simpa using hstates
      exact (List.cons.inj (List.append_inj' hlast rfl).2).1
    have hedge := htraced.lowest.1
    rw [hsymbol, hstate, Lr.Table.target?, row_eq] at hedge
    exact absurd hedge (by decide)
  sampled := by
    rw [sampleSpots_eq, Failure.spot, hstates]
    decide
  unmatched := by
    rw [sampleSpots_eq, Failure.spot, hstates]
    decide

/-- Below another script that can be read, the construct named for a script that fails
behind its first token is the same, unless it is named after a sample by the depth of its
stack: then it is that of the rule in progress. -/
theorem rule_join {first second : String} {routines : List Routine} {error : SyntaxError}
    (hfirst : Script.read first = .ok routines) (hsecond : Script.read second = .error error)
    (hlater : ¬ error.AtFirstToken second) :
    ∃ failure other, parse second = .error failure ∧
      Script.read (first ++ "\n" ++ second) = .error other ∧
      (routines = [] ∨ ¬ failure.NamedByDepth second → other.rule = error.rule) ∧
      (routines ≠ [] → failure.NamedByDepth second →
        other.rule = (ruleInProgress failure.states).map Rule.label) := by
  rw [read_eq_ok_iff] at hfirst
  obtain ⟨failure, hparse, rfl⟩ := exists_failure_of_read hsecond
  obtain ⟨other, hjoined, hrules⟩ := parse_join_rule hfirst hparse hlater
  exact ⟨failure, _, hparse, read_eq_error hjoined, hrules⟩

theorem rule_join_verbless :
    ∃ error other, Script.read verbless = .error error ∧
      Script.read ("func f() \x7b\x7d" ++ "\n" ++ verbless) = .error other ∧
      other.rule = error.rule := by
  obtain ⟨failure, hstops, hstates, hfound, hplace⟩ := stopsBehind_upToOperator
  have hlater : ¬ (failure.report verbless).AtFirstToken verbless :=
    not_atFirstToken rfl (by decide) (by simp [hfound]) (by simp [hplace])
  have hread := read_eq_error hstops.parse_eq
  obtain ⟨_, other, hparse, hother, hsame, -⟩ :=
    rule_join (read_eq_ok_iff.mpr parse_idle) hread hlater
  obtain rfl := Except.error.inj (hstops.parse_eq.symm.trans hparse)
  refine ⟨_, other, hread, hother, hsame (.inr fun hnamed => hnamed.sampled ?_)⟩
  rw [sampleSpots_eq, Failure.spot, hstates]
  decide

/-- A missing separator is named in the first routine of a script only. -/
theorem not_rule_join_unseparated :
    ∃ error other, Script.read unseparated = .error error ∧
      ¬ error.AtFirstToken unseparated ∧ error.rule = some "missing separator" ∧
      Script.read ("func f() \x7b\x7d" ++ "\n" ++ unseparated) = .error other ∧
      other.rule = some "argument list" := by
  obtain ⟨failure, hstops, hstates, hfound, hplace⟩ := stopsBehind_firstAction
  have hlater : ¬ (failure.report unseparated).AtFirstToken unseparated :=
    not_atFirstToken rfl (by decide) (by simp [hfound]) (by simp [hplace])
  obtain ⟨stage, hshifts, hrefuses⟩ := hstops.exists_refuses
  have hnamed := namedByDepth_unseparated (hrefuses.traced (hshifts.traced .nil)) hstates hfound
  obtain ⟨other, hjoined, -, hrule⟩ := parse_join_rule parse_idle hstops.parse_eq hlater
  refine ⟨_, _, read_eq_error hstops.parse_eq, hlater, ?_, read_eq_error hjoined, ?_⟩
  · rw [Failure.rule_of_not_leavesOpen hnamed.closed]
    apply Failure.label?_of_lookup
    rw [sampleSpots_eq, Failure.spot, hstates]
    decide
  · obtain ⟨r, hr, hname⟩ : ∃ r, ruleInProgress failure.states = some r ∧ _ := by
      rw [hstates, ruleInProgress_of_nil rfl]
      exact exists_ruleInProgress_of_singleton rfl _
    rw [hrule (by simp) hnamed, hr, Option.map_some]
    cases r <;> first | rfl | exact absurd hname (by decide)

end Blockscript.Script
