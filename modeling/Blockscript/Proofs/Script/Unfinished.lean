import Blockscript.Proofs.Lr.Tree
import Blockscript.Proofs.Script.Labelling

/-!
The rule that a failed parse was in.  It is unfinished, in that some script goes on
from the tokens read and has a construct of the rule across their end, unless the
last token has just completed a construct of several parts: then the rule is that of
the completed construct.
-/

namespace Blockscript.Script

/-! ### Constructs underway -/

/-- The rule that a repetition is part of. -/
def Rule.owner : Rule → Rule
  | .routines => .program
  | .statements => .block
  | .steps => .selection
  | .values => .arguments
  | r => r

theorem Rule.owner_spec (r : Rule) : r.owner ∉ repetitions ∧ r.owner.name = r.name := by
  cases r <;> exact ⟨by decide, rfl⟩

theorem Rule.owner_eq {r : Rule} (hr : r ∉ repetitions) : r.owner = r := by
  cases r <;> first | rfl | exact absurd hr (by decide)

/-- The constructs underway in each state. -/
def constructs : List (List Rule) :=
  [[], [.program], [], [], [], [], [.eventDef], [.processDef], [.functionDef], [], [.eventDef],
   [.processDef], [.functionDef], [.eventDef], [.processDef], [.functionDef], [.eventDef],
   [.processDef], [.functionDef], [], [.block], [], [], [], [.block], [], [], [], [], [], [], [],
   [], [], [.action], [.action], [.action], [.assignment],
   [.playerCondition, .condition, .variableCondition], [.otherwise], [.selection],
   [.functionCall], [.processCall], [.block], [], [.block], [.action], [.action], [.action],
   [.assignment], [], [.reference], [.playerCondition], [.playerCondition], [.condition],
   [.condition], [.variableCondition], [], [.selection], [.step], [.functionCall],
   [.processCall], [], [.block], [], [], [.action], [.action], [.action], [.assignment], [],
   [.playerCondition], [.playerCondition], [.condition], [.condition], [.variableCondition],
   [.selection], [], [.selection], [.step], [.functionCall], [.processCall], [], [], [],
   [.arguments], [], [], [.assignment], [.playerCondition], [.playerCondition], [.condition],
   [.condition], [.variableCondition], [], [.selection], [], [.step], [], [], [], [.arguments],
   [], [], [], [.value], [.value], [], [.playerCondition], [.playerCondition], [], [.condition],
   [], [.condition], [], [.variableCondition], [], [], [.arguments], [], [.arguments], [.value],
   [.value], [.playerCondition], [], [], [], [], [.variableCondition], [], [.arguments], [],
   [.value], [], [.value], [], [], [], [.value], [.value], [.value], [.value], [.value], [.value],
   [.value], [.value], [], [.value], [], [.value], [.value], [.value], []]

def constructsAt (state : Nat) : List Rule :=
  constructs[state]?.getD []

def isMidway (state : Nat) (p : Production) : Bool :=
  (List.range (p.rhs.length - 1)).any fun n =>
    Lr.Table.finishes ⟨rows.toArray⟩ p state (p.rhs.drop (n + 1))

theorem isMidway_iff {state : Nat} {p : Production} :
    isMidway state p = true ↔ ∃ read, table.Midway grammar state p read := by
  simp only [isMidway, List.any_eq_true, List.mem_range, ← table_eq]
  constructor
  · rintro ⟨n, hn, hfinishes⟩
    exact ⟨n + 1, Nat.succ_pos n, Nat.add_lt_of_lt_sub hn, hfinishes⟩
  · rintro ⟨read, hbegun, hmissing, hfinishes⟩
    obtain ⟨n, rfl⟩ := Nat.exists_eq_succ_of_ne_zero hbegun.ne'
    exact ⟨n, Nat.lt_sub_of_add_lt hmissing, hfinishes⟩

theorem constructs_rows : ∀ entry ∈ constructs.zipIdx,
    (∀ p ∈ Production.all, isMidway entry.2 p = true → p.lhs.owner ∈ entry.1) ∧
      ∀ r ∈ entry.1, ∃ p ∈ Production.all, isMidway entry.2 p = true ∧ p.lhs.owner = r := by
  decide +kernel

/-- A construct is underway in a state where a production of it, or of a repetition in
it, stands midway. -/
theorem mem_constructsAt_iff {state : Nat} {r : Rule} :
    r ∈ constructsAt state ↔ ∃ p read, table.Midway grammar state p read ∧ p.lhs.owner = r := by
  have hlength : constructs.length = rows.length := rfl
  unfold constructsAt
  by_cases hstate : state < constructs.length
  · rw [List.getElem?_eq_getElem hstate, Option.getD_some]
    have hentry : (constructs[state], state) ∈ constructs.zipIdx :=
      List.mem_zipIdx_iff_getElem?.mpr (List.getElem?_eq_getElem hstate)
    obtain ⟨hall, hsome⟩ := constructs_rows _ hentry
    constructor
    · intro hr
      obtain ⟨p, -, hp, howner⟩ := hsome r hr
      obtain ⟨read, hmidway⟩ := isMidway_iff.mp hp
      exact ⟨p, read, hmidway, howner⟩
    · rintro ⟨p, read, hmidway, rfl⟩
      exact hall p (mem_productions p) (isMidway_iff.mpr ⟨read, hmidway⟩)
  · -- No edge leaves a state beyond the table.
    rw [List.getElem?_eq_none (Nat.le_of_not_lt hstate), Option.getD_none]
    refine ⟨nofun, ?_⟩
    rintro ⟨p, read, hmidway, -⟩
    obtain ⟨before, y, x, rest, -, hfinishes⟩ := hmidway.exists_split
    obtain ⟨next, htarget, -⟩ := Lr.Table.exists_target?_of_finishes hfinishes
    have hedge := Lr.Table.mem_edges_of_target? htarget
    rw [hlength] at hstate
    rw [row_eq, List.getElem?_eq_none (Nat.le_of_not_lt hstate)] at hedge
    exact absurd hedge List.not_mem_nil

/-! ### What the edges of the table say about constructs -/

/-- What the rows say about the constructs underway behind their edges. -/
structure RowsAgree : Prop where
  /-- A production of several symbols is completed behind a state in which only its own
  construct is underway. -/
  completed : ∀ entry ∈ rows.zipIdx, ∀ edge ∈ Lr.Row.edges entry.1,
    ∀ reduction ∈ (rows[edge.2]?.getD {}).reductions, 1 < reduction.1.rhs.length →
      ∀ r ∈ constructsAt entry.2, r = reduction.1.lhs.owner
  /-- A production of one symbol leads to a state with the same constructs underway. -/
  single : ∀ entry ∈ rows.zipIdx, ∀ edge ∈ Lr.Row.edges entry.1,
    ∀ reduction ∈ (rows[edge.2]?.getD {}).reductions, reduction.1.rhs.length = 1 →
      ∀ step ∈ entry.1.gotos, step.1 = reduction.1.lhs →
        ∀ r ∈ constructsAt entry.2, ∀ s ∈ constructsAt step.2, r = s
  /-- What a production of one symbol leads to completes no production of several symbols
  but those of repetitions. -/
  behindSingle : ∀ row ∈ rows, ∀ step ∈ Lr.Row.gotos row,
    step.1 ∈ (Production.all.filter fun p => p.rhs.length = 1).map Production.lhs →
      ∀ other ∈ (rows[step.2]?.getD {}).reductions, 1 < other.1.rhs.length →
        other.1.lhs ∈ repetitions
  repetition : ∀ row ∈ rows, ∀ edge ∈ Lr.Row.gotos row, edge.1 ∈ repetitions →
    edge.1.owner ∈ constructsAt edge.2
  left : ∀ entry ∈ rows.zipIdx, entry.2 ≠ 0 → Lr.Row.edges entry.1 ≠ [] →
    constructsAt entry.2 ≠ []
  program : ∀ entry ∈ rows.zipIdx, ∀ reduction ∈ Lr.Row.reductions entry.1,
    reduction.1.rhs ≠ [] → reduction.1.lhs = .program → constructsAt entry.2 ≠ []
  last : ∀ row ∈ rows, ∀ entry ∈ Lr.Row.reductions row, 1 < entry.1.rhs.length →
    row.edges = []

theorem rowsAgree : RowsAgree where
  completed := by decide +kernel
  single := by decide +kernel
  behindSingle := by decide +kernel
  repetition := by decide +kernel
  left := by decide +kernel
  program := by decide +kernel
  last := by decide +kernel

section Edges

variable {state target : Nat} {x : Lr.Symbol Terminal Rule}

theorem mem_zipIdx_of_target? (hedge : table.target? state x = some target) :
    (table.row state, state) ∈ rows.zipIdx ∧ (x, target) ∈ (table.row state).edges := by
  have hmem := Lr.Table.mem_edges_of_target? hedge
  refine ⟨?_, hmem⟩
  rw [row_eq] at hmem ⊢
  cases hrow : rows[state]? with
  | none =>
      rw [hrow] at hmem
      exact absurd hmem List.not_mem_nil
  | some row => exact List.mem_zipIdx_iff_getElem?.mpr hrow

theorem mem_gotos_of_target? {r : Rule} (hgoto : table.target? state (.rule r) = some target) :
    table.row state ∈ rows ∧ (r, target) ∈ (table.row state).gotos := by
  obtain ⟨hentry, -⟩ := mem_zipIdx_of_target? hgoto
  obtain ⟨before, behind, hgotos, -⟩ := List.lookup_eq_some_iff.mp hgoto
  exact ⟨List.fst_mem_of_mem_zipIdx hentry, by simp [hgotos]⟩

/-- A production of several symbols is completed behind a state in which nothing but
its own construct is underway. -/
theorem eq_owner_of_completes (hedge : table.target? state x = some target) {p : Production}
    (hcompletes : table.Completes target p) (hlong : 1 < p.rhs.length) :
    ∀ r ∈ constructsAt state, r = p.lhs.owner := by
  obtain ⟨hentry, hmem⟩ := mem_zipIdx_of_target? hedge
  obtain ⟨reduction, hreduction, rfl⟩ := hcompletes
  rw [row_eq target] at hreduction
  exact rowsAgree.completed _ hentry _ hmem reduction hreduction hlong

/-- A production of one symbol leads to a state in which the same is underway, if
anything is. -/
theorem eq_of_mem_constructsAt_goto (hedge : table.target? state x = some target)
    {p : Production} (hcompletes : table.Completes target p) (hsingle : p.rhs.length = 1)
    {next : Nat} (hgoto : table.target? state (.rule p.lhs) = some next) :
    ∀ r ∈ constructsAt state, ∀ s ∈ constructsAt next, r = s := by
  obtain ⟨hentry, hmem⟩ := mem_zipIdx_of_target? hedge
  obtain ⟨reduction, hreduction, rfl⟩ := hcompletes
  rw [row_eq target] at hreduction
  exact rowsAgree.single _ hentry _ hmem reduction hreduction hsingle _
    (mem_gotos_of_target? hgoto).2 rfl

/-- The construct that a repetition is part of is underway behind the repetition. -/
theorem owner_mem_constructsAt {r : Rule} (hr : r ∈ repetitions)
    (hgoto : table.target? state (.rule r) = some target) : r.owner ∈ constructsAt target := by
  obtain ⟨hrow, hmem⟩ := mem_gotos_of_target? hgoto
  exact rowsAgree.repetition _ hrow _ hmem hr

/-- Something is underway in every state that is left, except in the first. -/
theorem constructsAt_ne_nil (hedge : table.target? state x = some target) (hstate : state ≠ 0) :
    constructsAt state ≠ [] := by
  obtain ⟨hentry, hmem⟩ := mem_zipIdx_of_target? hedge
  exact rowsAgree.left _ hentry hstate (List.ne_nil_of_mem hmem)

end Edges

/-- A state completes a construct of several symbols that is no mere repetition. -/
structure Finishes (state : Nat) (p : Production) : Prop where
  completes : table.Completes state p
  several : 1 < p.rhs.length
  construct : p.lhs ∉ repetitions

/-- Nothing else is underway where a construct is completed. -/
theorem Finishes.constructsAt_eq_nil {state : Nat} {p : Production} (hp : Finishes state p) :
    constructsAt state = [] := by
  rw [List.eq_nil_iff_forall_not_mem]
  intro r hr
  obtain ⟨q, read, hmidway, -⟩ := mem_constructsAt_iff.mp hr
  obtain ⟨before, y, x, rest, -, hfinishes⟩ := hmidway.exists_split
  obtain ⟨next, hedge, -⟩ := Lr.Table.exists_target?_of_finishes hfinishes
  obtain ⟨hentry, hmem⟩ := mem_zipIdx_of_target? hedge
  obtain ⟨reduction, hreduction, rfl⟩ := hp.completes
  rw [rowsAgree.last _ (List.fst_mem_of_mem_zipIdx hentry) reduction hreduction hp.several] at hmem
  contradiction

theorem not_finishes_of_goto {state target : Nat} {p q : Production} (hsingle : p.rhs.length = 1)
    (hgoto : table.target? state (.rule p.lhs) = some target) : ¬ Finishes target q := by
  intro hq
  obtain ⟨hrow, hmem⟩ := mem_gotos_of_target? hgoto
  obtain ⟨reduction, hreduction, rfl⟩ := hq.completes
  rw [row_eq target] at hreduction
  have hlhs : p.lhs ∈ (Production.all.filter fun p => p.rhs.length = 1).map Production.lhs :=
    List.mem_map_of_mem (List.mem_filter.mpr ⟨mem_productions p, by simp [hsingle]⟩)
  exact hq.construct (rowsAgree.behindSingle _ hrow _ hmem hlhs reduction hreduction hq.several)

/-! ### Where the rule in progress is found -/

theorem owner_mem_of_leading {state : Nat} {entry : Rule × Nat}
    (hleading : leading (Lr.Table.unfinished grammar table state) = some entry) :
    entry.1.owner ∈ constructsAt state := by
  obtain ⟨⟨p, hp, hmidway⟩, -⟩ :=
    (Lr.Table.mem_unfinished_iff grounded unshadowed mem_productions).mp (leading_mem hleading)
  exact mem_constructsAt_iff.mpr ⟨p, _, hmidway, congrArg Rule.owner hp⟩

theorem exists_leading_of_constructsAt {state : Nat} (hsome : constructsAt state ≠ []) :
    ∃ entry, leading (Lr.Table.unfinished grammar table state) = some entry := by
  obtain ⟨r, hr⟩ := List.exists_mem_of_ne_nil _ hsome
  obtain ⟨p, read, hmidway, -⟩ := mem_constructsAt_iff.mp hr
  obtain ⟨j, hmem⟩ := hmidway.exists_mem_unfinished grounded unshadowed mem_productions
  exact exists_leading (List.ne_nil_of_mem hmem)

-- Stated for any function first: unfolding this one would have the table built.
theorem ruleInProgress_cons (state : Nat) (states : List Nat) :
    ruleInProgress (state :: states) =
      ((leading (Lr.Table.unfinished grammar table state)).map Prod.fst).or
        (ruleInProgress states) := by
  have hcons : ∀ f : Nat → Option Rule,
      (state :: states).findSome? f = (f state).or (states.findSome? f) := by
    intro f
    rw [List.findSome?_cons]
    cases f state <;> rfl
  exact hcons _

/-- States in which nothing is underway are passed over. -/
theorem ruleInProgress_of_nil {state : Nat} (hnone : constructsAt state = []) (states : List Nat) :
    ruleInProgress (state :: states) = ruleInProgress states := by
  have hleading : leading (Lr.Table.unfinished grammar table state) = none := by
    cases hfound : leading (Lr.Table.unfinished grammar table state) with
    | none => rfl
    | some entry =>
        have hmem := owner_mem_of_leading hfound
        rw [hnone] at hmem
        exact absurd hmem List.not_mem_nil
  rw [ruleInProgress_cons, hleading, Option.map_none, Option.none_or]

theorem ruleInProgress_empty : ruleInProgress (Lr.Stack.states ([] : Stack)) = none :=
  ruleInProgress_of_nil (by decide) []

theorem owner_mem_of_ruleInProgress {state : Nat} (hsome : constructsAt state ≠ [])
    {states : List Nat} {r : Rule} (hrule : ruleInProgress (state :: states) = some r) :
    r.owner ∈ constructsAt state := by
  obtain ⟨entry, hentry⟩ := exists_leading_of_constructsAt hsome
  rw [ruleInProgress_cons, hentry, Option.map_some, Option.some_or] at hrule
  rw [← Option.some.inj hrule]
  exact owner_mem_of_leading hentry

/-- Where one construct is underway, it gives the rule in progress its name. -/
theorem exists_ruleInProgress_of_singleton {state : Nat} {construct : Rule}
    (hone : constructsAt state = [construct]) (states : List Nat) :
    ∃ r, ruleInProgress (state :: states) = some r ∧ r.name = construct.name := by
  obtain ⟨entry, hentry⟩ := exists_leading_of_constructsAt (hone ▸ List.cons_ne_nil construct [])
  refine ⟨entry.1, by rw [ruleInProgress_cons, hentry, Option.map_some, Option.some_or], ?_⟩
  have howner := owner_mem_of_leading hentry
  rw [hone, List.mem_singleton] at howner
  rw [← entry.1.owner_spec.2, howner]

/-- Where nothing is underway on top of a stack, the rule in progress is underway in the
state below. -/
theorem owner_mem_below {frame : Lr.Frame attribution} {below : Stack}
    (htraced : Lr.Stack.Traced table (frame :: below)) (hnone : constructsAt frame.state = [])
    {r : Rule} (hrule : ruleInProgress (Lr.Stack.states (frame :: below)) = some r) :
    r.owner ∈ constructsAt (Lr.Stack.top below) := by
  have hbelow : ruleInProgress (Lr.Stack.states below) = some r := by
    rw [← ruleInProgress_of_nil hnone]
    exact hrule
  cases htraced with
  | cons hlower hedge =>
      cases hlower with
      | nil => exact absurd (ruleInProgress_empty.symm.trans hbelow) nofun
      | @cons next lowest _ hentered =>
          have hsome : constructsAt next.state ≠ [] := by
            refine constructsAt_ne_nil hedge fun hzero => ?_
            have hfirst : next.state = 0 := hzero
            rw [hfirst] at hentered
            exact grounded.fresh _ _ hentered
          exact owner_mem_of_ruleInProgress hsome hbelow

/-! ### Unfinished constructs -/

/-- A tree of tokens that make up a script. -/
def IsParseTree (tree : Lr.Tree Rule Token) (tokens : List Token) : Prop :=
  Lr.Derives (Lr.trees attribution) (.rule .program) tree tokens

/-- A construct of the given name is unfinished behind pieces: some script goes on from
them, and in its tree a node of the construct begins before their end and ends behind
it. -/
def Unfinished (pieces : List Piece) (name : String) : Prop :=
  ∃ more last routines tree, Parsed (pieces ++ more) last routines ∧
    IsParseTree tree (placed {} (pieces ++ more)) ∧
    ∃ node ∈ tree.nodes 0, node.rule ∉ repetitions ∧ node.rule.name = name ∧
      node.start < pieces.length ∧ pieces.length < node.stop

theorem owned {r : Rule} (hr : r ∈ repetitions) : grammar.Owned (· = r.owner) r := by
  have hall : ∀ r ∈ repetitions, ∀ p ∈ Production.all, .rule r ∈ p.rhs →
      p.lhs = r ∨ p.lhs = r.owner := by decide
  exact fun p hp => hall r hr p (mem_productions p) hp

theorem solid (p : Production) :
    ∀ x ∈ grammar.rhs p, Lr.Grammar.allIn grammar.nullable [x] = false := by
  have hall : ∀ p ∈ Production.all, ∀ x ∈ p.rhs,
      Lr.Grammar.allIn grammar.nullable [x] = false := by decide +kernel
  exact hall p (mem_productions p)

/-- What is underway on top of a stack is unfinished behind the pieces on it. -/
theorem unfinished_of_mem_constructsAt {pieces : List Piece} {rest : List Char}
    (hcut : Cut pieces rest) (hchain : pieces.IsChain Unambiguous) {stack : Stack}
    (htraced : Lr.Stack.Traced table stack) (hspans : Lr.Stack.Spans stack (placed {} pieces))
    {r : Rule} (hr : r ∈ constructsAt stack.top) : Unfinished pieces r.name := by
  obtain ⟨p, read, hmidway, rfl⟩ := mem_constructsAt_iff.mp hr
  obtain ⟨kinds, hopen⟩ := htraced.exists_open_node productive mem_productions grounded saturated
    solid hspans hmidway
  obtain ⟨tree, htree, node, hnode, hrule, hstart, hstop⟩ := hopen
    (placed (({} : Place).after (written pieces [])) (kinds.map Piece.sample))
    (map_kind_samples _ kinds)
  have hparse : IsParseTree tree (placed {} (pieces ++ kinds.map Piece.sample)) := by
    rw [placed_append]
    exact htree
  obtain ⟨routines, hderives⟩ := Lr.Derives.exists_of_tree hparse
  refine ⟨_, [], routines, tree, hcut.parsed_samples hchain hderives, hparse, ?_⟩
  have hlength : (placed {} pieces).length = pieces.length := length_placed {} pieces
  have hstart : node.start < pieces.length := hlength ▸ hstart
  have hstop : pieces.length < node.stop := hlength ▸ hstop
  have hrule : node.rule = p.lhs := hrule
  by_cases hrepeats : p.lhs ∈ repetitions
  · -- The node of a repetition stands inside one of the construct it is part of.
    rcases Lr.Derives.exists_owner (owned hrepeats) hnode hrule hparse with
      hprogram | ⟨owner, howner, hsame, hbefore, hbehind⟩
    · rw [← Lr.Symbol.rule.inj hprogram] at hrepeats
      contradiction
    · refine ⟨owner, howner, ?_, ?_, Nat.lt_of_le_of_lt hbefore hstart,
        Nat.lt_of_lt_of_le hstop hbehind⟩
      · rw [hsame]
        exact (Rule.owner_spec p.lhs).1
      · rw [hsame]
  · refine ⟨node, hnode, ?_, ?_, hstart, hstop⟩
    · rwa [hrule]
    · rw [hrule, Rule.owner_eq hrepeats]

/-- Nothing but the productions of the start rule completes a whole script. -/
theorem ne_program_of_completes {state : Nat} (hnone : constructsAt state = []) {p : Production}
    (hcompletes : table.Completes state p) (hrhs : p.rhs ≠ []) : p.lhs ≠ .program := by
  intro hprogram
  obtain ⟨reduction, hreduction, rfl⟩ := hcompletes
  rw [row_eq] at hreduction
  cases hrow : rows[state]? with
  | none =>
      rw [hrow] at hreduction
      exact absurd hreduction List.not_mem_nil
  | some row =>
      rw [hrow] at hreduction
      have hmem : (row, state) ∈ rows.zipIdx := List.mem_zipIdx_iff_getElem?.mpr hrow
      exact rowsAgree.program (row, state) hmem reduction hreduction hrhs hprogram hnone

/-- Where nothing is underway on top of a stack, the symbol on top completes a
production. -/
theorem exists_completes {frame : Lr.Frame attribution} {below : Stack}
    (hedge : table.target? (Lr.Stack.top below) frame.symbol = some frame.state)
    (hnone : constructsAt frame.state = []) :
    ∃ p, table.Completes frame.state p ∧ p.rhs ≠ [] ∧ p.lhs ≠ .program := by
  obtain ⟨p, before, rest, hrhs, hfinishes⟩ := grounded.entered _ _ _ hedge
  have hrhs : p.rhs = before ++ frame.symbol :: rest := hrhs
  cases rest with
  | nil =>
      have hcompletes := Lr.Table.finishes_nil_iff.mp hfinishes
      have hsome : p.rhs ≠ [] := by simp [hrhs]
      exact ⟨p, hcompletes, hsome, ne_program_of_completes hnone hcompletes hsome⟩
  | cons x rest =>
      have hmidway : table.Midway grammar frame.state p (before.length + 1) := by
        refine ⟨Nat.succ_pos _, ?_, ?_⟩
        · simp [grammar, hrhs]
        · simpa [grammar, hrhs] using hfinishes
      have hmem := mem_constructsAt_iff.mpr ⟨p, _, hmidway, rfl⟩
      rw [hnone] at hmem
      exact absurd hmem List.not_mem_nil

/-- Where nothing is underway on top of a stack and no construct is completed there, the
rule in progress stays the same over a reduction: it is underway on top then, or the
symbol on top can be reduced once more. -/
theorem exists_reduced_of_nil {stack : Stack} {word : List Token}
    (htraced : Lr.Stack.Traced table stack) (hspans : Lr.Stack.Spans stack word)
    (hnone : constructsAt stack.top = []) (hopen : ∀ p, ¬ Finishes stack.top p) {r : Rule}
    (hrule : ruleInProgress stack.states = some r) :
    ∃ next : Stack, Lr.Stack.Traced table next ∧ Lr.Stack.Spans next word ∧
      (r.owner ∈ constructsAt next.top ∨ next.weight rank < stack.weight rank ∧
        (∀ p, ¬ Finishes next.top p) ∧ ruleInProgress next.states = some r) := by
  cases htraced with
  | nil => exact absurd (ruleInProgress_empty.symm.trans hrule) nofun
  | @cons frame below hbelow hedge =>
      have htraced := Lr.Stack.Traced.cons hbelow hedge
      have hr := owner_mem_below htraced hnone hrule
      obtain ⟨p, hcompletes, hsome, hlhs⟩ := exists_completes hedge hnone
      obtain ⟨meanings, under, target, hpop, hgoto, hreduced, hspanned⟩ :=
        htraced.exists_reduced grounded mem_productions hspans hcompletes hlhs
      refine ⟨_, hreduced, hspanned, ?_⟩
      by_cases hlong : 1 < p.rhs.length
      · -- A repetition goes on in the construct that it is part of.
        have hrepeats : p.lhs ∈ repetitions := by
          by_contra hconstruct
          exact hopen p ⟨hcompletes, hlong, hconstruct⟩
        rw [eq_owner_of_completes hedge hcompletes hlong _ hr]
        exact .inl (owner_mem_constructsAt hrepeats hgoto)
      · have hsingle : p.rhs.length = 1 := by
          have hpositive := List.length_pos_of_ne_nil hsome
          omega
        obtain ⟨item, hrhs⟩ := List.length_eq_one_iff.mp hsingle
        obtain ⟨top, hstack, -⟩ := Lr.Stack.pop_singleton hrhs hpop
        obtain rfl : below = under := (List.cons.inj hstack).2
        by_cases hnext : constructsAt target = []
        · refine .inr ⟨Lr.Stack.weight_reduce descending hpop hgoto, ?_, ?_⟩
          · exact fun q => not_finishes_of_goto hsingle hgoto
          · rw [← hrule]
            exact (ruleInProgress_of_nil hnext _).trans (ruleInProgress_of_nil hnone _).symm
        · obtain ⟨s, hs⟩ := List.exists_mem_of_ne_nil _ hnext
          rw [eq_of_mem_constructsAt_goto hedge hcompletes hsingle hgoto _ hr s hs]
          exact .inl hs

/-- The rule in progress on a stack is unfinished unless the state on top has completed
a construct. -/
theorem unfinished_of_ruleInProgress {pieces : List Piece} {rest : List Char}
    (hcut : Cut pieces rest) (hchain : pieces.IsChain Unambiguous) {stack : Stack}
    (htraced : Lr.Stack.Traced table stack) (hspans : Lr.Stack.Spans stack (placed {} pieces))
    (hopen : ∀ p, ¬ Finishes stack.top p) {r : Rule}
    (hrule : ruleInProgress stack.states = some r) : Unfinished pieces r.name := by
  rw [← r.owner_spec.2]
  -- Reducing lowers the weight until the rule is underway on top.
  induction hweight : stack.weight rank using Nat.strongRecOn generalizing stack with
  | ind n ih =>
      by_cases hnone : constructsAt stack.top = []
      · obtain ⟨next, hnext, hspanned, hunderway | ⟨hlower, hopen, hrule⟩⟩ :=
          exists_reduced_of_nil htraced hspans hnone hopen hrule
        · exact unfinished_of_mem_constructsAt hcut hchain hnext hspanned hunderway
        · exact ih _ (hweight ▸ hlower) hnext hspanned hopen hrule rfl
      · apply unfinished_of_mem_constructsAt hcut hchain htraced hspans
        cases stack <;> exact owner_mem_of_ruleInProgress hnone hrule

/-! ### Arguments that are finished -/

/-- What a rule derives begins with a terminal that one of its productions begins
with. -/
theorem exists_head_of_derives (heads : List Terminal) {r : Rule}
    (hheads : ∀ p ∈ Production.all, p.lhs = r → ∃ t ∈ heads, p.rhs.head? = some (.terminal t))
    {meaning : r.Meaning} {tokens : List Token}
    (hderives : Lr.Derives attribution (.rule r) meaning tokens) :
    ∃ token rest, tokens = token :: rest ∧ token.kind ∈ heads := by
  obtain ⟨p, meanings, hp, hparts⟩ := hderives.exists_production
  obtain ⟨t, ht, hhead⟩ := hheads p (mem_productions p) hp
  obtain ⟨token, rest, hword, rfl⟩ := hparts.exists_head hhead
  exact ⟨token, rest, hword, ht⟩

theorem exists_head_of_derives_value {value : Value} {tokens : List Token}
    (hderives : Lr.Derives attribution (.rule .value) value tokens) :
    ∃ token rest, tokens = token :: rest ∧
      token.kind ∈ [.text, .number, .loc, .vec] ++ [.ident, .scopePrefix] := by
  have hall : ∀ p ∈ Production.all, p.lhs = .value → p = .reference ∨
      ∃ t ∈ [Terminal.text, .number, .loc, .vec], p.rhs.head? = some (.terminal t) := by decide
  obtain ⟨p, meanings, hp, hparts⟩ := hderives.exists_production
  rcases hall p (mem_productions p) hp with rfl | ⟨t, ht, hhead⟩
  · obtain ⟨first, _, rfl, hreference, -⟩ := hparts.exists_append
    obtain ⟨token, rest, rfl, hkind⟩ :=
      exists_head_of_derives [.ident, .scopePrefix] (by decide) hreference
    exact ⟨token, _, rfl, List.mem_append_right _ hkind⟩
  · obtain ⟨token, rest, hword, rfl⟩ := hparts.exists_head hhead
    exact ⟨token, rest, hword, List.mem_append_left _ ht⟩

/-- Empty parentheses are all of the arguments that begin with them. -/
theorem eq_nil_of_derives_arguments {meaning : List Value} {opening closing : Token}
    {rest : List Token} (hclosing : closing.kind = .rightParen)
    (hderives : Lr.Derives attribution (.rule .arguments) meaning (opening :: closing :: rest)) :
    rest = [] := by
  have hall : ∀ p ∈ Production.all, p.lhs = .arguments →
      p = .noArguments ∨ p = .arguments ∨ p = .oneArgument := by decide
  -- No value begins with a closing parenthesis.
  have hvalue : ∀ xs, ∀ meanings : Lr.Meanings Token Rule.Meaning (.rule .value :: xs),
      ¬ Lr.DerivesAll attribution (.rule .value :: xs) meanings (closing :: rest) := by
    intro xs meanings hparts
    obtain ⟨first, _, hword, hfirst, -⟩ := hparts.exists_append
    obtain ⟨token, more, rfl, hkind⟩ := exists_head_of_derives_value hfirst
    rw [← (List.cons.inj hword).1, hclosing] at hkind
    exact absurd hkind (by decide)
  obtain ⟨p, meanings, hp, hparts⟩ := hderives.exists_production
  rcases hall p (mem_productions p) hp with rfl | rfl | rfl
  · obtain ⟨_, _, hword, -, hparts⟩ := hparts.exists_token
    obtain ⟨rfl, rfl⟩ := List.cons.inj hword
    obtain ⟨_, _, hword, -, hparts⟩ := hparts.exists_token
    obtain ⟨rfl, rfl⟩ := List.cons.inj hword
    cases hparts
    rfl
  · obtain ⟨_, _, hword, -, hparts⟩ := hparts.exists_token
    obtain ⟨rfl, rfl⟩ := List.cons.inj hword
    exact absurd hparts (hvalue _ _)
  · obtain ⟨_, _, hword, -, hparts⟩ := hparts.exists_token
    obtain ⟨rfl, rfl⟩ := List.cons.inj hword
    exact absurd hparts (hvalue _ _)

/-- The kinds of the tokens under a node of a tree. -/
theorem IsParseTree.exists_inner {tree : Lr.Tree Rule Token} {pieces : List Piece}
    (htree : IsParseTree tree (placed {} pieces)) {node : Lr.Node Rule}
    (hnode : node ∈ tree.nodes 0) :
    ∃ (inner : List Token) (meaning : node.rule.Meaning),
      Lr.Derives attribution (.rule node.rule) meaning inner ∧
        node.stop = node.start + inner.length ∧
          ∀ n < inner.length, (inner.map Token.kind)[n]? =
            (pieces.map Piece.kind)[node.start + n]? := by
  obtain ⟨(before : List Token), (inner : List Token), (after : List Token), hword, hstart, hstop,
    meaning, hderives⟩ := htree.standsOver hnode
  refine ⟨inner, meaning, hderives, hstop, fun n hn => ?_⟩
  have hword : placed {} pieces = before ++ (inner ++ after) := hword
  have hstart : node.start = before.length := hstart.trans (Nat.zero_add _)
  rw [← map_kind_placed {}, hword, hstart, List.getElem?_map, List.getElem?_map,
    List.getElem?_append_right (Nat.le_add_right _ n), Nat.add_sub_cancel_left,
    List.getElem?_append_left hn]

/-- No arguments reach across the end of the first action. -/
theorem arguments_finished : ¬ Unfinished firstAction "arguments" := by
  rintro ⟨more, last, routines, tree, -, htree, node, hnode, hconstruct, hname, hstart, hstop⟩
  have hrule : node.rule = .arguments := by
    have hall : ∀ r : Rule, r ∉ repetitions → r.name = "arguments" → r = .arguments := by
      intro r
      cases r <;> decide
    exact hall _ hconstruct hname
  obtain ⟨inner, meaning, hderives, hinner, hkinds⟩ := htree.exists_inner hnode
  have hderives := hderives.cast hrule
  obtain ⟨opening, rest, rfl, hopening⟩ :=
    exists_head_of_derives [.leftParen] (by decide) hderives
  have hopening : opening.kind = .leftParen := List.mem_singleton.mp hopening
  have hread : ∀ n < 10, ((firstAction ++ more).map Piece.kind)[n]? =
      (firstAction.map Piece.kind)[n]? := by
    intro n hn
    rw [List.map_append, List.getElem?_append_left (by simpa [firstAction, eventOpening] using hn)]
  -- The arguments begin with the only parenthesis, and it is closed behind it.
  have hposition : node.start = 8 := by
    have hall : ∀ n < 10, some Terminal.leftParen = (firstAction.map Piece.kind)[n]? → n = 8 := by
      decide
    have hfirst := hkinds 0 (Nat.succ_pos _)
    rw [Nat.add_zero, hread _ hstart, List.map_cons, hopening] at hfirst
    exact hall _ hstart hfirst
  rw [hposition] at hinner hkinds
  cases rest with
  | nil => simp [hinner, firstAction, eventOpening] at hstop
  | cons closing rest =>
      have hclosing : some closing.kind = some .rightParen :=
        (hkinds 1 (by simp)).trans (hread 9 (by decide))
      obtain rfl := eq_nil_of_derives_arguments (Option.some.inj hclosing) hderives
      simp [hinner, firstAction, eventOpening] at hstop

/-! ### An assignment without a verb -/

def verbless : String :=
  "event player.join \x7b var x = \x7d"

/-- The pieces up to the operator of the assignment. -/
def upToOperator : List Piece :=
  eventOpening ++ [⟨[' '], .var, "var"⟩, ⟨[' '], .ident, "x"⟩, ⟨[' '], .operator, "="⟩]

theorem stopsBehind_upToOperator : ∃ failure, StopsBehind verbless upToOperator failure ∧
    failure.states = [69, 49, 37, 20, 16, 13, 10, 6, 0] ∧
      failure.found = .token "\x7d" ∧ failure.place = ⟨28, 1, 29⟩ := by
  have hblank : IsLayout [' '] := .blank rfl .nil
  have hx : IsName "x".toList := .intro (by decide) (List.all_eq_true.mp (by decide)) (by decide)
  have hcut : Cut upToOperator " \x7d".toList :=
    (cut_eventOpening _).append (.cons hblank rfl nofun (.cons hblank hx nofun
      (.cons hblank ⟨'=', by decide, rfl⟩ nofun .nil)))
  exact exists_stopsBehind_of_states hcut (by decide) (by simp) (by decide) (by decide +kernel)
    ⟨.rightBrace, "\x7d", ⟨28, 1, 29⟩⟩ rfl

/-! ### What a failed parse was in -/

/-- Pieces end with a construct of the given rule. -/
def Completed (pieces : List Piece) (r : Rule) : Prop :=
  ∃ before word meaning, placed {} pieces = before ++ word ∧
    Lr.Derives attribution (.rule r) meaning word

theorem Finishes.completed {stack : Stack} {pieces : List Piece}
    (htraced : Lr.Stack.Traced table stack) (hspans : Lr.Stack.Spans stack (placed {} pieces))
    {p : Production} (hp : Finishes stack.top p) : Completed pieces p.lhs := by
  have hsome : p.rhs ≠ [] := List.ne_nil_of_length_pos (Nat.lt_of_succ_lt hp.several)
  have hlhs := ne_program_of_completes hp.constructsAt_eq_nil hp.completes hsome
  obtain ⟨meanings, below, target, hpop, -⟩ :=
    htraced.exists_reduced grounded mem_productions hspans hp.completes hlhs
  obtain ⟨before, word, hword, -, hparts⟩ := hspans.pop hpop
  exact ⟨before, word, _, hword, .production p (mem_productions p) hparts⟩

/-- Where a construct is completed, it is the one named. -/
theorem Finishes.name_eq {stack : Stack} (htraced : Lr.Stack.Traced table stack) {p : Production}
    (hp : Finishes stack.top p) {r : Rule} (hrule : ruleInProgress stack.states = some r) :
    r.name = p.lhs.name := by
  have hnone := hp.constructsAt_eq_nil
  cases htraced with
  | nil => exact absurd (ruleInProgress_empty.symm.trans hrule) nofun
  | cons hbelow hedge =>
      have hr := owner_mem_below (.cons hbelow hedge) hnone hrule
      have howner := eq_owner_of_completes hedge hp.completes hp.several _ hr
      rw [← r.owner_spec.2, howner, Rule.owner_eq hp.construct]

/-- The rule that a failed parse was in is unfinished, unless the tokens read end with a
construct of several parts that is not yet reduced: then it is the rule of that
construct. -/
theorem unfinished_unless_completed {source : String} {failure : Failure}
    (hparse : parse source = .error failure) {r : Rule}
    (hrule : ruleInProgress failure.states = some r) :
    (∃ pieces, StopsBehind source pieces failure) ∧
      ∀ pieces, StopsBehind source pieces failure →
        ((∀ p, ¬ Finishes (Lr.Stack.top failure.stack) p) → Unfinished pieces r.name) ∧
          ∀ p, Finishes (Lr.Stack.top failure.stack) p →
            r.name = p.lhs.name ∧ Completed pieces p.lhs := by
  refine ⟨exists_stopsBehind_of_parse hparse, fun pieces hstops => ?_⟩
  obtain ⟨rest, hcut, hchain⟩ := hstops.cut
  obtain ⟨stage, hshifts, hrefuses⟩ := hstops.exists_refuses
  have htraced := hrefuses.traced (hshifts.traced .nil)
  have hspans := hrefuses.spans (hshifts.spans mem_productions .nil)
  constructor
  · intro hopen
    exact unfinished_of_ruleInProgress hcut hchain htraced hspans hopen hrule
  · intro p hp
    exact ⟨hp.name_eq htraced hrule, hp.completed htraced hspans⟩

theorem unfinished_unless_completed_verbless : ∃ failure r,
    parse verbless = .error failure ∧ ruleInProgress failure.states = some r ∧
      r.name = "assignment" ∧ Unfinished upToOperator r.name := by
  obtain ⟨failure, hstops, hstates, -⟩ := stopsBehind_upToOperator
  obtain ⟨r, hrule, hname⟩ : ∃ r, ruleInProgress failure.states = some r ∧ _ :=
    hstates ▸ exists_ruleInProgress_of_singleton rfl _
  refine ⟨failure, r, hstops.parse_eq, hrule, hname, ?_⟩
  apply ((unfinished_unless_completed hstops.parse_eq hrule).2 _ hstops).1
  intro p hp
  have hnone := hp.constructsAt_eq_nil
  rw [Lr.Stack.top_eq_of_states hstates] at hnone
  exact absurd hnone (by decide)

/-- Behind the first of two actions the parse was in its arguments, though they are
finished. -/
theorem not_unfinished_firstAction : ∃ failure r, StopsBehind unseparated firstAction failure ∧
    ruleInProgress failure.states = some r ∧ r.name = "arguments" ∧
      ¬ Unfinished firstAction r.name := by
  obtain ⟨failure, hstops, hstates, -⟩ := stopsBehind_firstAction
  obtain ⟨r, hrule, hname⟩ : ∃ r, ruleInProgress failure.states = some r ∧ _ := by
    rw [hstates, ruleInProgress_of_nil rfl]
    exact exists_ruleInProgress_of_singleton rfl _
  refine ⟨failure, r, hstops, hrule, hname, ?_⟩
  rw [hname]
  exact arguments_finished

end Blockscript.Script
