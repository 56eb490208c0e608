import Blockscript.Proofs.Script.Naming

/-!
The sample that a failure is matched with.  Matching may ask for more than the same state at
the same depth: that both failures could go on with the same lookaheads, and a sample that met
the same token before others.  For these samples it comes to the same label, since the state
and the depth leave few stacks, and all of them take the same lookaheads.
-/

namespace Blockscript.Script

/-! ### Stacks that stop at a spot -/

/-- The outlines of the stacks on which so many symbols lead to a state. -/
def outlinesAt (table : Lr.Table Terminal Rule Production) :
    Nat → Nat → List (List (Nat × Lr.Symbol Terminal Rule))
  | 0, _ => [[]]
  | depth + 1, state =>
      (statesAt table depth).flatMap fun below =>
        ((table.row below).edges.filter fun edge => edge.2 = state).flatMap fun edge =>
          (outlinesAt table depth below).map ((state, edge.1) :: ·)

theorem outline_mem_outlinesAt {stack : Stack} (htraced : Lr.Stack.Traced table stack) :
    stack.outline ∈ outlinesAt table stack.length (Lr.Stack.top stack) := by
  induction htraced with
  | nil => exact List.mem_singleton_self _
  | @cons frame below hbelow hedge ih =>
      have hmem := Lr.Table.mem_edges_of_target? hedge
      refine List.mem_flatMap.mpr ⟨_, top_mem_statesAt hbelow, ?_⟩
      refine List.mem_flatMap.mpr ⟨_, List.mem_filter.mpr ⟨hmem, by simp [Lr.Stack.top]⟩, ?_⟩
      exact List.mem_map_of_mem ih

/-- A token of which nothing but the kind matters. -/
def Terminal.bare (t : Terminal) : Token :=
  ⟨t, "", {}⟩

def taken (table : Lr.Table Terminal Rule Production) (stack : Stack) : List (Option Terminal) :=
  (table.row (Lr.Stack.top stack)).lookaheads.filter fun lookahead =>
    Lr.Stack.takes table stack (lookahead.map Terminal.bare)

theorem taken_congr {left right : Stack} (houtline : left.outline = right.outline) :
    taken table left = taken table right := by
  rw [taken, taken, Lr.Stack.top_eq_of_outline houtline]
  refine List.filter_congr fun lookahead _ => ?_
  exact Lr.Stack.takes_congr descending houtline _

def anyMeaning : (x : Lr.Symbol Terminal Rule) → Lr.Carrier Token Rule.Meaning x
  | .terminal t => t.bare
  | .rule .program | .rule .routines => ([] : List Routine)
  | .rule .routine | .rule .eventDef | .rule .processDef | .rule .functionDef =>
      Routine.named .event Terminal.ident.bare []
  | .rule .block | .rule .statements => ([] : List Statement)
  | .rule .statement | .rule .action | .rule .assignment | .rule .playerCondition
  | .rule .condition | .rule .variableCondition | .rule .otherwise | .rule .selection
  | .rule .functionCall | .rule .processCall => Statement.otherwise []
  | .rule .steps => ([] : List Step)
  | .rule .step => ({ action := "", subAction := "", arguments := [] } : Step)
  | .rule .arguments | .rule .values => ([] : List Value)
  | .rule .value | .rule .reference => Value.number ""
  | .rule .coordinate => Double.nan

/-- Whatever the stack on which a sample's state is reached at its depth, it takes the same. -/
theorem taken_outlinesAt : ∀ stop ∈ stops,
    ∀ outline ∈ outlinesAt ⟨rows.toArray⟩ (stop.1.2 - 1) stop.1.1,
      taken ⟨rows.toArray⟩ (Lr.Stack.ofOutline anyMeaning outline) =
        taken ⟨rows.toArray⟩ (Lr.Stack.ofOutline anyMeaning
          ((outlinesAt ⟨rows.toArray⟩ (stop.1.2 - 1) stop.1.1).headD [])) := by
  decide +kernel

/-- Stacks that stop where a sample does take the same lookaheads. -/
theorem taken_eq_of_stop {left right : Stack} (hleft : Lr.Stack.Traced table left)
    (hright : Lr.Stack.Traced table right) (htop : Lr.Stack.top left = Lr.Stack.top right)
    (hlength : left.length = right.length)
    (hstop : (Lr.Stack.top left, left.length + 1) ∈ stops.map Prod.fst) :
    taken table left = taken table right := by
  obtain ⟨stop, hstop, hspot⟩ := List.mem_map.mp hstop
  have hsame : ∀ {stack : Stack}, Lr.Stack.Traced table stack →
      stop.1 = (Lr.Stack.top stack, stack.length + 1) →
      taken table stack = taken table (Lr.Stack.ofOutline anyMeaning
        ((outlinesAt table (stop.1.2 - 1) stop.1.1).headD [])) := by
    intro stack htraced hspot
    have hmem := outline_mem_outlinesAt htraced
    have houtline := Lr.Stack.outline_ofOutline (a := attribution) anyMeaning stack.outline
    rw [← taken_congr houtline]
    rw [table_eq] at hmem ⊢
    refine taken_outlinesAt stop hstop _ ?_
    rw [hspot]
    exact hmem
  rw [hsame hleft hspot, hsame hright (by rw [hspot, htop, hlength])]

/-- A block is open wherever a sample is told from another by what it meets. -/
theorem open_outlinesAt : ∀ outline ∈ outlinesAt ⟨rows.toArray⟩ 10 100,
    .terminal .leftBrace ∈ outline.map Prod.snd ∧
      .terminal .rightBrace ∉ outline.map Prod.snd := by
  decide +kernel

/-! ### Matching a failure with the samples -/

theorem traced_of_parse {source : String} {failure : Failure}
    (hparse : parse source = .error failure) : Lr.Stack.Traced table failure.stack := by
  obtain ⟨pieces, stage, hreads, -, -, -, -, hrefuses⟩ := exists_refuses_of_parse hparse
  exact hrefuses.traced (hreads.shifts.traced .nil)

/-- Whether a token was met, or the end of the input. -/
def Found.isRead : Found → Bool
  | .token _ | .endOfInput => true
  | .character _ => false

/-- A sample matches a failure that stops in the same state at the same depth and, if both met
a token or the end of the input, can go on with the same lookaheads. -/
def Failure.Matches (failure sample : Failure) : Prop :=
  sample.spot = failure.spot ∧ (sample.found.isRead = true → failure.found.isRead = true →
    taken table sample.stack = taken table failure.stack)

instance (failure sample : Failure) : Decidable (failure.Matches sample) :=
  inferInstanceAs (Decidable (_ ∧ _))

/-- The label of the first sample that matches and meets the same token, or else of the first
that matches. -/
def Failure.matched? (failure : Failure) : List (Failure × String) → Option String → Option String
  | [], candidate => candidate
  | (sample, label) :: rest, candidate =>
      if failure.Matches sample then
        if failure.found.isRead = true ∧ sample.found = failure.found then some label
        else failure.matched? rest (candidate.or (some label))
      else failure.matched? rest candidate

/-- If all samples at a spot match, and those that meet the same token have the label of the
first, then matching comes to looking up the spot. -/
theorem Failure.matched?_eq {failure : Failure} {entries : List (Failure × String)}
    {candidate : Option String}
    (h : ∀ entry ∈ entries, entry.1.spot = failure.spot → failure.Matches entry.1 ∧
      (entry.1.found = failure.found →
        candidate.or ((spotsOf entries).lookup failure.spot) = some entry.2)) :
    failure.matched? entries candidate = candidate.or ((spotsOf entries).lookup failure.spot) := by
  induction entries generalizing candidate with
  | nil => exact Option.or_none.symm
  | cons entry entries ih =>
      obtain ⟨sample, label⟩ := entry
      have hlookup : (spotsOf ((sample, label) :: entries)).lookup failure.spot =
          if sample.spot = failure.spot then some label
          else (spotsOf entries).lookup failure.spot := by
        rw [spotsOf, List.map_cons, List.lookup_cons, ← spotsOf]
        by_cases hspot : sample.spot = failure.spot
        · simp [hspot]
        · simp [hspot, beq_eq_false_iff_ne.mpr (Ne.symm hspot)]
      rw [hlookup] at h ⊢
      by_cases hspot : sample.spot = failure.spot
      · obtain ⟨hmatches, hexact⟩ := h _ List.mem_cons_self hspot
        rw [if_pos hspot] at h hexact ⊢
        rw [matched?, if_pos hmatches]
        split
        · rename_i hfound
          exact (hexact hfound.2).symm
        · -- The first sample at the spot stays the candidate.
          have hkeeps : (candidate.or (some label)).or ((spotsOf entries).lookup failure.spot) =
              candidate.or (some label) := by
            rw [Option.or_assoc, Option.some_or]
          refine (ih fun entry hmem => ?_).trans hkeeps
          rw [hkeeps]
          exact h entry (List.mem_cons_of_mem _ hmem)
      · rw [if_neg hspot] at h ⊢
        rw [matched?, if_neg fun hmatches => hspot hmatches.1]
        exact ih fun entry hmem => h entry (List.mem_cons_of_mem _ hmem)

/-- The first sample at a spot gives the label, but for an action at the end of the input. -/
theorem lookup_of_mem_stops : ∀ stop ∈ stops, spots.lookup stop.1 = some stop.2.2 ∨
    stop.1 = (100, 11) ∧ stop.2.1 = .endOfInput := by
  decide +kernel

theorem leavesOpen_of_spot {source : String} {failure : Failure}
    (hparse : parse source = .error failure) (hspot : failure.spot = (100, 11))
    (hfound : failure.found = .endOfInput) : failure.LeavesOpen source := by
  refine ⟨hfound, ?_⟩
  have hmem := outline_mem_outlinesAt (traced_of_parse hparse)
  rw [failure.spot_eq, Prod.mk.injEq] at hspot
  rw [hspot.1, Nat.succ.inj hspot.2, table_eq] at hmem
  obtain ⟨hleft, hright⟩ := open_outlinesAt _ hmem
  rw [unclosedBrace?_of_endOfInput hparse hfound, ne_eq, List.head?_eq_none_iff]
  exact openOn_ne_nil hleft hright

/-- Unless a block is open at the end of the input, a failure is matched with the first sample
that stops in the same state at the same depth. -/
theorem matched?_sampleFailures {source : String} {failure : Failure}
    (hparse : parse source = .error failure) (hclosed : ¬ failure.LeavesOpen source) :
    failure.matched? sampleFailures none = sampleSpots.lookup failure.spot := by
  rw [sampleSpots_eq_spotsOf]
  refine (failure.matched?_eq fun entry hmem hspot => ?_).trans Option.none_or
  have hstop : (entry.1.spot, entry.1.found, entry.2) ∈ stops := by
    rw [← stops_eq]
    exact List.mem_map_of_mem hmem
  constructor
  · refine ⟨hspot, fun _ _ => ?_⟩
    obtain ⟨group, -, hgroup⟩ := List.mem_flatMap.mp hmem
    obtain ⟨sample, -, hsample⟩ := List.mem_filterMap.mp hgroup
    obtain ⟨found, hfound, rfl⟩ := Option.map_eq_some_iff.mp hsample
    have htraced := traced_of_parse (failure?_eq_some_iff.mp hfound)
    have hmem := List.mem_map_of_mem (f := Prod.fst) hstop
    rw [Failure.spot_eq, Failure.spot_eq, Prod.mk.injEq] at hspot
    rw [Failure.spot_eq] at hmem
    exact taken_eq_of_stop htraced (traced_of_parse hparse) hspot.1 (Nat.succ.inj hspot.2) hmem
  · intro hfound
    rw [Option.none_or, ← sampleSpots_eq_spotsOf, sampleSpots_eq, ← hspot]
    refine (lookup_of_mem_stops _ hstop).resolve_right fun ⟨hsame, hend⟩ => hclosed ?_
    exact leavesOpen_of_spot hparse (hspot.symm.trans hsame) (hfound.symm.trans hend)

/-- So its label is that of the sample that it is matched with. -/
theorem Failure.label?_eq_matched? {source : String} {failure : Failure}
    (hparse : parse source = .error failure) (hclosed : ¬ failure.LeavesOpen source) :
    failure.label? = (failure.matched? sampleFailures none).or
      ((ruleInProgress failure.states).map Rule.label) := by
  rw [matched?_sampleFailures hparse hclosed]
  cases hlookup : sampleSpots.lookup failure.spot with
  | some label => rw [Failure.label?_of_lookup hlookup, Option.some_or]
  | none => rw [Failure.label?_of_lookup_none hlookup, Option.none_or]

end Blockscript.Script
