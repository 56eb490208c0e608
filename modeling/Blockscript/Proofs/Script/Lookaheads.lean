import Blockscript.Proofs.Script.Matching

/-!
The lookaheads of the table.  A reduction stands on every lookahead that can follow its rule
anywhere.  Lookaheads that are told apart by the states in which a rule begins could be fewer,
but each production is completed in one state only, which serves all the places where its rule
can stand.  So each of them is of use on some stack in the state.
-/

namespace Blockscript.Script

/-! ### The state that completes a production -/

theorem findIdx_of_completes : ∀ state < rows.length,
    ∀ entry ∈ (rows[state]?.getD {}).reductions,
      rows.findIdx (fun row => row.reductions.any fun other => other.1 = entry.1) = state := by
  decide +kernel

/-- Each production is completed in one state only. -/
theorem completes_once {state other : Nat} {p : Production} (h : table.Completes state p)
    (hother : table.Completes other p) : state = other := by
  have hfound : ∀ {state : Nat}, table.Completes state p →
      rows.findIdx (fun row => row.reductions.any fun other => other.1 = p) = state := by
    rintro state ⟨entry, hentry, rfl⟩
    rw [row_eq] at hentry
    refine findIdx_of_completes state (Nat.lt_of_not_le fun hle => ?_) entry hentry
    rw [List.getElem?_eq_none hle] at hentry
    contradiction
  exact (hfound h).symm.trans (hfound hother)

/-! ### Stacks that complete a production -/

/-- A stack with one more symbol, if it leads on. -/
def pushed? (table : Lr.Table Terminal Rule Production) (stack : Stack)
    (x : Lr.Symbol Terminal Rule) : Option Stack :=
  (table.target? (Lr.Stack.top stack) x).map fun target => ⟨target, x, anyMeaning x⟩ :: stack

theorem traced_of_pushed? {stack next : Stack} (htraced : Lr.Stack.Traced table stack)
    {x : Lr.Symbol Terminal Rule} (hpushed : pushed? table stack x = some next) :
    Lr.Stack.Traced table next := by
  obtain ⟨target, htarget, rfl⟩ := Option.map_eq_some_iff.mp hpushed
  exact .cons htraced htarget

/-- The stacks found, and one for each state that can be reached from those in a queue. -/
def stacksBeyond (table : Lr.Table Terminal Rule Production) :
    Nat → List Stack → List Stack → List Stack
  | 0, _, found => found
  | _ + 1, [], found => found
  | rounds + 1, stack :: queue, found =>
      let new := ((table.row (Lr.Stack.top stack)).edges.filterMap fun edge =>
        pushed? table stack edge.1).filter fun next =>
          found.all fun other => Lr.Stack.top other ≠ Lr.Stack.top next
      stacksBeyond table rounds (queue ++ new) (found ++ new)

theorem traced_of_mem_stacksBeyond {rounds : Nat} {queue found : List Stack}
    (hqueue : ∀ stack ∈ queue, Lr.Stack.Traced table stack)
    (hfound : ∀ stack ∈ found, Lr.Stack.Traced table stack) :
    ∀ stack ∈ stacksBeyond table rounds queue found, Lr.Stack.Traced table stack := by
  induction rounds generalizing queue found with
  | zero => exact hfound
  | succ rounds ih =>
      cases queue with
      | nil => exact hfound
      | cons first queue =>
          rw [List.forall_mem_cons] at hqueue
          have hnew : ∀ keep : Stack → Bool, ∀ stack ∈
              ((table.row (Lr.Stack.top first)).edges.filterMap fun edge =>
                pushed? table first edge.1).filter keep, Lr.Stack.Traced table stack := by
            intro keep stack hmem
            obtain ⟨edge, -, hpushed⟩ := List.mem_filterMap.mp (List.mem_filter.mp hmem).1
            exact traced_of_pushed? hqueue.1 hpushed
          exact ih (List.forall_mem_append.mpr ⟨hqueue.2, hnew _⟩)
            (List.forall_mem_append.mpr ⟨hfound, hnew _⟩)

/-- Stacks with the symbols of a production on top. -/
def completions (table : Lr.Table Terminal Rule Production) (p : Production) : List Stack :=
  (stacksBeyond table table.rows.size [[]] [[]]).filterMap fun stack =>
    p.rhs.foldlM (pushed? table) stack

theorem traced_of_foldlM {symbols : List (Lr.Symbol Terminal Rule)} {stack last : Stack}
    (htraced : Lr.Stack.Traced table stack)
    (hlast : symbols.foldlM (pushed? table) stack = some last) : Lr.Stack.Traced table last := by
  induction symbols generalizing stack with
  | nil =>
      cases hlast
      exact htraced
  | cons x symbols ih =>
      rw [List.foldlM_cons] at hlast
      obtain ⟨next, hpushed, hlast⟩ := Option.bind_eq_some_iff.mp hlast
      exact ih (traced_of_pushed? htraced hpushed) hlast

theorem traced_of_mem_completions {p : Production} {stack : Stack}
    (hmem : stack ∈ completions table p) : Lr.Stack.Traced table stack := by
  obtain ⟨first, hfirst, hlast⟩ := List.mem_filterMap.mp hmem
  have hnil : ∀ stack ∈ ([[]] : List Stack), Lr.Stack.Traced table stack :=
    List.forall_mem_singleton.mpr .nil
  exact traced_of_foldlM (traced_of_mem_stacksBeyond hnil hnil first hfirst) hlast

/-- Whatever can follow a rule is taken on a stack that completes a production of it. -/
theorem exists_completions_rows : ∀ p ∈ Production.all, ∀ lookahead ∈ lookaheadsAfter p.lhs,
    ∃ stack ∈ completions ⟨rows.toArray⟩ p,
      (∃ entry ∈ (rows[Lr.Stack.top stack]?.getD {}).reductions, entry.1 = p) ∧
      Lr.Stack.takes ⟨rows.toArray⟩ stack (lookahead.map Terminal.bare) := by
  decide +kernel

/-! ### Lookaheads that are taken -/

/-- Every lookahead on which a state reduces is taken on some stack in the state. -/
theorem exists_takes_of_reduction {state : Nat} {lookahead : Option Terminal} {p : Production}
    (hreduce : (table.row state).reduction? lookahead = some p) :
    ∃ stack : Stack, Lr.Stack.Traced table stack ∧ Lr.Stack.top stack = state ∧
      Lr.Stack.takes table stack (lookahead.map Terminal.bare) := by
  obtain ⟨stack, hstack, hcompletes, htakes⟩ :=
    exists_completions_rows p (mem_productions p) lookahead (mem_lookaheadsAfter hreduce)
  rw [← table_eq] at hstack htakes
  rw [← row_eq] at hcompletes
  obtain ⟨entry, hentry, hsame, -⟩ := Lr.Row.exists_of_reduction? hreduce
  exact ⟨stack, traced_of_mem_completions hstack,
    completes_once hcompletes ⟨entry, hentry, hsame⟩, htakes⟩

end Blockscript.Script
