import Blockscript.Proofs.Lr.Automaton

/-!
Items with the dot inside, in every table that is an automaton of items.  A table holds no items,
but the way from such an item to its end is a path of the table, and a path that is shorter than
the production completed at its end began at such an item.  So the walk finds these items.
-/

namespace Blockscript.Lr

variable {τ ν π : Type} [DecidableEq τ] [DecidableEq ν] {g : Grammar τ ν π}

/-- The numbers of symbols read of a rule in a state: the dots of its items that stand neither in
front nor at the end. -/
def Grammar.openDots (g : Grammar τ ν π) (items : List (Item π)) (r : ν) : Set Nat :=
  {k | ∃ p, ⟨p, k⟩ ∈ items ∧ g.lhs p = r ∧ 0 < k ∧ k < (g.rhs p).length}

omit [DecidableEq τ] [DecidableEq ν] in
/-- A closure adds only beginnings. -/
theorem Grammar.Closure.mem_kernel {kernel : List (Item π)} {p : π} {n : Nat}
    (hclosure : g.Closure kernel ⟨p, n + 1⟩) : ⟨p, n + 1⟩ ∈ kernel := by
  cases hclosure with
  | here hitem => exact hitem

namespace Table

variable {table : Table τ ν π} {items : Nat → List (Item π)}

/-! ### One edge -/

/-- An item that stands behind a symbol stood before it. -/
theorem IsAutomaton.mem_before (hauto : table.IsAutomaton g items) {state target : Nat}
    (hedge : target ∈ (table.row state).targets) {p : π} {n : Nat}
    (hitem : ⟨p, n + 1⟩ ∈ items target) : ⟨p, n⟩ ∈ items state := by
  obtain ⟨x, hx⟩ := Row.mem_targets_iff.mp hedge
  have hmoved := ((hauto.enters state x target hx _).mp hitem).mem_kernel
  obtain ⟨⟨q, m⟩, hbefore, -, hsame⟩ := Grammar.mem_advance_iff.mp hmoved
  cases hsame
  exact hbefore

/-- An item that is not at its end moves on. -/
theorem IsAutomaton.exists_mem_behind (hauto : table.IsAutomaton g items) {state : Nat} {p : π}
    {n : Nat} (hitem : ⟨p, n⟩ ∈ items state) (hn : n < (g.rhs p).length) :
    ∃ target ∈ (table.row state).targets, ⟨p, n + 1⟩ ∈ items target := by
  have hnext : g.next? ⟨p, n⟩ = some (g.rhs p)[n] := List.getElem?_eq_getElem hn
  obtain ⟨target, hedge⟩ := (hauto.moves state _).mpr ⟨_, hitem, hnext⟩
  have hmoved := Grammar.mem_advance_iff.mpr ⟨_, hitem, hnext, rfl⟩
  exact ⟨target, Row.mem_targets_iff.mpr ⟨_, hedge⟩,
    (hauto.enters state _ target hedge _).mpr (.here hmoved)⟩

/-! ### Paths -/

/-- A path leads to an item only from the same item, with the dot as many symbols earlier. -/
theorem Path.mem_first (hauto : table.IsAutomaton g items) {state length last : Nat}
    (hpath : table.Path state length last) {p : π} {n : Nat}
    (hitem : ⟨p, n + length⟩ ∈ items last) : ⟨p, n⟩ ∈ items state := by
  induction hpath generalizing n with
  | here => exact hitem
  | @next state middle length last hedge _ ih =>
      apply hauto.mem_before hedge
      apply ih
      rwa [Nat.add_assoc, Nat.add_comm 1 length]

/-- From an item a path as long as what is missing leads to where it is completed. -/
theorem IsAutomaton.exists_path (hauto : table.IsAutomaton g items) {state : Nat} {p : π}
    {n missing : Nat} (hitem : ⟨p, n⟩ ∈ items state) (hmissing : n + missing = (g.rhs p).length) :
    ∃ last, table.Path state missing last ∧ table.Completes last p := by
  induction missing generalizing state n with
  | zero =>
      refine ⟨state, .here, (hauto.completes state p).mpr ?_⟩
      rwa [← hmissing, Nat.add_zero]
  | succ missing ih =>
      obtain ⟨middle, hedge, hmoved⟩ := hauto.exists_mem_behind hitem (by omega)
      obtain ⟨last, hpath, hlast⟩ := ih hmoved (by omega)
      exact ⟨last, .next hedge hpath, hlast⟩

/-! ### The walk -/

theorem IsAutomaton.mem_walk_iff_openDots (hauto : table.IsAutomaton g items) {state : Nat} {r : ν}
    {k : Nat} : (r, k) ∈ walk g table g.longest 0 [state] ↔ k ∈ g.openDots (items state) r := by
  simp only [mem_walk_iff, List.mem_singleton, exists_eq_left, Nat.zero_add, Prod.mk.injEq]
  constructor
  · rintro ⟨length, last, p, -, hpath, hlast, hpos, hlong, rfl, rfl⟩
    have hend := (hauto.completes last p).mp hlast
    rw [← Nat.sub_add_cancel hlong.le] at hend
    exact ⟨p, hpath.mem_first hauto hend, rfl, by omega, by omega⟩
  · rintro ⟨p, hitem, rfl, hpos, hlong⟩
    obtain ⟨last, hpath, hlast⟩ := hauto.exists_path hitem (Nat.add_sub_cancel' hlong.le)
    have hknown : p ∈ g.productions := (Grammar.mem_items_iff.mp (hauto.known state _ hitem)).1
    have hlongest := Grammar.length_rhs_le_longest hknown
    exact ⟨_, last, p, by omega, hpath, hlast, by omega, by omega, rfl, by omega⟩

/-- The table of a grammar is an automaton of items, and of every such table the unfinished rules
of a state are those with a dot inside, each with the furthest of its dots. -/
theorem unfinished_iff_furthest_dot [DecidableEq π] (g : Grammar τ ν π) :
    g.table.IsAutomaton g g.itemsAt ∧
      ∀ (table : Table τ ν π) (items : Nat → List (Item π)), table.IsAutomaton g items →
        ∀ (state : Nat) (r : ν),
          (∀ k, (r, k) ∈ unfinished g table state ↔
            IsGreatest (g.openDots (items state) r) k) ∧
          (r ∈ (unfinished g table state).map Prod.fst ↔
            (g.openDots (items state) r).Nonempty) := by
  refine ⟨g.isAutomaton_table, fun table items hauto state r => ⟨fun k => ?_, ?_⟩⟩
  · rw [mem_unfinished_iff_isGreatest]
    simp only [hauto.mem_walk_iff_openDots, Set.ofPred_mem_eq]
  · rw [mem_names_unfinished_iff]
    exact exists_congr fun _ => hauto.mem_walk_iff_openDots

/-- The rule `s → a s | a a b`.  Behind two `a` the second production misses only the `b` while both
have just begun again, and a third `a` leads to the same state. -/
def runs : Grammar Char Unit Bool where
  start := ()
  productions := [true, false]
  lhs _ := ()
  rhs longer := bif longer then [.terminal 'a', .rule ()]
    else [.terminal 'a', .terminal 'a', .terminal 'b']

theorem unfinished_iff_furthest_dot_runs :
    ((), 2) ∈ unfinished runs runs.table 3 ∧ IsGreatest (runs.openDots (runs.itemsAt 3) ()) 2 ∧
      ¬ (runs.openDots (runs.itemsAt 0) ()).Nonempty := by
  obtain ⟨hauto, hdots⟩ := unfinished_iff_furthest_dot runs
  have hfound : ((), 2) ∈ unfinished runs runs.table 3 := by decide +kernel
  have hnone : () ∉ (unfinished runs runs.table 0).map Prod.fst := by decide +kernel
  exact ⟨hfound, ((hdots _ _ hauto 3 ()).1 2).mp hfound, mt (hdots _ _ hauto 0 ()).2.mpr hnone⟩

end Table

end Blockscript.Lr
