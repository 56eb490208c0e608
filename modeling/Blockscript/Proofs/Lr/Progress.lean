import Blockscript.Lr.Progress
import Blockscript.Proofs.Lr.Viability
import Mathlib.Order.Bounds.Defs

/-!
What the walk through a table finds.  A production stands midway in a state when
some of its symbols have been read there and some have not.  In a grounded table
the walk finds these productions and no others, and notes of each rule the most
symbols that have been read.
-/

namespace Blockscript.Lr

variable {τ ν π : Type} {g : Grammar τ ν π} {table : Table τ ν π} [DecidableEq ν]

/-! ### The walk and the paths of a table -/

omit [DecidableEq ν] in
theorem Grammar.length_rhs_le_longest {p : π} (hp : p ∈ g.productions) :
    (g.rhs p).length ≤ g.longest := by
  have hfold : ∀ (ps : List π) (most : Nat),
      most ≤ ps.foldl (fun n q => max n (g.rhs q).length) most ∧
        ∀ q ∈ ps, (g.rhs q).length ≤ ps.foldl (fun n q => max n (g.rhs q).length) most := by
    intro ps
    induction ps with
    | nil => exact fun most => ⟨Nat.le_refl most, by simp⟩
    | cons q ps ih =>
        intro most
        obtain ⟨hmost, hrest⟩ := ih (max most (g.rhs q).length)
        refine ⟨(Nat.le_max_left _ _).trans hmost, ?_⟩
        intro r hr
        rcases List.mem_cons.mp hr with rfl | hr
        · exact (Nat.le_max_right _ _).trans hmost
        · exact hrest r hr
  exact (hfold g.productions 0).2 p hp

/-- A path of so many edges leads from one state to another. -/
inductive Table.Path (table : Table τ ν π) : Nat → Nat → Nat → Prop
  | here {state : Nat} : Path table state 0 state
  | next {state middle length last : Nat} (hedge : middle ∈ (table.row state).targets)
      (hrest : Path table middle length last) : Path table state (length + 1) last

omit [DecidableEq ν] in
/-- The targets of a row are those of its edges. -/
theorem Row.mem_targets_iff {row : Row τ ν π} {target : Nat} :
    target ∈ row.targets ↔ ∃ x, (x, target) ∈ row.edges := by
  simp only [Row.targets, Row.edges, List.mem_append, List.mem_map, Prod.mk.injEq]
  constructor
  · rintro (⟨edge, hedge, rfl⟩ | ⟨edge, hedge, rfl⟩)
    · exact ⟨_, .inl ⟨edge, hedge, rfl, rfl⟩⟩
    · exact ⟨_, .inr ⟨edge, hedge, rfl, rfl⟩⟩
  · rintro ⟨x, ⟨edge, hedge, -, rfl⟩ | ⟨edge, hedge, -, rfl⟩⟩
    · exact .inl ⟨edge, hedge, rfl⟩
    · exact .inr ⟨edge, hedge, rfl⟩

omit [DecidableEq ν] in
theorem Table.mem_beyond_iff {layer : List Nat} {target : Nat} :
    target ∈ table.beyond layer ↔ ∃ state ∈ layer, target ∈ (table.row state).targets := by
  simp [Table.beyond, mem_addNew]

/-- Whether a state reduces a production on some lookahead. -/
def Table.Completes (table : Table τ ν π) (state : Nat) (p : π) : Prop :=
  ∃ entry ∈ (table.row state).reductions, entry.1 = p

omit [DecidableEq ν] in
theorem Table.mem_overhang_iff {depth : Nat} {layer : List Nat} {entry : ν × Nat} :
    entry ∈ Table.overhang g table depth layer ↔
      ∃ state ∈ layer, ∃ p, table.Completes state p ∧ 0 < depth ∧ depth < (g.rhs p).length ∧
        entry = (g.lhs p, (g.rhs p).length - depth) := by
  simp only [Table.overhang, List.mem_flatMap, List.mem_filterMap,
    Option.ite_none_right_eq_some, Option.some.injEq]
  constructor
  · rintro ⟨state, hstate, found, hfound, hdepth, rfl⟩
    exact ⟨state, hstate, found.1, ⟨found, hfound, rfl⟩, hdepth.1, hdepth.2, rfl⟩
  · rintro ⟨state, hstate, _, ⟨found, hfound, rfl⟩, hpos, hlong, rfl⟩
    exact ⟨state, hstate, found, hfound, ⟨hpos, hlong⟩, rfl⟩

omit [DecidableEq ν] in
/-- The walk finds what is completed at the end of a path that is shorter. -/
theorem Table.mem_walk_iff {rounds depth : Nat} {layer : List Nat} {entry : ν × Nat} :
    entry ∈ Table.walk g table rounds depth layer ↔
      ∃ first ∈ layer, ∃ length last p, length < rounds ∧ table.Path first length last ∧
        table.Completes last p ∧ 0 < depth + length ∧ depth + length < (g.rhs p).length ∧
        entry = (g.lhs p, (g.rhs p).length - (depth + length)) := by
  induction rounds generalizing depth layer with
  | zero => simp [Table.walk]
  | succ rounds ih =>
      rw [Table.walk, List.mem_append, ih, Table.mem_overhang_iff]
      constructor
      · rintro (⟨state, hstate, p, hp, hdepth⟩ | ⟨middle, hmiddle, length, last, p, hshort, hpath,
          hp, hdepth⟩)
        · exact ⟨state, hstate, 0, state, p, Nat.succ_pos _, .here, hp, hdepth⟩
        · obtain ⟨state, hstate, hedge⟩ := Table.mem_beyond_iff.mp hmiddle
          rw [Nat.add_assoc, Nat.add_comm 1 length] at hdepth
          exact ⟨state, hstate, length + 1, last, p, Nat.succ_lt_succ hshort, .next hedge hpath,
            hp, hdepth⟩
      · rintro ⟨state, hstate, length, last, p, hshort, hpath, hp, hdepth⟩
        cases hpath with
        | here => exact .inl ⟨state, hstate, p, hp, hdepth⟩
        | @next _ middle length _ hedge hrest =>
            rw [Nat.add_comm length 1, ← Nat.add_assoc] at hdepth
            exact .inr ⟨middle, Table.mem_beyond_iff.mpr ⟨state, hstate, hedge⟩, length, last, p,
              Nat.lt_of_succ_lt_succ hshort, hrest, hp, hdepth⟩

/-! ### The most symbols read of a rule -/

theorem Table.furthest_spec (r : ν) (found : List (ν × Nat)) :
    (∀ k, (r, k) ∈ found → k ≤ Table.furthest r found) ∧
      (Table.furthest r found = 0 ∨ (r, Table.furthest r found) ∈ found) := by
  -- The same of a fold that has already noted `most`.
  have hfold : ∀ (found : List (ν × Nat)) (most : Nat),
      let last := found.foldl (fun most entry =>
        if entry.1 = r then max most entry.2 else most) most
      most ≤ last ∧ (∀ k, (r, k) ∈ found → k ≤ last) ∧ (last = most ∨ (r, last) ∈ found) := by
    intro found
    induction found with
    | nil => exact fun most => ⟨Nat.le_refl most, by simp, .inl rfl⟩
    | cons entry found ih =>
        intro most
        obtain ⟨s, k⟩ := entry
        by_cases hs : s = r
        · subst hs
          simp only [List.foldl_cons, ↓reduceIte, List.mem_cons, Prod.mk.injEq, true_and]
          obtain ⟨hmost, hrest, hlast⟩ := ih (max most k)
          refine ⟨by omega, ?_, ?_⟩
          · rintro j (rfl | hj)
            · omega
            · exact hrest j hj
          · rcases hlast with hlast | hlast
            · rcases Nat.le_total k most with hle | hle
              · exact .inl (hlast.trans (Nat.max_eq_left hle))
              · exact .inr (.inl (hlast.trans (Nat.max_eq_right hle)))
            · exact .inr (.inr hlast)
        · have hr : ¬ r = s := Ne.symm hs
          simpa [hs, hr] using ih most
  obtain ⟨-, hmost, hlast⟩ := hfold found 0
  exact ⟨hmost, hlast⟩

/-- The unfinished rules are those found by the walk, each with the most symbols
read of it. -/
theorem Table.mem_unfinished_iff_furthest {state : Nat} {r : ν} {k : Nat} :
    (r, k) ∈ Table.unfinished g table state ↔
      (∃ j, (r, j) ∈ Table.walk g table g.longest 0 [state]) ∧
        Table.furthest r (Table.walk g table g.longest 0 [state]) = k := by
  simp [Table.unfinished, mem_addNew]

theorem Table.mem_names_unfinished_iff {state : Nat} {r : ν} :
    r ∈ (Table.unfinished g table state).map Prod.fst ↔
      ∃ k, (r, k) ∈ Table.walk g table g.longest 0 [state] := by
  simp [Table.unfinished, mem_addNew]

theorem Table.mem_unfinished_iff_isGreatest {state : Nat} {r : ν} {k : Nat} :
    (r, k) ∈ Table.unfinished g table state ↔
      IsGreatest {k | (r, k) ∈ Table.walk g table g.longest 0 [state]} k := by
  obtain ⟨hmost, hlast⟩ := Table.furthest_spec r (Table.walk g table g.longest 0 [state])
  rw [Table.mem_unfinished_iff_furthest]
  constructor
  · rintro ⟨⟨j, hj⟩, rfl⟩
    refine ⟨hlast.resolve_left ?_, hmost⟩
    -- The walk notes only rules of which something has been read.
    obtain ⟨-, -, length, -, p, -, -, -, -, hlong, hentry⟩ := Table.mem_walk_iff.mp hj
    have hle := hmost j hj
    rw [Prod.mk.injEq] at hentry
    omega
  · rintro ⟨hk, hgreatest⟩
    refine ⟨⟨k, hk⟩, Nat.le_antisymm ?_ (hmost k hk)⟩
    rcases hlast with hzero | hlast
    · omega
    · exact hgreatest hlast

/-! ### Productions that stand midway -/

variable [DecidableEq τ] [DecidableEq π] {rank : ν → Nat}

/-- Some symbols of a production have been read in a state, `read` of them, and
some have not. -/
structure Table.Midway (g : Grammar τ ν π) (table : Table τ ν π) (state : Nat) (p : π)
    (read : Nat) : Prop where
  begun : 0 < read
  unfinished : read < (g.rhs p).length
  finishes : table.finishes p state ((g.rhs p).drop read) = true

/-- A production that stands midway has just passed a symbol and misses another. -/
theorem Table.Midway.exists_split {state : Nat} {p : π} {read : Nat}
    (hmidway : table.Midway g state p read) :
    ∃ before y x rest, g.rhs p = before ++ y :: x :: rest ∧
      table.finishes p state (x :: rest) = true := by
  obtain ⟨hbegun, hmissing, hfinishes⟩ := hmidway
  obtain ⟨passed, rfl⟩ := Nat.exists_eq_succ_of_ne_zero hbegun.ne'
  have hpassed := List.drop_eq_getElem_cons (Nat.lt_of_succ_lt hmissing)
  have hnext := List.drop_eq_getElem_cons hmissing
  rw [hnext] at hfinishes hpassed
  have hrhs := List.take_append_drop passed (g.rhs p)
  rw [hpassed] at hrhs
  exact ⟨_, _, _, _, hrhs.symm, hfinishes⟩

/-- Every target of a row is entered with some symbol. -/
def Table.Unshadowed (table : Table τ ν π) : Prop :=
  ∀ state, ∀ target ∈ (table.row state).targets, ∃ x, table.target? state x = some target

omit [DecidableEq ν] in
theorem Table.finishes_nil_iff {state : Nat} {p : π} [DecidableEq ν] :
    table.finishes p state [] = true ↔ table.Completes state p := by
  simp [Table.finishes, Table.Completes]

omit [DecidableEq π] in
theorem Table.mem_targets_of_target? {state target : Nat} {x : Symbol τ ν}
    (hedge : table.target? state x = some target) : target ∈ (table.row state).targets :=
  Row.mem_targets_iff.mpr ⟨x, Table.mem_edges_of_target? hedge⟩

/-- Following the missing symbols of a production is a path of their number. -/
theorem Table.exists_path_of_finishes {p : π} {state : Nat} {rest : List (Symbol τ ν)}
    (hfinishes : table.finishes p state rest = true) :
    ∃ last, table.Path state rest.length last ∧ table.Completes last p := by
  induction rest generalizing state with
  | nil => exact ⟨state, .here, Table.finishes_nil_iff.mp hfinishes⟩
  | cons x rest ih =>
      obtain ⟨next, hedge, hnext⟩ := Table.exists_target?_of_finishes hfinishes
      obtain ⟨last, hpath, hlast⟩ := ih hnext
      exact ⟨last, .next (Table.mem_targets_of_target? hedge) hpath, hlast⟩

/-- A path to a state that completes a longer production spells the last symbols of
the production: every edge is one that the production has just passed. -/
theorem Table.Path.finishes (hground : Grounded g table rank) (hplain : table.Unshadowed) {p : π}
    {state length last : Nat} (hpath : table.Path state length last)
    (hlast : table.Completes last p) (hlong : length < (g.rhs p).length) :
    table.finishes p state ((g.rhs p).drop ((g.rhs p).length - length)) = true := by
  induction hpath with
  | here =>
      rw [Nat.sub_zero, List.drop_length]
      exact Table.finishes_nil_iff.mpr hlast
  | @next state middle length last hedge hrest ih =>
      have hnext := ih hlast (by omega)
      obtain ⟨x, hx⟩ := hplain state middle hedge
      have hless : (g.rhs p).length - (length + 1) < (g.rhs p).length := by omega
      have hsplit := List.drop_eq_getElem_cons hless
      rw [show (g.rhs p).length - (length + 1) + 1 = (g.rhs p).length - length by omega] at hsplit
      have hrhs : g.rhs p = (g.rhs p).take ((g.rhs p).length - (length + 1)) ++
          (g.rhs p)[(g.rhs p).length - (length + 1)] ::
            (g.rhs p).drop ((g.rhs p).length - length) := by
        rw [← hsplit, List.take_append_drop]
      have hpassed := hground.passed state x middle hx p _ _ _ hrhs hnext
      rw [hsplit, hpassed, Table.finishes_cons hx]
      exact hnext

/-- The walk from a state finds the productions that stand midway in it. -/
theorem Table.mem_walk_longest_iff (hground : Grounded g table rank) (hplain : table.Unshadowed)
    (hall : ∀ p : π, p ∈ g.productions) {state : Nat} {r : ν} {k : Nat} :
    (r, k) ∈ Table.walk g table g.longest 0 [state] ↔
      ∃ p, g.lhs p = r ∧ table.Midway g state p k := by
  simp only [Table.mem_walk_iff, List.mem_singleton, exists_eq_left, Nat.zero_add, Prod.mk.injEq]
  constructor
  · rintro ⟨length, last, p, -, hpath, hlast, hpos, hlong, rfl, rfl⟩
    exact ⟨p, rfl, by omega, by omega, hpath.finishes hground hplain hlast hlong⟩
  · rintro ⟨p, rfl, hbegun, hmissing, hfinishes⟩
    obtain ⟨last, hpath, hlast⟩ := Table.exists_path_of_finishes hfinishes
    have hlongest := Grammar.length_rhs_le_longest (hall p)
    rw [List.length_drop] at hpath
    exact ⟨_, last, p, by omega, hpath, hlast, by omega, by omega, rfl, by omega⟩

/-- A rule is unfinished in a state, with so many symbols read, exactly when these
are the most symbols read of a production of it that stands midway. -/
theorem Table.mem_unfinished_iff (hground : Grounded g table rank) (hplain : table.Unshadowed)
    (hall : ∀ p : π, p ∈ g.productions) {state : Nat} {r : ν} {k : Nat} :
    (r, k) ∈ Table.unfinished g table state ↔
      IsGreatest {k | ∃ p, g.lhs p = r ∧ table.Midway g state p k} k := by
  simp only [Table.mem_unfinished_iff_isGreatest, Table.mem_walk_longest_iff hground hplain hall]

/-- Of a production that stands midway the rule is unfinished. -/
theorem Table.Midway.exists_mem_unfinished (hground : Grounded g table rank)
    (hplain : table.Unshadowed) (hall : ∀ p : π, p ∈ g.productions) {state : Nat} {p : π} {k : Nat}
    (hmidway : table.Midway g state p k) : ∃ j, (g.lhs p, j) ∈ Table.unfinished g table state := by
  have hwalk := (Table.mem_walk_longest_iff hground hplain hall).mpr ⟨p, rfl, hmidway⟩
  exact ⟨_, Table.mem_unfinished_iff_furthest.mpr ⟨⟨k, hwalk⟩, rfl⟩⟩

/-! ### Reducing a completed production -/

variable {a : Attribution g}

/-- A production that the state of a traced stack completes can be reduced, unless it
is one of the start rule.  The stack still holds the same tokens. -/
theorem Stack.Traced.exists_reduced (hground : Grounded g table rank)
    (hall : ∀ p : π, p ∈ g.productions) {stack : Stack a} (htraced : Stack.Traced table stack)
    {word : List a.Token} (hspans : Stack.Spans stack word) {p : π}
    (hcompletes : table.Completes stack.top p) (hlhs : g.lhs p ≠ g.start) :
    ∃ meanings below target, Stack.pop (g.rhs p) stack = some (meanings, below) ∧
      table.target? (Stack.top below) (.rule (g.lhs p)) = some target ∧
      Stack.Traced table (⟨target, .rule (g.lhs p), a.interpret p meanings⟩ :: below) ∧
      Stack.Spans (⟨target, .rule (g.lhs p), a.interpret p meanings⟩ :: below) word := by
  obtain ⟨meanings, below, hpop, hbelow, ⟨-, hstart⟩ | ⟨target, hgoto⟩⟩ :=
    htraced.exists_reduction hground (Table.finishes_nil_iff.mpr hcompletes)
  · exact absurd hstart hlhs
  · obtain ⟨first, last, rfl, hfirst, hparts⟩ := hspans.pop hpop
    exact ⟨meanings, below, target, hpop, hgoto, .cons hbelow hgoto,
      .cons hfirst (.production p (hall p) hparts)⟩

end Blockscript.Lr
