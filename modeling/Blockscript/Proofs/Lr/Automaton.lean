import Mathlib.Data.Finset.Powerset
import Blockscript.Proofs.Lr.Progress

/-!
The automaton of item sets, for every grammar.  The rounds that the sets of a grammar
are computed in suffice: the rules predicted at a dot are all found, and so are the states.
Hence the table of a grammar moves between closed sets of items, symbol by symbol.
-/

namespace Blockscript.Lr

/-! ### Adding until nothing new appears -/

section Saturate

variable {α : Type} [DecidableEq α]

theorem length_le_addNew (known new : List α) : known.length ≤ (addNew known new).length := by
  induction new generalizing known with
  | nil => exact Nat.le_refl _
  | cons x new ih =>
      rw [addNew]
      split
      · exact ih known
      · have hlonger := ih (known ++ [x])
        rw [List.length_append, List.length_singleton] at hlonger
        omega

/-- Nothing is added exactly when everything is known. -/
theorem length_addNew_eq_iff {known new : List α} :
    (addNew known new).length = known.length ↔ ∀ x ∈ new, x ∈ known := by
  induction new with
  | nil => simp [addNew]
  | cons x new ih =>
      rw [addNew, List.forall_mem_cons]
      split
      · rename_i hx
        rw [ih, and_iff_right hx]
      · rename_i hx
        have hlonger := length_le_addNew (known ++ [x]) new
        rw [List.length_append, List.length_singleton] at hlonger
        exact iff_of_false (by omega) fun h => hx h.1

variable {grow : List α → List α}

theorem mem_saturate_of_mem {rounds : Nat} {known : List α} {x : α} (hx : x ∈ known) :
    x ∈ saturate grow rounds known := by
  induction rounds generalizing known with
  | zero => exact hx
  | succ rounds ih =>
      rw [saturate]
      split
      · exact hx
      · exact ih (mem_addNew.mpr (.inl hx))

/-- What holds of the beginning and is kept by every step holds of all that is found. -/
theorem forall_mem_saturate {P : α → Prop}
    (hgrow : ∀ known : List α, (∀ x ∈ known, P x) → ∀ x ∈ grow known, P x) {rounds : Nat}
    {known : List α} (hknown : ∀ x ∈ known, P x) : ∀ x ∈ saturate grow rounds known, P x := by
  induction rounds generalizing known with
  | zero => exact hknown
  | succ rounds ih =>
      rw [saturate]
      split
      · exact hknown
      · apply ih
        intro x hx
        rcases mem_addNew.mp hx with hx | hx
        · exact hknown x hx
        · exact hgrow known hknown x hx

/-- Rounds enough for all that can be found leave nothing to be added. -/
theorem saturate_closed {all : List α} (hall : ∀ known, ∀ x ∈ grow known, x ∈ all) {rounds : Nat}
    {known : List α} (hrounds : (all.toFinset \ known.toFinset).card ≤ rounds) :
    ∀ x ∈ grow (saturate grow rounds known), x ∈ saturate grow rounds known := by
  induction rounds generalizing known with
  | zero =>
      intro x hx
      have hnone := Finset.sdiff_eq_empty_iff_subset.mp
        (Finset.card_eq_zero.mp (Nat.le_zero.mp hrounds))
      exact List.mem_toFinset.mp (hnone (List.mem_toFinset.mpr (hall known x hx)))
  | succ rounds ih =>
      rw [saturate]
      split
      · rename_i hlength
        exact length_addNew_eq_iff.mp hlength
      · rename_i hlength
        obtain ⟨x, hx, hnew⟩ : ∃ x ∈ grow known, x ∉ known := by
          by_contra! hold
          exact hlength (length_addNew_eq_iff.mpr hold)
        have hfewer : all.toFinset \ (addNew known (grow known)).toFinset ⊂
            all.toFinset \ known.toFinset := by
          rw [Finset.ssubset_iff_of_subset]
          · refine ⟨x, ?_, ?_⟩
            · simp [hall known x hx, hnew]
            · simp [mem_addNew, hx]
          · intro y hy
            simp only [Finset.mem_sdiff, List.mem_toFinset, mem_addNew, not_or] at hy ⊢
            exact ⟨hy.1, hy.2.1⟩
        exact ih (Nat.le_of_lt_succ ((Finset.card_lt_card hfewer).trans_le hrounds))

end Saturate

/-! ### Closed sets of items -/

namespace Grammar

variable {τ ν π : Type} {g : Grammar τ ν π}

/-- The items of a kernel, and those with which a rule behind a dot begins. -/
inductive Closure (g : Grammar τ ν π) (kernel : List (Item π)) : Item π → Prop
  | here {item : Item π} (hitem : item ∈ kernel) : Closure g kernel item
  | begins {item : Item π} {p : π} (hitem : Closure g kernel item) (hp : p ∈ g.productions)
      (hnext : g.next? item = some (.rule (g.lhs p))) : Closure g kernel ⟨p, 0⟩

/-- Kernels of the same items have the same closure. -/
theorem Closure.of_same {kernel other : List (Item π)}
    (hsame : ∀ item, item ∈ kernel ↔ item ∈ other) {item : Item π}
    (hclosure : g.Closure kernel item) : g.Closure other item := by
  induction hclosure with
  | here hitem => exact .here ((hsame _).mp hitem)
  | begins _ hp hnext ih => exact .begins ih hp hnext

theorem mem_expectedRules_iff {items : List (Item π)} {r : ν} :
    r ∈ g.expectedRules items ↔ ∃ item ∈ items, g.next? item = some (.rule r) := by
  simp only [expectedRules, List.mem_filterMap]
  refine exists_congr fun item => and_congr_right fun _ => ?_
  rcases g.next? item with _ | ⟨_ | _⟩ <;> simp

section Closed

variable [DecidableEq ν]

theorem mem_alternatives_iff {p : π} {r : ν} :
    p ∈ g.alternatives r ↔ p ∈ g.productions ∧ g.lhs p = r := by
  simp [alternatives]

theorem mem_leads_iff {r s : ν} :
    s ∈ g.leads r ↔ ∃ p ∈ g.productions, g.lhs p = r ∧ g.next? ⟨p, 0⟩ = some (.rule s) := by
  simp only [leads, List.mem_filterMap, mem_alternatives_iff, and_assoc, next?]
  refine exists_congr fun p => and_congr_right fun _ => and_congr_right fun _ => ?_
  generalize g.rhs p = symbols
  rcases symbols with _ | ⟨_ | _, rest⟩ <;> simp

theorem mem_beginningItems_iff {r : ν} {item : Item π} :
    item ∈ g.beginningItems r ↔
      ∃ p ∈ g.productions, g.lhs p = r ∧ item = ⟨p, 0⟩ := by
  simp only [beginningItems, List.mem_map, mem_alternatives_iff, and_assoc]
  exact exists_congr fun p => and_congr_right fun _ => and_congr_right fun _ => eq_comm

theorem mem_predicted_of_mem {rules : List ν} {r : ν} (hr : r ∈ rules) : r ∈ g.predicted rules :=
  mem_saturate_of_mem (mem_addNew.mpr (.inr hr))

/-- There are no more rules at the head of productions than there are productions. -/
theorem mem_predicted_of_leads {rules : List ν} {r s : ν} (hr : r ∈ g.predicted rules)
    (hs : s ∈ g.leads r) : s ∈ g.predicted rules := by
  -- The rules at the head of some production.
  let heads := g.expectedRules (g.productions.map fun p => ⟨p, 0⟩)
  have hall : ∀ known : List ν, ∀ t ∈ known.flatMap g.leads, t ∈ heads := by
    intro known t ht
    obtain ⟨q, -, ht⟩ := List.mem_flatMap.mp ht
    obtain ⟨p, hp, -, hnext⟩ := mem_leads_iff.mp ht
    exact mem_expectedRules_iff.mpr ⟨_, List.mem_map_of_mem hp, hnext⟩
  have hcount : heads.length ≤ g.productions.length :=
    (List.length_filterMap_le _ _).trans_eq (List.length_map _)
  have hrounds : (heads.toFinset \ (addNew [] rules).toFinset).card ≤ g.productions.length :=
    calc (heads.toFinset \ (addNew [] rules).toFinset).card
        ≤ heads.toFinset.card := Finset.card_le_card Finset.sdiff_subset
      _ ≤ heads.length := List.toFinset_card_le heads
      _ ≤ g.productions.length := hcount
  exact saturate_closed hall hrounds s (List.mem_flatMap.mpr ⟨r, hr, hs⟩)

variable [DecidableEq π]

/-- The rules behind the dots of a closure are predicted. -/
theorem mem_predicted_of_next {kernel : List (Item π)} {item : Item π} {r : ν}
    (hitem : item ∈ g.closure kernel) (hnext : g.next? item = some (.rule r)) :
    r ∈ g.predicted (g.expectedRules kernel) := by
  rcases mem_addNew.mp hitem with hkernel | hbegins
  · exact mem_predicted_of_mem (mem_expectedRules_iff.mpr ⟨item, hkernel, hnext⟩)
  · obtain ⟨s, hs, hitem⟩ := List.mem_flatMap.mp hbegins
    obtain ⟨p, hp, hlhs, rfl⟩ := mem_beginningItems_iff.mp hitem
    exact mem_predicted_of_leads hs (mem_leads_iff.mpr ⟨p, hp, hlhs, hnext⟩)

theorem mem_closure_iff {kernel : List (Item π)} {item : Item π} :
    item ∈ g.closure kernel ↔ g.Closure kernel item := by
  constructor
  · intro hitem
    rcases mem_addNew.mp hitem with hkernel | hbegins
    · exact .here hkernel
    · obtain ⟨r, hr, hitem⟩ := List.mem_flatMap.mp hbegins
      obtain ⟨p, hp, rfl, rfl⟩ := mem_beginningItems_iff.mp hitem
      -- Every predicted rule stands behind the dot of some item.
      have hpredicted : ∀ r ∈ g.predicted (g.expectedRules kernel),
          ∃ item, g.Closure kernel item ∧ g.next? item = some (.rule r) := by
        apply forall_mem_saturate
        · intro known hknown s hs
          obtain ⟨r, hr, hs⟩ := List.mem_flatMap.mp hs
          obtain ⟨q, hq, rfl, hnext⟩ := mem_leads_iff.mp hs
          obtain ⟨item, hitem, hrule⟩ := hknown _ hr
          exact ⟨⟨q, 0⟩, .begins hitem hq hrule, hnext⟩
        · intro r hr
          rcases mem_addNew.mp hr with hnone | hr
          · exact absurd hnone List.not_mem_nil
          · obtain ⟨item, hitem, hnext⟩ := mem_expectedRules_iff.mp hr
            exact ⟨item, .here hitem, hnext⟩
      obtain ⟨item, hclosure, hnext⟩ := hpredicted _ hr
      exact .begins hclosure hp hnext
  · intro hclosure
    induction hclosure with
    | here hitem => exact mem_addNew.mpr (.inl hitem)
    | @begins item p _ hp hnext ih =>
        have hbegins : (⟨p, 0⟩ : Item π) ∈ g.beginningItems (g.lhs p) :=
          mem_beginningItems_iff.mpr ⟨p, hp, rfl, rfl⟩
        exact mem_addNew.mpr (.inr (List.mem_flatMap.mpr
          ⟨_, mem_predicted_of_next ih hnext, hbegins⟩))

end Closed

/-! ### The states of a grammar -/

def items (g : Grammar τ ν π) : List (Item π) :=
  g.productions.flatMap fun p => (List.range ((g.rhs p).length + 1)).map fun n => ⟨p, n⟩

theorem mem_items_iff {item : Item π} :
    item ∈ g.items ↔ item.production ∈ g.productions ∧
      item.dot ≤ (g.rhs item.production).length := by
  obtain ⟨p, n⟩ := item
  simp only [items, List.mem_flatMap, List.mem_map, List.mem_range, Item.mk.injEq]
  constructor
  · rintro ⟨q, hq, m, hm, rfl, rfl⟩
    exact ⟨hq, Nat.le_of_lt_succ hm⟩
  · rintro ⟨hp, hn⟩
    exact ⟨p, hp, n, Nat.lt_succ_of_le hn, rfl, rfl⟩

theorem mem_items_of_closure {kernel : List (Item π)}
    (hkernel : ∀ item ∈ kernel, item ∈ g.items) {item : Item π} (hitem : g.Closure kernel item) :
    item ∈ g.items := by
  cases hitem with
  | here hmem => exact hkernel _ hmem
  | begins _ hp _ => exact mem_items_iff.mpr ⟨hp, Nat.zero_le _⟩

theorem length_items : g.items.length = g.size := by
  have hfold : ∀ (ps : List π) (n : Nat),
      ps.foldl (fun n p => n + (g.rhs p).length + 1) n =
        n + (ps.map fun p => (g.rhs p).length + 1).sum := by
    intro ps
    induction ps with
    | nil => simp
    | cons p ps ih =>
        intro n
        rw [List.foldl_cons, ih, List.map_cons, List.sum_cons]
        omega
  rw [size, hfold, items, List.length_flatMap]
  simp

section Moves

variable [DecidableEq τ] [DecidableEq ν]

theorem mem_advance_iff {found : List (Item π)} {x : Symbol τ ν} {item : Item π} :
    item ∈ g.advance found x ↔
      ∃ before ∈ found, g.next? before = some x ∧ item = ⟨before.production, before.dot + 1⟩ := by
  simp only [advance, List.mem_map, List.mem_filter, decide_eq_true_eq, and_assoc]
  exact exists_congr fun before => and_congr_right fun _ => and_congr_right fun _ => eq_comm

theorem mem_expectedSymbols_iff {found : List (Item π)} {x : Symbol τ ν} :
    x ∈ g.expectedSymbols found ↔ ∃ item ∈ found, g.next? item = some x := by
  simp [expectedSymbols, mem_addNew]

end Moves

variable [DecidableEq π]

theorem sameItems_iff {left right : List (Item π)} :
    sameItems left right = true ↔ left.toFinset = right.toFinset := by
  simp only [sameItems, Bool.and_eq_true, List.all_eq_true, decide_eq_true_eq, Finset.ext_iff,
    List.mem_toFinset]
  exact ⟨fun h item => ⟨h.1 item, h.2 item⟩, fun h => ⟨fun item => (h item).mp,
    fun item => (h item).mpr⟩⟩

/-- Kernels that hold different items are at most as many as the sets of items. -/
theorem length_le_of_nodup {known : List (List (Item π))}
    (hdistinct : (known.map List.toFinset).Nodup)
    (hitems : ∀ kernel ∈ known, ∀ item ∈ kernel, item ∈ g.items) : known.length ≤ 2 ^ g.size := by
  have hsub : (known.map List.toFinset).toFinset ⊆ g.items.toFinset.powerset := by
    intro found hfound
    obtain ⟨kernel, hkernel, rfl⟩ := List.mem_map.mp (List.mem_toFinset.mp hfound)
    rw [Finset.mem_powerset]
    intro item hitem
    exact List.mem_toFinset.mpr (hitems kernel hkernel item (List.mem_toFinset.mp hitem))
  calc known.length
      = (known.map List.toFinset).toFinset.card := by
        rw [List.toFinset_card_of_nodup hdistinct, List.length_map]
    _ ≤ g.items.toFinset.powerset.card := Finset.card_le_card hsub
    _ = 2 ^ g.items.toFinset.card := Finset.card_powerset _
    _ ≤ 2 ^ g.size := by
        rw [← length_items]
        exact Nat.pow_le_pow_right Nat.two_pos (List.toFinset_card_le _)

theorem freshKernels_spec (known candidates : List (List (Item π)))
    (hdistinct : (known.map List.toFinset).Nodup) :
    ((known ++ freshKernels known candidates).map List.toFinset).Nodup ∧
    (∀ kernel ∈ freshKernels known candidates, kernel ∈ candidates) ∧
    ∀ kernel ∈ candidates, ∃ other ∈ known ++ freshKernels known candidates,
      kernel.toFinset = other.toFinset := by
  induction candidates generalizing known with
  | nil => simp [freshKernels, hdistinct]
  | cons kernel rest ih =>
      rw [freshKernels]
      split
      · rename_i hany
        obtain ⟨other, hother, hsame⟩ := List.any_eq_true.mp hany
        obtain ⟨hnodup, hfrom, hfound⟩ := ih known hdistinct
        refine ⟨hnodup, fun fresh hfresh => List.mem_cons_of_mem _ (hfrom fresh hfresh), ?_⟩
        exact List.forall_mem_cons.mpr
          ⟨⟨other, List.mem_append_left _ hother, sameItems_iff.mp hsame⟩, hfound⟩
      · rename_i hnone
        have hnew : ((kernel :: known).map List.toFinset).Nodup := by
          refine List.nodup_cons.mpr ⟨fun hmem => hnone ?_, hdistinct⟩
          obtain ⟨other, hother, hsame⟩ := List.mem_map.mp hmem
          exact List.any_eq_true.mpr ⟨other, hother, sameItems_iff.mpr hsame.symm⟩
        obtain ⟨hnodup, hfrom, hfound⟩ := ih (kernel :: known) hnew
        -- The two lists differ in the place of the kernel.
        have hperm : (known ++ kernel :: freshKernels (kernel :: known) rest).Perm
            (kernel :: known ++ freshKernels (kernel :: known) rest) := List.perm_middle
        refine ⟨(hperm.map _).nodup_iff.mpr hnodup, ?_, ?_⟩
        · exact List.forall_mem_cons.mpr ⟨List.mem_cons_self,
            fun fresh hfresh => List.mem_cons_of_mem _ (hfrom fresh hfresh)⟩
        · refine List.forall_mem_cons.mpr
            ⟨⟨kernel, List.mem_append_right _ List.mem_cons_self, rfl⟩, fun other hother => ?_⟩
          obtain ⟨found, hmem, hsame⟩ := hfound other hother
          exact ⟨found, hperm.mem_iff.mpr hmem, hsame⟩

variable [DecidableEq ν] [DecidableEq τ]

theorem mem_successors_iff {kernel successor : List (Item π)} :
    successor ∈ g.successors kernel ↔
      ∃ x ∈ g.expectedSymbols (g.closure kernel), g.advance (g.closure kernel) x = successor := by
  simp [successors]

/-- The kernels of the states hold items of the grammar. -/
theorem mem_items_of_successor {kernel successor : List (Item π)}
    (hkernel : ∀ item ∈ kernel, item ∈ g.items) (hsuccessor : successor ∈ g.successors kernel) :
    ∀ item ∈ successor, item ∈ g.items := by
  obtain ⟨x, -, rfl⟩ := mem_successors_iff.mp hsuccessor
  intro item hitem
  obtain ⟨before, hbefore, hnext, rfl⟩ := mem_advance_iff.mp hitem
  have hitem : before ∈ g.items := mem_items_of_closure hkernel (mem_closure_iff.mp hbefore)
  obtain ⟨hdot, -⟩ := List.getElem?_eq_some_iff.mp hnext
  exact mem_items_iff.mpr ⟨(mem_items_iff.mp hitem).1, hdot⟩

/-- Kernels that are known, of which those outside the frontier have been expanded. -/
structure Explored (g : Grammar τ ν π) (known frontier : List (List (Item π))) : Prop where
  distinct : (known.map List.toFinset).Nodup
  within : ∀ kernel ∈ known, ∀ item ∈ kernel, item ∈ g.items
  listed : ∀ kernel ∈ frontier, kernel ∈ known
  expanded : ∀ kernel ∈ known, kernel ∈ frontier ∨ ∀ successor ∈ g.successors kernel,
    ∃ other ∈ known, successor.toFinset = other.toFinset

/-- One round of the exploration. -/
theorem Explored.round {known frontier : List (List (Item π))}
    (hexplored : Explored g known frontier) :
    Explored g (known ++ freshKernels known (frontier.flatMap g.successors))
      (freshKernels known (frontier.flatMap g.successors)) := by
  obtain ⟨hdistinct, hfrom, hfound⟩ :=
    freshKernels_spec known (frontier.flatMap g.successors) hexplored.distinct
  refine ⟨hdistinct, ?_, fun kernel => List.mem_append_right _, ?_⟩
  · intro kernel hkernel
    rcases List.mem_append.mp hkernel with hold | hnew
    · exact hexplored.within kernel hold
    · obtain ⟨before, hbefore, hsuccessor⟩ := List.mem_flatMap.mp (hfrom kernel hnew)
      exact mem_items_of_successor (hexplored.within before (hexplored.listed before hbefore))
        hsuccessor
  · intro kernel hkernel
    rcases List.mem_append.mp hkernel with hold | hnew
    · right
      intro successor hsuccessor
      rcases hexplored.expanded kernel hold with hfrontier | hexpanded
      · exact hfound successor (List.mem_flatMap.mpr ⟨kernel, hfrontier, hsuccessor⟩)
      · obtain ⟨other, hother, hsame⟩ := hexpanded successor hsuccessor
        exact ⟨other, List.mem_append_left _ hother, hsame⟩
    · exact .inl hnew

/-- With rounds for all sets of items, every state is found. -/
theorem Explored.explore {rounds : Nat} {known frontier : List (List (Item π))}
    (hexplored : Explored g known frontier) (hrounds : 2 ^ g.size < known.length + rounds) :
    Explored g (g.explore rounds known frontier) [] := by
  induction rounds generalizing known frontier with
  | zero =>
      have hfew := length_le_of_nodup hexplored.distinct hexplored.within
      omega
  | succ rounds ih =>
      have hround := hexplored.round
      rw [Grammar.explore]
      split
      · rename_i hnone
        have hnone := List.isEmpty_iff.mp hnone
        rw [hnone, List.append_nil] at hround
        exact hround
      · rename_i hsome
        apply ih hround
        have hpos := List.length_pos_iff.mpr (mt List.isEmpty_iff.mpr hsome)
        rw [List.length_append]
        omega

theorem explored_kernels (g : Grammar τ ν π) : Explored g g.kernels [] := by
  have hstart : Explored g [g.startKernel] [g.startKernel] := by
    refine ⟨List.nodup_singleton _, ?_, fun _ => id, fun _ => .inl⟩
    intro kernel hkernel item hitem
    obtain rfl := List.mem_singleton.mp hkernel
    obtain ⟨p, hp, -, rfl⟩ := mem_beginningItems_iff.mp hitem
    exact mem_items_iff.mpr ⟨hp, Nat.zero_le _⟩
  apply hstart.explore
  rw [List.length_singleton]
  exact Nat.lt_one_add_iff.mpr (Nat.le_refl _)

theorem explore_eq_append (rounds : Nat) (known frontier : List (List (Item π))) :
    ∃ more, g.explore rounds known frontier = known ++ more := by
  induction rounds generalizing known frontier with
  | zero => exact ⟨[], (List.append_nil _).symm⟩
  | succ rounds ih =>
      rw [Grammar.explore]
      split
      · exact ⟨[], (List.append_nil _).symm⟩
      · obtain ⟨more, hmore⟩ := ih (known ++ freshKernels known (frontier.flatMap g.successors))
          (freshKernels known (frontier.flatMap g.successors))
        exact ⟨_, hmore.trans (List.append_assoc _ _ _)⟩

theorem kernels_zero (g : Grammar τ ν π) : g.kernels[0]? = some g.startKernel := by
  obtain ⟨more, hmore⟩ := explore_eq_append (g := g) (Nat.pow 2 g.size) [g.startKernel]
    [g.startKernel]
  rw [kernels, hmore]
  rfl

/-- The number of a successor names a state of its items. -/
theorem exists_kernel_of_successor {kernel successor : List (Item π)} (hkernel : kernel ∈ g.kernels)
    (hsuccessor : successor ∈ g.successors kernel) :
    ∃ other, g.kernels[stateOf g.kernels successor]? = some other ∧
      ∀ item, item ∈ successor ↔ item ∈ other := by
  rcases (explored_kernels g).expanded kernel hkernel with hnone | hexpanded
  · exact absurd hnone List.not_mem_nil
  · obtain ⟨other, hother, hsame⟩ := hexpanded successor hsuccessor
    have hlt : stateOf g.kernels successor < g.kernels.length :=
      List.findIdx_lt_length_of_exists ⟨other, hother, sameItems_iff.mpr hsame⟩
    refine ⟨_, List.getElem?_eq_getElem hlt, fun item => ?_⟩
    have hfound := sameItems_iff.mp (List.findIdx_getElem (w := hlt))
    rw [← List.mem_toFinset, hfound, List.mem_toFinset]
    rfl

/-! ### The table of a grammar -/

def itemsAt (g : Grammar τ ν π) (state : Nat) : List (Item π) :=
  (g.kernels[state]?.map g.closure).getD []

theorem row_table (g : Grammar τ ν π) (state : Nat) :
    g.table.row state = (g.kernels[state]?.map (g.rowOf g.kernels g.follows)).getD {} := by
  simp [Table.row, table]

theorem mem_edges_rowOf_iff {kernels : List (List (Item π))} {follow : List (ν × Option τ)}
    {kernel : List (Item π)} {x : Symbol τ ν} {target : Nat} :
    (x, target) ∈ (g.rowOf kernels follow kernel).edges ↔
      x ∈ g.expectedSymbols (g.closure kernel) ∧
        target = stateOf kernels (g.advance (g.closure kernel) x) := by
  cases x with
  | terminal t =>
      simp only [Row.edges, rowOf, List.filterMap_map, Function.comp_apply, List.mem_append,
        List.mem_map, List.mem_filterMap, Prod.mk.injEq, Symbol.terminal.injEq, Prod.exists,
        exists_eq_right_right, exists_eq_right, reduceCtorEq, false_and, and_false, exists_false,
        or_false]
      constructor
      · rintro ⟨y, hy, hedge⟩
        cases y with
        | terminal u =>
            cases hedge
            exact ⟨hy, rfl⟩
        | rule s => contradiction
      · rintro ⟨ht, rfl⟩
        exact ⟨_, ht, rfl⟩
  | rule r =>
      simp only [Row.edges, rowOf, List.filterMap_map, Function.comp_apply, List.mem_append,
        List.mem_map, List.mem_filterMap, Prod.mk.injEq, reduceCtorEq, false_and, and_false,
        exists_false, Symbol.rule.injEq, Prod.exists, exists_eq_right_right, exists_eq_right,
        false_or]
      constructor
      · rintro ⟨y, hy, hedge⟩
        cases y with
        | terminal u => contradiction
        | rule s =>
            cases hedge
            exact ⟨hy, rfl⟩
      · rintro ⟨hr, rfl⟩
        exact ⟨_, hr, rfl⟩

theorem completes_rowOf_iff {kernels : List (List (Item π))} {follow : List (ν × Option τ)}
    {kernel : List (Item π)} {p : π} :
    (∃ entry ∈ (g.rowOf kernels follow kernel).reductions, entry.1 = p) ↔
      ⟨p, (g.rhs p).length⟩ ∈ g.closure kernel := by
  simp only [rowOf, completed, List.mem_map, List.mem_filter, decide_eq_true_eq]
  constructor
  · rintro ⟨_, ⟨_, ⟨item, ⟨hitem, hdot⟩, rfl⟩, rfl⟩, rfl⟩
    rw [hdot]
    exact hitem
  · intro hitem
    exact ⟨_, ⟨p, ⟨_, ⟨hitem, rfl⟩, rfl⟩, rfl⟩, rfl⟩

end Grammar

/-- The states of a table are sets of items of a grammar.  The first is the closure of the
beginnings of the start rule.  A state is left with the symbols behind its dots, for the closure
of the items that have passed the symbol, and it reduces the productions whose dot is at the
end. -/
structure Table.IsAutomaton {τ ν π : Type} [DecidableEq τ] [DecidableEq ν] (g : Grammar τ ν π)
    (table : Table τ ν π) (items : Nat → List (Item π)) : Prop where
  start : ∀ item, item ∈ items 0 ↔ g.Closure g.startKernel item
  known : ∀ state, ∀ item ∈ items state, item ∈ g.items
  moves : ∀ state x, (∃ target, (x, target) ∈ (table.row state).edges) ↔
    ∃ item ∈ items state, g.next? item = some x
  enters : ∀ state x target, (x, target) ∈ (table.row state).edges →
    ∀ item, item ∈ items target ↔ g.Closure (g.advance (items state) x) item
  completes : ∀ state p, table.Completes state p ↔ ⟨p, (g.rhs p).length⟩ ∈ items state

/-- The table of a grammar is an automaton of its items. -/
theorem Grammar.isAutomaton_table {τ ν π : Type} [DecidableEq τ] [DecidableEq ν] [DecidableEq π]
    (g : Grammar τ ν π) : g.table.IsAutomaton g g.itemsAt where
  start item := by simp [Grammar.itemsAt, Grammar.kernels_zero, Grammar.mem_closure_iff]
  known state item hitem := by
    cases hkernel : g.kernels[state]? with
    | none => simp [Grammar.itemsAt, hkernel] at hitem
    | some kernel =>
        rw [Grammar.itemsAt, hkernel] at hitem
        exact Grammar.mem_items_of_closure
          ((Grammar.explored_kernels g).within kernel (List.mem_of_getElem? hkernel))
          (Grammar.mem_closure_iff.mp hitem)
  moves state x := by
    rw [Grammar.row_table, Grammar.itemsAt]
    cases hkernel : g.kernels[state]? with
    | none => simp [Row.edges]
    | some kernel =>
        simp [Grammar.mem_edges_rowOf_iff, Grammar.mem_expectedSymbols_iff]
  enters state x target hedge item := by
    rw [Grammar.row_table] at hedge
    cases hkernel : g.kernels[state]? with
    | none => simp [hkernel, Row.edges] at hedge
    | some kernel =>
        rw [hkernel] at hedge
        obtain ⟨hx, rfl⟩ := Grammar.mem_edges_rowOf_iff.mp hedge
        obtain ⟨other, hother, hsame⟩ := Grammar.exists_kernel_of_successor
          (List.mem_of_getElem? hkernel) (Grammar.mem_successors_iff.mpr ⟨x, hx, rfl⟩)
        simp only [Grammar.itemsAt, hkernel, hother, Option.map_some, Option.getD_some,
          Grammar.mem_closure_iff]
        exact ⟨.of_same fun item => (hsame item).symm, .of_same hsame⟩
  completes state p := by
    rw [Table.Completes, Grammar.row_table, Grammar.itemsAt]
    cases hkernel : g.kernels[state]? with
    | none => simp
    | some kernel => exact Grammar.completes_rowOf_iff

end Blockscript.Lr
