import Blockscript.Proofs.Lr.Progress
import Mathlib.Data.List.AList
import Mathlib.Data.Multiset.DershowitzManna
import Mathlib.Order.Bounds.Basic

/-!
The unfinished rules by a worklist.  The walk of `Table.unfinished` goes through a table in
layers.  `Table.search` takes one state at a time off a frontier, with the depth that it was
reached at, and looks into no such pair twice.  Both note the same rules with the same
number of symbols.
-/

namespace Blockscript.Lr

variable {τ ν π : Type} [DecidableEq ν]

theorem nodup_addNew {α : Type} [DecidableEq α] {known : List α} (h : known.Nodup)
    (new : List α) : (addNew known new).Nodup := by
  induction new generalizing known with
  | nil => exact h
  | cons x new ih =>
      rw [addNew]
      split
      · exact ih h
      · rename_i hnew
        exact ih (List.concat_eq_append ▸ List.Nodup.concat hnew h)

/-! ### Noting the most symbols read -/

/-- Notes an entry, unless more has been noted for its rule. -/
def note (noted : AList fun _ : ν => Nat) (entry : ν × Nat) : AList fun _ : ν => Nat :=
  noted.insert entry.1 (max ((noted.lookup entry.1).getD 0) entry.2)

/-- What is noted for a rule is the greatest of its entries. -/
structure Notes (noted : AList fun _ : ν => Nat) (entries : Set (ν × Nat)) : Prop where
  isGreatest : ∀ r k, noted.lookup r = some k → IsGreatest {k | (r, k) ∈ entries} k
  exists_lookup : ∀ r k, (r, k) ∈ entries → ∃ most, noted.lookup r = some most

namespace Notes

variable {noted : AList fun _ : ν => Nat} {entries : Set (ν × Nat)}

theorem empty : Notes (∅ : AList fun _ : ν => Nat) ∅ where
  isGreatest r k h := by simp at h
  exists_lookup _ _ h := h.elim

theorem lookup_eq_some_iff (h : Notes noted entries) {r : ν} {k : Nat} :
    noted.lookup r = some k ↔ IsGreatest {k | (r, k) ∈ entries} k := by
  refine ⟨h.isGreatest r k, fun hgreatest => ?_⟩
  obtain ⟨most, hmost⟩ := h.exists_lookup r k hgreatest.1
  rw [hmost, (h.isGreatest r most hmost).unique hgreatest]

theorem note (h : Notes noted entries) (entry : ν × Nat) :
    Notes (Lr.note noted entry) (insert entry entries) := by
  obtain ⟨s, j⟩ := entry
  have hother : ∀ r, r ≠ s → {k | (r, k) ∈ insert (s, j) entries} = {k | (r, k) ∈ entries} := by
    intro r hr
    ext k
    simp [hr]
  have hsame : {k | (s, k) ∈ insert (s, j) entries} = insert j {k | (s, k) ∈ entries} := by
    ext k
    simp
  refine ⟨fun r k hlookup => ?_, fun r k hmem => ?_⟩
  · by_cases hr : r = s
    · subst hr
      rw [Lr.note, AList.lookup_insert, Option.some.injEq] at hlookup
      rw [hsame, ← hlookup, max_comm]
      cases hbefore : noted.lookup r with
      | some most => exact (h.isGreatest r most hbefore).insert j
      | none =>
          -- Nothing has been noted for the rule, so the entry is its first.
          have hnone : {k | (r, k) ∈ entries} = ∅ := by
            refine Set.eq_empty_iff_forall_notMem.mpr fun k hk => ?_
            obtain ⟨most, hmost⟩ := h.exists_lookup r k hk
            rw [hbefore] at hmost
            contradiction
          simp [hnone, isGreatest_singleton]
    · rw [Lr.note, AList.lookup_insert_ne hr] at hlookup
      rw [hother r hr]
      exact h.isGreatest r k hlookup
  · by_cases hr : r = s
    · subst hr
      exact ⟨_, AList.lookup_insert _⟩
    · rw [Lr.note, AList.lookup_insert_ne hr]
      have hbefore : k ∈ {k | (r, k) ∈ entries} := hother r hr ▸ hmem
      exact h.exists_lookup r k hbefore

theorem foldl_note (h : Notes noted entries) (more : List (ν × Nat)) :
    Notes (more.foldl Lr.note noted) ({entry | entry ∈ more} ∪ entries) := by
  induction more generalizing noted entries with
  | nil => simpa using h
  | cons entry more ih =>
      have hsets : {e | e ∈ entry :: more} ∪ entries = {e | e ∈ more} ∪ insert entry entries := by
        ext e
        simp only [List.mem_cons, Set.mem_union, Set.mem_ofPred_eq, Set.mem_insert_iff]
        tauto
      rw [hsets]
      exact ih (h.note entry)

end Notes

/-! ### The search -/

namespace Table

variable (g : Grammar τ ν π) (table : Table τ ν π)

/-- How far the pairs of a frontier may still go. -/
def heights (frontier : List (Nat × Nat)) : Multiset Nat :=
  Multiset.ofList (frontier.map fun pair => g.longest - pair.2)

omit [DecidableEq ν] in
/-- Pairs further on in the place of the first leave less to do. -/
theorem heights_append_lt {depth : Nat} (state : Nat) {next : List (Nat × Nat)}
    (rest : List (Nat × Nat)) (h : ∀ pair ∈ next, depth < pair.2 ∧ depth < g.longest) :
    (heights g (next ++ rest)).IsDershowitzMannaLT (heights g ((state, depth) :: rest)) := by
  refine ⟨heights g rest, heights g next, {g.longest - depth}, by simp, ?_, ?_, ?_⟩
  · rw [heights, List.map_append, ← Multiset.coe_add, add_comm]
    rfl
  · rw [heights, List.map_cons, ← Multiset.cons_coe, ← Multiset.singleton_add, add_comm]
    rfl
  · intro height hheight
    obtain ⟨pair, hpair, rfl⟩ := List.mem_map.mp (Multiset.mem_coe.mp hheight)
    obtain ⟨hdeeper, hshort⟩ := h pair hpair
    exact ⟨g.longest - depth, Multiset.mem_singleton_self _, by omega⟩

/-- Takes the states of a frontier with their depths, notes what each completes of
productions begun before the search, and goes on with the states beyond it.  Pairs that
have been seen and those as deep as the longest production are passed over. -/
def search (frontier seen : List (Nat × Nat)) (noted : AList fun _ : ν => Nat) :
    AList fun _ : ν => Nat :=
  match frontier with
  | [] => noted
  | (state, depth) :: rest =>
      if (state, depth) ∈ seen ∨ g.longest ≤ depth then search rest seen noted
      else
        search ((table.row state).targets.map (fun target => (target, depth + 1)) ++ rest)
          ((state, depth) :: seen) ((overhang g table depth [state]).foldl note noted)
termination_by heights g frontier
decreasing_by
  · exact heights_append_lt g state rest (List.forall_mem_nil _)
  · rename_i hnew
    refine heights_append_lt g state rest fun pair hpair => ?_
    obtain ⟨target, -, rfl⟩ := List.mem_map.mp hpair
    exact ⟨Nat.lt_succ_self depth, Nat.lt_of_not_le fun hdeep => hnew (.inr hdeep)⟩

variable {g table}

omit [DecidableEq ν] in
theorem Path.concat {first length last target : Nat} (h : table.Path first length last)
    (hedge : target ∈ (table.row last).targets) : table.Path first (length + 1) target := by
  induction h with
  | here => exact .next hedge .here
  | next hfirst _ ih => exact .next hfirst (ih hedge)

/-- What a search from a state has done when it has seen some pairs and holds others in its
frontier.  All of them lie on paths of their depth; what lies beyond a seen pair is seen or
in the frontier, unless it is too deep; and what the seen pairs complete is noted. -/
structure Searched (g : Grammar τ ν π) (table : Table τ ν π) (first : Nat)
    (frontier seen : List (Nat × Nat)) (noted : AList fun _ : ν => Nat) : Prop where
  path : ∀ pair ∈ frontier ++ seen, table.Path first pair.2 pair.1
  shallow : ∀ pair ∈ seen, pair.2 < g.longest
  begins : (first, 0) ∈ frontier ++ seen ∨ g.longest = 0
  closed : ∀ pair ∈ seen, ∀ target ∈ (table.row pair.1).targets, pair.2 + 1 < g.longest →
    (target, pair.2 + 1) ∈ frontier ++ seen
  notes : Notes noted {entry | ∃ pair ∈ seen, entry ∈ overhang g table pair.2 [pair.1]}

theorem searched_nil (first : Nat) : Searched g table first [(first, 0)] [] ∅ where
  path := by simp [Path.here]
  shallow := List.forall_mem_nil _
  begins := .inl List.mem_cons_self
  closed := List.forall_mem_nil _
  notes := by simpa using Notes.empty

namespace Searched

variable {first state depth : Nat} {rest seen : List (Nat × Nat)}
  {noted : AList fun _ : ν => Nat}

theorem skip (h : Searched g table first ((state, depth) :: rest) seen noted)
    (hskip : (state, depth) ∈ seen ∨ g.longest ≤ depth) :
    Searched g table first rest seen noted := by
  have hkept : ∀ pair ∈ (state, depth) :: rest ++ seen, pair.2 < g.longest →
      pair ∈ rest ++ seen := by
    intro pair hpair hshallow
    rcases List.mem_cons.mp hpair with rfl | hpair
    · exact List.mem_append_right rest (hskip.resolve_right (Nat.not_le_of_lt hshallow))
    · exact hpair
  refine ⟨fun pair hpair => h.path pair (List.mem_cons_of_mem _ hpair), h.shallow, ?_, ?_, h.notes⟩
  · rcases Nat.eq_zero_or_pos g.longest with hzero | hpos
    · exact .inr hzero
    · exact .inl (hkept _ (h.begins.resolve_right hpos.ne') hpos)
  · intro pair hpair target htarget hshallow
    exact hkept _ (h.closed pair hpair target htarget hshallow) hshallow

theorem look (h : Searched g table first ((state, depth) :: rest) seen noted)
    (hnew : ¬ ((state, depth) ∈ seen ∨ g.longest ≤ depth)) :
    Searched g table first
      ((table.row state).targets.map (fun target => (target, depth + 1)) ++ rest)
      ((state, depth) :: seen) ((overhang g table depth [state]).foldl note noted) := by
  have hpath : table.Path first depth state := h.path _ List.mem_cons_self
  have hkept : ∀ pair ∈ (state, depth) :: rest ++ seen,
      pair ∈ (table.row state).targets.map (fun target => (target, depth + 1)) ++ rest ++
        (state, depth) :: seen := by
    intro pair hpair
    simp only [List.cons_append, List.mem_cons, List.mem_append] at hpair ⊢
    tauto
  refine ⟨?_, ?_, h.begins.imp_left (hkept _), ?_, ?_⟩
  · intro pair hpair
    simp only [List.mem_append, List.mem_map, List.mem_cons] at hpair
    rcases hpair with (⟨target, htarget, rfl⟩ | hpair) | rfl | hpair
    · exact hpath.concat htarget
    · exact h.path pair (List.mem_cons_of_mem _ (List.mem_append_left seen hpair))
    · exact hpath
    · exact h.path pair (List.mem_append_right _ hpair)
  · refine List.forall_mem_cons.mpr ⟨?_, h.shallow⟩
    exact Nat.lt_of_not_le fun hdeep => hnew (.inr hdeep)
  · refine List.forall_mem_cons.mpr ⟨?_, ?_⟩
    · intro target htarget _
      exact List.mem_append_left _ (List.mem_append_left _ (List.mem_map_of_mem htarget))
    · intro pair hpair target htarget hshallow
      exact hkept _ (h.closed pair hpair target htarget hshallow)
  · have hnotes := h.notes.foldl_note (overhang g table depth [state])
    have hentries : {entry | ∃ pair ∈ (state, depth) :: seen,
          entry ∈ overhang g table pair.2 [pair.1]} =
        {entry | entry ∈ overhang g table depth [state]} ∪
          {entry | ∃ pair ∈ seen, entry ∈ overhang g table pair.2 [pair.1]} := by
      ext entry
      simp
    rwa [hentries]

/-- A search with nothing left in its frontier has seen the end of every path that is
shorter than the longest production. -/
theorem mem_seen_iff (h : Searched g table first [] seen noted) {last length : Nat} :
    (last, length) ∈ seen ↔ table.Path first length last ∧ length < g.longest := by
  refine ⟨fun hmem => ⟨h.path _ hmem, h.shallow _ hmem⟩, fun ⟨hpath, hshort⟩ => ?_⟩
  -- From a seen pair a path leads to seen pairs only.
  have hseen : ∀ {state length last depth : Nat}, table.Path state length last →
      (state, depth) ∈ seen → depth + length < g.longest → (last, depth + length) ∈ seen := by
    intro state length last depth hpath
    induction hpath generalizing depth with
    | here => exact fun hmem _ => hmem
    | @next state middle length last hedge _ ih =>
        intro hmem hshort
        have hmiddle := h.closed _ hmem middle hedge (by simp only; omega)
        have hlast := ih hmiddle (by simp only; omega)
        rwa [show depth + (length + 1) = depth + 1 + length by omega]
  have hfirst := h.begins.resolve_right (Nat.ne_of_gt (Nat.zero_lt_of_lt hshort))
  simpa using hseen hpath hfirst (by omega)

/-- What it has noted is what the walk finds. -/
theorem lookup_eq_some_iff (h : Searched g table first [] seen noted) {r : ν} {k : Nat} :
    noted.lookup r = some k ↔ (r, k) ∈ unfinished g table first := by
  have hentries : {entry | ∃ pair ∈ seen, entry ∈ overhang g table pair.2 [pair.1]} =
      {entry | entry ∈ walk g table g.longest 0 [first]} := by
    ext entry
    simp only [Set.mem_ofPred_eq, Prod.exists, h.mem_seen_iff, mem_overhang_iff, mem_walk_iff,
      List.mem_singleton, exists_eq_left, Nat.zero_add]
    constructor
    · rintro ⟨last, length, ⟨hpath, hshort⟩, p, hp, hentry⟩
      exact ⟨length, last, p, hshort, hpath, hp, hentry⟩
    · rintro ⟨length, last, p, hshort, hpath, hp, hentry⟩
      exact ⟨last, length, ⟨hpath, hshort⟩, p, hp, hentry⟩
  rw [h.notes.lookup_eq_some_iff, hentries, mem_unfinished_iff_isGreatest]
  rfl

/-- From whatever it has done the search goes on to note the unfinished rules. -/
theorem lookup_search {frontier : List (Nat × Nat)}
    (h : Searched g table first frontier seen noted) {r : ν} {k : Nat} :
    (search g table frontier seen noted).lookup r = some k ↔ (r, k) ∈ unfinished g table first := by
  fun_induction search g table frontier seen noted with
  | case1 seen noted => exact h.lookup_eq_some_iff
  | case2 seen noted state depth rest hskip ih => exact ih (h.skip hskip)
  | case3 seen noted state depth rest hnew ih => exact ih (h.look hnew)

end Searched

theorem nodup_unfinished (state : Nat) : (unfinished g table state).Nodup := by
  refine List.Nodup.map ?_ (nodup_addNew List.nodup_nil _)
  exact fun r s h => congrArg Prod.fst h

/-- The search from a state and the walk from it give the same entries. -/
theorem search_perm_unfinished (state : Nat) :
    ((search g table [(state, 0)] [] ∅).entries.map fun entry => (entry.1, entry.2)).Perm
      (unfinished g table state) := by
  refine (List.perm_ext_iff_of_nodup ?_ (nodup_unfinished state)).mpr fun entry => ?_
  · refine List.Nodup.map ?_ (search g table [(state, 0)] [] ∅).nodupKeys.nodup
    rintro ⟨r, k⟩ ⟨s, j⟩ h
    simpa using h
  · obtain ⟨r, k⟩ := entry
    rw [← (searched_nil state).lookup_search, ← Option.mem_def, AList.mem_lookup_iff]
    simp

end Table

end Blockscript.Lr
