import Blockscript.Proofs.Lr.Rejection
import Blockscript.Proofs.Script.Failing

/-!
What a failed parse expected.  The report takes it from the state in which the
machine stopped, before or after the reductions made on the token that was met.
No token that could have followed is missing from it.
-/

namespace Blockscript.Script

/-! ### States that reduce -/

theorem steady_rows : ∀ row ∈ rows, ∀ entry ∈ row.reductions, entry.1.lhs ≠ .program →
    row.shifts = [] ∧ row.reductions = [entry] := by
  decide +kernel

theorem steady : Lr.Steady grammar table where
  alone state lookahead p hreduce hlhs := by
    obtain ⟨entry, hentry, rfl, -⟩ := Lr.Row.exists_of_reduction? hreduce
    rcases row_mem_or state with hmem | hempty
    · obtain ⟨hshifts, honly⟩ := steady_rows _ hmem entry hentry hlhs
      refine ⟨hshifts, fun other q hother => ?_⟩
      obtain ⟨found, hfound, rfl, -⟩ := Lr.Row.exists_of_reduction? hother
      rw [honly, List.mem_singleton] at hfound
      rw [hfound]
    · rw [hempty] at hentry
      contradiction
  final := goto?_program

/-! ### Nothing that can follow is missing -/

/-- A terminal is among the expected ones.  The words of locations and vectors are
read as names where names are expected too. -/
def Failure.Expects (failure : Failure) (t : Terminal) : Prop :=
  some t ∈ failure.expected ∨ t ∈ [.loc, .vec] ∧ some .ident ∈ failure.expected

/-- What is admitted is tried, up to words that are read as names. -/
theorem Orderly.mem_tried {admitted : List Terminal} (horderly : Orderly admitted) {t : Terminal}
    (ht : t ∈ admitted) :
    t ∈ tried admitted ∨ t ∈ [.loc, .vec] ∧ .ident ∈ tried admitted := by
  have hread := readAs_mem_tried ht
  unfold readAs at hread
  split at hread
  · rename_i hsoft
    exact .inr ⟨horderly.2 hsoft.2 t ht hsoft.1, hread⟩
  · exact .inl hread

/-- A round that refuses expects what the machine would have shifted. -/
theorem Stage.Refuses.expects {stage : Stage} {failure : Failure}
    (hrefuses : stage.Refuses failure) {token : Token} {next : Stack}
    (hfeeds : Lr.Stack.Feeds table stage.stack (some token) (.shifted next)) :
    failure.Expects token.kind := by
  have htried : ∀ t, t ∈ tried (admitted stage.stack) →
      some t ∈ (tried (admitted stage.stack)).map some := fun t => List.mem_map_of_mem
  have hadmitted := (orderly_admitted stage.stack).mem_tried (mem_admitted_of_feeds hfeeds)
  cases hrefuses with
  | atEnd hread hrejects => exact .inl (hrejects.mem_lookaheads_of_rejected steady hfeeds)
  | rejected hread hrejects => exact .inl (hrejects.mem_lookaheads_of_rejected steady hfeeds)
  | unexpected hread => exact hadmitted.imp (htried _) (And.imp_right (htried _))
  | unreadable hread => exact hadmitted.imp (htried _) (And.imp_right (htried _))

/-- The names of what a failure expected are reported. -/
theorem Failure.name_mem_report {failure : Failure} {t : Terminal}
    (ht : some t ∈ failure.expected) (source : String) :
    t.name ∈ (failure.report source).expected := by
  obtain ⟨-, -, -, hexpected⟩ := failure.report_eq source
  rw [hexpected, Problem.sortedExpected, List.mem_mergeSort]
  exact List.mem_map.mpr ⟨some t, ht, rfl⟩

/-- A script that cannot be read has been read up to some token, and every piece
that can follow there is of a kind that is reported as expected; the words of
locations and vectors may be reported as names. -/
theorem name_mem_expected_of_follows {source : String} {error : SyntaxError}
    (hread : Script.read source = .error error) :
    (∃ pieces failure, StopsBehind source pieces failure) ∧
      ∀ pieces failure, StopsBehind source pieces failure → ∀ piece, Follows pieces piece →
        piece.kind.name ∈ error.expected ∨
          piece.kind ∈ [.loc, .vec] ∧ Terminal.ident.name ∈ error.expected := by
  obtain ⟨failure, hparse, rfl⟩ := exists_failure_of_read hread
  refine ⟨⟨_, failure, (exists_stopsBehind_of_parse hparse).choose_spec⟩, ?_⟩
  intro pieces other hstops piece hfollows
  obtain rfl : failure = other := Except.error.inj (hparse.symm.trans hstops.parse_eq)
  obtain ⟨stage, hshifts, hrefuses⟩ := hstops.exists_refuses
  obtain ⟨next, hfeeds⟩ := (hfollows.feeds hshifts).2.2 ⟨piece.kind, piece.text, {}⟩ rfl
  rcases hrefuses.expects hfeeds with hkind | ⟨hword, hident⟩
  · exact .inl (failure.name_mem_report hkind source)
  · exact .inr ⟨hword, failure.name_mem_report hident source⟩

theorem name_mem_expected_of_follows_firstAction :
    ∃ error failure, Script.read unseparated = .error error ∧
      StopsBehind unseparated firstAction failure ∧ Follows firstAction (.sample .semicolon) ∧
      "SEMICOLON" ∈ error.expected := by
  obtain ⟨failure, hstops, -⟩ := stopsBehind_firstAction
  have hread : Script.read unseparated = .error (failure.report unseparated) := by
    rw [Script.read, hstops.parse_eq]
    rfl
  have hfollows : Follows firstAction (.sample .semicolon) := by
    obtain ⟨stack, hshifts, -⟩ := exists_shifts_of_states (firstAction ++ [.sample .semicolon])
      [45, 24, 20, 16, 13, 10, 6, 0] (by decide +kernel)
    have hcut : Cut (firstAction ++ [.sample .semicolon]) [] :=
      (cut_firstAction _).append (.cons (.blank rfl .nil) rfl (by simp [written]) .nil)
    obtain ⟨more, routines, hparsed⟩ := hcut.exists_parsed (by decide) hshifts
    rw [List.append_assoc, List.singleton_append] at hparsed
    exact ⟨firstAction, more, [], routines, hparsed, rfl⟩
  refine ⟨_, failure, hread, hstops, hfollows, ?_⟩
  have hcovered := (name_mem_expected_of_follows hread).2 firstAction failure hstops _ hfollows
  exact hcovered.resolve_right fun hword => absurd hword.1 (by decide)

end Blockscript.Script
