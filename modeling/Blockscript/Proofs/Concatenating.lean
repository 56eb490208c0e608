import Blockscript.Proofs.Compiling
import Blockscript.Proofs.Script.Joining

/-!
Compiling scripts one below the other.  A routine is lowered by itself, and to
blocks that do not tell where it stands, so the blocks of two scripts together are
those of the one and then those of the other.
-/

namespace Blockscript

open Script (Routine)

namespace Compiler

variable (compiler : Compiler)

/-- What lowering a routine comes to, whatever is logged. -/
def lowering (routine : Routine) : Except Fault CompiledRoutine := do
  let blocks ← lowerRoutine compiler.settings compiler.render routine
  return { kind := routine.kind, name := routine.name, blocks }

theorem outcome_lower (routine : Routine) (records : List LogRecord) :
    (compiler.lower routine).outcome records = compiler.lowering routine := by
  unfold lower lowering
  cases lowerRoutine compiler.settings compiler.render routine <;> rfl

theorem outcome_lowerAll (routines : List Routine) (records : List LogRecord) :
    (compiler.lowerAll routines).outcome records = routines.mapM compiler.lowering := by
  induction routines generalizing records with
  | nil => rfl
  | cons routine routines ih =>
      simp only [lowerAll, Logging.outcome_bind, outcome_lower, ih, List.mapM_cons]
      rfl

/-- A program is made of the routines that were read, each lowered. -/
theorem outcome_compile {source : String} {routines : List Routine}
    (hread : Script.read source = .ok routines) (records : List LogRecord) :
    (compiler.compile source).outcome records = (do
      let compiled ← routines.mapM compiler.lowering
      return { routines := compiled, settings := some compiler.settings }) := by
  have hroutines : Compiler.read source = pure routines := by
    rw [Compiler.read, hread]
  rw [compile, hroutines, pure_bind, Logging.outcome_bind, outcome_lowerAll]
  rfl

theorem outcome_compile_error {source : String} {error : Script.SyntaxError}
    (hread : Script.read source = .error error) (records : List LogRecord) :
    (compiler.compile source).outcome records = .error (.unreadable error) := by
  rw [compile, Compiler.read, hread]
  rfl

/-- A program was read and lowered. -/
theorem exists_of_compile {source : String} {records : List LogRecord} {program : Program}
    (hcompile : (compiler.compile source).outcome records = .ok program) :
    ∃ routines, Script.read source = .ok routines ∧
      routines.mapM compiler.lowering = .ok program.routines ∧
      program.settings = some compiler.settings := by
  cases hread : Script.read source with
  | error error =>
      rw [outcome_compile_error compiler hread] at hcompile
      contradiction
  | ok routines =>
      rw [outcome_compile compiler hread] at hcompile
      refine ⟨routines, rfl, ?_⟩
      cases hall : routines.mapM compiler.lowering with
      | error fault =>
          rw [hall] at hcompile
          contradiction
      | ok compiled =>
          rw [hall] at hcompile
          cases hcompile
          exact ⟨rfl, rfl⟩

/-- Lowering does not heed the lines before a routine. -/
theorem mapM_lowering_lowered (lines : Nat) (routines : List Routine) :
    (routines.map (Routine.lowered lines)).mapM compiler.lowering =
      routines.mapM compiler.lowering := by
  induction routines with
  | nil => rfl
  | cons routine routines ih =>
      rw [List.map_cons, List.mapM_cons, List.mapM_cons, ih]
      rfl

end Compiler

/-- Compiling is compositional.  Below a script that can be read, another one can be
read exactly when it can be read alone.  Its routines come behind those of the first,
with their lines further down, and its blocks behind the blocks of the first.  If it
cannot be read it is reported as it is alone, further down. -/
theorem read_below {first : String} {routines : List Routine}
    (hfirst : Script.read first = .ok routines) (second : String) :
    ((∃ all, Script.read (first ++ "\n" ++ second) = .ok all) ↔
      ∃ more, Script.read second = .ok more) ∧
    (∀ more, Script.read second = .ok more →
      Script.read (first ++ "\n" ++ second) =
        .ok (routines ++ more.map (Routine.lowered (first.toList.count '\n' + 1)))) ∧
    (∀ (compiler : Compiler) records program more,
      (compiler.compile first).outcome records = .ok program →
      (compiler.compile second).outcome records = .ok more →
      ∃ all, (compiler.compile (first ++ "\n" ++ second)).outcome records = .ok all ∧
        all.routines = program.routines ++ more.routines) ∧
    ∀ error, Script.read second = .error error →
      ∃ other, Script.read (first ++ "\n" ++ second) = .error other ∧
        other.token = error.token ∧ other.column = error.column ∧
        other.line = error.line + (first.toList.count '\n' + 1 : Nat) ∧
        (¬ error.AtFirstToken second → other.expected = error.expected) := by
  have hjoined : ∀ more, Script.read second = .ok more →
      Script.read (first ++ "\n" ++ second) =
        .ok (routines ++ more.map (Routine.lowered (first.toList.count '\n' + 1))) := by
    intro more hsecond
    rw [Script.read_eq_ok_iff] at hfirst hsecond ⊢
    exact Script.parse_join hfirst hsecond
  refine ⟨⟨?_, ?_⟩, hjoined, ?_, ?_⟩
  · rintro ⟨all, hall⟩
    cases hsecond : Script.read second with
    | ok more => exact ⟨more, rfl⟩
    | error error =>
        obtain ⟨other, hother, -⟩ := Script.read_join_error hfirst hsecond
        rw [hall] at hother
        contradiction
  · rintro ⟨more, hsecond⟩
    exact ⟨_, hjoined more hsecond⟩
  · intro compiler records program more hprogram hmore
    obtain ⟨parsed, hparsed, hblocks, -⟩ := compiler.exists_of_compile hprogram
    obtain ⟨rest, hsecond, hrest, -⟩ := compiler.exists_of_compile hmore
    obtain rfl : parsed = routines := Except.ok.inj (hparsed.symm.trans hfirst)
    refine ⟨{ routines := program.routines ++ more.routines, settings := some compiler.settings },
      ?_, rfl⟩
    rw [compiler.outcome_compile (hjoined rest hsecond), List.mapM_append, hblocks,
      compiler.mapM_lowering_lowered, hrest]
    rfl
  · intro error hsecond
    obtain ⟨other, hother, hlowered, hexpected⟩ := Script.read_join_error hfirst hsecond
    exact ⟨other, hother, hlowered.token, hlowered.column, hlowered.line, hexpected⟩

/-- The greeting below itself, and a function below it that is not closed. -/
theorem read_below_greeting :
    Script.read ("// hello\nevent player.join \x7bcall loc();\x7d" ++ "\n" ++
        "// hello\nevent player.join \x7bcall loc();\x7d") =
      .ok [Script.greetingRoutine, ⟨.event, "join", [.call "loc" false], 4, 14⟩] ∧
    ∃ error, Script.read ("// hello\nevent player.join \x7bcall loc();\x7d" ++ "\n" ++
        "func f() \x7b // \x7d") = .error error ∧
      (error.token, error.line, error.column) = (some "<end of input>", 3, .known 10) := by
  have hgreeting : Script.read "// hello\nevent player.join \x7bcall loc();\x7d" =
      .ok [Script.greetingRoutine] := by
    rw [Script.read_eq_ok_iff, ← Script.written_greeting]
    exact Script.parse_eq_ok_iff_spells.mpr ⟨Script.greeting, [], String.toList_ofList,
      Script.spaced_greeting, by decide, Script.spells_greeting⟩
  obtain ⟨last, stack, hparse, -⟩ := Script.parse_brokenOff
  have hbroken : Script.read "func f() \x7b // \x7d" = .error (Script.Failure.report
      ⟨.endOfInput, last, Script.lookaheads stack, stack⟩ "func f() \x7b // \x7d") := by
    rw [Script.read, hparse]
    rfl
  obtain ⟨hline, hcolumn, htoken, -⟩ := Script.Failure.report_eq
    ⟨.endOfInput, last, Script.lookaheads stack, stack⟩ "func f() \x7b // \x7d"
  refine ⟨(read_below hgreeting _).2.1 _ hgreeting, ?_⟩
  obtain ⟨other, hother, hsame, hat, hbelow, -⟩ := (read_below hgreeting _).2.2.2 _ hbroken
  refine ⟨other, hother, ?_⟩
  rw [hsame, hat, hbelow, htoken, hline, hcolumn]
  rfl

end Blockscript
