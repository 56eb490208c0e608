import Blockscript.Program
import Blockscript.Proofs.Block.Slots
import Blockscript.Proofs.Script.Correctness

/-!
What compiling a script comes to, with the standard rendering of values: a syntax
error, an overfull chest, or a program.
-/

namespace Blockscript

open Script (Routine)

/-- What a computation that logs comes to, from the given records on. -/
def Logging.outcome {α : Type} (x : Logging α) (records : List LogRecord) : Except Fault α :=
  (x.run.run records).1

theorem Logging.outcome_bind {α β : Type} (x : Logging α) (f : α → Logging β)
    (records : List LogRecord) :
    (x >>= f).outcome records =
      (x.outcome records >>= fun a => (f a).outcome (x.run.run records).2) := by
  simp only [Logging.outcome, ExceptT.run_bind, StateT.run_bind]
  cases x.run.run records with
  | mk result rest =>
      cases result <;> rfl

/-- A computation that logs settles as its outcome does, whatever was logged
before. -/
def LogsSettled {α : Type} (overfull : Prop) (P : α → Prop) (x : Logging α) : Prop :=
  ∀ records, Settles overfull P (x.outcome records)

section LogsSettled

variable {α β : Type}

theorem logsSettled_pure {P : α → Prop} {a : α} (ha : P a) :
    LogsSettled False P (pure a : Logging α) :=
  fun _ => settles_ok ha

theorem logsSettled_log (record : LogRecord) :
    LogsSettled False (fun _ => True) (log record) :=
  fun _ => settles_ok trivial

theorem LogsSettled.bind {p q : Prop} {P : α → Prop} {Q : β → Prop} {x : Logging α}
    {f : α → Logging β} (hx : LogsSettled p P x) (hf : ∀ a, P a → LogsSettled q Q (f a)) :
    LogsSettled (p ∨ q) Q (x >>= f) := by
  intro records
  rw [Logging.outcome_bind]
  exact (hx records).bind fun a ha => hf a ha _

theorem LogsSettled.congr {p q : Prop} {P : α → Prop} {x : Logging α}
    (hx : LogsSettled p P x) (hpq : p ↔ q) : LogsSettled q P x :=
  fun records => (hx records).congr hpq

end LogsSettled

/-- A routine and what it is compiled to: its kind, its name, and blocks whose
instructions fill the sites of its body. -/
structure Compiles (settings : Settings) (routine : Routine) (compiled : CompiledRoutine) :
    Prop where
  kind : compiled.kind = routine.kind
  name : compiled.name = routine.name
  lowered : lowerRoutine settings renderValue routine = .ok compiled.blocks
  filled : Fills (Site.ofBody routine.body) compiled.blocks

section Compiler

variable (settings : Settings)

theorem logsSettled_lower {routine : Routine} (hroutine : routine.IsWritable) :
    LogsSettled (BodyOverfull routine.body) (Compiles settings routine)
      (Compiler.lower { settings } routine) := by
  intro records
  rw [Compiler.lower]
  rcases settles_routine settings hroutine with ⟨hfull, herror⟩ | ⟨hfits, blocks, hok, hfills⟩
  · simp only [herror]
    exact .inl ⟨hfull, rfl⟩
  · simp only [hok]
    exact .inr ⟨hfits, _, rfl, rfl, rfl, hok, hfills⟩

theorem logsSettled_lowerAll {routines : List Routine}
    (hroutines : ∀ routine ∈ routines, routine.IsWritable) :
    LogsSettled (∃ routine ∈ routines, BodyOverfull routine.body)
      (List.Forall₂ (Compiles settings) routines)
      (Compiler.lowerAll { settings } routines) := by
  induction routines with
  | nil => exact (logsSettled_pure .nil).congr (by simp)
  | cons routine routines ih =>
      obtain ⟨hroutine, hroutines⟩ := List.forall_mem_cons.mp hroutines
      have hall := (logsSettled_lower settings hroutine).bind fun compiled hcompiled =>
        (ih hroutines).bind fun more hmore => logsSettled_pure (List.Forall₂.cons hcompiled hmore)
      exact hall.congr (by simp)

theorem read_of_parse {source : String} {routines : List Routine}
    (hparse : Script.parse source = .ok routines) :
    Compiler.read source = pure routines := by
  rw [Compiler.read, Script.read, hparse]
  rfl

theorem outcome_of_parse_error {source : String} {failure : Script.Failure}
    (hparse : Script.parse source = .error failure) (records : List LogRecord) :
    (Compiler.compile { settings } source).outcome records =
      .error (.unreadable (failure.report source)) := by
  rw [Compiler.compile, Compiler.read, Script.read, hparse]
  rfl

/-- A script that parses compiles to a program with its routines, unless one of
them is overfull. -/
theorem logsSettled_compile {source : String} {routines : List Routine}
    (hparse : Script.parse source = .ok routines) :
    LogsSettled (∃ routine ∈ routines, BodyOverfull routine.body)
      (fun program => List.Forall₂ (Compiles settings) routines program.routines)
      (Compiler.compile { settings } source) := by
  obtain ⟨pieces, last, -, hspaced, -, hspells⟩ := Script.parse_eq_ok_iff_spells.mp hparse
  have hwritable := hspells.isWritable (hspaced.cut.lexical {})
  rw [Compiler.compile, read_of_parse hparse, pure_bind]
  have hall := (logsSettled_lowerAll settings hwritable).bind fun compiled hcompiled =>
    (logsSettled_log
      { logger := "dfscript.compiler", severity := .debug
        message := "Compiled " ++ toString compiled.length ++ " units" }).bind fun _ _ =>
      logsSettled_pure
        (P := fun program => List.Forall₂ (Compiles settings) routines program.routines)
        (a := ({ routines := compiled, settings := some settings } : Program)) hcompiled
  exact hall.congr (by simp)

/-- What compiling a script with the standard rendering comes to. -/
def compileOutcome (source : String) (records : List LogRecord) : Except Fault Program :=
  (Compiler.compile { settings } source).outcome records

/-- The three ways in which compiling can end. -/
theorem compileOutcome_cases (source : String) (records : List LogRecord) :
    ((∀ routines, Script.parse source ≠ .ok routines) ∧
      ∃ error, compileOutcome settings source records = .error (.unreadable error)) ∨
    ∃ routines, Script.parse source = .ok routines ∧
      Settles (∃ routine ∈ routines, BodyOverfull routine.body)
        (fun program => List.Forall₂ (Compiles settings) routines program.routines)
        (compileOutcome settings source records) := by
  cases hparse : Script.parse source with
  | error failure =>
      exact .inl ⟨nofun, _, outcome_of_parse_error settings hparse records⟩
  | ok routines =>
      exact .inr ⟨routines, rfl, logsSettled_compile settings hparse records⟩

/-- Compiling fails with a syntax error exactly when the script does not parse, with
slot 27 exactly when some arguments do not fit in their chest, and in no other way;
otherwise it gives a program of the routines of the script in order. -/
theorem compile_outcome (source : String) (records : List LogRecord) :
    ((∃ error, compileOutcome settings source records = .error (.unreadable error)) ↔
      ∀ routines, Script.parse source ≠ .ok routines) ∧
    (compileOutcome settings source records = .error (.slotOutside 27) ↔
      ∃ routines, Script.parse source = .ok routines ∧
        ∃ routine ∈ routines, BodyOverfull routine.body) ∧
    ((∃ program, compileOutcome settings source records = .ok program) ↔
      ∃ routines, Script.parse source = .ok routines ∧
        ∀ routine ∈ routines, ¬ BodyOverfull routine.body) ∧
    (∀ fault, compileOutcome settings source records = .error fault →
      (∃ error, fault = .unreadable error) ∨ fault = .slotOutside 27) ∧
    (Fault.slotOutside 27).message = "Item slot 27 is outside the chest (0-26)" ∧
    ∀ routines program, Script.parse source = .ok routines →
      compileOutcome settings source records = .ok program →
      List.Forall₂ (Compiles settings) routines program.routines := by
  have hmessage : (Fault.slotOutside 27).message =
      "Item slot 27 is outside the chest (0-26)" := by decide
  rcases compileOutcome_cases settings source records with
    ⟨hnone, error, herror⟩ | ⟨routines, hparse, ⟨hfull, herror⟩ | ⟨hfits, program, hok, hall⟩⟩
  · simp [herror, hnone, hmessage]
  · simp [herror, hparse, hfull, hmessage]
  · have hnone : ∀ routine ∈ routines, ¬ BodyOverfull routine.body :=
      fun routine hmem hfull => hfits ⟨routine, hmem, hfull⟩
    simp only [hok, hparse, hmessage]
    simpa using ⟨hnone, hall⟩

end Compiler

end Blockscript
