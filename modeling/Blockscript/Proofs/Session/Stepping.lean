import Blockscript.Proofs.Loading
import Blockscript.Session

/-!
What the steps of a session do.  A step changes a file, or it renders something, or it does
neither.  A rendering asks for templates and answers with a text that is made of their
payloads.  A step that does neither works on everything but the store.
-/

namespace Blockscript.Session

def withStore (session : Session) (store : Store) : Session :=
  { session with store }

theorem step_eq {session after : Session} {step : Step} {result : Except Fault Answer}
    {records : List LogRecord}
    (h : (perform step).run.run (session, []) = (result, after, records)) :
    session.step step = ((result, records), after) := by
  have hrun : (perform step).run (session, []) = (result, after, records) := h
  rw [Session.step, hrun]

/-! ### Parts of steps -/

theorem run_program_some {session : Session} {name : String} {found : Program}
    (h : session.programs.lookup name = some found) (records : List LogRecord) :
    (program name).run.run (session, records) = (.ok found, session, records) := by
  change (find name session.programs).run.run (session, records) = _
  rw [find, h]
  rfl

theorem run_program_none {session : Session} {name : String}
    (h : session.programs.lookup name = none) (records : List LogRecord) :
    (program name).run.run (session, records) =
      (.error (.unknownName name), session, records) := by
  change (find name session.programs).run.run (session, records) = _
  rw [find, h]
  rfl

theorem step_compile_ok {session : Session} {name target source : String} {compiler : Compiler}
    {program : Program} (hcompiler : session.compilers.lookup name = some compiler)
    (hcompile : (compiler.compile source).outcome [] = .ok program) :
    (session.step (.compile name target source)).2 =
      { session with programs := put target program session.programs } := by
  have hrun : (perform (.compile name target source)).run.run (session, []) =
      (ofExcept ((compiler.compile source).outcome []) >>= keep target).run.run
        (session, ((compiler.compile source).run.run []).2.filter fun record =>
          session.debug || record.severity == .error) := by
    change (find name session.compilers >>= fun compiler =>
      logged (compiler.compile source) >>= keep target).run.run (session, []) = _
    rw [find, hcompiler]
    rfl
  rw [hcompile] at hrun
  exact congrArg Prod.snd (step_eq hrun)

theorem run_rendered {α : Type} (x : Rendering α) (g : α → Answer) (session : Session)
    (records : List LogRecord) :
    (rendered x >>= fun a => pure (g a)).run.run (session, records) =
      ((x.run.run session.store).1.map g, session.withStore (x.run.run session.store).2,
        records) := by
  change (ofExcept (x.run.run session.store).1 >>= fun a => pure (g a)).run.run
    (session.withStore (x.run.run session.store).2, records) = _
  cases (x.run.run session.store).1 <;> rfl

/-! ### Renderings -/

/-- What a step renders: the templates that it asks for, and the text that it answers
with, made of their payloads. -/
structure Request where
  asked : List (Option String)
  text : (Option String → Json) → String

/-- The rendering of a step, if it is one that can be begun. -/
def request? (session : Session) : Step → Option Request
  | .dumps name compact => do
      let program ← session.programs.lookup name
      return {
        asked := program.asked
        text := fun payloads => (program.jsonFrom payloads).write (program.style compact) }
  | .routine name index => do
      let program ← session.programs.lookup name
      let routine ← (program.routineAt index).toOption
      return {
        asked := routine.asked
        text := fun payloads => (routine.jsonFrom payloads).write .compact }
  | .payload path compact =>
      some {
        asked := [path]
        text := fun payloads =>
          (payloads path).write (.ofCompact (compact.getD ({} : Settings).compactJson)) }
  | _ => none

/-- What is so of the routines of all programs. -/
def ForallPrograms (P : List CompiledRoutine → Prop) (session : Session) : Prop :=
  ∀ entry ∈ session.programs, P entry.2.routines

/-- Routines whose blocks all have a form. -/
def AllFormed (routines : List CompiledRoutine) : Prop :=
  ∀ routine ∈ routines, routine.IsFormed

theorem ForallPrograms.of_lookup {P : List CompiledRoutine → Prop} {session : Session}
    (h : session.ForallPrograms P) {name : String} {program : Program}
    (hlookup : session.programs.lookup name = some program) : P program.routines := by
  obtain ⟨before, behind, heq, -⟩ := List.lookup_eq_some_iff.mp hlookup
  exact h (name, program) (heq ▸ List.mem_append_right _ List.mem_cons_self)

theorem mem_of_routineAt {program : Program} {index : Int} {routine : CompiledRoutine}
    (h : (program.routineAt index).toOption = some routine) : routine ∈ program.routines := by
  unfold Program.routineAt at h
  generalize (if index < 0 then index + program.routines.length else index) = position at h
  dsimp only at h
  split at h
  · contradiction
  · cases hfound : program.routines[position.toNat]? with
    | none =>
        rw [hfound] at h
        contradiction
    | some found =>
        rw [hfound] at h
        cases h
        exact List.mem_of_getElem? hfound

/-- A rendering makes its answer of the payloads of the templates that it asks for. -/
theorem exists_embeds {session : Session} (hformed : session.ForallPrograms AllFormed)
    {step : Step} {request : Request} (h : session.request? step = some request) :
    ∃ (α : Type) (x : Rendering α) (f : (Option String → Json) → α) (g : α → String),
      Embeds request.asked x f ∧ request.text = (fun payloads => g (f payloads)) ∧
      (perform step).run.run (session, []) =
        (rendered x >>= fun a => pure (Answer.text (g a))).run.run (session, []) := by
  cases step with
  | dumps name compact =>
      obtain ⟨program, hlookup, h⟩ := Option.bind_eq_some_iff.mp h
      cases h
      exact ⟨_, _, _, id, Program.embeds_dumps (hformed.of_lookup hlookup) compact, rfl,
        run_bind_ok (run_program_some hlookup [])⟩
  | routine name index =>
      obtain ⟨program, hlookup, h⟩ := Option.bind_eq_some_iff.mp h
      obtain ⟨routine, hroutine, h⟩ := Option.bind_eq_some_iff.mp h
      cases h
      have hembeds := (hformed.of_lookup hlookup routine (mem_of_routineAt hroutine)).embeds
      refine ⟨_, _, _, fun json => json.write .compact, hembeds, rfl, ?_⟩
      refine (run_bind_ok (run_program_some hlookup [])).trans ?_
      cases hat : program.routineAt index with
      | error fault =>
          rw [hat] at hroutine
          contradiction
      | ok found =>
          rw [hat] at hroutine
          cases hroutine
          rfl
  | payload path compact =>
      cases h
      exact ⟨_, _, _, _, embeds_payload path, rfl, rfl⟩
  | _ => contradiction

/-- The text of a rendering depends on nothing but what it asks for. -/
theorem request_congr {session : Session} (hformed : session.ForallPrograms AllFormed)
    {step : Step} {request : Request} (h : session.request? step = some request)
    {payloads others : Option String → Json}
    (hsame : ∀ template ∈ request.asked, payloads template = others template) :
    request.text payloads = request.text others := by
  obtain ⟨α, x, f, g, hembeds, htext, -⟩ := exists_embeds hformed h
  rw [htext]
  exact congrArg g (hembeds.congr payloads others hsame)

/-- How a rendering goes: the templates that it asks for are had one after the other, or
the first that cannot be had is the fault. -/
theorem step_request {session : Session} (hformed : session.ForallPrograms AllFormed)
    {step : Step} {request : Request} (h : session.request? step = some request) :
    session.step step =
      ((session.store.settle request.asked (.text (request.text session.store.given)), []),
        session.withStore (session.store.askingAll request.asked)) := by
  obtain ⟨α, x, f, g, hembeds, htext, hrun⟩ := exists_embeds hformed h
  refine step_eq (hrun.trans ?_)
  rw [run_rendered, hembeds.run_eq, htext, Store.settle, Store.settle]
  cases request.asked.findSome? session.store.refusal? <;> rfl

/-! ### Files -/

/-- The file that a step writes or deletes. -/
def Step.file? : Step → Option String
  | .write path _ => some path
  | .delete path => some path
  | _ => none

theorem step_delete_ok {session : Session} {path : String} {store : Store}
    (h : session.store.delete path = .ok store) :
    session.step (.delete path) = ((.ok .done, []), session.withStore store) := by
  apply step_eq
  change (ofExcept (session.store.delete path) >>= _ : Stepping Answer).run.run (session, []) = _
  rw [h]
  rfl

theorem step_delete_error {session : Session} {path : String} {fault : Fault}
    (h : session.store.delete path = .error fault) :
    session.step (.delete path) = ((.error fault, []), session) := by
  apply step_eq
  change (ofExcept (session.store.delete path) >>= _ : Stepping Answer).run.run (session, []) = _
  rw [h]
  rfl

/-! ### Everything but the store -/

/-- A computation that neither looks at the store nor changes it. -/
def SparesStore {α : Type} (x : Stepping α) : Prop :=
  ∀ (session : Session) (records : List LogRecord) (result : Except Fault α) (after : Session)
    (more : List LogRecord), x.run.run (session, records) = (result, after, more) →
    ∀ store, x.run.run (session.withStore store, records) = (result, after.withStore store, more)

section SparesStore

variable {α β : Type}

theorem sparesStore_pure (a : α) : SparesStore (pure a) := by
  rintro session records result after more ⟨⟩ store
  rfl

theorem sparesStore_ofExcept (result : Except Fault α) : SparesStore (ofExcept result) := by
  cases result with
  | ok a => exact sparesStore_pure a
  | error fault =>
      rintro session records result after more ⟨⟩ store
      rfl

theorem SparesStore.bind {x : Stepping α} {k : α → Stepping β} (hx : SparesStore x)
    (hk : ∀ a, SparesStore (k a)) : SparesStore (x >>= k) := by
  intro session records result after more h store
  rcases hrun : x.run.run (session, records) with ⟨first, between, noted⟩
  have hother := hx session records first between noted hrun store
  cases first with
  | ok a =>
      rw [run_bind_ok hrun] at h
      rw [run_bind_ok hother]
      exact hk a between noted result after more h store
  | error fault =>
      rw [run_bind_error hrun] at h
      cases h
      exact run_bind_error hother

/-- To look at the session is harmless if what follows does not look at the store. -/
theorem sparesStore_look {k : Session → Stepping α} (hk : ∀ session, SparesStore (k session))
    (hsame : ∀ session store, k (session.withStore store) = k session) :
    SparesStore (look >>= k) := by
  intro session records result after more h store
  change (k (session.withStore store)).run.run (session.withStore store, records) = _
  rw [hsame]
  exact hk session session records result after more h store

theorem sparesStore_update {alter : Session → Session}
    (halter : ∀ session store, alter (session.withStore store) =
      (alter session).withStore store) : SparesStore (update alter) := by
  rintro session records result after more ⟨⟩ store
  change (Except.ok (), alter (session.withStore store), records) = _
  rw [halter]

theorem sparesStore_program (name : String) : SparesStore (program name) :=
  sparesStore_look (fun _ => sparesStore_ofExcept _) fun _ _ => rfl

theorem sparesStore_keep (name : String) (program : Program) : SparesStore (keep name program) :=
  (sparesStore_update fun _ _ => rfl).bind fun _ => sparesStore_pure _

theorem sparesStore_logged (logging : Logging α) : SparesStore (logged logging) := by
  refine sparesStore_look (fun session => ?_) fun _ _ => rfl
  have hmodify : ∀ kept : List LogRecord, SparesStore
      (modify fun state => (state.1, state.2 ++ kept) : Stepping PUnit) := by
    rintro kept session records result after more ⟨⟩ store
    rfl
  exact (hmodify _).bind fun _ => sparesStore_ofExcept _

end SparesStore

/-- A step that cannot be begun fails and changes nothing, whatever the store is. -/
theorem step_withStore_of_error {session : Session} {step : Step} {fault : Fault}
    (h : ∀ store, (perform step).run.run (session.withStore store, []) =
      (.error fault, session.withStore store, [])) (store : Store) :
    (session.withStore store).step step =
      ((session.step step).1, (session.step step).2.withStore store) := by
  have hown : session.step step = ((.error fault, []), session) := step_eq (h session.store)
  rw [step_eq (h store), hown]

/-- A step that neither changes a file nor renders anything works on everything but the
store. -/
theorem step_withStore {session : Session} {step : Step} (hfile : step.file? = none)
    (hrequest : session.request? step = none) (store : Store) :
    (session.withStore store).step step =
      ((session.step step).1, (session.step step).2.withStore store) := by
  have hspares : SparesStore (perform step) → (session.withStore store).step step =
      ((session.step step).1, (session.step step).2.withStore store) := by
    intro h
    rcases hrun : (perform step).run.run (session, []) with ⟨result, after, records⟩
    rw [step_eq hrun, step_eq (h session [] result after records hrun store)]
  cases step with
  | write => contradiction
  | delete => contradiction
  | payload => contradiction
  | compiler name options render =>
      refine hspares ((sparesStore_ofExcept _).bind fun settings => ?_)
      refine (sparesStore_update fun _ _ => rfl).bind fun _ => ?_
      exact sparesStore_look (fun _ => sparesStore_pure _) fun _ _ => rfl
  | compile compiler name source =>
      refine hspares (sparesStore_look (fun _ => ?_) fun _ _ => rfl)
      refine (sparesStore_ofExcept _).bind fun compiler => ?_
      exact (sparesStore_logged _).bind fun program => sparesStore_keep name program
  | bare name copy =>
      exact hspares ((sparesStore_program name).bind fun program => sparesStore_keep copy _)
  | append name other =>
      refine hspares ((sparesStore_program name).bind fun first => ?_)
      exact (sparesStore_program other).bind fun second => sparesStore_keep name _
  | same name other =>
      refine hspares ((sparesStore_program name).bind fun first => ?_)
      exact (sparesStore_program other).bind fun second => sparesStore_pure _
  | size name =>
      exact hspares ((sparesStore_program name).bind fun program => sparesStore_pure _)
  | dumps name compact =>
      cases hlookup : session.programs.lookup name with
      | none =>
          apply step_withStore_of_error
          intro other
          exact run_bind_error (@run_program_none (session.withStore other) name hlookup [])
      | some program =>
          rw [request?, hlookup] at hrequest
          contradiction
  | routine name index =>
      cases hlookup : session.programs.lookup name with
      | none =>
          apply step_withStore_of_error
          intro other
          exact run_bind_error (@run_program_none (session.withStore other) name hlookup [])
      | some program =>
          cases hat : program.routineAt index with
          | error fault =>
              apply step_withStore_of_error
              intro other
              refine (run_bind_ok
                (@run_program_some (session.withStore other) name program hlookup [])).trans ?_
              rw [hat]
              rfl
          | ok routine =>
              simp [request?, hlookup, hat, Except.toOption] at hrequest

theorem store_step {session : Session} {step : Step} (hfile : step.file? = none)
    (hrequest : session.request? step = none) :
    (session.step step).2.store = session.store := by
  have hsame : session.step step =
      ((session.step step).1, (session.step step).2.withStore session.store) :=
    step_withStore hfile hrequest session.store
  rw [hsame]
  rfl

/-! ### What is so of all programs -/

/-- A computation that keeps what is so of all programs, and whose results are of a
kind. -/
def Maintains {α : Type} (P : List CompiledRoutine → Prop) (Q : α → Prop) (x : Stepping α) :
    Prop :=
  ∀ (session : Session) (records : List LogRecord) (result : Except Fault α) (after : Session)
    (more : List LogRecord), session.ForallPrograms P →
    x.run.run (session, records) = (result, after, more) →
    after.ForallPrograms P ∧ ∀ a, result = .ok a → Q a

section Maintains

variable {α β : Type} {P : List CompiledRoutine → Prop} {Q : α → Prop} {R : β → Prop}

theorem maintains_pure {a : α} (ha : Q a) : Maintains P Q (pure a) := by
  rintro session records result after more hall ⟨⟩
  refine ⟨hall, ?_⟩
  rintro _ ⟨⟩
  exact ha

theorem maintains_ofExcept {result : Except Fault α} (h : ∀ a, result = .ok a → Q a) :
    Maintains P Q (ofExcept result) := by
  cases result with
  | ok a => exact maintains_pure (h a rfl)
  | error fault =>
      rintro session records result after more hall ⟨⟩
      exact ⟨hall, nofun⟩

theorem Maintains.bind {x : Stepping α} {k : α → Stepping β} (hx : Maintains P Q x)
    (hk : ∀ a, Q a → Maintains P R (k a)) : Maintains P R (x >>= k) := by
  intro session records result after more hall h
  rcases hrun : x.run.run (session, records) with ⟨first, between, noted⟩
  obtain ⟨hbetween, hfirst⟩ := hx session records first between noted hall hrun
  cases first with
  | ok a =>
      rw [run_bind_ok hrun] at h
      exact hk a (hfirst a rfl) between noted result after more hbetween h
  | error fault =>
      rw [run_bind_error hrun] at h
      cases h
      exact ⟨hbetween, nofun⟩

theorem maintains_look {k : Session → Stepping α}
    (hk : ∀ session : Session, session.ForallPrograms P → Maintains P Q (k session)) :
    Maintains P Q (look >>= k) :=
  fun session records result after more hall h =>
    hk session hall session records result after more hall h

theorem maintains_update {alter : Session → Session}
    (halter : ∀ session : Session, session.ForallPrograms P →
      (alter session).ForallPrograms P) :
    Maintains P (fun _ => True) (update alter) := by
  rintro session records result after more hall ⟨⟩
  exact ⟨halter session hall, fun _ _ => trivial⟩

theorem maintains_program (name : String) :
    Maintains P (fun program => P program.routines) (program name) := by
  refine maintains_look fun session hall => maintains_ofExcept fun program h => ?_
  cases hlookup : session.programs.lookup name with
  | none =>
      rw [hlookup] at h
      contradiction
  | some found =>
      rw [hlookup] at h
      cases h
      exact hall.of_lookup hlookup

theorem maintains_keep {name : String} {program : Program} (hprogram : P program.routines) :
    Maintains P (fun _ => True) (keep name program) := by
  refine (maintains_update fun session hall => ?_).bind fun _ _ => maintains_pure trivial
  refine List.forall_mem_cons.mpr ⟨hprogram, fun entry hmem => ?_⟩
  exact hall entry (List.mem_filter.mp hmem).1

theorem maintains_result (result : Except Fault α) :
    Maintains P (fun _ => True) (ofExcept result) :=
  maintains_ofExcept fun _ _ => trivial

theorem maintains_rendered (x : Rendering α) : Maintains P (fun _ => True) (rendered x) := by
  refine maintains_look fun session _ => ?_
  exact .bind (maintains_update fun _ hall => hall) fun _ _ => maintains_result _

theorem maintains_logged {logging : Logging α}
    (h : ∀ a, logging.outcome [] = .ok a → Q a) : Maintains P Q (logged logging) := by
  refine maintains_look fun session _ => ?_
  have hmodify : ∀ kept : List LogRecord, Maintains P (fun _ => True)
      (modify fun state => (state.1, state.2 ++ kept) : Stepping PUnit) := by
    rintro kept session records result after more hall ⟨⟩
    exact ⟨hall, fun _ _ => trivial⟩
  exact (hmodify _).bind fun _ _ => maintains_ofExcept h

end Maintains

/-- What is so of every compiled program, and of two programs together, is so of all the
programs of a session. -/
theorem forallPrograms_step {P : List CompiledRoutine → Prop}
    (hcompile : ∀ (compiler : Compiler) (source : String) (program : Program),
      (compiler.compile source).outcome [] = .ok program → P program.routines)
    {session : Session} (h : session.ForallPrograms P) (step : Step)
    (happend : ∀ name other, step = .append name other →
      ∀ first second, P first → P second → P (first ++ second)) :
    (session.step step).2.ForallPrograms P := by
  have hmaintains : Maintains P (fun _ => True) (perform step) := by
    cases step with
    | write path text =>
        exact .bind (maintains_update fun _ hall => hall) fun _ _ => maintains_pure trivial
    | delete path =>
        refine maintains_look fun session _ => ?_
        refine (maintains_result _).bind fun store _ => ?_
        exact .bind (maintains_update fun _ hall => hall) fun _ _ => maintains_pure trivial
    | compiler name options render =>
        refine (maintains_result _).bind fun settings _ => ?_
        refine .bind (maintains_update fun _ hall => hall) fun _ _ => ?_
        exact maintains_look fun _ _ => maintains_pure trivial
    | compile compiler name source =>
        refine maintains_look fun session _ => ?_
        refine (maintains_result _).bind fun compiler _ => ?_
        exact (maintains_logged (hcompile compiler source)).bind fun program hprogram =>
          maintains_keep hprogram
    | bare name copy =>
        exact (maintains_program name).bind fun program hprogram => maintains_keep hprogram
    | append name other =>
        refine (maintains_program name).bind fun first hfirst => ?_
        refine (maintains_program other).bind fun second hsecond => ?_
        exact maintains_keep (happend name other rfl _ _ hfirst hsecond)
    | same name other =>
        refine (maintains_program name).bind fun first _ => ?_
        exact (maintains_program other).bind fun second _ => maintains_pure trivial
    | dumps name compact =>
        refine (maintains_program name).bind fun program _ => ?_
        exact (maintains_rendered _).bind fun text _ => maintains_pure trivial
    | routine name index =>
        refine (maintains_program name).bind fun program _ => ?_
        refine (maintains_result _).bind fun routine _ => ?_
        exact (maintains_rendered _).bind fun json _ => maintains_pure trivial
    | size name => exact (maintains_program name).bind fun program _ => maintains_pure trivial
    | payload path compact =>
        exact (maintains_rendered _).bind fun json _ => maintains_pure trivial
  rcases hrun : (perform step).run.run (session, []) with ⟨result, after, records⟩
  rw [step_eq hrun]
  exact (hmaintains session [] result after records h hrun).1

theorem allFormed_of_compile (compiler : Compiler) (source : String) (program : Program)
    (h : (compiler.compile source).outcome [] = .ok program) : AllFormed program.routines :=
  fun routine hmem => (obeys_of_compile h routine hmem).isFormed

theorem allFormed_append (first second : List CompiledRoutine) (hfirst : AllFormed first)
    (hsecond : AllFormed second) : AllFormed (first ++ second) :=
  List.forall_mem_append.mpr ⟨hfirst, hsecond⟩

theorem allFormed_step {session : Session} (h : session.ForallPrograms AllFormed) (step : Step) :
    (session.step step).2.ForallPrograms AllFormed :=
  forallPrograms_step allFormed_of_compile h step fun _ _ _ => allFormed_append

/-- Routines that ask for no more than one template. -/
def OneTemplate (routines : List CompiledRoutine) : Prop :=
  ∃ template, ∀ routine ∈ routines, ∀ asked ∈ routine.asked, asked = template

theorem oneTemplate_of_compile (compiler : Compiler) (source : String) (program : Program)
    (h : (compiler.compile source).outcome [] = .ok program) : OneTemplate program.routines :=
  ⟨compiler.settings.processTemplatePath, fun routine hmem _ hasked =>
    (obeys_of_compile h routine hmem).eq_of_mem_asked hasked⟩

theorem exists_template_of_request {session : Session}
    (h : session.ForallPrograms OneTemplate) {step : Step} {request : Request}
    (hrequest : session.request? step = some request) :
    ∃ template, ∀ asked ∈ request.asked, asked = template := by
  cases step with
  | dumps name compact =>
      obtain ⟨program, hlookup, hrequest⟩ := Option.bind_eq_some_iff.mp hrequest
      cases hrequest
      obtain ⟨template, hall⟩ := h.of_lookup hlookup
      refine ⟨template, fun asked hasked => ?_⟩
      obtain ⟨routine, hmem, hasked⟩ := List.mem_flatMap.mp hasked
      exact hall routine hmem asked hasked
  | routine name index =>
      obtain ⟨program, hlookup, hrequest⟩ := Option.bind_eq_some_iff.mp hrequest
      obtain ⟨routine, hroutine, hrequest⟩ := Option.bind_eq_some_iff.mp hrequest
      cases hrequest
      obtain ⟨template, hall⟩ := h.of_lookup hlookup
      exact ⟨template, hall routine (mem_of_routineAt hroutine)⟩
  | payload path compact =>
      cases hrequest
      exact ⟨path, fun asked hasked => List.mem_singleton.mp hasked⟩
  | _ => contradiction

end Blockscript.Session
