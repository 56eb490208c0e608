import Blockscript.Proofs.Session.Stepping

/-!
Payloads over whole sessions.  What is kept for a path is what its file held when the path
was first loaded.  Renderings are made of these payloads, whatever becomes of the files
afterwards; a load that fails leaves nothing behind; and what is done about one path is not
seen in what is done about others.
-/

namespace Blockscript

/-! ### Files -/

namespace Store

theorem lookup_filter_ne {α : Type} {path other : String} (h : other ≠ path)
    (files : List (String × α)) :
    (files.filter fun file => file.1 ≠ path).lookup other = files.lookup other := by
  induction files with
  | nil => rfl
  | cons file files ih =>
      obtain ⟨name, content⟩ := file
      by_cases hname : name = path
      · have hother : (other == name) = false := beq_eq_false_iff_ne.mpr (hname ▸ h)
        rw [List.filter_cons_of_neg (by simpa using hname), ih, List.lookup_cons, hother]
      · rw [List.filter_cons_of_pos (by simpa using hname), List.lookup_cons, List.lookup_cons, ih]

theorem text?_write_self (store : Store) (path text : String) :
    (store.write path text).text? path = some text :=
  List.lookup_cons_self

/-- Stores that agree on everything but one path. -/
structure AgreesOff (path : String) (store other : Store) : Prop where
  text? : ∀ name, name ≠ path → other.text? name = store.text? name
  kept? : ∀ name, name ≠ path → other.kept? name = store.kept? name

variable {path : String} {store other another : Store}

theorem AgreesOff.symm (h : store.AgreesOff path other) : other.AgreesOff path store :=
  ⟨fun name hname => (h.text? name hname).symm, fun name hname => (h.kept? name hname).symm⟩

theorem AgreesOff.trans (h : store.AgreesOff path other) (h' : other.AgreesOff path another) :
    store.AgreesOff path another :=
  ⟨fun name hname => (h'.text? name hname).trans (h.text? name hname),
    fun name hname => (h'.kept? name hname).trans (h.kept? name hname)⟩

theorem text?_write_ne (store : Store) {path name : String} (hname : name ≠ path)
    (text : String) : (store.write path text).text? name = store.text? name := by
  have hother : (name == path) = false := beq_eq_false_iff_ne.mpr hname
  rw [Store.text?, Store.write, List.lookup_cons, hother]
  exact lookup_filter_ne hname store.files

theorem agreesOff_write (store : Store) (path text : String) :
    store.AgreesOff path (store.write path text) :=
  ⟨fun _ hname => store.text?_write_ne hname text, fun _ _ => rfl⟩

theorem delete_of_text {text : String} (h : store.text? path = some text) :
    ∃ after, store.delete path = .ok after ∧ after.payloads = store.payloads ∧
      store.AgreesOff path after ∧ after.text? path = none := by
  refine ⟨{ store with files := store.files.filter fun file => file.1 ≠ path },
    by rw [delete, h], rfl, ⟨fun _ hname => lookup_filter_ne hname store.files, fun _ _ => rfl⟩,
    List.lookup_eq_none_iff.mpr fun file hmem => ?_⟩
  have hname : file.1 ≠ path := by simpa using (List.mem_filter.mp hmem).2
  simpa using Ne.symm hname

theorem delete_of_none (h : store.text? path = none) :
    store.delete path = .error .missingFile := by
  rw [delete, h]

/-- Stores that agree off a path still agree when the same is done to another file. -/
theorem AgreesOff.after_file (h : store.AgreesOff path other) {name : String}
    {store' other' : Store} (hstore : store.AgreesOff name store')
    (hother : other.AgreesOff name other') (htext : other'.text? name = store'.text? name)
    (hpayloads : store'.payloads = store.payloads) (hpayloads' : other'.payloads = other.payloads) :
    store'.AgreesOff path other' where
  text? q hq := by
    by_cases hname : q = name
    · rw [hname, htext]
    · rw [hother.text? q hname, hstore.text? q hname, h.text? q hq]
  kept? q hq := by
    have hkept := h.kept? q hq
    rwa [Store.kept?, Store.kept?, ← hpayloads, ← hpayloads'] at hkept

/-- Templates that are not at the path are the same in stores that agree off it. -/
theorem AgreesOff.payloadOf_eq (h : store.AgreesOff path other) {template : Option String}
    (htemplate : template ≠ some path) : other.payloadOf template = store.payloadOf template := by
  cases template with
  | none => rfl
  | some name =>
      have hname : name ≠ path := fun heq => htemplate (congrArg some heq)
      rw [payloadOf_path, payloadOf_path, h.kept? name hname,
        readPayload_congr (h.text? name hname)]

theorem text?_askingAll (store : Store) (templates : List (Option String)) (path : String) :
    (store.askingAll templates).text? path = store.text? path := by
  rw [Store.text?, askingAll, files_foldl_asking, Store.text?]

/-- To ask for one path only is not seen off the path. -/
theorem agreesOff_askingAll {templates : List (Option String)}
    (h : ∀ name, some name ∈ templates → name = path) :
    store.AgreesOff path (store.askingAll templates) where
  text? name _ := store.text?_askingAll templates name
  kept? name hname := by
    have hasked : some name ∉ templates.takeWhile store.has :=
      fun hmem => hname (h name ((List.takeWhile_sublist _).subset hmem))
    rw [askingAll, kept?_foldl_asking, if_neg hasked, Option.or_none]

/-- Of other templates the same can be had in stores that agree off a path. -/
theorem AgreesOff.refusals_eq (h : store.AgreesOff path other)
    {templates : List (Option String)} (hasked : some path ∉ templates) :
    templates.findSome? other.refusal? = templates.findSome? store.refusal? ∧
      templates.takeWhile other.has = templates.takeWhile store.has := by
  induction templates with
  | nil => exact ⟨rfl, rfl⟩
  | cons template templates ih =>
      rw [List.mem_cons, not_or] at hasked
      obtain ⟨hfind, htake⟩ := ih hasked.2
      have hrefusal : other.refusal? template = store.refusal? template := by
        rw [refusal?, refusal?, h.payloadOf_eq (Ne.symm hasked.1)]
      rw [List.findSome?_cons, List.findSome?_cons, List.takeWhile_cons, List.takeWhile_cons, has,
        has, hrefusal, hfind, htake]
      exact ⟨rfl, rfl⟩

/-- Stores that agree off a path still agree when other templates are asked for. -/
theorem AgreesOff.askingAll (h : store.AgreesOff path other) {templates : List (Option String)}
    (hasked : some path ∉ templates) :
    (store.askingAll templates).AgreesOff path (other.askingAll templates) where
  text? name hname := by
    rw [text?_askingAll, text?_askingAll, h.text? name hname]
  kept? name hname := by
    rw [Store.askingAll, Store.askingAll, kept?_foldl_asking, kept?_foldl_asking,
      h.kept? name hname, readPayload_congr (h.text? name hname), (h.refusals_eq hasked).2]

end Store

theorem asked_visit {event step : String} (hevent : Script.IsName event.toList)
    (hstep : Script.IsName step.toList) {settings : Settings} {records : List LogRecord}
    {program : Program}
    (h : compileOutcome settings (String.ofList (Script.written (visit event step) [])) records =
      .ok program) : program.asked = [settings.processTemplatePath] := by
  have hcompiled := (logsSettled_compile settings (parse_visit hevent hstep) records).of_ok h
  obtain ⟨found, rest, hfound, hrest, hroutines⟩ := List.forall₂_cons_left_iff.mp hcompiled
  obtain rfl := List.forall₂_nil_left_iff.mp hrest
  have hblocks : (Except.ok found.blocks : Except Fault (List Block)) = .ok _ :=
    hfound.lowered.symm
  simp [Program.asked, CompiledRoutine.asked, hroutines, Except.ok.inj hblocks, Block.asked,
    resetSelection]

namespace Session

/-- What a step does to a file and what it answers depends on the text of that file only,
and it changes nothing else. -/
theorem step_file (session : Session) {step : Step} {path : String}
    (h : step.file? = some path) :
    ∃ (result : Option String → Except Fault Answer) (text : Option String → Option String),
      ∀ store : Store, ∃ after, (session.withStore store).step step =
          ((result (store.text? path), []), session.withStore after) ∧
        after.payloads = store.payloads ∧ store.AgreesOff path after ∧
        after.text? path = text (store.text? path) := by
  cases step with
  | write name text =>
      cases h
      refine ⟨fun _ => .ok .done, fun _ => some text, fun store => ⟨store.write path text, ?_⟩⟩
      exact ⟨rfl, rfl, store.agreesOff_write path text, store.text?_write_self path text⟩
  | delete name =>
      cases h
      refine ⟨fun text => (text.map fun _ => .ok .done).getD (.error .missingFile),
        fun _ => none, fun store => ?_⟩
      cases htext : store.text? path with
      | none =>
          have hdelete : (session.withStore store).store.delete path = .error .missingFile :=
            Store.delete_of_none htext
          exact ⟨store, step_delete_error hdelete, rfl, ⟨fun _ _ => rfl, fun _ _ => rfl⟩, htext⟩
      | some text =>
          obtain ⟨after, hdelete, hrest⟩ := Store.delete_of_text htext
          exact ⟨after, @step_delete_ok (session.withStore store) path after hdelete, hrest⟩
  | _ => contradiction

/-! ### Payloads that are kept -/

def after (session : Session) (steps : List Step) : Session :=
  steps.foldl (fun session step => (session.step step).2) session

def answer (session : Session) (step : Step) : Except Fault Answer :=
  (session.step step).1.1

/-- The steps with the sessions that they are taken in. -/
def history : Session → List Step → List (Session × Step)
  | _, [] => []
  | session, step :: steps => (session, step) :: history (session.step step).2 steps

/-- The payload that a step loads from the file of a path: what the file holds, if the
step renders something and comes as far as the path. -/
def loaded? (session : Session) (step : Step) (path : String) : Option Json := do
  let request ← session.request? step
  if some path ∈ request.asked.takeWhile session.store.has then
    (session.store.readPayload path).toOption
  else none

/-- The payload that the first step to load a path loads. -/
def firstLoad? (session : Session) (steps : List Step) (path : String) : Option Json :=
  (history session steps).findSome? fun moment => moment.1.loaded? moment.2 path

/-- A step keeps what it loads, unless something is kept already. -/
theorem kept?_step {session : Session} (hformed : session.ForallPrograms AllFormed)
    (step : Step) (path : String) :
    (session.step step).2.store.kept? path =
      (session.store.kept? path).or (session.loaded? step path) := by
  cases hrequest : session.request? step with
  | some request =>
      rw [step_request hformed hrequest, loaded?, hrequest]
      exact Store.kept?_foldl_asking _ session.store path
  | none =>
      rw [loaded?, hrequest, Option.bind_eq_bind, Option.bind_none, Option.or_none]
      cases hfile : step.file? with
      | some name =>
          obtain ⟨result, text, heffect⟩ := session.step_file hfile
          obtain ⟨after, hstep, hpayloads, -⟩ := heffect session.store
          have hafter : (session.step step).2 = session.withStore after := congrArg Prod.snd hstep
          rw [hafter, Store.kept?, Store.kept?, ← hpayloads]
          rfl
      | none => rw [store_step hfile hrequest]

theorem forallPrograms_empty (P : List CompiledRoutine → Prop) : ForallPrograms P {} :=
  List.forall_mem_nil _

theorem forallPrograms_after {P : List CompiledRoutine → Prop}
    (hcompile : ∀ (compiler : Compiler) (source : String) (program : Program),
      (compiler.compile source).outcome [] = .ok program → P program.routines)
    {steps : List Step} (happend : ∀ name other, Step.append name other ∈ steps →
      ∀ first second, P first → P second → P (first ++ second))
    {session : Session} (h : session.ForallPrograms P) :
    (session.after steps).ForallPrograms P := by
  induction steps generalizing session with
  | nil => exact h
  | cons step steps ih =>
      refine ih (fun name other hmem => happend name other (List.mem_cons_of_mem _ hmem)) ?_
      refine forallPrograms_step hcompile h step fun name other hstep => ?_
      exact happend name other (hstep ▸ List.mem_cons_self)

/-- What is kept for a path after some steps is what the first step to load it loaded. -/
theorem kept?_after {session : Session} (hformed : session.ForallPrograms AllFormed)
    (steps : List Step) (path : String) :
    (session.after steps).store.kept? path =
      (session.store.kept? path).or (session.firstLoad? steps path) := by
  induction steps generalizing session with
  | nil => exact (Option.or_none).symm
  | cons step steps ih =>
      change ((session.step step).2.after steps).store.kept? path = _
      rw [ih (allFormed_step hformed step), kept?_step hformed, Option.or_assoc, firstLoad?,
        firstLoad?, history, List.findSome?_cons]
      cases session.loaded? step path <;> rfl

/-! ### Renderings of kept payloads -/

section Request

variable {session : Session} {step : Step} {request : Request} {path : String}

theorem answer_request (hformed : session.ForallPrograms AllFormed)
    (hrequest : session.request? step = some request) :
    session.answer step =
      session.store.settle request.asked (.text (request.text session.store.given)) := by
  rw [answer, step_request hformed hrequest]

/-- What a rendering had for a path is kept. -/
theorem kept?_step_of_had (hformed : session.ForallPrograms AllFormed)
    (hrequest : session.request? step = some request)
    (hall : request.asked.findSome? session.store.refusal? = none)
    (hasked : some path ∈ request.asked) :
    (session.step step).2.store.kept? path = some (session.store.given (some path)) := by
  have hhad := List.findSome?_eq_none_iff.mp hall _ hasked
  rw [Store.refusal?_eq_none_iff, Store.payloadOf_path] at hhad
  have htaken : request.asked.takeWhile session.store.has = request.asked :=
    List.takeWhile_eq_self_iff.mpr (Store.all_has hall)
  rw [kept?_step hformed, loaded?, hrequest, Option.bind_eq_bind, Option.bind_some, htaken,
    if_pos hasked]
  cases hkept : session.store.kept? path with
  | some payload =>
      rw [hkept] at hhad
      exact congrArg some (Except.ok.inj hhad)
  | none =>
      rw [hkept] at hhad
      rw [show session.store.readPayload path = .ok _ from hhad]
      rfl

/-- What is kept for a path after a rendering could be had for it. -/
theorem payloadOf_of_kept?_step (hformed : session.ForallPrograms AllFormed)
    (hrequest : session.request? step = some request) {payload : Json}
    (hkept : (session.step step).2.store.kept? path = some payload) :
    session.store.payloadOf (some path) = .ok payload := by
  have hpayload : (session.step step).2.store.payloadOf (some path) = .ok payload := by
    rw [Store.payloadOf_path, hkept]
    rfl
  rw [step_request hformed hrequest] at hpayload
  rwa [← Store.payloadOf_askingAll session.store request.asked]

theorem answer_of_payloads (hformed : session.ForallPrograms AllFormed)
    (hrequest : session.request? step = some request) {payloads : Option String → Json}
    (hpayloads : ∀ template ∈ request.asked,
      session.store.payloadOf template = .ok (payloads template)) :
    session.answer step = .ok (.text (request.text payloads)) := by
  have hall : request.asked.findSome? session.store.refusal? = none := by
    refine List.findSome?_eq_none_iff.mpr fun template hasked => ?_
    rw [Store.refusal?, hpayloads template hasked]
  have hgiven : ∀ template ∈ request.asked, session.store.given template = payloads template := by
    intro template hasked
    rw [Store.given, hpayloads template hasked]
    rfl
  rw [answer_request hformed hrequest, Store.settle, hall, request_congr hformed hrequest hgiven]

/-- A rendering answers with a text exactly when something is kept afterwards for every
path that it asks for, and the text is made of that. -/
theorem answer_eq_text_iff (hformed : session.ForallPrograms AllFormed)
    (hrequest : session.request? step = some request) {text : String} :
    session.answer step = .ok (.text text) ↔
      ∃ payloads : Option String → Json, payloads none = packagedPayload ∧
        (∀ path, some path ∈ request.asked →
          (session.step step).2.store.kept? path = some (payloads (some path))) ∧
        text = request.text payloads := by
  constructor
  · intro htext
    rw [answer_request hformed hrequest, Store.settle] at htext
    cases hall : request.asked.findSome? session.store.refusal? with
    | some fault =>
        rw [hall] at htext
        contradiction
    | none =>
        rw [hall] at htext
        cases htext
        exact ⟨session.store.given, rfl,
          fun path hasked => kept?_step_of_had hformed hrequest hall hasked, rfl⟩
  · rintro ⟨payloads, hnone, hkept, rfl⟩
    refine answer_of_payloads hformed hrequest fun template hasked => ?_
    cases template with
    | none => exact congrArg Except.ok hnone.symm
    | some path => exact payloadOf_of_kept?_step hformed hrequest (hkept path hasked)

/-- A rendering that asks for a path for which there is nothing fails, and keeps nothing
for it. -/
theorem exists_answer_of_unreadable (hformed : session.ForallPrograms AllFormed)
    (hrequest : session.request? step = some request) (hasked : some path ∈ request.asked)
    (hkept : session.store.kept? path = none) {fault : Fault}
    (hread : session.store.readPayload path = .error fault) :
    (∃ other, session.answer step = .error other) ∧
      (session.step step).2.store.kept? path = none := by
  constructor
  · rw [answer_request hformed hrequest]
    cases hall : request.asked.findSome? session.store.refusal? with
    | some other => exact ⟨other, by rw [Store.settle, hall]⟩
    | none =>
        have hhad := List.findSome?_eq_none_iff.mp hall _ hasked
        rw [Store.refusal?_eq_none_iff, Store.payloadOf_path, hkept, hread] at hhad
        contradiction
  · rw [kept?_step hformed, hkept, loaded?, hrequest, hread]
    exact ite_self none

/-- If it asks for nothing else, it changes nothing. -/
theorem step_of_unreadable (hformed : session.ForallPrograms AllFormed)
    (hrequest : session.request? step = some request) (hasked : some path ∈ request.asked)
    (hkept : session.store.kept? path = none) {fault : Fault}
    (hread : session.store.readPayload path = .error fault)
    (hone : ∀ template ∈ request.asked, template = some path) :
    session.step step = ((.error fault, []), session) := by
  have hrefused : session.store.refusal? (some path) = some fault := by
    rw [Store.refusal?, Store.payloadOf_path, hkept, hread]
    rfl
  have hhas : ¬ session.store.has (some path) = true := by
    rw [Store.has_eq_true_iff, hrefused]
    exact Option.some_ne_none fault
  rw [step_request hformed hrequest]
  cases hlist : request.asked with
  | nil =>
      rw [hlist] at hasked
      contradiction
  | cons template rest =>
      obtain rfl : template = some path := hone template (hlist ▸ List.mem_cons_self)
      rw [Store.settle, List.findSome?_cons, hrefused, Store.askingAll,
        List.takeWhile_cons_of_neg hhas]
      rfl

theorem request?_withStore (session : Session) (store : Store) (step : Step) :
    (session.withStore store).request? step = session.request? step := by
  cases step <;> rfl

/-- What a step that works on a file or renders something leaves to be rendered. -/
theorem request?_step (hformed : session.ForallPrograms AllFormed)
    (h : step.file?.isSome ∨ (session.request? step).isSome) (other : Step) :
    (session.step step).2.request? other = session.request? other := by
  have hstep : ∃ store, (session.step step).2 = session.withStore store := by
    rcases h with hfile | hrequest
    · obtain ⟨path, hfile⟩ := Option.isSome_iff_exists.mp hfile
      obtain ⟨result, text, heffect⟩ := session.step_file hfile
      obtain ⟨after, hstep, -⟩ := heffect session.store
      exact ⟨after, congrArg Prod.snd hstep⟩
    · obtain ⟨request, hrequest⟩ := Option.isSome_iff_exists.mp hrequest
      exact ⟨_, congrArg Prod.snd (step_request hformed hrequest)⟩
  obtain ⟨store, hstep⟩ := hstep
  rw [hstep, request?_withStore]

/-- A rendering shows what is in the file of the only path that it asks for, if nothing is
kept. -/
theorem answer_of_file (hformed : session.ForallPrograms AllFormed)
    (hrequest : session.request? step = some request)
    (hone : ∀ name, some name ∈ request.asked → name = path)
    (hkept : session.store.kept? path = none) {text : String}
    (htext : session.store.text? path = some text) {payloads : Option String → Json}
    (hread : Json.read? text = some (payloads (some path)))
    (hnone : payloads none = packagedPayload) :
    session.answer step = .ok (.text (request.text payloads)) := by
  have hfile : session.store.readPayload path = .ok (payloads (some path)) := by
    rw [Store.readPayload, htext]
    simp only [hread]
  refine answer_of_payloads hformed hrequest fun template hasked => ?_
  cases template with
  | none => exact congrArg Except.ok hnone.symm
  | some name =>
      obtain rfl := hone name hasked
      rw [Store.payloadOf_path, hkept, hfile]
      rfl

theorem answer_after_write (hformed : session.ForallPrograms AllFormed)
    (hrequest : session.request? step = some request)
    (hone : ∀ name, some name ∈ request.asked → name = path)
    (hkept : session.store.kept? path = none) {text : String} {payloads : Option String → Json}
    (hread : Json.read? text = some (payloads (some path)))
    (hnone : payloads none = packagedPayload) :
    (session.step (.write path text)).2.answer step = .ok (.text (request.text payloads)) := by
  have hwritten : (session.withStore (session.store.write path text)).ForallPrograms AllFormed :=
    hformed
  have hsame : (session.withStore (session.store.write path text)).request? step = some request :=
    (request?_withStore session _ step).trans hrequest
  have htext := session.store.text?_write_self path text
  exact answer_of_file hwritten hsame hone hkept htext hread hnone

end Request

/-! ### Other paths -/

/-- Whether a step is about a path: it changes the file, or it renders something that asks
for the path. -/
def concerns (session : Session) (path : String) (step : Step) : Bool :=
  step.file? == some path ||
    (session.request? step).any fun request => request.asked.contains (some path)

section Others

variable {session : Session} {step : Step} {path : String}

/-- A step about a path changes its file, or renders what asks for it. -/
theorem concerns_cases (h : session.concerns path step = true) :
    step.file? = some path ∨
      ∃ request, session.request? step = some request ∧ some path ∈ request.asked := by
  rcases Bool.or_eq_true_iff.mp h with hfile | hrequest
  · exact .inl (beq_iff_eq.mp hfile)
  · obtain ⟨request, hrequest, hasked⟩ := (Option.any_eq_true _ _).mp hrequest
    exact .inr ⟨request, hrequest, List.contains_iff_mem.mp hasked⟩

theorem file?_ne_of_concerns (h : session.concerns path step = false) :
    step.file? ≠ some path :=
  beq_eq_false_iff_ne.mp (Bool.or_eq_false_iff.mp h).1

theorem not_mem_asked_of_concerns (h : session.concerns path step = false) {request : Request}
    (hrequest : session.request? step = some request) : some path ∉ request.asked := by
  have hasked := (Bool.or_eq_false_iff.mp h).2
  rw [hrequest] at hasked
  simpa using hasked

/-- A step about a path is not seen off the path, if no program asks for two
templates. -/
theorem step_of_concerns (hformed : session.ForallPrograms AllFormed)
    (hone : session.ForallPrograms OneTemplate) (h : session.concerns path step = true) :
    ∃ store, (session.step step).2 = session.withStore store ∧
      session.store.AgreesOff path store := by
  rcases concerns_cases h with hfile | ⟨request, hrequest, hasked⟩
  · obtain ⟨result, text, heffect⟩ := session.step_file hfile
    obtain ⟨after, hstep, -, hagrees, -⟩ := heffect session.store
    exact ⟨after, congrArg Prod.snd hstep, hagrees⟩
  · obtain ⟨template, hall⟩ := exists_template_of_request hone hrequest
    obtain rfl := hall _ hasked
    refine ⟨session.store.askingAll request.asked, congrArg Prod.snd
      (step_request hformed hrequest), Store.agreesOff_askingAll fun name hname => ?_⟩
    exact Option.some.inj (hall _ hname)

/-- A step that is not about a path does and answers the same in stores that agree off the
path. -/
theorem step_of_agreesOff (hformed : session.ForallPrograms AllFormed)
    (h : session.concerns path step = false) {other : Store}
    (hagrees : session.store.AgreesOff path other) :
    ∃ another, (session.withStore other).step step =
        ((session.step step).1, (session.step step).2.withStore another) ∧
      (session.step step).2.store.AgreesOff path another := by
  cases hrequest : session.request? step with
  | some request =>
      have hasked := not_mem_asked_of_concerns h hrequest
      have hother : (session.withStore other).ForallPrograms AllFormed := hformed
      have hsame : (session.withStore other).request? step = some request :=
        (request?_withStore session other step).trans hrequest
      rw [step_request hformed hrequest, step_request hother hsame]
      refine ⟨other.askingAll request.asked, ?_, hagrees.askingAll hasked⟩
      have hgiven : request.text other.given = request.text session.store.given := by
        refine request_congr hformed hrequest fun template hmem => ?_
        rw [Store.given, Store.given, hagrees.payloadOf_eq (ne_of_mem_of_not_mem hmem hasked)]
      have hsettle : other.settle request.asked (Answer.text (request.text other.given)) =
          session.store.settle request.asked (.text (request.text session.store.given)) := by
        rw [Store.settle, Store.settle, (hagrees.refusals_eq hasked).1, hgiven]
      rw [← hsettle]
      rfl
  | none =>
      cases hfile : step.file? with
      | some name =>
          have hname : name ≠ path := fun heq => file?_ne_of_concerns h (heq ▸ hfile)
          obtain ⟨result, text, heffect⟩ := session.step_file hfile
          obtain ⟨after, hstep, hpayloads, hafter, htext⟩ := heffect session.store
          obtain ⟨after', hstep', hpayloads', hafter', htext'⟩ := heffect other
          have hown : session.step step =
            ((result (session.store.text? name), []), session.withStore after) := hstep
          rw [hown]
          rw [hagrees.text? name hname] at hstep' htext'
          exact ⟨after', hstep', hagrees.after_file hafter hafter' (htext'.trans htext.symm)
            hpayloads hpayloads'⟩
      | none =>
          refine ⟨other, step_withStore hfile hrequest other, ?_⟩
          rwa [store_step hfile hrequest]

end Others

/-- The steps that are not about a path, with the sessions that they are taken in. -/
def othersThan (path : String) (session : Session) (steps : List Step) : List (Session × Step) :=
  (history session steps).filter fun moment => !moment.1.concerns path moment.2

theorem run_cons (session : Session) (step : Step) (steps : List Step) :
    run session (step :: steps) = (session.step step).1 :: run (session.step step).2 steps := rfl

theorem run_eq_map_history (session : Session) (steps : List Step) :
    run session steps = (history session steps).map fun moment => (moment.1.step moment.2).1 := by
  induction steps generalizing session with
  | nil => rfl
  | cons step steps ih => rw [run_cons, history, List.map_cons, ih]

/-- Without the steps about a path the others are answered alike. -/
theorem run_othersThan (path : String) {steps : List Step}
    (hsteps : ∀ name other, Step.append name other ∉ steps) {session : Session}
    (hformed : session.ForallPrograms AllFormed) (hone : session.ForallPrograms OneTemplate)
    (other : Store) (hagrees : session.store.AgreesOff path other) :
    run (session.withStore other) ((othersThan path session steps).map Prod.snd) =
      (othersThan path session steps).map fun moment => (moment.1.step moment.2).1 := by
  induction steps generalizing session other with
  | nil => rfl
  | cons step steps ih =>
      have hrest : ∀ name other, Step.append name other ∉ steps :=
        fun name other hmem => hsteps name other (List.mem_cons_of_mem _ hmem)
      have hnext := ih hrest (allFormed_step hformed step)
        (forallPrograms_step oneTemplate_of_compile hone step fun name other hstep =>
          absurd (hstep ▸ List.mem_cons_self) (hsteps name other))
      cases hconcerns : session.concerns path step with
      | true =>
          obtain ⟨store, hstep, hstore⟩ := step_of_concerns hformed hone hconcerns
          have hskip : othersThan path session (step :: steps) =
              othersThan path (session.step step).2 steps := by
            rw [othersThan, history, List.filter_cons_of_neg (by simp [hconcerns]), othersThan]
          have hother : session.withStore other = (session.step step).2.withStore other := by
            rw [hstep]
            rfl
          rw [hskip, hother]
          refine hnext other ?_
          rw [hstep]
          exact hstore.symm.trans hagrees
      | false =>
          obtain ⟨another, hstep, hanother⟩ := step_of_agreesOff hformed hconcerns hagrees
          have htake : othersThan path session (step :: steps) =
              (session, step) :: othersThan path (session.step step).2 steps := by
            rw [othersThan, history, List.filter_cons_of_pos (by simp [hconcerns]), othersThan]
          rw [htake, List.map_cons, List.map_cons, run_cons, hstep, hnext another hanother]

/-! ### Whole sessions -/

theorem after_append (session : Session) (steps more : List Step) :
    session.after (steps ++ more) = (session.after steps).after more :=
  List.foldl_append

theorem after_concat (session : Session) (steps : List Step) (step : Step) :
    session.after (steps ++ [step]) = ((session.after steps).step step).2 :=
  session.after_append steps [step]

/-! ### A template that is broken -/

/-- A script that starts a process is compiled while the template is broken. -/
def brokenTemplate : List Step :=
  [.compiler "waving" [("PROCESS_TEMPLATE_PATH", .ofString "wave.json")] renderValue,
   .write "wave.json" "[1",
   .compile "waving" "visit" (String.ofList (Script.written (visit "join" "pick") []))]

theorem request?_brokenTemplate :
    ∃ request, (after {} brokenTemplate).request? (.dumps "visit" none) = some request ∧
      request.asked = [some "wave.json"] ∧
      (after {} brokenTemplate).store = { files := [("wave.json", "[1")] } := by
  have hname : ∀ name ∈ ["join", "pick"], Script.IsName name.toList := by
    intro name hmem
    simp only [List.mem_cons, List.not_mem_nil, or_false] at hmem
    rcases hmem with rfl | rfl <;>
      exact .intro (by decide) (List.all_eq_true.mp (by decide)) (by decide)
  have hjoin := hname "join" (by simp)
  have hpick := hname "pick" (by simp)
  obtain ⟨program, hprogram⟩ := exists_program_visit hjoin hpick
    { processTemplatePath := some "wave.json" } []
  have hcompiler : (after {} (brokenTemplate.take 2)).compilers.lookup "waving" = some _ := rfl
  have hafter : after {} brokenTemplate =
      { after {} (brokenTemplate.take 2) with programs := [("visit", program)] } :=
    (after_concat {} (brokenTemplate.take 2) _).trans (step_compile_ok hcompiler hprogram)
  rw [hafter]
  exact ⟨_, rfl, asked_visit hjoin hpick hprogram, rfl⟩

/-! ### Payloads are read once -/

/-- Over a whole session the payload of a path is read once.

What is kept for a path is what its file held at the first step to load it, and it stays
whatever follows.  A rendering answers with a text exactly when each path that it asks for
has been loaded by then, and the text is made of what was loaded first, and of the packaged
payload.  A rendering that asks for a path for which nothing is kept and whose file cannot
be read fails and keeps nothing for it; unless programs were joined to others, it changes
nothing at all.  Once the file is repaired, what it holds is shown.  To compile a script
neither looks at the store nor changes it.  And unless programs were joined, the answers to
steps that are not about a path are the same without the steps that are. -/
theorem payloads_read_once (steps : List Step) :
    (∀ path, (after {} steps).store.kept? path = firstLoad? {} steps path) ∧
    (∀ more path payload, (after {} steps).store.kept? path = some payload →
      (after {} (steps ++ more)).store.kept? path = some payload) ∧
    (∀ (step : Step) (request : Request), (after {} steps).request? step = some request →
      (∀ text, (after {} steps).answer step = .ok (.text text) ↔
        ∃ payloads : Option String → Json, payloads none = packagedPayload ∧
          (∀ path, some path ∈ request.asked →
            firstLoad? {} (steps ++ [step]) path = some (payloads (some path))) ∧
          text = request.text payloads) ∧
      (∀ path fault, some path ∈ request.asked → firstLoad? {} steps path = none →
        (after {} steps).store.readPayload path = .error fault →
        (∃ other, (after {} steps).answer step = .error other) ∧
        (after {} (steps ++ [step])).store.kept? path = none ∧
        ((∀ name other, Step.append name other ∉ steps) →
          (after {} steps).step step = ((.error fault, []), after {} steps))) ∧
      ∀ path text payloads, (∀ name, some name ∈ request.asked → name = path) →
        firstLoad? {} steps path = none → Json.read? text = some (payloads (some path)) →
        payloads none = packagedPayload →
        ((after {} steps).store.text? path = some text →
          (after {} steps).answer step = .ok (.text (request.text payloads))) ∧
        (after {} (steps ++ [.write path text])).answer step =
          .ok (.text (request.text payloads))) ∧
    (∀ compiler name source store,
      (after {} (steps ++ [.compile compiler name source])).store = (after {} steps).store ∧
      ((after {} steps).withStore store).step (.compile compiler name source) =
        (((after {} steps).step (.compile compiler name source)).1,
          (after {} (steps ++ [.compile compiler name source])).withStore store)) ∧
    run {} steps = (history {} steps).map (fun moment => (moment.1.step moment.2).1) ∧
    ((∀ name other, Step.append name other ∉ steps) → ∀ path,
      run {} ((othersThan path {} steps).map Prod.snd) =
        (othersThan path {} steps).map fun moment => (moment.1.step moment.2).1) := by
  have hkept : ∀ steps path, (after {} steps).store.kept? path = firstLoad? {} steps path :=
    fun steps path => (kept?_after (forallPrograms_empty _) steps path).trans Option.none_or
  have hformed : (after {} steps).ForallPrograms AllFormed :=
    forallPrograms_after allFormed_of_compile (fun _ _ _ => allFormed_append)
      (forallPrograms_empty _)
  refine ⟨hkept steps, ?_, fun step request hrequest => ⟨fun text => ?_, ?_, ?_⟩, ?_,
    run_eq_map_history {} steps, fun hsteps path => ?_⟩
  · intro more path payload hpayload
    rw [after_append, kept?_after hformed, hpayload, Option.some_or]
  · simp only [← hkept, after_concat]
    exact answer_eq_text_iff hformed hrequest
  · intro path fault hasked hnone hread
    rw [← hkept] at hnone
    obtain ⟨hfails, hnothing⟩ :=
      exists_answer_of_unreadable hformed hrequest hasked hnone hread
    refine ⟨hfails, ?_, fun hsteps => ?_⟩
    · rw [after_concat, hnothing]
    · have hone : (after {} steps).ForallPrograms OneTemplate :=
        forallPrograms_after oneTemplate_of_compile
          (fun name other hmem => absurd hmem (hsteps name other)) (forallPrograms_empty _)
      obtain ⟨template, hall⟩ := exists_template_of_request hone hrequest
      obtain rfl := hall _ hasked
      exact step_of_unreadable hformed hrequest hasked hnone hread hall
  · intro path text payloads hone hnone hread hpackaged
    rw [← hkept] at hnone
    refine ⟨fun htext => answer_of_file hformed hrequest hone hnone htext hread hpackaged, ?_⟩
    rw [after_concat]
    exact answer_after_write hformed hrequest hone hnone hread hpackaged
  · intro compiler name source store
    rw [after_concat]
    exact ⟨store_step rfl rfl, step_withStore rfl rfl store⟩
  · have hnone : Store.AgreesOff path ({} : Session).store {} := ⟨fun _ _ => rfl, fun _ _ => rfl⟩
    exact run_othersThan path hsteps (forallPrograms_empty _) (forallPrograms_empty _) {} hnone

/-- The program is to be shown while the template is broken. -/
def shownBroken : List Step :=
  brokenTemplate ++ [.dumps "visit" none]

/-- The template is repaired then. -/
def templateRepaired : List Step :=
  shownBroken ++ [.write "wave.json" "[1]"]

/-- The program is shown with it before its file is deleted. -/
def templateGone : List Step :=
  templateRepaired ++ [.dumps "visit" none] ++ [.delete "wave.json"]

/-- A program cannot be shown while the template is broken, and the attempt changes nothing.
It is shown once the template is repaired, and shown alike when the file is gone. -/
theorem payloads_read_once_repaired :
    (after {} brokenTemplate).step (.dumps "visit" none) =
        ((.error .malformedTemplate, []), after {} brokenTemplate) ∧
      ∃ text, (after {} templateRepaired).answer (.dumps "visit" none) = .ok (.text text) ∧
        (after {} templateGone).answer (.dumps "visit" none) = .ok (.text text) := by
  obtain ⟨request, hrequest, hasked, hstore⟩ := request?_brokenTemplate
  have hmem : some "wave.json" ∈ request.asked := by simp [hasked]
  have hone : ∀ name, some name ∈ request.asked → name = "wave.json" := by simp [hasked]
  obtain ⟨hkept, -, hrender, -⟩ := payloads_read_once brokenTemplate
  have hnone : firstLoad? {} brokenTemplate "wave.json" = none := by
    rw [← hkept, hstore]
    rfl
  have hread : (after {} brokenTemplate).store.readPayload "wave.json" =
      .error .malformedTemplate := by
    rw [hstore]
    rfl
  have hfails := ((hrender _ request hrequest).2.1 _ _ hmem hnone hread).2.2
    (by simp [brokenTemplate])
  have hsame : after {} shownBroken = after {} brokenTemplate := by
    rw [shownBroken, after_concat, hfails]
  refine ⟨hfails, ?_⟩
  -- The file is repaired, and the program is shown with what it holds.
  obtain ⟨hkept, -, hrender, -⟩ := payloads_read_once shownBroken
  rw [hsame] at hkept hrender
  have hnone : firstLoad? {} shownBroken "wave.json" = none := by
    rw [← hkept, hstore]
    rfl
  let payloads : Option String → Json :=
    fun template => template.elim packagedPayload fun _ => .array [.int 1]
  have hshown := ((hrender _ request hrequest).2.2 "wave.json" "[1]" payloads hone hnone rfl rfl).2
  refine ⟨_, hshown, ?_⟩
  -- What was loaded then is shown without the file.
  have hformed : ∀ steps, (after {} steps).ForallPrograms AllFormed := fun steps =>
    forallPrograms_after allFormed_of_compile (fun _ _ _ => allFormed_append)
      (forallPrograms_empty _)
  have hrepaired : (after {} templateRepaired).request? (.dumps "visit" none) = some request := by
    rw [templateRepaired, after_concat, request?_step (hformed _) (.inl rfl), hsame, hrequest]
  have hgone : (after {} templateGone).request? (.dumps "visit" none) = some request := by
    rw [templateGone, after_concat, request?_step (hformed _) (.inl rfl), after_concat,
      request?_step (hformed _) (.inr (by simp [hrepaired])), hrepaired]
  obtain ⟨-, -, hrender, -⟩ := payloads_read_once templateRepaired
  obtain ⟨found, hpackaged, hloaded, htext⟩ := ((hrender _ request hrepaired).1 _).mp hshown
  obtain ⟨-, -, hrender, -⟩ := payloads_read_once templateGone
  refine ((hrender _ request hgone).1 _).mpr ⟨found, hpackaged, fun path hpath => ?_, htext⟩
  obtain ⟨hfirst, hstays, -⟩ := payloads_read_once (templateRepaired ++ [.dumps "visit" none])
  obtain ⟨hlast, -⟩ := payloads_read_once (templateGone ++ [.dumps "visit" none])
  rw [← hlast]
  have hkept := hstays [.delete "wave.json", .dumps "visit" none] path _
    ((hfirst path).trans (hloaded path hpath))
  simpa [templateGone] using hkept

end Session

end Blockscript
