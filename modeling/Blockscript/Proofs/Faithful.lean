import Blockscript.Proofs.Json.Rereading
import Blockscript.Proofs.Loading

/-!
Texts are faithful.  A value without floating-point numbers is read back from its text,
whichever the style.  The JSON of a program is of that kind if no argument is a location
or a vector and the payloads of its process calls are of that kind.
-/

namespace Blockscript

open Script (Value)

/-! ### The JSON of programs -/

def Script.Value.LacksCoordinates : Value → Prop
  | .location .. => False
  | .vector .. => False
  | _ => True

def Block.LacksCoordinates : Block → Prop
  | .instruction content => ∀ item ∈ content.items, item.value.LacksCoordinates
  | _ => True

def Program.LacksCoordinates (program : Program) : Prop :=
  ∀ routine ∈ program.routines, ∀ block ∈ routine.blocks, block.LacksCoordinates

theorem exact_renderValue {value : Value} {tag : String} {data : Json}
    (h : renderValue value = .ok (tag, data)) (hplain : value.LacksCoordinates) : data.Exact := by
  cases value with
  | text content =>
      cases h
      exact .object (by simp) (List.forall_mem_singleton.mpr (.text content))
  | number written =>
      cases h
      exact .object (by simp) (List.forall_mem_singleton.mpr (.text written))
  | reference name scope =>
      cases h
      exact .object (by simp)
        (List.forall_mem_cons.mpr ⟨.text name, List.forall_mem_singleton.mpr (.text scope)⟩)
  | location => exact hplain.elim
  | vector => exact hplain.elim
  | formless => contradiction

theorem Item.Obeys.exact {kind : String} {item : Item} (h : item.Obeys renderValue kind)
    (hplain : item.value.LacksCoordinates) : item.toJson.Exact := by
  obtain ⟨tag, hrender, -⟩ := h
  have hitem : (Json.ofFields [("id", .ofString item.tag), ("data", item.data)]).Exact :=
    .object (by simp) (List.forall_mem_cons.mpr
      ⟨.text item.tag, List.forall_mem_singleton.mpr (exact_renderValue hrender hplain)⟩)
  exact .object (by simp)
    (List.forall_mem_cons.mpr ⟨hitem, List.forall_mem_singleton.mpr (.int _)⟩)

theorem exact_argumentsJson {items : Json} (h : items.Exact) : (argumentsJson items).Exact :=
  .object (by simp) (List.forall_mem_singleton.mpr h)

theorem exact_definitionJson (kind name : String) : (definitionJson kind name).Exact := by
  have harguments := exact_argumentsJson (.array (List.forall_mem_nil _))
  refine .object (by simp) ?_
  simp only [List.forall_mem_cons]
  exact ⟨.text _, .text _, harguments, .text _, List.forall_mem_nil _⟩

theorem Block.Obeys.exact {settings : Settings} {block : Block}
    (h : block.Obeys settings renderValue) (hplain : block.LacksCoordinates)
    {payloads : Option String → Json} (hpayloads : ∀ template ∈ block.asked,
      (payloads template).Exact) : (block.jsonFrom payloads).Exact := by
  cases block with
  | instruction content =>
      have hitems : (Json.array (content.items.map Item.toJson)).Exact :=
        .array (List.forall_mem_map.mpr fun item hmem =>
          (h.items item hmem).exact (hplain item hmem))
      refine .object (by simp) ?_
      simp only [List.forall_mem_cons]
      exact ⟨.text _, .text _, exact_argumentsJson hitems, .text _, .text _, .text _, .text _,
        .text _, List.forall_mem_nil _⟩
  | event action kind =>
      have harguments := exact_argumentsJson (.array (List.forall_mem_nil _))
      refine .object (by simp) ?_
      simp only [List.forall_mem_cons]
      exact ⟨.text _, .text _, .text _, harguments, List.forall_mem_nil _⟩
  | function name kind => exact exact_definitionJson kind name
  | process name kind => exact exact_definitionJson kind name
  | functionCall name kind =>
      refine .object (by simp) ?_
      simp only [List.forall_mem_cons]
      exact ⟨.text _, .text _, .text _, List.forall_mem_nil _⟩
  | processCall name template kind =>
      have harguments := exact_argumentsJson (hpayloads template List.mem_cons_self)
      refine .object (by simp) ?_
      simp only [List.forall_mem_cons]
      exact ⟨.text _, .text _, .text _, harguments, List.forall_mem_nil _⟩
  | bracket direction shape =>
      refine .object (by simp) ?_
      simp only [List.forall_mem_cons]
      exact ⟨.text _, .text _, .text _, List.forall_mem_nil _⟩
  | formless => exact h.elim

/-- The JSON of a compiled program has neither floating-point numbers nor repeated names
but in its payloads. -/
theorem Program.exact_jsonFrom {compiler : Compiler} (hrender : compiler.render = renderValue)
    {program : Program} (hobeys : ∀ routine ∈ program.routines, routine.Obeys compiler)
    (hplain : program.LacksCoordinates) {payloads : Option String → Json}
    (hpayloads : ∀ template ∈ program.asked, (payloads template).Exact) :
    (program.jsonFrom payloads).Exact := by
  refine .array (List.forall_mem_map.mpr fun routine hroutine => ?_)
  refine .object (by simp) (List.forall_mem_singleton.mpr (.array ?_))
  refine List.forall_mem_map.mpr fun block hblock => ?_
  have hobeyed := hobeys routine hroutine block hblock
  rw [hrender] at hobeyed
  refine hobeyed.exact (hplain routine hroutine block hblock) fun template hasked => ?_
  exact hpayloads template (List.mem_flatMap.mpr
    ⟨routine, hroutine, List.mem_flatMap.mpr ⟨block, hblock, hasked⟩⟩)

/-! ### Both styles are faithful -/

theorem Json.Exact.forall_mem_compact {json : Json} (h : json.Exact) :
    ∀ c ∈ (json.write .compact).toList, Json.IsPrintable c := by
  rw [Json.write, String.toList_ofList]
  refine h.forall_mem_writeAt (fun _ hc => hc) ?_ ?_ 0
  · exact fun _ => List.forall_mem_nil _
  · exact List.forall_mem_singleton.mpr (by decide)

theorem Json.Exact.forall_mem_pretty {json : Json} (h : json.Exact) :
    ∀ c ∈ (json.write .pretty).toList, c = '\n' ∨ Json.IsPrintable c := by
  rw [Json.write, String.toList_ofList]
  refine h.forall_mem_writeAt (fun _ hc => .inr hc) ?_ ?_ 0
  · intro level
    refine List.forall_mem_cons.mpr ⟨.inl rfl, fun c hc => .inr ?_⟩
    rw [List.eq_of_mem_replicate hc]
    decide
  · simp only [Json.Style.pretty, List.forall_mem_cons]
    exact ⟨.inr (by decide), .inr (by decide), List.forall_mem_nil _⟩

theorem Json.Exact.unspaced_pretty {json : Json} (h : json.Exact) :
    Json.unspaced false (json.write .pretty).toList = (json.write .compact).toList := by
  have hsame : Json.unspaced false (Json.writeAt .pretty 0 json ++ []) =
      Json.writeAt .compact 0 json ++ [] := h.unspaces 0 0 [] Json.legible_pretty
  rw [List.append_nil, List.append_nil] at hsame
  rw [Json.write, Json.write, String.toList_ofList, String.toList_ofList, hsame]

/-- Values without floating-point numbers and repeated names are written faithfully: in
both styles they are read back as they are, with their fields in order; the texts are
printable ASCII, but for the line breaks of the pretty one; and without the blanks between
its parts the pretty text is the compact one.  Such a value is the JSON of every compiled
program without coordinates that finds such payloads for its process calls, and the texts
of the program are the texts of that value. -/
theorem write_faithful :
    (∀ json : Json, json.Exact →
      Json.read? (json.write .compact) = some json ∧
      Json.read? (json.write .pretty) = some json ∧
      (∀ c ∈ (json.write .compact).toList, Json.IsPrintable c) ∧
      (∀ c ∈ (json.write .pretty).toList, c = '\n' ∨ Json.IsPrintable c) ∧
      Json.unspaced false (json.write .pretty).toList = (json.write .compact).toList) ∧
    ∀ (settings : Settings) (source : String) (records : List LogRecord) (program : Program)
      (store : Store), compileOutcome settings source records = .ok program →
      program.LacksCoordinates →
      (∀ template ∈ program.asked,
        ∃ payload, store.payloadOf template = .ok payload ∧ payload.Exact) →
      ∃ json, program.toJson.outcome store = .ok json ∧ json.Exact ∧
        (program.dumps (some true)).outcome store = .ok (json.write .compact) ∧
        (program.dumps (some false)).outcome store = .ok (json.write .pretty) := by
  constructor
  · intro json hjson
    exact ⟨hjson.read?_write Json.legible_compact, hjson.read?_write Json.legible_pretty,
      hjson.forall_mem_compact, hjson.forall_mem_pretty, hjson.unspaced_pretty⟩
  · intro settings source records program store hcompile hplain hpayloads
    have hobeys := obeys_of_compile hcompile
    have hformed : ∀ routine ∈ program.routines, routine.IsFormed :=
      fun routine hmem => (hobeys routine hmem).isFormed
    have hhad : program.asked.findSome? store.refusal? = none := by
      refine List.findSome?_eq_none_iff.mpr fun template hasked => ?_
      obtain ⟨payload, hpayload, -⟩ := hpayloads template hasked
      rw [Store.refusal?, hpayload]
    have hexact : ∀ template ∈ program.asked, (store.given template).Exact := by
      intro template hasked
      obtain ⟨payload, hpayload, hexact⟩ := hpayloads template hasked
      rw [Store.given, hpayload]
      exact hexact
    have hsettle : ∀ {α : Type} (a : α), store.settle program.asked a = .ok a :=
      fun a => by rw [Store.settle, hhad]
    refine ⟨program.jsonFrom store.given, ?_, Program.exact_jsonFrom rfl hobeys hplain hexact,
      ?_, ?_⟩
    · rw [(Program.embeds_toJson hformed).outcome_eq, hsettle]
    · rw [(Program.embeds_dumps hformed _).outcome_eq, hsettle]
      rfl
    · rw [(Program.embeds_dumps hformed _).outcome_eq, hsettle]
      rfl

/-- A payload with a quote in a name, a character beyond the basic plane, a large integer
and an empty object. -/
def wavePayload : Json :=
  .ofFields
    [("\"", .ofString "😀"), ("n", .int (-1000000000000000000000000000000)),
     ("empty", .ofFields [])]

theorem lacksCoordinates_visit {settings : Settings} {event step : String} {blocks : List Block}
    (h : lowerRoutine settings renderValue (visitRoutine event step) = .ok blocks) :
    ∀ block ∈ blocks, block.LacksCoordinates := by
  cases h
  simp [Block.LacksCoordinates, resetSelection]

/-- An event that starts a process with that payload. -/
theorem write_faithful_visit :
    ∃ program json, compileOutcome { processTemplatePath := some "wave.json" }
        "event player.join \x7bselect pick::nil() \x7bstart wave()\x7d\x7d" [] = .ok program ∧
      program.toJson.outcome { payloads := [("wave.json", wavePayload)] } = .ok json ∧
      Json.read? (json.write .compact) = some json ∧
      Json.read? (json.write .pretty) = some json := by
  have hjoin : Script.IsName "join".toList :=
    .intro (by decide) (List.all_eq_true.mp (by decide)) (by decide)
  have hpick : Script.IsName "pick".toList :=
    .intro (by decide) (List.all_eq_true.mp (by decide)) (by decide)
  have hwave : wavePayload.Exact := by
    refine .object (by simp) ?_
    simp only [List.forall_mem_cons]
    exact ⟨.text _, .int _, .object (by simp) (List.forall_mem_nil _), List.forall_mem_nil _⟩
  obtain ⟨program, hprogram⟩ := exists_program_visit hjoin hpick
    { processTemplatePath := some "wave.json" } []
  have hcompiled := (logsSettled_compile _ (parse_visit hjoin hpick) []).of_ok hprogram
  have hplain : program.LacksCoordinates := by
    intro routine hmem block hblock
    obtain ⟨found, rest, hfound, hrest, hroutines⟩ := List.forall₂_cons_left_iff.mp hcompiled
    obtain rfl := List.forall₂_nil_left_iff.mp hrest
    rw [hroutines] at hmem
    obtain rfl := List.mem_singleton.mp hmem
    exact lacksCoordinates_visit hfound.lowered block hblock
  obtain ⟨json, hjson, hexact, -⟩ := write_faithful.2 _ _ _ program
    { payloads := [("wave.json", wavePayload)] } hprogram hplain (by
      intro template hasked
      obtain ⟨routine, hmem, htemplate⟩ := List.mem_flatMap.mp hasked
      obtain rfl := (obeys_of_compile hprogram routine hmem).eq_of_mem_asked htemplate
      exact ⟨wavePayload, rfl, hwave⟩)
  obtain ⟨hcompact, hpretty, -⟩ := write_faithful.1 json hexact
  exact ⟨program, json, hprogram, hjson, hcompact, hpretty⟩

end Blockscript
