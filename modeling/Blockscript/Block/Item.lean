import Blockscript.Fault

/-!
Chest items: argument values rendered and placed in the slots of the chest above a block.
-/

namespace Blockscript

open Script (Value)

abbrev Slot : Type :=
  Fin (lastSlot + 1)

/-- A value in its slot, with the tag and the data of its rendering. -/
structure Item where
  tag : String
  slot : Slot
  value : Value
  data : Json
deriving BEq, Repr

/-- How values are rendered: a tag and data. -/
abbrev Renderer : Type :=
  Value → Except Fault (String × Json)

/-- The data of coordinates under their names. -/
def coordinates (fields : List (String × Double)) : Json :=
  .ofFields (fields.map fun field => (field.1, .number field.2))

def renderValue : Renderer
  | .text content => .ok ("txt", .ofFields [("name", .ofString content)])
  | .number written => .ok ("num", .ofFields [("name", .ofString written)])
  | .reference name scope =>
      .ok ("var", .ofFields [("name", .ofString name), ("scope", .ofString scope)])
  | .location x y z pitch yaw =>
      .ok ("loc", .ofFields
        [("isBlock", .bool false),
         ("loc", coordinates [("x", x), ("y", y), ("z", z), ("pitch", pitch), ("yaw", yaw)])])
  | .vector x y z => .ok ("vec", coordinates [("x", x), ("y", y), ("z", z)])
  | .formless => .error .formlessValue

namespace Item

/-- The slot of a number within the chest. -/
def slotOf (n : Int) : Except Fault Slot :=
  if h : 0 ≤ n ∧ n ≤ lastSlot then .ok ⟨n.toNat, by omega⟩ else .error (.slotOutside n)

/-- Place a value in a slot.  The slot is checked before the value is rendered. -/
def make (render : Renderer) (value : Value) (slot : Int) : Except Fault Item := do
  let slot ← slotOf slot
  let (tag, data) ← render value
  return { tag, slot, value, data }

/-- Place values in consecutive slots. -/
def row (render : Renderer) : List Value → Int → Except Fault (List Item)
  | [], _ => .ok []
  | value :: values, slot => do
      let item ← make render value slot
      let items ← row render values (slot + 1)
      return item :: items

/-- The variable that an instruction works on: in the first slot, and tagged as a variable however
it is rendered. -/
def subject (render : Renderer) (target : Value) : Except Fault Item := do
  let (_, data) ← render target
  return { tag := "var", slot := 0, value := target, data }

/-- The slot of the first argument when the first slot is taken. -/
def secondSlot : Int := 1

/-- The variable in the first slot and the arguments after it. -/
def rowAfter (render : Renderer) (target : Value) (values : List Value) :
    Except Fault (List Item) := do
  let first ← subject render target
  let items ← row render values secondSlot
  return first :: items

def toJson (item : Item) : Json :=
  .ofFields
    [("item", .ofFields [("id", .ofString item.tag), ("data", item.data)]),
     ("slot", .int item.slot.val)]

end Item

end Blockscript
