import Custody.Counting

/-! Steps on objects and cells: queries, hand-made changes, and raw access to payloads. -/
namespace Custody

/-- What the exported functions are called, as faults name them. -/
def CountCall.exportName : CountCall → String
  | retain => "rcbox_retain"
  | release => "rcbox_release"

namespace State

/-- Goes on with a named object. -/
def withObject (name : String) (s : State) (next : ObjectId → Outcome β) : Outcome β :=
  s.given (s.names.objects.find? name) next

/-- Goes on with the object that is handed to an exported function; no name stands for null. -/
def withInstance (exportName : String) (name : Option String) (s : State)
    (next : ObjectId → Outcome β) : Outcome β :=
  match name with
  | some name => s.withObject name next
  | none => s.report (.nullInstance exportName)

/-- A cell under its guard. -/
def guardView (cell : Cell) (form : Text.Shape → String) : GuardView :=
  ⟨cell.count, cell.finalizer.isSome, cell.locked, form cell.shape⟩

/-- Looks at an object's cell under its guard, and at its lock once the guard is gone. -/
def guard (o : ObjectId) (s : State) : Outcome Answer :=
  s.given (s.heap.link? o) fun c =>
    (s.lock c).andThen fun cell s =>
      let s := s.unlock c
      s.given (s.heap.cell? c) fun after =>
        .returned (.guarded (guardView cell Text.Shape.inline)
          (some (after.locked, after.shape.inline))) s

def guardCell (c : CellId) (s : State) : Outcome Answer :=
  (s.lock c).andThen fun cell s =>
    .returned (.guarded (guardView cell Text.Shape.indented) none) (s.unlock c)

def uniqueAnswer (via : Convention) (b : Bool) : Answer :=
  match via with
  | .native => .flag b
  | .foreign => .number b.toNat

theorem uniqueAnswer_foreign (p : Prop) [Decidable p] :
    uniqueAnswer .foreign (decide p) = .number (if p then 1 else 0) :=
  congrArg Answer.number (apply_ite Bool.toNat p true false)

def performObject (s : State) : ObjectAction → Outcome Answer
  | .count name via =>
    Outcome.through via <| s.withInstance "rcbox_retain_count" name fun o =>
      (s.count o).map fun n => .number n.toNat
  | .isUnique name via =>
    Outcome.through via <| s.withInstance "rcbox_is_uniquely_referenced" name fun o =>
      (s.isUnique o).map (uniqueAnswer via)
  | .isDeallocated name =>
    s.withObject name fun o => .returned (.flag (s.heap.link? o).isNone) s
  | .hasCell name => s.withObject name fun o => .returned (.flag (s.heap.link? o).isSome) s
  | .resolve name => s.withObject name fun o => (s.resolve o).map fun _ => .resolved
  | .slotIsNull name => s.withObject name fun o => .returned (.flag (s.heap.link? o).isNone) s
  | .clearSlot name =>
    s.withObject name fun o => .returned .done (s.onHeap (·.setLink o none))
  | .offsets name =>
    s.withObject name fun _ =>
      let payload := Layout.payloadOf 0
      .returned (.offsets (payload - Layout.baseOf payload)
        (Layout.payloadOf (Layout.baseOf payload) == payload)) s
  | .guard name => s.withObject name fun o => s.guard o
  | .forceCount name count =>
    s.withObject name fun o => s.given (s.heap.link? o) fun c =>
      .returned .done (s.onHeap (·.setCount c count))
  | .write name start bytes =>
    s.withObject name fun o => s.given (s.heap.object? o) fun object =>
      .returned .done (s.onHeap (·.setContents o (object.contents.write start bytes)))
  | .read name start length =>
    s.withObject name fun o => s.given (s.heap.object? o) fun object =>
      .returned (.integers ((object.contents.read start length).map fun b => b.toNat)) s
  | .guardCell name => s.given (s.names.cells.find? name) fun c => s.guardCell c
  | .freeCell name =>
    s.given (s.names.cells.find? name) fun c =>
      .returned .done ((s.freeCell c).forgetCell name)
  | .statistics => .returned (.statistics s.statistics) s
  | .faultCount => .returned (.number s.faults.count.toNat) s

end State
end Custody
