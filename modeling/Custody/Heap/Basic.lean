import Custody.Script.Step

/-! Objects and the cells that govern them.

A cell holds an object's retain count, its lock and its finalizer. The slot in
front of the payload links the object to its cell; an object whose slot is null
has been deallocated, and its region stays readable. Cells and objects are
separate: a slot can be cleared or overwritten by hand, and a cell can stand
alone. -/
namespace Custody

/-- What a cell runs when its object's last reference is released. -/
inductive Finalizer where
  | routine (r : Routine Step)
  /-- Drops the value in the payload. -/
  | dropValue

structure Cell where
  count : UInt32 := 0
  locked : Bool := false
  finalizer : Option Finalizer := none

/-- The largest retain count. -/
def maxCount : UInt32 := 0xFFFFFFFF

/-- What lies in a payload: bytes, up to which all further ones are zero, a value, or the remains
of a value that was dropped. -/
inductive Contents where
  | bytes (b : List UInt8)
  | value (v : Value)
  | remains
  deriving DecidableEq, Repr

structure Object where
  size : UInt64
  link : Option CellId
  contents : Contents
  deriving DecidableEq, Repr

structure Heap where
  objects : List Object := []
  /-- A cell that has been freed leaves its place empty. -/
  cells : List (Option Cell) := []

/-! ### Written form of cells -/

/-- A cell as a structured value; count and finalizer need the lock and are not shown. -/
def Cell.shape (cell : Cell) : Text.Shape :=
  .record "RefCountBox" ["locked"] [.atom (if cell.locked then "true" else "false")] true

/-! ### Contents -/

namespace Contents

/-- A word as bytes, the lowest first. -/
def bytesOfWord (n : UInt64) : List UInt8 :=
  (List.range 8).map fun i => UInt8.ofNat (n.toNat >>> (8 * i))

def wordOfBytes (b : List UInt8) : UInt64 :=
  UInt64.ofNat ((b.take 8).foldr (fun byte high => byte.toNat + 256 * high) 0)

/-- The bytes of contents that have a fixed form. -/
def toBytes : Contents → List UInt8
  | bytes b => b
  | value (.word n) => bytesOfWord n
  | value (.double x) => bytesOfWord x.bits
  | value _ => []
  | remains => []

/-- The value that a handle finds; bytes are taken for a word. -/
def toValue? : Contents → Option Value
  | bytes b => some (.word (wordOfBytes b))
  | value v => some v
  | remains => none

def read (c : Contents) (start length : Nat) : List UInt8 :=
  (List.range length).map fun i => c.toBytes.getD (start + i) 0

/-- Bytes laid over others, with zeros in between where there were none. -/
def overlay (b : List UInt8) (start : Nat) (new : List UInt8) : List UInt8 :=
  b.take start ++ List.replicate (start - b.length) 0 ++ new ++ b.drop (start + new.length)

def write (c : Contents) (start : Nat) (new : List UInt8) : Contents :=
  match c with
  | bytes b => bytes (overlay b start new)
  | value (.word n) => value (.word (wordOfBytes (overlay (bytesOfWord n) start new)))
  | value (.double x) => value (.double ⟨wordOfBytes (overlay (bytesOfWord x.bits) start new)⟩)
  | other => other

end Contents

/-! ### Looking things up -/

namespace Heap

def object? (h : Heap) (o : ObjectId) : Option Object :=
  h.objects[o]?

def cell? (h : Heap) (c : CellId) : Option Cell :=
  h.cells[c]?.join

/-- The cell in an object's slot. -/
def link? (h : Heap) (o : ObjectId) : Option CellId :=
  (h.object? o).bind (·.link)

/-- The cell that governs an object. -/
def governing? (h : Heap) (o : ObjectId) : Option Cell :=
  (h.link? o).bind h.cell?

def value? (h : Heap) (o : ObjectId) : Option Value :=
  (h.object? o).bind (·.contents.toValue?)

/-- The value of an object with all of its children in place, `depth` levels of them at most. -/
def image? (h : Heap) : Nat → ObjectId → Option Image
  | 0, _ => none
  | depth + 1, o =>
    (h.value? o).bind fun
      | .word n => some (.word n)
      | .unit => some .unit
      | .double x => some (.double x)
      | .text s => some (.text s)
      | .integers l => some (.integers l)
      | .node label children => (children.mapM (h.image? depth)).map (.node label)

/-- In a heap without cycles no chain of children is longer than the list of objects. -/
def fullImage? (h : Heap) (o : ObjectId) : Option Image :=
  h.image? h.objects.length o

/-! ### Changes -/

def updateCell (c : CellId) (f : Cell → Cell) (h : Heap) : Heap :=
  {h with cells := h.cells.modify c (Option.map f)}

def updateObject (o : ObjectId) (f : Object → Object) (h : Heap) : Heap :=
  {h with objects := h.objects.modify o f}

def setLocked (c : CellId) (locked : Bool) : Heap → Heap :=
  updateCell c fun cell => {cell with locked}

def setCount (c : CellId) (count : UInt32) : Heap → Heap :=
  updateCell c fun cell => {cell with count}

/-- Takes the finalizer out of a cell, so that it runs once at most. -/
def takeFinalizer (c : CellId) : Heap → Heap :=
  updateCell c fun cell => {cell with finalizer := none}

def freeCell (c : CellId) (h : Heap) : Heap :=
  {h with cells := h.cells.set c none}

def setLink (o : ObjectId) (link : Option CellId) : Heap → Heap :=
  updateObject o fun object => {object with link}

def setContents (o : ObjectId) (contents : Contents) : Heap → Heap :=
  updateObject o fun object => {object with contents}

/-- A new cell with count 0. -/
def addCell (finalizer : Option Finalizer) (h : Heap) : CellId × Heap :=
  (h.cells.length, {h with cells := h.cells ++ [some {finalizer}]})

/-- A new object with a cell of its own. -/
def addObject (size : UInt64) (contents : Contents) (finalizer : Option Finalizer) (h : Heap) :
    ObjectId × Heap :=
  let (c, h) := h.addCell finalizer
  (h.objects.length, {h with objects := h.objects ++ [⟨size, some c, contents⟩]})

end Heap
end Custody
