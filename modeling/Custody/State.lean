import Custody.Allocation.Registry
import Custody.Bindings
import Custody.Heap.Basic
import Custody.Script.Answer

/-! The state of a process, field by field: no field is read or written through
another, so what an operation leaves alone can be said per field. -/
namespace Custody

/-- What the names in a script stand for. -/
structure Names where
  objects : Bindings ObjectId := []
  handles : Bindings ObjectId := []
  cells : Bindings CellId := []
  allocators : Bindings AllocatorId := []

structure State where
  heap : Heap := {}
  statistics : Statistics := {}
  logger : Log.Logger := {}
  faults : FaultHandling := {}
  allocators : Allocators := {}
  environment : Environment := []
  configuration : Option Configuration := none
  names : Names := {}
  /-- Newest first. -/
  events : List Event := []

namespace State

def log (entry : Log.Entry) (s : State) : State :=
  {s with logger := s.logger.emit entry}

def observe (event : Event) (s : State) : State :=
  {s with events := event :: s.events}

def onHeap (f : Heap → Heap) (s : State) : State :=
  {s with heap := f s.heap}

def onStatistics (f : Statistics → Statistics) (s : State) : State :=
  {s with statistics := f s.statistics}

def onLogger (f : Log.Logger → Log.Logger) (s : State) : State :=
  {s with logger := f s.logger}

def onNames (f : Names → Names) (s : State) : State :=
  {s with names := f s.names}

def nameObject (name : String) (o : ObjectId) : State → State :=
  onNames fun n => {n with objects := n.objects.bind name o}

def nameHandle (name : String) (o : ObjectId) : State → State :=
  onNames fun n => {n with handles := n.handles.bind name o}

def nameCell (name : String) (c : CellId) : State → State :=
  onNames fun n => {n with cells := n.cells.bind name c}

def nameAllocator (name : String) (i : AllocatorId) : State → State :=
  onNames fun n => {n with allocators := n.allocators.bind name i}

def forgetHandle (name : String) : State → State :=
  onNames fun n => {n with handles := n.handles.remove name}

def forgetCell (name : String) : State → State :=
  onNames fun n => {n with cells := n.cells.remove name}

end State
end Custody
