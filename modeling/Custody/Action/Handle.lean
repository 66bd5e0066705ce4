import Custody.Creation

/-! Steps on handles that take one transition.

A handle owns one reference to an object that holds a value. Creating and
cloning one retains the object; a mutable view is given out only while the
handle's reference is the only one. -/
namespace Custody.State

/-- Goes on with the object behind a handle. -/
def withHandle (handle : String) (s : State) (next : ObjectId → Outcome β) : Outcome β :=
  s.given (s.names.handles.find? handle) next

/-- Takes handles out of the table, in order. -/
def takeHandles (s : State) : List String → Option (List ObjectId × State)
  | [] => some ([], s)
  | name :: rest =>
    (s.names.handles.find? name).bind fun o =>
      ((s.forgetHandle name).takeHandles rest).map fun (os, s) => (o :: os, s)

def createHandle (handle : String) (kind : Kind) (literal : Literal) (s : State) : Outcome Answer :=
  s.given (s.takeHandles literal.childNames) fun (children, s) =>
    s.given (literal.value? kind children) fun v =>
      (s.hold v).andThen fun o s => .returned .done (s.nameHandle handle o)

/-- The label of a node. -/
def labelOf? (s : State) (o : ObjectId) : Option String :=
  match s.heap.value? o with
  | some (.node label _) => some label
  | _ => none

/-- What a value shows of itself: of a double only whether it is a NaN, of children their labels. -/
def valueAnswer? (s : State) : Value → Option Answer
  | .word n => some (.number n.toNat)
  | .unit => some .nothing
  | .double x => some (.flag x.isNaN)
  | .text t => some (.text t)
  | .integers l => some (.integers l)
  | .node label children => (children.mapM s.labelOf?).map (.node label)

/-- Assigns to the value of an object. -/
def assign (o : ObjectId) (literal : Literal) (s : State) : Option State :=
  (s.heap.value? o).bind fun v => (v.updated? literal).map fun v =>
    s.onHeap (·.setContents o (.value v))

/-- Assigns through a handle's mutable view, if there is one. -/
def setHandle (o : ObjectId) (literal : Literal) (s : State) : Outcome Answer :=
  (s.isUnique o).andThen fun unique s =>
    if unique then
      s.given (s.assign o literal) fun s => .returned (.flag true) s
    else .returned (.flag false) s

/-- Moves a handle to the end of a node's children, if there is a mutable view. -/
def pushChild (o : ObjectId) (child : String) (s : State) : Outcome Answer :=
  (s.isUnique o).andThen fun unique s =>
    if unique then
      s.withHandle child fun c =>
        match s.heap.value? o with
        | some (.node label children) =>
          .returned (.flag true)
            ((s.onHeap (·.setContents o (.value (.node label (children ++ [c]))))).forgetHandle child)
        | _ => .halted .malformed s
    else .returned (.flag false) s

def equalAnswer (a b : ObjectId) (s : State) : Outcome Answer :=
  s.given (s.heap.fullImage? a) fun x => s.given (s.heap.fullImage? b) fun y =>
    .returned (.flag (x.same y)) s

def performHandle (s : State) : HandleAction → Outcome Answer
  | .create handle kind literal => s.createHandle handle kind literal
  | .clone handle copy =>
    s.withHandle handle fun o => (s.retain o).andThen fun _ s => .returned .done (s.nameHandle copy o)
  | .get handle =>
    s.withHandle handle fun o => s.given (s.heap.value? o) fun v =>
      s.given (s.valueAnswer? v) fun answer => .returned answer s
  | .count handle => s.withHandle handle fun o => (s.count o).map fun n => .number n.toNat
  | .isUnique handle => s.withHandle handle fun o => (s.isUnique o).map .flag
  | .set handle literal => s.withHandle handle fun o => s.setHandle o literal
  | .push handle child => s.withHandle handle fun o => s.pushChild o child
  | .equal handle other =>
    s.withHandle handle fun a => s.withHandle other fun b => s.equalAnswer a b
  | .sameObject handle other =>
    s.withHandle handle fun a => s.withHandle other fun b => .returned (.flag (a == b)) s
  | .write handle form =>
    s.withHandle handle fun o => s.given (s.heap.fullImage? o) fun image =>
      s.given (image.written? form) fun text => .returned (.text text) s
  | .intoObject handle name =>
    s.withHandle handle fun o => .returned .done ((s.forgetHandle handle).nameObject name o)
  | .asObject handle name => s.withHandle handle fun o => .returned .done (s.nameObject name o)
  | .fromObject name handle =>
    s.given (s.names.objects.find? name) fun o => .returned .done (s.nameHandle handle o)

end Custody.State
