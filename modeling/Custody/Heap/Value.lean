import Custody.Decimal.Shortest
import Custody.Text.Aligned
import Custody.Text.Quoted
import Custody.Text.Shape

/-! The values that handles hold, and what they look like.

A node refers to its children by the objects that hold them. Its image is the
same value with every child in place of its object: equality and written form
are defined on images. -/
namespace Custody

/-- Objects and cells are numbered in order of creation. -/
abbrev ObjectId := Nat
abbrev CellId := Nat

inductive Kind where
  | word
  | unit
  | double
  | text
  | integers
  | node
  deriving DecidableEq, Repr

/-- The size of a value in its payload. -/
def Kind.size : Kind → UInt64
  | word => 8
  | unit => 0
  | double => 8
  | text => 24
  | integers => 24
  | node => 48

/-- Whether a value owns something that has to be dropped with it. -/
def Kind.owning : Kind → Bool
  | word | unit | double => false
  | text | integers | node => true

inductive Value where
  | word (n : UInt64)
  | unit
  | double (x : Double)
  | text (s : String)
  | integers (l : List Int)
  | node (label : String) (children : List ObjectId)
  deriving DecidableEq, Repr

def Value.kind : Value → Kind
  | word _ => .word
  | unit => .unit
  | double _ => .double
  | text _ => .text
  | integers _ => .integers
  | node _ _ => .node

/-- The handles inside a value. -/
def Value.children : Value → List ObjectId
  | node _ children => children
  | _ => []

/-- A value as it is written in a script: what it means depends on the kind it is for. -/
inductive Literal where
  | unit
  /-- `mantissa / 10 ^ places` -/
  | number (mantissa : Int) (places : Nat)
  | text (s : String)
  | integers (l : List Int)
  | node (label : String) (children : List String)

namespace Literal

def word? : Literal → Option UInt64
  | number (.ofNat n) 0 => if n < UInt64.size then some (UInt64.ofNat n) else none
  | _ => none

/-- Numbers that are not finite, and the negative zero, are written as texts. -/
def double? : Literal → Option Double
  | number mantissa places => some (.ofDecimal mantissa places)
  | text "NaN" => some .nan
  | text "inf" => some .infinity
  | text "-inf" => some .negativeInfinity
  | text "-0" => some .negativeZero
  | _ => none

def text? : Literal → Option String
  | text s => some s
  | _ => none

def integers? : Literal → Option (List Int)
  | integers l => some l
  | _ => none

def label? : Literal → Option String
  | node label _ => some label
  | _ => none

/-- The value of a kind, the children of a node being given. -/
def value? (kind : Kind) (children : List ObjectId) (l : Literal) : Option Value :=
  match kind with
  | .word => l.word?.map .word
  | .unit => some .unit
  | .double => l.double?.map .double
  | .text => l.text?.map .text
  | .integers => l.integers?.map .integers
  | .node => l.label?.map (.node · children)

def childNames : Literal → List String
  | node _ children => children
  | _ => []

end Literal

/-- The value after an assignment through a handle: numbers are replaced, texts and lists grow, a
node takes a new label. -/
def Value.updated? (v : Value) (l : Literal) : Option Value :=
  match v with
  | .word _ => l.word?.map .word
  | .unit => some .unit
  | .double _ => l.double?.map .double
  | .text s => l.text?.map fun more => .text (s ++ more)
  | .integers xs => l.integers?.map fun more => .integers (xs ++ more)
  | .node _ children => l.text?.map (.node · children)

/-- A value with the children in place. -/
inductive Image where
  | word (n : UInt64)
  | unit
  | double (x : Double)
  | text (s : String)
  | integers (l : List Int)
  | node (label : String) (children : List Image)

namespace Image

mutual

/-- Equality of values; two doubles are equal as numbers. -/
def same : Image → Image → Bool
  | .word m, .word n => m == n
  | .unit, .unit => true
  | .double x, .double y => x.same y
  | .text s, .text t => s == t
  | .integers k, .integers l => k == l
  | .node label children, .node label' children' =>
    label == label' && sameEach children children'
  | _, _ => false

def sameEach : List Image → List Image → Bool
  | [], [] => true
  | a :: as, b :: bs => a.same b && sameEach as bs
  | _, _ => false

end

mutual

def shape : Image → Text.Shape
  | .word n => .atom (toString n.toNat)
  | .unit => .atom "()"
  | .double x => .atom x.text
  | .text s => .atom (Text.quoted s)
  | .integers l => .sequence (l.map fun i => .atom (toString i))
  | .node label children =>
    .full "Node" [("label", .atom (Text.quoted label)), ("children", .sequence (shapes children))]

def shapes : List Image → List Text.Shape
  | [] => []
  | image :: rest => image.shape :: shapes rest

end

end Image

/-- The ways to write a value out. -/
inductive Writing where
  | inline
  | indented
  /-- The plain text of a word or a text. -/
  | plain
  /-- A sample of field widths, alignments, signs and cuts. -/
  | padded
  /-- The structured form of a word under width and layout flags. -/
  | flagged
  deriving DecidableEq, Repr

/-- Cells of a sample, in brackets. -/
def sampleRow (cells : List String) : String :=
  "[" ++ "|".intercalate cells ++ "]"

/-- The value in a form, if its kind has that form. -/
def Image.written? (image : Image) (form : Writing) : Option String :=
  match form, image with
  | .inline, image => some image.shape.inline
  | .indented, image => some image.shape.indented
  | .plain, .word n => some (toString n.toNat)
  | .plain, .text s => some s
  | .padded, .word n =>
    let numeral := toString n.toNat
    some (sampleRow [Text.aligned .right 8 ' ' numeral, Text.aligned .left 8 ' ' numeral,
      Text.aligned .center 8 ' ' numeral, Text.zeroPadded 8 numeral, "+" ++ numeral])
  | .padded, .text s =>
    some (sampleRow [Text.aligned .right 8 ' ' s, Text.aligned .left 8 ' ' s,
      Text.aligned .center 8 ' ' s, Text.aligned .center 9 '*' s,
      String.ofList (s.toList.take 3)])
  | .flagged, .word n =>
    let numeral := toString n.toNat
    some (sampleRow [Text.zeroPadded 8 numeral, numeral])
  | _, _ => none

end Custody
