/-! The written form of structured values: sequences and records around atoms.

`inline` writes a value on one line. `indented` gives every element and field a
line of its own, four spaces deeper than what holds it and with a comma behind.
An empty sequence and a record without fields stay on one line in both. -/
namespace Custody.Text

inductive Shape where
  | atom (text : String)
  | sequence (elements : List Shape)
  /-- The labels name the fields one for one. An elided record has more fields than it shows. -/
  | record (name : String) (labels : List String) (fields : List Shape) (elided : Bool)

namespace Shape

/-- A record with all of its fields shown. -/
def full (name : String) (fields : List (String × Shape)) : Shape :=
  .record name (fields.map (·.1)) (fields.map (·.2)) false

mutual

def inline : Shape → String
  | .atom text => text
  | .sequence elements => "[" ++ ", ".intercalate (inlineEach elements) ++ "]"
  | .record name labels fields elided =>
    let parts := List.zipWith (fun label field => label ++ ": " ++ field) labels (inlineEach fields)
      ++ if elided then [".."] else []
    if parts.isEmpty then name else name ++ " \x7b " ++ ", ".intercalate parts ++ " \x7d"

def inlineEach : List Shape → List String
  | [] => []
  | shape :: rest => shape.inline :: inlineEach rest

end

/-- The start of a line at a depth. -/
def margin (depth : Nat) : String :=
  String.ofList (List.replicate (4 * depth) ' ')

/-- Opening and closing marks around lines one step deeper. -/
def block (depth : Nat) (opening closing : String) (lines : List String) : String :=
  opening ++ "\n" ++ String.join (lines.map fun line => margin (depth + 1) ++ line ++ "\n") ++
    margin depth ++ closing

mutual

/-- The value as it stands at a depth; its first line has no margin. -/
def indentedAt (depth : Nat) : Shape → String
  | .atom text => text
  | .sequence elements =>
    if elements.isEmpty then "[]"
    else block depth "[" "]" ((indentedEach (depth + 1) elements).map (· ++ ","))
  | .record name labels fields elided =>
    let lines :=
      List.zipWith (fun label field => label ++ ": " ++ field ++ ",") labels
        (indentedEach (depth + 1) fields) ++ if elided then [".."] else []
    if lines.isEmpty then name else block depth (name ++ " \x7b") "\x7d" lines

def indentedEach (depth : Nat) : List Shape → List String
  | [] => []
  | shape :: rest => shape.indentedAt depth :: indentedEach depth rest

end

def indented (shape : Shape) : String :=
  shape.indentedAt 0

end Shape
end Custody.Text
