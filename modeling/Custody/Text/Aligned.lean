/-! Texts set in a field of a least width, counted in characters. -/
namespace Custody.Text

inductive Alignment where
  | left
  | right
  | center
  deriving DecidableEq, Repr

/-- How many of the missing characters go in front. In the middle of a field the odd one
goes behind. -/
def Alignment.before (missing : Nat) : Alignment → Nat
  | .left => 0
  | .right => missing
  | .center => missing / 2

/-- The text in a field of `width` characters, the rest of it `fill`. -/
def aligned (how : Alignment) (width : Nat) (fill : Char) (s : String) : String :=
  let missing := width - s.length
  let before := how.before missing
  String.ofList (List.replicate before fill) ++ s ++
    String.ofList (List.replicate (missing - before) fill)

end Custody.Text
