/-! Reading bytes as UTF-8.

A sequence of bytes falls into characters and broken parts. A broken part is the
longest beginning of a character that the bytes do not complete, or one byte that
begins none; what follows it is read afresh. Strict reading (`decode?`) wants no
broken part, lenient reading (`decodeLossy`) shows each as U+FFFD. -/
namespace Custody.Text.Utf8

/-- What a leading byte announces: how many bytes follow, the least and the greatest value
of the first of them, and the bits the leading byte contributes. -/
structure Lead where
  following : Nat
  low : UInt8
  high : UInt8
  bits : Nat

/-- The bounds keep out overlong forms, surrogates and what lies beyond U+10FFFF. -/
def lead? (b : UInt8) : Option Lead :=
  if b < 0x80 then some ⟨0, 0x80, 0xBF, b.toNat⟩
  else if b < 0xC2 then none
  else if b < 0xE0 then some ⟨1, 0x80, 0xBF, b.toNat - 0xC0⟩
  else if b = 0xE0 then some ⟨2, 0xA0, 0xBF, 0⟩
  else if b = 0xED then some ⟨2, 0x80, 0x9F, 0xD⟩
  else if b < 0xF0 then some ⟨2, 0x80, 0xBF, b.toNat - 0xE0⟩
  else if b = 0xF0 then some ⟨3, 0x90, 0xBF, 0⟩
  else if b < 0xF4 then some ⟨3, 0x80, 0xBF, b.toNat - 0xF0⟩
  else if b = 0xF4 then some ⟨3, 0x80, 0x8F, 4⟩
  else none

/-- The rest of a character and the bytes after it, or the bytes after a broken part. -/
def follow : Nat → UInt8 → UInt8 → Nat → List UInt8 → Option Char × List UInt8
  | 0, _, _, bits, rest => (some (Char.ofNat bits), rest)
  | _ + 1, _, _, _, [] => (none, [])
  | n + 1, low, high, bits, b :: rest =>
    if low ≤ b ∧ b ≤ high then follow n 0x80 0xBF (64 * bits + (b.toNat - 0x80)) rest
    else (none, b :: rest)

theorem follow_length (n : Nat) (low high : UInt8) (bits : Nat) (rest : List UInt8) :
    (follow n low high bits rest).2.length ≤ rest.length := by
  induction n generalizing low high bits rest with
  | zero => simp [follow]
  | succ n ih =>
    cases rest with
    | nil => simp [follow]
    | cons b rest =>
      unfold follow
      split
      · exact Nat.le_trans (ih _ _ _ _) (by simp)
      · exact Nat.le_refl _

/-- The first character, or none for a broken part, and the bytes after it. -/
def head (b : UInt8) (rest : List UInt8) : Option Char × List UInt8 :=
  match lead? b with
  | none => (none, rest)
  | some l => follow l.following l.low l.high l.bits rest

theorem head_length (b : UInt8) (rest : List UInt8) : (head b rest).2.length ≤ rest.length := by
  unfold head
  split
  · exact Nat.le_refl _
  · exact follow_length ..

/-- Characters in order, none for each broken part. -/
def parts : List UInt8 → List (Option Char)
  | [] => []
  | b :: rest => (head b rest).1 :: parts (head b rest).2
termination_by bytes => bytes.length
decreasing_by
  have := head_length b rest
  simp only [List.length_cons]
  omega

def decode? (bytes : List UInt8) : Option String :=
  ((parts bytes).mapM id).map String.ofList

def decodeLossy (bytes : List UInt8) : String :=
  String.ofList ((parts bytes).map (·.getD '\uFFFD'))

end Custody.Text.Utf8
