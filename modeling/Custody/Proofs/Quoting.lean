import Custody.Proofs.JsonLines
import Custody.Text.Quoted

/-! Quoted texts, read back.

A reader that goes through a quoted text character by character finds what was quoted and where
it ends (`unquote?_quotedChars`). So no two texts are quoted alike, and nothing that a text holds
can end its quotation early. Every control character is written as an escape, so a quoted text
stays on its line. -/
namespace Custody.Text

/-! ### The reader -/

/-- Where a reader is in a quoted text; a code point has been read up to some value. -/
inductive Reading where
  | text
  | escape
  | brace
  | codePoint (value : Nat)

/-- What a character stands for behind a backslash. -/
def shortEscape? : Char → Option Char
  | '"' => some '"'
  | '\\' => some '\\'
  | 't' => some '\t'
  | 'n' => some '\n'
  | 'r' => some '\r'
  | '0' => some '\x00'
  | _ => none

/-- The characters up to the closing quote, and the text behind it. -/
def readQuoted? : Reading → List Char → Option (List Char × List Char)
  | _, [] => none
  | .text, c :: rest =>
    if c = '"' then some ([], rest)
    else if c = '\\' then readQuoted? .escape rest
    else (readQuoted? .text rest).map fun (s, r) => (c :: s, r)
  | .escape, c :: rest =>
    if c = 'u' then readQuoted? .brace rest
    else (shortEscape? c).bind fun d => (readQuoted? .text rest).map fun (s, r) => (d :: s, r)
  | .brace, c :: rest => if c = '\x7b' then readQuoted? (.codePoint 0) rest else none
  | .codePoint value, c :: rest =>
    if c = '\x7d' then (readQuoted? .text rest).map fun (s, r) => (Char.ofNat value :: s, r)
    else (Document.hexValue? c).bind fun d => readQuoted? (.codePoint (16 * value + d)) rest

/-- The text that stands in quotes at the beginning, and what follows it. -/
def unquote? : List Char → Option (List Char × List Char)
  | '"' :: rest => readQuoted? .text rest
  | _ => none

/-! ### Reading what was quoted -/

variable {s r : List Char} {c : Char}

theorem readQuoted?_digits {ds : List Char} {value n : Nat}
    (h : ds.foldlM (fun high c => (Document.hexValue? c).map (16 * high + ·)) value = some n) :
    readQuoted? (.codePoint value) (ds ++ '\x7d' :: s) =
      (readQuoted? .text s).map fun (t, r) => (Char.ofNat n :: t, r) := by
  induction ds generalizing value with
  | nil =>
    cases h
    rfl
  | cons c ds ih =>
    rw [List.foldlM_cons] at h
    obtain ⟨value', hvalue, h⟩ := Option.bind_eq_some_iff.1 h
    obtain ⟨d, hd, rfl⟩ := Option.map_eq_some_iff.1 hvalue
    have hc : c ≠ '\x7d' := by
      rintro rfl
      cases hd
    rw [List.cons_append, readQuoted?, if_neg hc, hd, Option.bind_some, ih h]

theorem readQuoted?_codePointEscape (c : Char) (s : List Char) :
    readQuoted? .text (codePointEscape c ++ s) =
      (readQuoted? .text s).map fun (t, r) => (c :: t, r) := by
  have hdigits := readQuoted?_digits (s := s) (Log.hexNumber?_toDigits c.toNat)
  rw [Char.ofNat_toNat] at hdigits
  have hescape : codePointEscape c ++ s =
      '\\' :: 'u' :: '\x7b' :: (Nat.toDigits 16 c.toNat ++ '\x7d' :: s) := by
    simp [codePointEscape]
  rw [hescape]
  exact hdigits

/-- One character is read, whichever way it is written. -/
theorem readQuoted?_quotedChar (c : Char) (s : List Char) :
    readQuoted? .text (quotedChar c ++ s) =
      (readQuoted? .text s).map fun (t, r) => (c :: t, r) := by
  unfold quotedChar
  split
  · next hc => subst hc; rfl
  split
  · next hc => subst hc; rfl
  split
  · next hc => subst hc; rfl
  split
  · next hc => subst hc; rfl
  split
  · next hc => subst hc; rfl
  split
  · next hc => subst hc; rfl
  split
  · exact readQuoted?_codePointEscape c s
  · next hquote hbackslash _ _ _ _ _ =>
    show readQuoted? .text (c :: s) = _
    rw [readQuoted?, if_neg hquote, if_neg hbackslash]

theorem readQuoted?_flatMap (s r : List Char) :
    readQuoted? .text (s.flatMap quotedChar ++ '"' :: r) = some (s, r) := by
  induction s with
  | nil => rfl
  | cons c s ih => rw [List.flatMap_cons, List.append_assoc, readQuoted?_quotedChar, ih]; rfl

/-- **A quoted text is read back**, whatever follows it. -/
theorem unquote?_quotedChars (s r : List Char) : unquote? (quotedChars s ++ r) = some (s, r) := by
  have hopened : quotedChars s ++ r = '"' :: (s.flatMap quotedChar ++ '"' :: r) := by
    simp [quotedChars]
  rw [hopened]
  exact readQuoted?_flatMap s r

/-! ### On one line -/

theorem isUnprintable_of_isControl (h : Log.isControl c = true) : isUnprintable c = true := by
  simp only [Log.isControl, Bool.or_eq_true, Bool.and_eq_true, decide_eq_true_eq] at h
  refine List.any_eq_true.2 ?_
  rcases h with hlow | ⟨hle, hlt⟩
  · exact ⟨(0x0, 0x1F), .head _, by simp; omega⟩
  · exact ⟨(0x7F, 0xA0), .tail _ (.head _), by simp; omega⟩

theorem visible_codePointEscape (c : Char) : (codePointEscape c).any Log.isControl = false := by
  have hdigit : ∀ n < 16, Log.isControl (Nat.digitChar n) = false := by decide
  have hdigits : (Nat.toDigits 16 c.toNat).any Log.isControl = false :=
    List.any_eq_false.2 fun d hd => by
      obtain ⟨n, hn, rfl⟩ := Log.eq_digitChar_of_mem_toDigits (by decide) c.toNat hd
      exact Bool.eq_false_iff.1 (hdigit n hn)
  unfold codePointEscape
  rw [List.any_append, List.any_append, hdigits]
  rfl

theorem visible_quotedChar (c : Char) : (quotedChar c).any Log.isControl = false := by
  unfold quotedChar
  split
  · rfl
  split
  · rfl
  split
  · rfl
  split
  · rfl
  split
  · rfl
  split
  · rfl
  split
  · exact visible_codePointEscape c
  · next hprintable =>
    have hcontrol : Log.isControl c = false := Bool.eq_false_iff.2 fun hcontrol => hprintable (by
      rw [isUnprintable_of_isControl hcontrol, Bool.or_true])
    rw [List.any_cons, hcontrol]
    rfl

theorem visible_quoted (s : String) : Log.Entry.Visible (quoted s) := by
  have hquote : Log.isControl '"' = false := rfl
  intro d hd
  rw [quoted, String.toList_ofList, quotedChars, List.mem_cons, List.mem_append,
    List.mem_singleton] at hd
  rcases hd with rfl | hd | rfl
  · exact hquote
  · obtain ⟨c, -, hd⟩ := List.mem_flatMap.1 hd
    exact Bool.eq_false_iff.2 (List.any_eq_false.1 (visible_quotedChar c) d hd)
  · exact hquote

end Custody.Text
