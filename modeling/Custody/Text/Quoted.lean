import Custody.Text.GraphemeExtend
import Custody.Text.Numeral
import Custody.Text.Unprintable

/-! Texts in double quotes, on one line and with every character visible.

The quote, the backslash, tab, line feed, carriage return and NUL have short
escapes. Any other character without a printed form, and any character that
would attach to the one before it, is written by its code point. -/
namespace Custody.Text

/-- A code point in braces, in base sixteen. -/
def codePointEscape (c : Char) : List Char :=
  ['\\', 'u', '\x7b'] ++ Nat.toDigits 16 c.toNat ++ ['\x7d']

def quotedChar (c : Char) : List Char :=
  if c = '"' then ['\\', '"']
  else if c = '\\' then ['\\', '\\']
  else if c = '\t' then ['\\', 't']
  else if c = '\n' then ['\\', 'n']
  else if c = '\r' then ['\\', 'r']
  else if c = '\x00' then ['\\', '0']
  else if isGraphemeExtend c || isUnprintable c then codePointEscape c
  else [c]

def quotedChars (s : List Char) : List Char :=
  '"' :: (s.flatMap quotedChar ++ ['"'])

def quoted (s : String) : String :=
  String.ofList (quotedChars s.toList)

end Custody.Text
