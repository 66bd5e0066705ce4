import Custody.Address
import Custody.Log.Level

/-! Log entries: a level, a message, and named values, with a plain text form.

A plain line starts with the time in seconds, the level set to five characters
and the target in brackets; the fields follow the message in braces. Nothing is
escaped. -/
namespace Custody.Log

inductive Value where
  | text (s : String)
  | integer (i : Int)
  | natural (n : UInt64)
  | address (a : Address)
  | flag (b : Bool)
  deriving DecidableEq, Repr

def Value.plain : Value → String
  | text s => s
  | integer i => toString i
  | natural n => toString n.toNat
  | address a => a.text
  | flag b => if b then "true" else "false"

structure Field where
  key : String
  value : Value
  deriving DecidableEq, Repr

/-- An entry; its timestamp counts milliseconds. -/
structure Entry where
  level : Level
  message : String
  target : Option String := none
  fields : List Field := []
  timestamp : UInt64 := 0
  deriving DecidableEq, Repr

namespace Entry

/-- The first value under a key. -/
def field? (e : Entry) (key : String) : Option Value :=
  (e.fields.find? (·.key == key)).map (·.value)

/-- Milliseconds as seconds with three places. -/
def seconds (timestamp : UInt64) : String :=
  toString (timestamp.toNat / 1000) ++ "." ++
    Text.zeroPadded 3 (toString (timestamp.toNat % 1000))

def plainLevel (level : Level) : String :=
  level.name ++ String.ofList (List.replicate (5 - level.name.length) ' ')

def plainTarget : Option String → String
  | none => ""
  | some target => "[" ++ target ++ "] "

def plainFields (fields : List Field) : String :=
  if fields.isEmpty then ""
  else " \x7b" ++ ", ".intercalate (fields.map fun f => f.key ++ "=" ++ f.value.plain) ++ "\x7d"

def plain (e : Entry) : String :=
  "[" ++ seconds e.timestamp ++ "] " ++ plainLevel e.level ++ " " ++ plainTarget e.target ++
    e.message ++ plainFields e.fields

end Entry
end Custody.Log
