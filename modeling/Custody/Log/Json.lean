import Custody.Log.Entry

/-! The JSON form of a log entry: one object on one line.

Its members are the timestamp, the level, the target if there is one, the
message, and the fields, if there are any, as an object in their order. An
address is a string, so that its base shows. No control character is written as
it is, so an entry is one line whatever it holds. -/
namespace Custody.Log

/-- Characters of the general category Control. -/
def isControl (c : Char) : Bool :=
  c.toNat < 0x20 || (0x7F ≤ c.toNat && c.toNat < 0xA0)

namespace Json

/-- Four digits in base sixteen, which is all that a control character needs. -/
def unitEscape (c : Char) : List Char :=
  let digits := Nat.toDigits 16 c.toNat
  ['\\', 'u'] ++ List.replicate (4 - digits.length) '0' ++ digits

def escapedChar (c : Char) : List Char :=
  if c = '"' then ['\\', '"']
  else if c = '\\' then ['\\', '\\']
  else if c = '\n' then ['\\', 'n']
  else if c = '\r' then ['\\', 'r']
  else if c = '\t' then ['\\', 't']
  else if isControl c then unitEscape c
  else [c]

/-- A JSON string. -/
def string (s : String) : String :=
  "\"" ++ String.ofList (s.toList.flatMap escapedChar) ++ "\""

def value : Value → String
  | .text s => string s
  | .address a => "\"" ++ a.text ++ "\""
  | .integer i => toString i
  | .natural n => toString n.toNat
  | .flag b => if b then "true" else "false"

def member (key : String) (written : String) : String :=
  string key ++ ":" ++ written

def object (members : List String) : String :=
  "\x7b" ++ ",".intercalate members ++ "\x7d"

end Json

namespace Entry

/-- The members of an entry's JSON object, in order. -/
def jsonMembers (e : Entry) : List String :=
  [Json.member "timestamp" (toString e.timestamp.toNat), Json.member "level" (Json.string e.level.name)]
    ++ e.target.toList.map (fun target => Json.member "target" (Json.string target))
    ++ [Json.member "message" (Json.string e.message)]
    ++ if e.fields.isEmpty then []
      else [Json.member "fields"
        (Json.object (e.fields.map fun f => Json.member f.key (Json.value f.value)))]

def json (e : Entry) : String :=
  Json.object e.jsonMembers

end Entry
end Custody.Log
