import Custody.Log.Format
import Custody.Log.Json

/-! The logger: what is let through, in which form, and where it goes.

A line keeps the entry and the format that was set when it was emitted. Lines
stand newest first. Captured lines wait until they are taken; the two streams
only grow. -/
namespace Custody.Log

structure Line where
  format : Format
  entry : Entry
  deriving DecidableEq, Repr

def Line.text (line : Line) : String :=
  match line.format with
  | .plain => line.entry.plain
  | .json => line.entry.json

inductive Sink where
  | errorStream
  | outputStream
  | capture
  deriving DecidableEq, Repr

structure Logger where
  level : Level := .warn
  format : Format := .plain
  sink : Sink := .errorStream
  captured : List Line := []
  outputLines : List Line := []
  errorLines : List Line := []

namespace Logger

def wouldLog (l : Logger) (level : Level) : Bool :=
  level.passes l.level

/-- Sends a line to the sink. -/
def put (line : Line) (l : Logger) : Logger :=
  match l.sink with
  | .errorStream => {l with errorLines := line :: l.errorLines}
  | .outputStream => {l with outputLines := line :: l.outputLines}
  | .capture => {l with captured := line :: l.captured}

def emit (e : Entry) (l : Logger) : Logger :=
  if l.wouldLog e.level then l.put ⟨l.format, e⟩ else l

/-- The captured texts in order of emission. -/
def capturedTexts (l : Logger) : List String :=
  (l.captured.map Line.text).reverse

def clearCaptured (l : Logger) : Logger :=
  {l with captured := []}

/-- What a reader of a stream sees: the lines one after the other, split at every line feed. -/
def streamTexts (lines : List Line) : List String :=
  (lines.reverse.map fun line => line.text.splitOn "\n").flatten

theorem emit_level (e : Entry) (l : Logger) : (l.emit e).level = l.level := by
  unfold emit put
  split
  · split <;> rfl
  · rfl

end Logger
end Custody.Log
