import Mathlib.Data.List.Basic
import Custody.Fault.Basic
import Custody.Log.Logger

/-! What is written to the log.

A logger writes to the sink that is set, in the form that is set, what its level lets through. What
an operation does to the log is said of the lines that lie in the sinks afterwards (`Wrote`). They
and the settings are all there is to a logger, so that says everything (`Wrote.unique`). -/
namespace Custody

/-- An entry tells of a fault: its message, its kind, and its address if it has one. -/
structure Fault.ToldBy (f : Fault) (entry : Log.Entry) : Prop where
  level : entry.level = .error
  message : entry.message = f.message
  kind : entry.field? "kind" = some (.text f.kind)
  address : entry.field? "address" = f.address?.map .address

theorem Fault.toldBy_entry (f : Fault) : f.ToldBy f.entry := by
  cases f <;> exact ⟨rfl, rfl, rfl, rfl⟩

namespace Log.Logger

variable {l l' l'' : Logger} {lines lines' : List Line} {e : Entry}

/-- What went to a sink, newest first. -/
def sent (l : Logger) : Sink → List Line
  | .errorStream => l.errorLines
  | .outputStream => l.outputLines
  | .capture => l.captured

/-- What went to the present sink, newest first. -/
def written (l : Logger) : List Line :=
  l.sent l.sink

/-- How a logger writes: what it lets through, in which form, and where to. -/
def manner (l : Logger) : Level × Format × Sink :=
  (l.level, l.format, l.sink)

/-- Some lines were written, and nothing else has happened to the logger. -/
structure Wrote (l : Logger) (lines : List Line) (l' : Logger) : Prop where
  manner : l'.manner = l.manner
  /-- They lie on top of what was written before, the latest first. -/
  written : l'.written = lines ++ l.written
  elsewhere (sink : Sink) (other : sink ≠ l.sink) : l'.sent sink = l.sent sink

namespace Wrote

variable (h : l.Wrote lines l')
include h

theorem level : l'.level = l.level :=
  congrArg (·.1) h.manner

theorem format : l'.format = l.format :=
  congrArg (·.2.1) h.manner

theorem sink : l'.sink = l.sink :=
  congrArg (·.2.2) h.manner

theorem sent (sink : Sink) :
    l'.sent sink = if sink = l.sink then lines ++ l.sent sink else l.sent sink := by
  split
  · next heq =>
    subst heq
    have hwritten := h.written
    rwa [Logger.written, h.sink] at hwritten
  · next hne => exact h.elsewhere sink hne

/-- The lines say what has become of the logger. -/
theorem unique (h' : l.Wrote lines l'') : l'' = l' := by
  have hsent (sink : Sink) : l''.sent sink = l'.sent sink := by rw [h.sent, h'.sent]
  have hlevel : l''.level = l'.level := h'.level.trans h.level.symm
  have hformat : l''.format = l'.format := h'.format.trans h.format.symm
  have hsink : l''.sink = l'.sink := h'.sink.trans h.sink.symm
  have hcaptured : l''.captured = l'.captured := hsent .capture
  have houtput : l''.outputLines = l'.outputLines := hsent .outputStream
  have herror : l''.errorLines = l'.errorLines := hsent .errorStream
  obtain ⟨level, format, sink, captured, outputLines, errorLines⟩ := l'
  obtain ⟨_, _, _, _, _, _⟩ := l''
  cases hlevel
  cases hformat
  cases hsink
  cases hcaptured
  cases houtput
  cases herror
  rfl

/-- What is written later lies on top. -/
theorem trans (h' : l'.Wrote lines' l'') : l.Wrote (lines' ++ lines) l'' where
  manner := h'.manner.trans h.manner
  written := by rw [h'.written, h.written, List.append_assoc]
  elsewhere sink other :=
    (h'.elsewhere sink (h.sink ▸ other)).trans (h.elsewhere sink other)

omit h in
theorem refl (l : Logger) : l.Wrote [] l :=
  ⟨rfl, rfl, fun _ _ => rfl⟩

end Wrote

theorem wrote_put (line : Line) (l : Logger) : l.Wrote [line] (l.put line) := by
  unfold put
  split
  all_goals
    next hsink =>
    refine ⟨rfl, ?_, fun sink hne => ?_⟩
    · simp only [written, sent, hsink, List.singleton_append]
    · rw [hsink] at hne
      cases sink with
      | _ => first | rfl | exact absurd rfl hne

/-- The line of an entry, if it is let through. -/
def line? (l : Logger) (entry : Entry) : Option Line :=
  if l.wouldLog entry.level then some ⟨l.format, entry⟩ else none

theorem line?_congr (h : l'.manner = l.manner) : l'.line? = l.line? := by
  have hlevel : l'.level = l.level := congrArg (·.1) h
  have hformat : l'.format = l.format := congrArg (·.2.1) h
  unfold line? wouldLog
  rw [hlevel, hformat]

/-- **An entry is written if it is let through.** -/
theorem wrote_emit (e : Entry) (l : Logger) : l.Wrote (l.line? e).toList (l.emit e) := by
  unfold emit line?
  split
  · exact wrote_put _ l
  · exact .refl l

/-- Entries are written one on top of the other. -/
theorem wrote_foldl (es : List Entry) (l : Logger) :
    l.Wrote (es.filterMap l.line?).reverse (es.foldl (fun l e => l.emit e) l) := by
  induction es generalizing l with
  | nil => exact .refl l
  | cons e rest ih =>
    have hfirst := wrote_emit e l
    have hrest := ih (l.emit e)
    rw [line?_congr hfirst.manner] at hrest
    have hall := hfirst.trans hrest
    rw [List.foldl_cons, List.filterMap_cons]
    cases hline : l.line? e with
    | none => simpa [hline] using hall
    | some line => simpa [hline] using hall

theorem line?_of_passes {level : Level} (h : l.wouldLog level = true) (he : e.level = level) :
    l.line? e = some ⟨l.format, e⟩ := by
  rw [line?, he, if_pos h]

theorem line?_of_not_passes {level : Level} (h : l.wouldLog level = false) (he : e.level = level) :
    l.line? e = none := by
  rw [line?, he, h]
  rfl

/-- Errors are let through unless the logger is off. -/
theorem wouldLog_error_iff : l.wouldLog .error = true ↔ l.level ≠ .off := by
  unfold wouldLog
  cases l.level <;> decide

/-- A logger that traces writes everything. -/
theorem line?_of_trace (hlevel : l.level = .trace) (he : e.level ≠ .off) :
    l.line? e = some ⟨l.format, e⟩ := by
  refine line?_of_passes ?_ rfl
  unfold wouldLog
  rw [hlevel]
  revert he
  cases e.level <;> decide

/-- Entries of one level are all written or none of them is. -/
theorem wrote_foldl_of_level {es : List Entry} {level : Level} (hes : ∀ e ∈ es, e.level = level)
    (l : Logger) :
    l.Wrote (if l.wouldLog level = true then (es.map (Line.mk l.format)).reverse else [])
      (es.foldl (fun l e => l.emit e) l) := by
  have h := wrote_foldl es l
  split
  · next hpasses =>
    have hlines : es.filterMap l.line? = es.map (Line.mk l.format) :=
      List.filterMap_eq_map_iff_forall_eq_some.2 fun e he => line?_of_passes hpasses (hes e he)
    rwa [hlines] at h
  · next hpasses =>
    have hlines : es.filterMap l.line? = [] :=
      List.filterMap_eq_nil_iff.2 fun e he =>
        line?_of_not_passes (Bool.not_eq_true _ ▸ hpasses) (hes e he)
    rwa [hlines] at h

/-- The line of a fault is the last one, unless the logger is off. -/
theorem written_told (fault : Fault) (l : Logger) (hlevel : (l.emit fault.entry).level ≠ .off) :
    (l.emit fault.entry).written =
      ⟨(l.emit fault.entry).format, fault.entry⟩ :: l.written := by
  have hwrote := wrote_emit fault.entry l
  have hpasses : l.wouldLog .error = true := by
    rwa [wouldLog_error_iff, ← hwrote.level]
  rw [hwrote.written, hwrote.format, line?_of_passes hpasses rfl]
  rfl

end Log.Logger
end Custody
