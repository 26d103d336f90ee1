import Reindent.Proofs.Frame.Waiting
import Reindent.Proofs.Line.Core

/-!
# Reindent.Proofs.Frame.Core

Frames without the ends of lines.

Each `bare` drops the carriage returns and the terminators of the lines that wait in a buffer, and
numbers the lines as in a document with `n` more of them above.

* `Scope.bare_record` — recording a bare line makes the children bare that recording the line makes.
-/

namespace Reindent

namespace Relocation

def bare (n : Nat) (r : Relocation) : Relocation :=
  { r with content := Text.core r.content, ending := .missing, lineNumber := r.lineNumber + n }

end Relocation

namespace Entry

def bare (n : Nat) (entry : Entry) : Entry :=
  { entry with pending := entry.pending.map (Relocation.bare n) }

end Entry

namespace Scope

def bare (n : Nat) (scope : Scope) : Scope :=
  { scope with entry := scope.entry.map (Entry.bare n) }

theorem bare_record (n : Nat) (scope : Scope) {line : Line} (hread : line.IsRead)
    (placement : Placement) :
    (scope.bare n).record line.bare placement =
      ((scope.record line placement).1.bare n,
        (scope.record line placement).2.map (Entry.bare n)) := by
  have hline : scope.record line.bare placement = scope.record line placement := by
    cases placement with
    | entry indent => simp only [record, Entry.ofLine_bare hread]; rfl
    | member indent => rfl
    | carried indent => rfl
    | unchanged => rfl
  rw [← hline]
  exact record_mapWaiting (Relocation.bare n) scope line.bare placement

end Scope

namespace Frame

def bare (n : Nat) (frame : Frame) : Frame :=
  { frame with
    scope := frame.scope.bare n
    relocations := frame.relocations.map (Relocation.bare n) }

theorem closesAt_bare (n : Nat) (registry : Registry) (frame : Frame) (line : Line) :
    (frame.bare n).closesAt registry line.bare = frame.closesAt registry line := rfl

theorem bare_of_waiting (n : Nat) {frame : Frame} (h : frame.waiting = []) :
    frame.bare n = frame :=
  mapWaiting_of_waiting (Relocation.bare n) h

end Frame

namespace InputLine

def bare (n : Nat) (input : InputLine) : InputLine :=
  { input with number := input.number + n, line := input.line.bare, ending := .missing }

theorem ofLines_bare (n first : Nat) (lines : List RawLine) :
    ofLines (first + n) (lines.map RawLine.bare) = (ofLines first lines).map (bare n) := by
  induction lines generalizing first with
  | nil => rfl
  | cons raw rest ih =>
    have hnext : first + n + 1 = first + 1 + n := Nat.add_right_comm first n 1
    rw [List.map_cons, ofLines, ofLines, List.map_cons, hnext, ih, RawLine.bare, Line.ofText_core]
    rfl

theorem nextStructural?_bare (n : Nat) (lines : List InputLine) :
    nextStructural? (lines.map (bare n)) = (nextStructural? lines).map Line.bare := by
  rw [nextStructural?, nextStructural?, List.find?_map, Option.map_map, Option.map_map]
  rfl

end InputLine

namespace OutLine

def bare (n : Nat) (out : OutLine) : OutLine :=
  { out with toRawLine := out.toRawLine.bare, number := out.number + n }

end OutLine

end Reindent
