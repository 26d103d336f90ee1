import Reindent.Frame.Basic
import Reindent.Fault

/-!
# Reindent.Frame.Stack

The frames that are open, innermost first.

* `Stack.push`          — opens a frame, if it stands to the right of the one around it.
* `Stack.ownerItem?`    — the item that lines lifted out of the innermost frame will belong to.
* `Stack.handInnermost?` — hands relocations to the innermost item.
-/

namespace Reindent

/-- The open frames, innermost first. -/
abbrev Stack := List Frame

namespace Stack

/-- Opens `frame` inside the others. Output columns of open frames increase inwards. -/
def push (stack : Stack) (frame : Frame) : Except Fault Stack :=
  match stack with
  | [] => .ok [frame]
  | top :: _ =>
    if frame.baseIndent ≤ top.baseIndent then
      .error (.frameOrder frame.key frame.baseIndent top.key top.baseIndent)
    else .ok (frame :: stack)

/-- The innermost item among the children of the frames. -/
def innermostItem? (stack : Stack) : Option Entry :=
  stack.findSome? fun frame => frame.scope.item?

/-- The item that lines lifted out of the innermost frame will belong to: the innermost item of
the frames around it. -/
def ownerItem? (stack : Stack) : Option Entry :=
  innermostItem? stack.tail

/-- Hands relocations to the innermost item; `none` if no frame has one. -/
def handInnermost? (relocations : List Relocation) : Stack → Option Stack
  | [] => none
  | frame :: rest =>
    if frame.scope.item?.isSome then
      some ({ frame with scope := frame.scope.append relocations } :: rest)
    else (handInnermost? relocations rest).map (frame :: ·)

theorem handInnermost?_length {relocations : List Relocation} {stack stack' : Stack}
    (h : handInnermost? relocations stack = some stack') : stack'.length = stack.length := by
  induction stack generalizing stack' with
  | nil => simp [handInnermost?] at h
  | cons frame rest ih =>
    by_cases hitem : frame.scope.item?.isSome
    · simp only [handInnermost?, hitem, if_true, Option.some.injEq] at h
      subst h
      rfl
    · simp only [handInnermost?, hitem, Bool.false_eq_true, if_false] at h
      obtain ⟨rest', hrest, rfl⟩ := Option.map_eq_some_iff.1 h
      simp [ih hrest]

theorem handInnermost?_isSome {relocations : List Relocation} {stack : Stack} :
    (handInnermost? relocations stack).isSome = (innermostItem? stack).isSome := by
  induction stack with
  | nil => rfl
  | cons frame rest ih =>
    by_cases hitem : frame.scope.item?.isSome
    · obtain ⟨entry, hentry⟩ := Option.isSome_iff_exists.1 hitem
      simp [handInnermost?, innermostItem?, hentry]
    · have hnone : frame.scope.item? = none := by simpa using hitem
      simpa [handInnermost?, innermostItem?, hnone] using ih

end Stack

end Reindent
