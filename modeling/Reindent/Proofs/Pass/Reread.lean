import Reindent.Proofs.Line.Kind
import Reindent.Proofs.Pass.Source

/-!
# Reindent.Proofs.Pass.Reread

The lines that a pass writes are read by the next one as what they were.

* `Pass.exists_reread` — a line of the output that is not blank is read back in its place, of the
  kind that it had in the input and at the column that it was written at.
* `kind_kept`          — neither another column nor carriage returns at the end change what kind of
  line it is, so that no pass does.
-/

namespace Reindent

namespace Pass

variable {registry : Registry} {text : Text} {pass : Pass}

theorem exists_reindent (h : run registry text = .ok pass) {out : OutLine}
    (hout : out ∈ pass.lines) :
    ∃ raw column, text.splitLines[out.number - 1]? = some raw ∧
      Line.ofText out.body = (Line.ofText raw.body).reindent column := by
  obtain ⟨outs, houts, hperm⟩ := runLines_writes h
  obtain ⟨input, hinput, hwrites⟩ := OutLine.exists_writes houts (hperm.subset hout)
  obtain ⟨i, raw, hraw, rfl⟩ := InputLine.raw_of_mem_ofLines hinput
  obtain ⟨column, hbody⟩ := hwrites.body
  refine ⟨raw, column, ?_, ?_⟩
  · rw [hwrites.number, Nat.add_sub_cancel_left]
    exact hraw
  · rw [hbody]
    exact (Line.isRead_ofText raw.body).ofText_spaces_content column

theorem exists_reread (h : run registry text = .ok pass) (model : Text) {i : Nat} {out : OutLine}
    (hout : pass.lines[i]? = some out) :
    ∃ raw, text.splitLines[out.number - 1]? = some raw ∧
      ((Line.ofText raw.body).category ≠ .blank →
        ∃ next column, (joinLines model (pass.lines.map OutLine.toRawLine)).splitLines[i]? =
            some next ∧
          Text.core next.body = Text.core out.body ∧
          Line.ofText out.body = (Line.ofText raw.body).reindent column) := by
  obtain ⟨raw, column, hraw, hreindent⟩ := exists_reindent h (List.mem_of_getElem? hout)
  refine ⟨raw, hraw, fun hblank => ?_⟩
  have hfeed : ∀ line ∈ pass.lines.map OutLine.toRawLine, '\n' ∉ line.body := by
    intro line hline
    obtain ⟨out, hout, rfl⟩ := List.mem_map.1 hline
    exact feed_not_mem_run h out hout
  have hbody : out.body ≠ [] := by
    intro hempty
    have hcategory := congrArg Line.category hreindent
    rw [hempty] at hcategory
    exact hblank hcategory.symm
  have hline : (pass.lines.map OutLine.toRawLine)[i]? = some out.toRawLine := by
    rw [List.getElem?_map, hout, Option.map_some]
  obtain ⟨ending, hnext⟩ := Text.exists_getElem?_joinLines model hfeed hline hbody
  exact ⟨_, column, hnext, RawLine.core_reread _, hreindent⟩

end Pass

namespace Line

/-- A line is read as the same line wherever its content stands, and with or without a carriage
return at its end. So every line that a pass writes, lifted out or not, is read as the same kind of
line from the document that the pass results in, and from its lines joined with the conventions of
any other document. -/
theorem kind_kept :
    (∀ (t : Text) (n : Nat),
      let line := ofText t
      let moved := ofText (Text.spaces n ++ line.content)
      moved.indent = n ∧ moved.SameKind line ∧ moved.payload? = line.payload? ∧
        moved.payloadOffset = line.payloadOffset) ∧
    (∀ t : Text,
      let line := ofText t
      let longer := ofText (t ++ ['\r'])
      longer.indent = line.indent ∧ longer.SameKind line ∧
        ((∃ c rest, line.payload? = some (c :: rest) ∨ longer.payload? = some (c :: rest)) →
          longer.payloadOffset = line.payloadOffset)) ∧
    ∀ (registry : Registry) (text model : Text) (pass : Pass), Pass.run registry text = .ok pass →
      ∀ (i : Nat) (out : OutLine), pass.lines[i]? = some out →
        ∃ raw, text.splitLines[out.number - 1]? = some raw ∧
          ((ofText raw.body).category ≠ .blank →
            ∃ next, (joinLines model (pass.lines.map OutLine.toRawLine)).splitLines[i]? =
                some next ∧
              (ofText next.body).indent = out.body.indent ∧
              (ofText next.body).SameKind (ofText raw.body) ∧
              ∀ c rest, (ofText raw.body).payload? = some (c :: rest) →
                (ofText next.body).payloadOffset = (ofText raw.body).payloadOffset) := by
  refine ⟨fun t n => ?_, fun t => ?_, fun registry text model pass hrun i out hout => ?_⟩
  · simp only [(isRead_ofText t).ofText_spaces_content n]
    exact ⟨rfl, sameKind_reindent n _, payload?_reindent n _, payloadOffset_reindent n _⟩
  · have hcore : Text.core (t ++ ['\r']) = Text.core t := Text.core_append_return t
    obtain ⟨hindent, hkind⟩ := sameKind_of_core hcore
    refine ⟨hindent, hkind, ?_⟩
    rintro ⟨c, rest, hpayload | hpayload⟩
    · exact (payloadOffset_of_core hcore.symm hpayload).symm
    · exact payloadOffset_of_core hcore hpayload
  · obtain ⟨raw, hraw, hreread⟩ := Pass.exists_reread hrun model hout
    refine ⟨raw, hraw, fun hblank => ?_⟩
    obtain ⟨next, column, hnext, hcore, hreindent⟩ := hreread hblank
    obtain ⟨hindent, hkind⟩ := sameKind_of_core hcore
    rw [indent_ofText out.body] at hindent
    rw [hreindent] at hkind
    refine ⟨next, hnext, hindent, hkind.trans (sameKind_reindent column _),
      fun c rest hpayload => ?_⟩
    rw [← payload?_reindent column, ← hreindent] at hpayload
    rw [← payloadOffset_of_core hcore.symm hpayload, hreindent, payloadOffset_reindent]

/-- An attribute under the tags that it does not belong to, with a carriage return of its own. -/
def liftedReturn : Text :=
  "tasks:\n- tags:\n    - x\n    register: r\r\r\n- name: b\n".toList

/-- The attribute is lifted out of the tags and written further to the left than they are. The next
pass reads it as an attribute with the same value. -/
theorem kind_kept_liftedReturn :
    ∃ pass out, Pass.run (.extended {}) liftedReturn = .ok pass ∧ pass.lines[3]? = some out ∧
      out.moved = true ∧
      ∃ next, (joinLines liftedReturn (pass.lines.map OutLine.toRawLine)).splitLines[3]? =
          some next ∧
        (ofText next.body).indent = 4 ∧
        (ofText next.body).SameKind (ofText "    register: r\r".toList) := by
  have hlifted : (Pass.run (.extended {}) liftedReturn).toOption.any (fun pass =>
      pass.lines[3]?.any fun out =>
        out.moved && out.number == 4 && out.body.indent == 4) = true := by
    decide +kernel
  have hsource : liftedReturn.splitLines[3]? = some ⟨"    register: r\r".toList, .crlf⟩ := by
    decide +kernel
  cases hrun : Pass.run (.extended {}) liftedReturn with
  | error failure =>
    rw [hrun] at hlifted
    cases hlifted
  | ok pass =>
    rw [hrun, Except.toOption, Option.any_some] at hlifted
    obtain ⟨out, hout, hlifted⟩ := Option.any_eq_true _ _ |>.1 hlifted
    simp only [Bool.and_eq_true, beq_iff_eq] at hlifted
    obtain ⟨⟨hmoved, hnumber⟩, hindent⟩ := hlifted
    obtain ⟨raw, hraw, hnext⟩ := kind_kept.2.2 (.extended {}) liftedReturn liftedReturn pass hrun
      3 out hout
    rw [hnumber, hsource] at hraw
    obtain rfl := Option.some.inj hraw
    obtain ⟨next, hnext, hcolumn, hkind, -⟩ := hnext (by decide)
    exact ⟨pass, out, rfl, hout, hmoved, next, hnext, hcolumn.trans hindent, hkind⟩

end Line
end Reindent
