import Mathlib.Data.List.Forall2
import Reindent.Batch
import Reindent.Proofs.Document.Outcome
import Reindent.Proofs.Tree.Write

/-!
# Reindent.Proofs.Batch

What repairing some files does to each of them.

* `Batch.Fate`      — what becomes of one target, told from the tree before.
* `fate_fixFile`    — a file has its fate, and no other file changes.
* `Tree.Distinct`   — no two targets lead to the same place.
* `fates_fixFiles`  — then each target has the fate that it would have on its own.
-/

namespace Reindent

/-! ### Documents in bytes -/

namespace Text

theorem toBytes_of_ofBytes? {content : ByteArray} {t : Text} (h : ofBytes? content = some t) :
    t.toBytes = content := by
  rw [ofBytes?, String.fromUTF8?, Option.map_eq_some_iff] at h
  obtain ⟨s, hs, rfl⟩ := h
  rw [toBytes, String.ofList_toList]
  split at hs
  · cases hs
    rfl
  · cases hs

theorem toBytes_injective : Function.Injective toBytes := fun s t h => by
  have hstring : String.ofList s = String.ofList t := String.toByteArray_inj.1 h
  rw [← String.toList_ofList (l := s), hstring, String.toList_ofList]

end Text

/-! ### One file -/

theorem Engine.text_ne_of_changed {engine : Engine} {text : Text} {repaired : Repair}
    (h : engine.repair text = .ok repaired) (hchanged : repaired.changed = true) :
    repaired.text ≠ text := by
  obtain ⟨_, _, _, _, hcollect⟩ := repair_ok h
  obtain ⟨_, _, hflag, _⟩ := collect_ok hcollect
  rw [hflag, bne_iff_ne] at hchanged
  exact hchanged

theorem document_of_readDocument {tree : Tree} {target : Target} {text : Text}
    (h : readDocument tree target = .ok text) :
    ∃ location content, tree.locate target.path = .ok location ∧
      tree.nodeAt? location = some (.file content) ∧ 0 ∉ content.toList ∧
      Text.ofBytes? content = some text := by
  rw [readDocument] at h
  split at h
  · cases h
  · cases hread : tree.read target.path with
    | error e =>
      rw [hread] at h
      cases h
    | ok content =>
      simp only [hread] at h
      obtain ⟨location, hlocate, hnode⟩ := Tree.node_of_read hread
      split at h
      · cases h
      · rename_i hbinary
        split at h
        · cases h
        · rename_i hbytes
          cases h
          exact ⟨location, content, hlocate, hnode, by simpa using hbinary, hbytes⟩

theorem repairDocument_ok {engine : Engine} {tree : Tree} {target : Target} {text : Text}
    {repaired : Repair} (h : repairDocument engine tree target = .ok (text, repaired)) :
    readDocument tree target = .ok text ∧ engine.repair text = .ok repaired := by
  rw [repairDocument] at h
  cases hread : readDocument tree target with
  | error fault =>
    rw [hread] at h
    cases h
  | ok old =>
    simp only [hread] at h
    cases hrepair : engine.repair old with
    | error failure =>
      rw [hrepair] at h
      cases h
    | ok new =>
      rw [hrepair] at h
      cases h
      exact ⟨rfl, hrepair⟩

namespace Batch

/-- What becomes of a target, told from the tree before:
* a fault, and the file stays;
* a document that is as it should be, or must not be written;
* a document that is written. -/
inductive Fate (engine : Engine) (options : BatchOptions) (before after : Tree) (target : Target)
    (report : FileReport) : Prop
  | spared {fault : FileFault} {events : List Event} :
      repairDocument engine before target = .error (fault, events) →
      report.outcome = (if fault.isSkip then .skipped else .failed) → report.wrote = false →
      Fate engine options before after target report
  | kept {text : Text} {repaired : Repair} :
      repairDocument engine before target = .ok (text, repaired) →
      (repaired.changed && options.write) = false →
      report.outcome = (if repaired.changed then .changed else .unchanged) →
      report.wrote = false → Fate engine options before after target report
  | written {location : Location} {content : ByteArray} {text : Text} {repaired : Repair} :
      before.locate target.path = .ok location →
      before.nodeAt? location = some (.file content) → 0 ∉ content.toList →
      Text.ofBytes? content = some text → engine.repair text = .ok repaired →
      repaired.changed = true → options.write = true → report.outcome = .changed →
      report.wrote = true → after.nodeAt? location = some (.file repaired.text.toBytes) →
      Fate engine options before after target report

variable {engine : Engine} {options : BatchOptions} {before : Tree}

theorem Fate.congr {after after' : Tree} {target : Target} {report : FileReport}
    (h : Fate engine options before after target report)
    (hnode : ∀ location, before.locate target.path = .ok location →
      after'.nodeAt? location = after.nodeAt? location) :
    Fate engine options before after' target report := by
  cases h with
  | spared hfault houtcome hwrote => exact .spared hfault houtcome hwrote
  | kept hrepair hkept houtcome hwrote => exact .kept hrepair hkept houtcome hwrote
  | written hlocate hfile hbinary hbytes hrepair hchanged hwrite houtcome hwrote hafter =>
    exact .written hlocate hfile hbinary hbytes hrepair hchanged hwrite houtcome hwrote
      ((hnode _ hlocate).trans hafter)

theorem Fate.nodeAt?_ne {after : Tree} {target : Target} {report : FileReport}
    (h : Fate engine options before after target report) (hreport : report.wrote = true)
    {location : Location} (hplace : before.locate target.path = .ok location) :
    after.nodeAt? location ≠ before.nodeAt? location := by
  cases h with
  | spared _ _ hwrote =>
    rw [hwrote] at hreport
    cases hreport
  | kept _ _ _ hwrote =>
    rw [hwrote] at hreport
    cases hreport
  | written hlocate hfile _ hbytes hrepair hchanged _ _ _ hafter =>
    rw [hlocate, Except.ok.injEq] at hplace
    subst hplace
    rw [hafter, hfile, ne_eq, Option.some.injEq, Node.file.injEq, ← Text.toBytes_of_ofBytes? hbytes]
    exact fun hsame =>
      Engine.text_ne_of_changed hrepair hchanged (Text.toBytes_injective hsame)

section File

variable {batch : Batch} {target : Target} (hshape : before.SameShape batch.tree)
  (hheld : ∀ location, before.locate target.path = .ok location →
    batch.tree.nodeAt? location = before.nodeAt? location)
include hshape hheld

theorem repairDocument_congr :
    repairDocument engine batch.tree target = repairDocument engine before target := by
  have hread : readDocument batch.tree target = readDocument before target := by
    rw [readDocument, readDocument, hshape.pathExists,
      Tree.read_congr (hshape.locate target.path) hheld]
  rw [repairDocument, repairDocument, hread]

theorem fate_fixFile (engine : Engine) (options : BatchOptions) :
    ∃ report, (fixFile engine options batch target).reports = batch.reports ++ [report] ∧
      Fate engine options before (fixFile engine options batch target).tree target report ∧
      before.SameShape (fixFile engine options batch target).tree ∧
      ∀ location,
        (fixFile engine options batch target).tree.nodeAt? location ≠
          batch.tree.nodeAt? location →
        report.wrote = true ∧ before.locate target.path = .ok location := by
  have hrepair := @repairDocument_congr engine before batch target hshape hheld
  rw [fixFile]
  cases hdocument : repairDocument engine before target with
  | error failure =>
    obtain ⟨fault, events⟩ := failure
    simp only [hrepair, hdocument]
    refine ⟨_, rfl, .spared hdocument ?_ rfl, hshape, fun location hne => absurd rfl hne⟩
    cases fault.isSkip <;> rfl
  | ok repaired =>
    obtain ⟨text, repaired⟩ := repaired
    simp only [hrepair, hdocument]
    cases hwrote : repaired.changed && options.write with
    | false =>
      have htree : ∀ file, (addRepair options batch target.path file text repaired).tree =
          batch.tree := fun file => by rw [addRepair, hwrote]; rfl
      refine ⟨_, rfl, .kept hdocument hwrote rfl hwrote, ?_, fun location hne => ?_⟩
      · rw [htree]
        exact hshape
      · rw [htree] at hne
        exact absurd rfl hne
    | true =>
      obtain ⟨hchanged, hwrite⟩ := Bool.and_eq_true_iff.1 hwrote
      obtain ⟨hread, hengine⟩ := repairDocument_ok hdocument
      obtain ⟨location, content, hlocate, hfile, hbinary, hbytes⟩ := document_of_readDocument hread
      have hold : batch.tree.nodeAt? location = some (.file content) :=
        (hheld location hlocate).trans hfile
      have htree : ∀ file, (addRepair options batch target.path file text repaired).tree =
          batch.tree.write location repaired.text.toBytes := by
        intro file
        rw [addRepair, hwrote, if_pos rfl, Tree.writeDocument, hshape.locate, hlocate]
      have hafter := Tree.nodeAt?_write hold repaired.text.toBytes
      refine ⟨_, rfl, ?_, ?_, fun place hne => ?_⟩
      · refine .written hlocate hfile hbinary hbytes hengine hchanged hwrite ?_ hwrote ?_
        · exact if_pos hchanged
        · rw [htree, hafter, if_pos rfl]
      · rw [htree]
        exact hshape.trans (Tree.sameShape_write hold _)
      · rw [htree, hafter] at hne
        by_cases hplace : place = location
        · exact ⟨hwrote, hplace ▸ hlocate⟩
        · exact absurd (if_neg hplace) hne

end File

/-! ### All files -/

/-- The file at the place is that of a target which is reported as written. -/
def Wrote (before : Tree) (targets : List Target) (reports : List FileReport)
    (location : Location) : Prop :=
  ∃ target report, (target, report) ∈ targets.zip reports ∧ report.wrote = true ∧
    before.locate target.path = .ok location

end Batch

/-- No two targets lead to the same place. -/
def Tree.Distinct (tree : Tree) (targets : List Target) : Prop :=
  (targets.filterMap fun target => (tree.locate target.path).toOption).Nodup

theorem Tree.Distinct.cons {tree : Tree} {target : Target} {targets : List Target}
    (h : tree.Distinct (target :: targets)) :
    tree.Distinct targets ∧ ∀ other ∈ targets, ∀ location,
      tree.locate target.path = .ok location → tree.locate other.path ≠ .ok location := by
  rw [Distinct, List.filterMap_cons] at h
  cases hlocate : tree.locate target.path with
  | error e =>
    rw [hlocate] at h
    exact ⟨h, fun _ _ _ hok => by cases hok⟩
  | ok location =>
    rw [hlocate] at h
    obtain ⟨hnew, hrest⟩ := List.nodup_cons.1 h
    refine ⟨hrest, fun other hother place hplace hsame => hnew ?_⟩
    cases hplace
    exact List.mem_filterMap.2 ⟨other, hother, by rw [hsame]; rfl⟩

namespace Batch

/-- Each target has the fate that it has on its own, if no two lead to the same place. Other files
do not change. -/
theorem fates_foldl (engine : Engine) (options : BatchOptions) {before : Tree}
    {targets : List Target} (hdistinct : before.Distinct targets) {batch : Batch}
    (hshape : before.SameShape batch.tree)
    (hheld : ∀ target ∈ targets, ∀ location, before.locate target.path = .ok location →
      batch.tree.nodeAt? location = before.nodeAt? location) :
    ∃ reports final, targets.foldl (fixFile engine options) batch = final ∧
      final.reports = batch.reports ++ reports ∧
      List.Forall₂ (Fate engine options before final.tree) targets reports ∧
      before.SameShape final.tree ∧
      ∀ location, final.tree.nodeAt? location ≠ batch.tree.nodeAt? location →
        Wrote before targets reports location := by
  induction targets generalizing batch with
  | nil => exact ⟨[], batch, rfl, (List.append_nil _).symm, .nil, hshape, fun _ hne => absurd rfl hne⟩
  | cons target rest ih =>
    rw [List.forall_mem_cons] at hheld
    obtain ⟨hrest, hother⟩ := hdistinct.cons
    obtain ⟨report, hreports, hfate, hshape', hchanged⟩ :=
      fate_fixFile hshape hheld.1 engine options
    have hheld' : ∀ other ∈ rest, ∀ location, before.locate other.path = .ok location →
        (fixFile engine options batch target).tree.nodeAt? location = before.nodeAt? location := by
      intro other hmem location hlocate
      by_contra hne
      rw [← hheld.2 other hmem location hlocate] at hne
      exact hother other hmem location (hchanged location hne).2 hlocate
    obtain ⟨reports, final, hfinal, hall, hfates, hshaped, hwrote⟩ := ih hrest hshape' hheld'
    refine ⟨report :: reports, final, hfinal, ?_, .cons (hfate.congr ?_) hfates, hshaped, ?_⟩
    · rw [hall, hreports, List.append_assoc, List.singleton_append]
    · intro location hlocate
      by_contra hne
      obtain ⟨other, _, hmem, _, hsame⟩ := hwrote location hne
      exact hother other (List.of_mem_zip hmem).1 location hlocate hsame
    · intro location hne
      rw [Wrote, List.zip_cons_cons]
      by_cases hlater : final.tree.nodeAt? location =
          (fixFile engine options batch target).tree.nodeAt? location
      · rw [hlater] at hne
        obtain ⟨hflag, hlocate⟩ := hchanged location hne
        exact ⟨target, report, List.mem_cons_self, hflag, hlocate⟩
      · obtain ⟨other, report', hmem, hflag, hlocate⟩ := hwrote location hlater
        exact ⟨other, report', List.mem_cons_of_mem _ hmem, hflag, hlocate⟩

theorem tree_fixFiles_of_not_write (engine : Engine) {options : BatchOptions}
    (hwrite : options.write = false) (tree : Tree) (targets : List Target) :
    (fixFiles engine options tree targets).tree = tree := by
  have hfile : ∀ (batch : Batch) (target : Target),
      (fixFile engine options batch target).tree = batch.tree := by
    intro batch target
    rw [fixFile]
    split
    · rfl
    · simp only [addRepair, hwrite, Bool.and_false, Bool.false_eq_true, if_false]
  have hfold : ∀ batch : Batch, (targets.foldl (fixFile engine options) batch).tree =
      batch.tree := by
    induction targets with
    | nil => exact fun _ => rfl
    | cons target rest ih => exact fun batch => (ih _).trans (hfile batch target)
  exact hfold { tree }

/-- A batch changes the files that it reports as written, and no others. -/
theorem fates_fixFiles (engine : Engine) (options : BatchOptions) {before : Tree}
    {targets : List Target} (hdistinct : before.Distinct targets) {final : Batch}
    (hfinal : fixFiles engine options before targets = final) :
    List.Forall₂ (Fate engine options before final.tree) targets final.reports ∧
      before.SameShape final.tree ∧
      ∀ location, final.tree.nodeAt? location ≠ before.nodeAt? location ↔
        Wrote before targets final.reports location := by
  obtain ⟨reports, _, rfl, hreports, hfates, hshape, hwrote⟩ :=
    @fates_foldl engine options before targets hdistinct { tree := before } (.refl before)
      fun _ _ _ _ => rfl
  rw [fixFiles] at hfinal
  subst hfinal
  rw [hreports, List.nil_append]
  refine ⟨hfates, hshape, fun location => ⟨hwrote location, ?_⟩⟩
  rintro ⟨target, report, hmem, hflag, hlocate⟩
  exact (List.forall₂_zip hfates hmem).nodeAt?_ne hflag hlocate

end Batch
end Reindent
