import Reindent.CommandLine.Run
import Reindent.Proofs.Batch
import Reindent.Proofs.Document.Contents
import Mathlib

/-!
# Reindent.Proofs.CommandLine.Run

What a run does to the files of a tree.

* `FixRequest.plan`  — the settings of a request and the files that it names.
* `FixRequest.IsOn`  — a switch that is set on the command line or in the configuration file.
* `isOn_iff`         — the settings are those of the two together.
* `run_touches_reported` — a run changes the files that it reports as written, each into its
  repaired document, and tells by its exit code how it went.
-/

namespace Reindent

/-- The configuration that a run reads; without a file it is empty. -/
def Settings.configuration (tree : Tree) (overrides : Overrides) : Except ConfigError FileConfig :=
  match findFile? tree (findRoot tree ⟨overrides.repoRoot.getD ['.']⟩) with
  | none => .ok {}
  | some (format, path) => load tree format path

theorem Settings.resolve_ok {tree : Tree} {overrides : Overrides} {settings : Settings}
    (h : resolve tree overrides = .ok settings) :
    ∃ root file config, configuration tree overrides = .ok config ∧
      merge overrides root file config = .ok settings := by
  unfold resolve at h
  unfold configuration
  cases hfile : findFile? tree (findRoot tree ⟨overrides.repoRoot.getD ['.']⟩) with
  | none =>
    simp only [hfile] at h
    exact ⟨_, _, _, rfl, h⟩
  | some file =>
    obtain ⟨format, path⟩ := file
    simp only [hfile] at h ⊢
    cases hload : load tree format path with
    | error e =>
      rw [hload] at h
      cases h
    | ok config =>
      rw [hload] at h
      exact ⟨_, _, config, rfl, h⟩

/-- The switches of the command line go before those of the file. -/
theorem Settings.merge_ok {overrides : Overrides} {root : Path} {file : Option Path}
    {config : FileConfig} {settings : Settings}
    (h : merge overrides root file config = .ok settings) :
    settings.diff = ((overrides.fix.diff.orElse fun _ => (config.fix.getD {}).diff).getD false) ∧
      settings.check =
        ((overrides.fix.check.orElse fun _ => (config.fix.getD {}).check).getD false) := by
  rw [merge] at h
  split at h
  · cases h
  · cases h
    exact ⟨rfl, rfl⟩

namespace FixRequest

/-- A switch is set on the command line or in the configuration file. -/
def IsOn (request : FixRequest) (tree : Tree) (flag : FixRequest → Bool)
    (setting : FixSettings → Option Bool) : Prop :=
  flag request = true ∨
    ∃ config, Settings.configuration tree request.overrides = .ok config ∧
      setting (config.fix.getD {}) = some true

/-- The settings of a request and the files that it names. -/
def plan (request : FixRequest) (tree : Tree) : Except ConfigError (Settings × List Target) :=
  match Settings.resolve tree request.overrides with
  | .error error => .error error
  | .ok settings =>
    match Discovery.find tree settings.repoRoot (request.paths.map Path.mk) settings.patterns
        settings.exclude with
    | .error error => .error error
    | .ok discovery => .ok (settings, discovery.targets)

variable {request : FixRequest} {tree : Tree} {settings : Settings} {targets : List Target}

theorem switch_orElse (isOn : Bool) (setting : Option Bool) :
    (((switch isOn).orElse fun _ => setting).getD false) = true ↔
      isOn = true ∨ setting = some true := by
  cases isOn
  · cases setting <;> simp [switch]
  · simp [switch]

theorem isOn_iff (h : Settings.resolve tree request.overrides = .ok settings) :
    (settings.diff = true ↔ request.IsOn tree FixRequest.diff FixSettings.diff) ∧
      (settings.check = true ↔ request.IsOn tree FixRequest.check FixSettings.check) := by
  obtain ⟨root, file, config, hconfig, hmerge⟩ := Settings.resolve_ok h
  obtain ⟨hdiff, hcheck⟩ := Settings.merge_ok hmerge
  have hon : ∀ flag setting, request.IsOn tree flag setting ↔
      flag request = true ∨ setting (config.fix.getD {}) = some true := by
    intro flag setting
    simp only [IsOn, hconfig, Except.ok.injEq, exists_eq_left']
  rw [hdiff, hcheck, hon, hon]
  exact ⟨switch_orElse _ _, switch_orElse _ _⟩

theorem plan_ok (h : request.plan tree = .ok (settings, targets)) :
    Settings.resolve tree request.overrides = .ok settings ∧
      ∃ discovery : Discovery, discovery.targets = targets ∧
        Discovery.find tree settings.repoRoot (request.paths.map Path.mk) settings.patterns
          settings.exclude = .ok discovery := by
  unfold plan at h
  split at h
  · cases h
  · rename_i resolved hresolve
    split at h
    · cases h
    · rename_i discovery hfind
      cases h
      exact ⟨hresolve, discovery, rfl, hfind⟩

theorem run_of_error {error : ConfigError} (h : request.plan tree = .error error) (colour : Bool) :
    ∃ notices, request.run colour tree = .stopped tree notices error := by
  unfold plan at h
  unfold run
  cases hresolve : Settings.resolve tree request.overrides with
  | error failure =>
    simp only [hresolve] at h ⊢
    cases h
    exact ⟨_, rfl⟩
  | ok resolved =>
    simp only [hresolve] at h ⊢
    cases hfind : Discovery.find tree resolved.repoRoot (request.paths.map Path.mk)
        resolved.patterns resolved.exclude with
    | error failure =>
      simp only [hfind] at h ⊢
      cases h
      exact ⟨_, rfl⟩
    | ok discovery =>
      simp only [hfind] at h
      cases h

/-- A run that is not stopped repairs the files of its plan. -/
theorem run_of_plan (h : request.plan tree = .ok (settings, targets)) (colour : Bool) :
    ∃ batch, Batch.fixFiles settings.engine settings.batchOptions tree targets = batch ∧
      (request.run colour tree).tree = batch.tree ∧
      (request.run colour tree).reports = batch.reports ∧
      (request.run colour tree).exitCode = settings.exitCode batch.sortedReports := by
  obtain ⟨hresolve, discovery, rfl, hfind⟩ := plan_ok h
  unfold run
  simp only [hresolve, hfind]
  exact ⟨_, rfl, rfl, rfl, rfl⟩

end FixRequest

/-! ### Exit codes -/

theorem Settings.exitCode_eq_one_iff (settings : Settings) (batch : Batch) :
    settings.exitCode batch.sortedReports = 1 ↔
      (∃ report ∈ batch.reports, report.outcome = .failed) ∨
        settings.check = true ∧ ∃ report ∈ batch.reports, report.outcome = .changed := by
  have hperm : batch.sortedReports.Perm batch.reports := List.mergeSort_perm _ _
  have hcount : ∀ outcome : Outcome, 0 < batch.sortedReports.countP (·.outcome == outcome) ↔
      ∃ report ∈ batch.reports, report.outcome = outcome := by
    intro outcome
    rw [hperm.countP_eq, List.countP_pos_iff]
    simp only [beq_iff_eq]
  rw [← hcount, ← hcount]
  simp only [exitCode, Summary.ofReports, ite_eq_left_iff, Nat.zero_ne_one, imp_false, not_not,
    Bool.or_eq_true, Bool.and_eq_true, decide_eq_true_eq, gt_iff_lt]

theorem Settings.exitCode_le (settings : Settings) (reports : List FileReport) :
    settings.exitCode reports ≤ 1 := by
  rw [exitCode]
  split <;> decide

namespace FixRequest

/-- What a run does to the files of a tree, if no two of the files that it names are the same:
* if its settings or its files cannot be told, it touches nothing and exits with 2;
* otherwise each file has its own fate, whatever becomes of the others, no file or directory comes
  or goes, and the files that change are those that are reported as written;
* if differences or a check are asked for, nothing changes;
* it exits with 1 exactly if a file failed, or a check found a file that is not as it should be. -/
theorem run_touches_reported (request : FixRequest) (colour : Bool) (tree : Tree)
    (hdistinct : ∀ settings targets, request.plan tree = .ok (settings, targets) →
      tree.Distinct targets) :
    let result := request.run colour tree
    (∀ error, request.plan tree = .error error →
      result.tree = tree ∧ result.reports = [] ∧ result.exitCode = 2) ∧
    (∀ settings targets, request.plan tree = .ok (settings, targets) →
      List.Forall₂ (Batch.Fate settings.engine settings.batchOptions tree result.tree) targets
        result.reports ∧
      tree.SameShape result.tree ∧
      (∀ location, result.tree.nodeAt? location ≠ tree.nodeAt? location ↔
        Batch.Wrote tree targets result.reports location) ∧
      result.exitCode ≤ 1) ∧
    (request.IsOn tree FixRequest.diff FixSettings.diff ∨
        request.IsOn tree FixRequest.check FixSettings.check → result.tree = tree) ∧
    (result.exitCode = 1 ↔
      (∃ report ∈ result.reports, report.outcome = .failed) ∨
        request.IsOn tree FixRequest.check FixSettings.check ∧
          ∃ report ∈ result.reports, report.outcome = .changed) := by
  cases hplan : request.plan tree with
  | error error =>
    obtain ⟨notices, hrun⟩ := run_of_error hplan colour
    simp [hrun, RunResult.stopped]
  | ok planned =>
    obtain ⟨settings, targets⟩ := planned
    obtain ⟨batch, hbatch, htree, hreports, hexit⟩ := run_of_plan hplan colour
    obtain ⟨hdiff, hcheck⟩ := isOn_iff (plan_ok hplan).1
    obtain ⟨hfates, hshape, hwrote⟩ :=
      Batch.fates_fixFiles settings.engine settings.batchOptions (hdistinct _ _ hplan) hbatch
    simp only [htree, hreports, hexit, reduceCtorEq, IsEmpty.forall_iff, implies_true, true_and]
    refine ⟨?_, fun hon => ?_, ?_⟩
    · intro settings' targets' hsame
      cases hsame
      exact ⟨hfates, hshape, hwrote, Settings.exitCode_le _ _⟩
    · have hwrite : settings.batchOptions.write = false := by
        rw [← hdiff, ← hcheck] at hon
        rcases hon with hon | hon <;> simp [Settings.batchOptions, Settings.writes, hon]
      rw [← hbatch]
      exact Batch.tree_fixFiles_of_not_write _ hwrite _ _
    · rw [Settings.exitCode_eq_one_iff, hcheck]

/-- A file to repair and one that holds no text. -/
def twoFiles : Tree where
  entries :=
    [(["a.yml".toList], .file (Text.toBytes Engine.nudged)), (["b.yml".toList], .file ⟨#[0]⟩)]

def writeBoth : FixRequest :=
  { paths := ["a.yml".toList, "b.yml".toList], write := true }

def bothTargets : List Target :=
  [⟨.ofString "./a.yml", true⟩, ⟨.ofString "./b.yml", true⟩]

theorem plan_writeBoth :
    ∃ settings, settings.engine = {} ∧ settings.batchOptions = { write := true } ∧
      writeBoth.plan twoFiles = .ok (settings, bothTargets) := by
  have hresolve : (Settings.resolve twoFiles writeBoth.overrides).toOption.any fun settings =>
      settings.repoRoot = ⟨['.']⟩ ∧ settings.patterns = Discovery.defaultPatterns ∧
        settings.exclude = [] ∧ settings.engine = {} ∧
        settings.batchOptions = { write := true } := by decide +kernel
  have hfind : Discovery.find twoFiles ⟨['.']⟩ (writeBoth.paths.map Path.mk)
      Discovery.defaultPatterns [] = .ok ⟨[.ofString "./a.yml", .ofString "./b.yml"], []⟩ := by cbv
  unfold plan
  cases hsettings : Settings.resolve twoFiles writeBoth.overrides with
  | error e => simp [hsettings, Except.toOption] at hresolve
  | ok settings =>
    simp only [hsettings, Except.toOption, Option.any_some, decide_eq_true_eq] at hresolve
    obtain ⟨hroot, hpatterns, hexclude, hengine, hoptions⟩ := hresolve
    refine ⟨settings, hengine, hoptions, ?_⟩
    simp only [hroot, hpatterns, hexclude, hfind]
    rfl

/-- The file with a document is written, and the other one is skipped. -/
theorem run_touches_writeBoth :
    (writeBoth.run false twoFiles).reports.map (fun report => (report.outcome, report.wrote)) =
        [(.changed, true), (.skipped, false)] ∧
      (∀ location, (writeBoth.run false twoFiles).tree.nodeAt? location ≠
          twoFiles.nodeAt? location ↔ location = ["a.yml".toList]) ∧
      (writeBoth.run false twoFiles).exitCode ≤ 1 := by
  obtain ⟨settings, hengine, hoptions, hplan⟩ := plan_writeBoth
  have hfirst : twoFiles.locate (.ofString "./a.yml") = .ok ["a.yml".toList] := by decide +kernel
  have hdistinct : twoFiles.Distinct bothTargets := by
    have hplaces : bothTargets.filterMap (fun target => (twoFiles.locate target.path).toOption) =
        [["a.yml".toList], ["b.yml".toList]] := by decide +kernel
    rw [Tree.Distinct, hplaces]
    decide
  obtain ⟨-, hrun, -, -⟩ := run_touches_reported writeBoth false twoFiles fun _ _ h => by
    rw [hplan] at h
    cases h
    exact hdistinct
  obtain ⟨-, -, hwrote, hexit⟩ := hrun settings bothTargets hplan
  obtain ⟨batch, rfl, -, hreports, -⟩ := run_of_plan hplan false
  have houtcomes : (writeBoth.run false twoFiles).reports.map
      (fun report => (report.outcome, report.wrote)) = [(.changed, true), (.skipped, false)] := by
    rw [hreports, hengine, hoptions]
    decide +kernel
  refine ⟨houtcomes, fun location => ?_, hexit⟩
  obtain ⟨first, second, hlist, hpair⟩ : ∃ first second,
      (writeBoth.run false twoFiles).reports = [first, second] ∧
        (first.wrote = true ∧ second.wrote = false) := by
    obtain ⟨first, _, hlist, hhead, htail⟩ := List.map_eq_cons_iff.1 houtcomes
    obtain ⟨second, _, rfl, hnext, hnil⟩ := List.map_eq_cons_iff.1 htail
    rw [List.map_eq_nil_iff.1 hnil] at hlist
    exact ⟨first, second, hlist, (Prod.mk.inj hhead).2, (Prod.mk.inj hnext).2⟩
  rw [hwrote, hlist]
  constructor
  · rintro ⟨target, report, hmem, hreport, hlocate⟩
    simp only [bothTargets, List.zip_cons_cons, List.zip_nil_right, List.mem_cons, Prod.mk.injEq,
      List.not_mem_nil, or_false] at hmem
    obtain ⟨rfl, rfl⟩ | ⟨rfl, rfl⟩ := hmem
    · rw [hfirst] at hlocate
      exact (Except.ok.inj hlocate).symm
    · rw [hpair.2] at hreport
      cases hreport
  · rintro rfl
    exact ⟨_, first, List.mem_cons_self, hpair.1, hfirst⟩

end FixRequest
end Reindent
