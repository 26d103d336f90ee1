import Reindent.Proofs.Discovery.Targets
import Reindent.Proofs.Glob.Arrival

/-!
# Reindent.Proofs.Discovery.Directory

The targets in a directory.

* `YamlBelow`      — a file at any depth below a directory whose name ends as YAML files do.
* `isYaml_iff`     — the extension of a name with such an ending.
* `pathBelow`      — the path of a file below a directory.
* `find_directory` — the search finds these files and no others.
-/

namespace Reindent

namespace Path

variable {path : Path} {stem extension : Text}

theorem fileName?_of_getLast? {name : Text} (h : path.components.getLast? = some (.name name)) :
    path.fileName? = some name := by
  rw [fileName?, h]

theorem extension?_of_fields {name : Text} {fields : List Text} (h : path.fileName? = some name)
    (hfields : Text.fields '.' name = fields) :
    path.extension? =
      if fields.length > 1 && !(fields.length == 2 && fields.head? == some []) then
        fields.getLast?
      else
        none := by
  subst hfields
  rw [extension?, h]
  change ((if _ then _ else _ : Option Unit).bind fun _ => _) = _
  split <;> rfl

/-- A name that is only a dot and an extension has none. -/
theorem extension?_of_fileName? (h : path.fileName? = some (stem ++ '.' :: extension))
    (hdot : '.' ∉ extension) :
    path.extension? = if stem = [] then none else some extension := by
  obtain ⟨first, rest, hstem⟩ := List.exists_cons_of_ne_nil (List.splitOn_ne_nil '.' stem)
  have hfields :
      Text.fields '.' (stem ++ '.' :: extension) = first :: (rest ++ [extension]) := by
    rw [Text.fields, List.splitOn_append_cons_self, List.splitOn_eq_singleton hdot, hstem,
      List.cons_append]
  have hlast : (first :: (rest ++ [extension])).getLast? = some extension :=
    List.getLast?_concat (l := first :: rest)
  have hjoin : ['.'].intercalate (stem.splitOn '.') = stem := List.intercalate_splitOn '.'
  rw [hstem] at hjoin
  rw [extension?_of_fields h hfields, hlast]
  cases rest with
  | nil =>
    rw [List.intercalate_singleton] at hjoin
    rw [hjoin]
    cases stem <;> rfl
  | cons next rest =>
    have hne : stem ≠ [] := by
      rw [← hjoin, List.intercalate_cons_cons]
      simp
    rw [if_neg hne, if_pos]
    simp

end Path

namespace Discovery

open Glob (Searchable arrival child everywhere)

variable {tree : Tree} {root directory start : Path} {place : Location} {names : List Text}
  {path : Path}

/-- The endings of the names that are searched for. -/
def endings : List Text :=
  [".yml".toList, ".yaml".toList]

theorem defaultPatterns_eq : defaultPatterns = endings.map everywhere := by
  decide

/-- The names lead from the place to a file whose name ends as those of YAML files do, and is
longer than that. -/
structure YamlBelow (tree : Tree) (place : Location) (names : List Text) : Prop where
  isFile : ∃ content, tree.nodeAt? (place ++ names) = some (.file content)
  ending : ∃ stem, ∃ ending ∈ endings, stem ≠ [] ∧ names.getLast? = some (stem ++ ending)

/-- The path of what the names lead to below a directory. -/
def pathBelow (start : Path) (names : List Text) : Path :=
  names.foldl child (arrival start)

theorem YamlBelow.isSome_nodeAt? (h : YamlBelow tree place names) :
    (tree.nodeAt? (place ++ names)).isSome := by
  obtain ⟨content, hcontent⟩ := h.isFile
  rw [hcontent]
  rfl

theorem YamlBelow.ne_nil (h : YamlBelow tree place names) : names ≠ [] := by
  obtain ⟨stem, ending, -, -, hlast⟩ := h.ending
  exact List.ne_nil_of_mem (List.mem_of_getLast? hlast)

/-- A path is that of a YAML file if more than the ending stands in its last name. -/
theorem isYaml_iff {stem ending : Text} (hending : ending ∈ endings)
    (h : path.fileName? = some (stem ++ ending)) : path.isYaml ↔ stem ≠ [] := by
  have hdotted : ∃ extension, ending = '.' :: extension ∧ '.' ∉ extension ∧
      (extension.map Char.toLower == "yml".toList ||
        extension.map Char.toLower == "yaml".toList) := by
    rcases List.mem_cons.1 hending with rfl | hending
    · exact ⟨"yml".toList, by decide⟩
    · rw [List.mem_singleton.1 hending]
      exact ⟨"yaml".toList, by decide⟩
  obtain ⟨extension, rfl, hdot, hlower⟩ := hdotted
  rw [Path.isYaml, Path.extension?_of_fileName? h hdot]
  by_cases hstem : stem = []
  · simp [hstem]
  · rw [if_neg hstem, Option.any_some]
    exact iff_of_true hlower hstem

section Below

variable (hlocate : tree.locate start = .ok place) (hstart : Searchable start)
include hlocate hstart

theorem components_pathBelow (hproper : ∀ name ∈ names, (Component.name name).Proper)
    (hne : names ≠ []) :
    (pathBelow start names).components = Glob.front (arrival start) ++ names.map .name :=
  Glob.components_foldl_child (Glob.expand_pieces false [] hlocate hstart).2.1 hproper hne

variable (htree : tree.Proper)
include htree

theorem locate_pathBelow (hne : names ≠ []) (hnode : (tree.nodeAt? (place ++ names)).isSome)
    (hwidth : (pathBelow start names).spelling.width ≤ Tree.maxPath) :
    tree.locate (pathBelow start names) = .ok (place ++ names) := by
  obtain ⟨-, hstanding, harrival⟩ := Glob.expand_pieces false [] hlocate hstart
  have hproper := htree.proper_names hne hnode
  have hgap : ¬ Glob.GapAfterDots names := by
    obtain ⟨name, rest, rfl⟩ := List.exists_cons_of_ne_nil hne
    obtain ⟨hempty, hdot, -, -⟩ := hproper name List.mem_cons_self
    simp [Glob.GapAfterDots, hempty, hdot]
  rw [pathBelow, Glob.spelling_foldl_child hstanding hproper hne, Text.width_append] at hwidth
  exact (Glob.expand_literals false [] hstanding harrival (htree.descend hnode)
    (fun name hname => (hproper name hname).2.2.2) (fun _ => hgap) fun _ => hwidth).2.2

theorem fileName?_pathBelow {last : Text} (hnode : (tree.nodeAt? (place ++ names)).isSome)
    (hlast : names.getLast? = some last) :
    (pathBelow start names).fileName? = some last := by
  have hne : names ≠ [] := List.ne_nil_of_mem (List.mem_of_getLast? hlast)
  apply Path.fileName?_of_getLast?
  rw [components_pathBelow hlocate hstart (htree.proper_names hne hnode) hne,
    List.getLast?_append_of_ne_nil _ (by simpa using hne), List.getLast?_map, hlast,
    Option.map_some]

theorem eq_of_components_pathBelow {names' : List Text} (h : YamlBelow tree place names)
    (h' : YamlBelow tree place names')
    (hsame : (pathBelow start names).components =
      (pathBelow start names').components) : names = names' := by
  have hproper := htree.proper_names h.ne_nil h.isSome_nodeAt?
  have hproper' := htree.proper_names h'.ne_nil h'.isSome_nodeAt?
  rw [components_pathBelow hlocate hstart hproper h.ne_nil,
    components_pathBelow hlocate hstart hproper' h'.ne_nil] at hsame
  exact List.map_injective_iff.2 (fun _ _ => Component.name.inj) (List.append_cancel_left hsame)

end Below

/-! ### The paths that are kept -/

theorem mem_namesEnding {ending : Text} :
    names ∈ Glob.namesEnding tree place ending ↔
      (tree.nodeAt? (place ++ names)).isSome ∧ ∃ stem, names.getLast? = some (stem ++ ending) := by
  rw [Glob.namesEnding, List.mem_filter, Tree.mem_below, Option.any_eq_true]
  simp only [Glob.accepts_ending]
  constructor
  · rintro ⟨⟨-, hnode⟩, last, hlast, stem, rfl⟩
    exact ⟨hnode, stem, hlast⟩
  · rintro ⟨hnode, stem, hlast⟩
    have hne : names ≠ [] := List.ne_nil_of_mem (List.mem_of_getLast? hlast)
    exact ⟨⟨hne, hnode⟩, _, hlast, stem, rfl⟩

section Directory

variable (hlocate : tree.locate (root.join directory) = .ok place)
  (hdirectory : tree.isDirectoryAt place) (hstart : Searchable (root.join directory))
include hlocate hdirectory hstart

theorem search_everywhere {ending : Text} (hending : ending ∈ endings) :
    search tree (root.join directory) (everywhere ending) =
      .ok ((Glob.namesEnding tree place ending).map (pathBelow (root.join directory))) := by
  have hplain : Glob.Plain ending ∧ '/' ∉ ending ∧ ending ≠ [] := by
    rcases List.mem_cons.1 hending with rfl | hending
    · decide
    · rw [List.mem_singleton.1 hending]
      decide
  obtain ⟨hplain, hslash, hne⟩ := hplain
  rw [search, mapError_eq_ok]
  exact Glob.walk_everywhere hplain hslash hne hlocate hdirectory hstart

theorem yields_iff :
    Yields tree (starts root [directory]) defaultPatterns path ↔
      ∃ ending ∈ endings, ∃ names ∈ Glob.namesEnding tree place ending,
        path = pathBelow (root.join directory) names := by
  have hstarts : starts root [directory] = [root.join directory] := rfl
  have hstartDirectory : tree.isDirectory (root.join directory) := by
    rw [Tree.isDirectory_of_locate hlocate, hdirectory]
  rw [Yields, hstarts, defaultPatterns_eq]
  constructor
  · rintro ⟨start, hmem, -, pattern, hpattern, found, hsearch, hpath⟩
    obtain ⟨ending, hending, rfl⟩ := List.mem_map.1 hpattern
    rw [List.mem_singleton.1 hmem, search_everywhere hlocate hdirectory hstart hending] at hsearch
    rw [← Except.ok.inj hsearch] at hpath
    obtain ⟨names, hnames, rfl⟩ := List.mem_map.1 hpath
    exact ⟨ending, hending, names, hnames, rfl⟩
  · rintro ⟨ending, hending, names, hnames, rfl⟩
    exact ⟨_, List.mem_singleton_self _, hstartDirectory, _, List.mem_map_of_mem hending, _,
      search_everywhere hlocate hdirectory hstart hending, List.mem_map_of_mem hnames⟩

variable (htree : tree.Proper)
include htree

theorem walked_iff :
    Walked tree root [directory] defaultPatterns [] path ↔
      ∃ names, YamlBelow tree place names ∧
        (pathBelow (root.join directory) names).spelling.width ≤ Tree.maxPath ∧
        path = pathBelow (root.join directory) names := by
  constructor
  · rintro ⟨hyields, hfile, hyaml, -⟩
    obtain ⟨ending, hending, names, hnames, rfl⟩ := (yields_iff hlocate hdirectory hstart).1 hyields
    obtain ⟨hnode, stem, hlast⟩ := mem_namesEnding.1 hnames
    have hne : names ≠ [] := List.ne_nil_of_mem (List.mem_of_getLast? hlast)
    obtain ⟨location, hlocation⟩ := Tree.exists_locate_of_isFile hfile
    have hwidth := (Tree.width_le_of_locate hlocation).2
    have hplace := locate_pathBelow hlocate hstart htree hne hnode hwidth
    have hname := fileName?_pathBelow hlocate hstart htree hnode hlast
    exact ⟨names, ⟨(Tree.isFile_of_locate hplace).1 hfile,
      stem, ending, hending, (isYaml_iff hending hname).1 hyaml, hlast⟩, hwidth, rfl⟩
  · rintro ⟨names, hbelow, hwidth, rfl⟩
    have hnode := hbelow.isSome_nodeAt?
    have hplace := locate_pathBelow hlocate hstart htree hbelow.ne_nil hnode hwidth
    obtain ⟨hfile, stem, ending, hending, hstem, hlast⟩ := hbelow
    have hnames := mem_namesEnding.2 ⟨hnode, stem, hlast⟩
    have hname := fileName?_pathBelow hlocate hstart htree hnode hlast
    exact
      { yields := (yields_iff hlocate hdirectory hstart).2 ⟨ending, hending, names, hnames, rfl⟩
        isFile := (Tree.isFile_of_locate hplace).2 hfile
        isYaml := (isYaml_iff hending hname).2 hstem
        not_excluded := fun ⟨_, h, _⟩ => nomatch h }

theorem spelledAlike_walked :
    SpelledAlike (Walked tree root [directory] defaultPatterns []) := by
  intro p q hp hq hsame
  obtain ⟨names, hnames, -, rfl⟩ := (walked_iff hlocate hdirectory hstart htree).1 hp
  obtain ⟨names', hnames', -, rfl⟩ := (walked_iff hlocate hdirectory hstart htree).1 hq
  rw [eq_of_components_pathBelow hlocate hstart htree hnames hnames' hsame]

omit htree

theorem find_isOk_directory :
    ∃ discovery, find tree root [directory] defaultPatterns [] = .ok discovery := by
  refine find_isOk.2 ⟨nofun, fun start hmem _ pattern hpattern => ?_⟩
  have hmem : start ∈ [root.join directory] := hmem
  rw [defaultPatterns_eq] at hpattern
  obtain ⟨ending, hending, rfl⟩ := List.mem_map.1 hpattern
  rw [List.mem_singleton.1 hmem]
  exact ⟨_, search_everywhere hlocate hdirectory hstart hending⟩

end Directory

theorem plainStarts_directory (hlocate : tree.locate (root.join directory) = .ok place)
    (hdirectory : tree.isDirectoryAt place) : plainStarts tree root [directory] = [] := by
  have hstart := (Tree.isDirectory_of_locate hlocate).trans hdirectory
  simp [plainStarts, starts, hstart]

theorem named_eq_nil_of_directory {named walked : List Path}
    (h : Lists tree root [directory] defaultPatterns [] named walked)
    (hlocate : tree.locate (root.join directory) = .ok place)
    (hdirectory : tree.isDirectoryAt place) : named = [] := by
  refine List.eq_nil_iff_forall_not_mem.2 fun path hpath => ?_
  have hmem := ((h.mem_named path).1 hpath).mem
  rw [plainStarts_directory hlocate hdirectory] at hmem
  cases hmem

section Lists

variable {walked : List Path} (h : Lists tree root [directory] defaultPatterns [] [] walked)
  (hlocate : tree.locate (root.join directory) = .ok place)
  (hdirectory : tree.isDirectoryAt place) (hstart : Searchable (root.join directory))
  (htree : tree.Proper)
include h hlocate hdirectory hstart htree

theorem mem_walked_directory :
    path ∈ walked ↔
      ∃ names, YamlBelow tree place names ∧
        (pathBelow (root.join directory) names).spelling.width ≤ Tree.maxPath ∧
        path = pathBelow (root.join directory) names :=
  (h.mem_walked (spelledAlike_walked hlocate hdirectory hstart htree)).trans
    (walked_iff hlocate hdirectory hstart htree)

theorem nodup_locate_walked : (walked.map tree.locate).Nodup := by
  refine List.Nodup.map_on (fun p hp q hq hsame => ?_)
    (List.Nodup.of_map _ (nodup_components h.walked_sorted))
  have hmem := fun path => @mem_walked_directory _ _ _ _ path _ h hlocate hdirectory hstart htree
  obtain ⟨names, hbelow, hwidth, rfl⟩ := (hmem p).1 hp
  obtain ⟨names', hbelow', hwidth', rfl⟩ := (hmem q).1 hq
  rw [locate_pathBelow hlocate hstart htree hbelow.ne_nil hbelow.isSome_nodeAt? hwidth,
    locate_pathBelow hlocate hstart htree hbelow'.ne_nil hbelow'.isSome_nodeAt? hwidth'] at hsame
  rw [List.append_cancel_left (Except.ok.inj hsame)]

end Lists

/-- The search in a directory whose spelling has no special characters finds the YAML files at any
depth below it, each once, and nothing else. -/
theorem find_directory (htree : tree.Proper)
    (hlocate : tree.locate (root.join directory) = .ok place)
    (hdirectory : tree.isDirectoryAt place) (hstart : Searchable (root.join directory)) :
    ∃ discovery, find tree root [directory] defaultPatterns [] = .ok discovery ∧
      (∀ target, target ∈ discovery.targets ↔
        ∃ names, YamlBelow tree place names ∧
          (pathBelow (root.join directory) names).spelling.width ≤ Tree.maxPath ∧
          target = ⟨pathBelow (root.join directory) names, false⟩) ∧
      (∀ names, YamlBelow tree place names →
        (pathBelow (root.join directory) names).spelling.width ≤ Tree.maxPath →
        tree.locate (pathBelow (root.join directory) names) = .ok (place ++ names)) ∧
      (discovery.targets.map fun target => tree.locate target.path).Nodup := by
  obtain ⟨discovery, hfind⟩ := find_isOk_directory hlocate hdirectory hstart
  obtain ⟨named, walked, hlists, htargets⟩ := find_lists hfind
  obtain rfl := named_eq_nil_of_directory hlists hlocate hdirectory
  rw [List.map_nil, List.nil_append] at htargets
  refine ⟨discovery, hfind, fun target => ?_, fun names hbelow hwidth => ?_, ?_⟩
  · rw [htargets, List.mem_map]
    constructor
    · rintro ⟨path, hpath, rfl⟩
      obtain ⟨names, hbelow, hwidth, rfl⟩ :=
        (mem_walked_directory hlists hlocate hdirectory hstart htree).1 hpath
      exact ⟨names, hbelow, hwidth, rfl⟩
    · rintro ⟨names, hbelow, hwidth, rfl⟩
      exact ⟨_, (mem_walked_directory hlists hlocate hdirectory hstart htree).2
        ⟨names, hbelow, hwidth, rfl⟩, rfl⟩
  · exact locate_pathBelow hlocate hstart htree hbelow.ne_nil hbelow.isSome_nodeAt? hwidth
  · rw [htargets, List.map_map]
    exact nodup_locate_walked hlists hlocate hdirectory hstart htree

/-! ### Runs on small trees -/

/-- The file in the directory is found. -/
theorem find_directory_oneFile :
    ∃ discovery, find oneFile (.ofString ".") [.ofString "a"] defaultPatterns [] = .ok discovery ∧
      ⟨.ofString "a/b.yml", false⟩ ∈ discovery.targets := by
  have htree : oneFile.Proper := by decide
  have hlocate : oneFile.locate (.join (.ofString ".") (.ofString "a")) = .ok ["a".toList] := by
    decide
  have hstart : Searchable (.join (.ofString ".") (.ofString "a")) := ⟨by decide, by decide⟩
  have hbelow : YamlBelow oneFile ["a".toList] ["b.yml".toList] :=
    ⟨⟨_, rfl⟩, "b".toList, ".yml".toList, by decide, by decide, rfl⟩
  obtain ⟨discovery, hfind, htargets, -, -⟩ := find_directory htree hlocate (by decide) hstart
  exact ⟨discovery, hfind, (htargets _).2 ⟨_, hbelow, by decide, by decide⟩⟩

def twoDirectories : Tree where
  entries :=
    [(["[a]".toList], .directory), (["[a]".toList, "x.yml".toList], .file ⟨#[]⟩),
      (["a".toList], .directory), (["a".toList, "y.yml".toList], .file ⟨#[]⟩)]

/-- Brackets in the name of a directory are read as those of a pattern. -/
theorem not_find_directory_brackets :
    ∃ discovery,
      find twoDirectories (.ofString ".") [.ofString "[a]"] defaultPatterns [] = .ok discovery ∧
      twoDirectories.locate (.join (.ofString ".") (.ofString "[a]")) = .ok ["[a]".toList] ∧
      twoDirectories.isDirectoryAt ["[a]".toList] ∧
      YamlBelow twoDirectories ["[a]".toList] ["x.yml".toList] ∧
      discovery.targets.map (fun target => twoDirectories.locate target.path) =
        [.ok ["a".toList, "y.yml".toList]] := by
  refine ⟨⟨[], [.ofString "a/y.yml"]⟩, ?_, by decide, by decide, ?_, by decide⟩
  · cbv
  · exact ⟨⟨_, rfl⟩, "x".toList, ".yml".toList, by decide, by decide, rfl⟩

end Discovery

end Reindent
