import Reindent.Proofs.Glob.Walk

/-!
# Reindent.Proofs.Glob.Arrival

What the walk finds below a directory whose spelling has no special characters.

* `Searchable`      — such a spelling.
* `arrival`         — the path with which the walk comes to the directory.
* `expand_pieces`   — the walk comes there.
* `walk_everywhere` — it finds the names with an ending, at any depth.
-/

namespace Reindent
namespace Glob

variable {tree : Tree} {path start : Path} {ending : Text} {place : Location}

/-! ### The pieces of a directory -/

/-- The pieces are the segments behind the slashes in front, without an empty one at the end. -/
theorem pieces_cases (text : Text) :
    Text.fields '/' (text.dropWhile (· == '/')) = pieces text ∨
      Text.fields '/' (text.dropWhile (· == '/')) = pieces text ++ [[]] := by
  unfold pieces
  dsimp only
  split
  · rename_i hlast
    obtain ⟨init, hinit⟩ := List.getLast?_eq_some_iff.1 (beq_iff_eq.1 hlast)
    exact .inr (by rw [hinit, List.dropLast_concat])
  · exact .inl rfl

theorem not_mem_piece {text piece : Text} (h : piece ∈ pieces text) : '/' ∉ piece := by
  rcases pieces_cases text with hfields | hfields
  · exact Text.not_mem_of_mem_fields (hfields ▸ h)
  · exact Text.not_mem_of_mem_fields (hfields ▸ List.mem_append_left _ h)

theorem getLast?_fields {text : Text} (hne : text ≠ []) (hlast : text.getLast? ≠ some '/') :
    (Text.fields '/' text).getLast? ≠ some [] := by
  intro h
  obtain ⟨init, hinit⟩ := List.getLast?_eq_some_iff.1 h
  have hjoin : ['/'].intercalate (Text.fields '/' text) = text := List.intercalate_splitOn '/'
  rw [hinit] at hjoin
  by_cases hnil : init = []
  · rw [hnil] at hjoin
    exact hne hjoin.symm
  · rw [Text.intercalate_concat hnil] at hjoin
    rw [← hjoin] at hlast
    simp at hlast

/-- The segments behind the slashes in front. -/
def inner (text : Text) : List Text :=
  if text.dropWhile (· == '/') = [] then [] else Text.fields '/' (text.dropWhile (· == '/'))

theorem pieces_append (text : Text) {tail : Text} (hhead : tail.head? ≠ some '/')
    (hlast : tail.getLast? ≠ some '/') (hne : tail ≠ []) :
    pieces (text ++ '/' :: tail) = inner text ++ Text.fields '/' tail := by
  have hdrop : ('/' :: tail).dropWhile (· == '/') = tail := by
    rw [List.dropWhile_cons_of_pos rfl]
    cases tail with
    | nil => rfl
    | cons c tail => exact List.dropWhile_cons_of_neg (by simpa using hhead)
  have hfields := getLast?_fields hne hlast
  unfold pieces inner
  by_cases hnil : text.dropWhile (· == '/') = []
  · simp [List.dropWhile_append, hdrop, hnil, hfields]
  · have htext : (text ++ '/' :: tail).dropWhile (· == '/') =
        text.dropWhile (· == '/') ++ '/' :: tail := by
      rw [List.dropWhile_append, if_neg (by simpa using hnil)]
    dsimp only
    rw [htext, if_neg hnil, Text.fields, List.splitOn_append_cons_self,
      List.getLast?_append_of_ne_nil _ (List.splitOn_ne_nil _ _), if_neg (by simpa using hfields)]

theorem pieces_concat (text : Text) : pieces (text ++ ['/']) = inner text := by
  unfold pieces inner
  by_cases hnil : text.dropWhile (· == '/') = []
  · simp [List.dropWhile_append, hnil]
  · have htext : (text ++ ['/']).dropWhile (· == '/') = text.dropWhile (· == '/') ++ ['/'] := by
      rw [List.dropWhile_append, if_neg (by simpa using hnil)]
    rw [htext, if_neg hnil, Text.fields, List.splitOn_append_cons_self]
    simp

theorem pieces_eq_inner {text : Text} (hlast : text.getLast? ≠ some '/') :
    pieces text = inner text := by
  unfold pieces inner
  by_cases hnil : text.dropWhile (· == '/') = []
  · simp [hnil]
  · have hlast' : (text.dropWhile (· == '/')).getLast? ≠ some '/' := by
      obtain ⟨init, hinit⟩ := List.dropWhile_suffix (· == '/') (l := text)
      rw [← hinit, List.getLast?_append_of_ne_nil _ hnil] at hlast
      exact hlast
    have hfields := getLast?_fields hnil hlast'
    simp [hnil, hfields]

theorem pieces_spelling (path : Path) : pieces path.spelling = inner path.stem := by
  by_cases hlast : path.spelling.getLast? = some '/'
  · obtain ⟨init, hinit⟩ := List.getLast?_eq_some_iff.1 hlast
    rw [Path.stem, if_pos hlast, hinit, List.dropLast_concat, pieces_concat]
  · rw [Path.stem, if_neg hlast, pieces_eq_inner hlast]

theorem dropWhile_of_relative {path : Path} (h : path.isAbsolute = false) :
    path.spelling.dropWhile (· == '/') = path.spelling := by
  unfold Path.isAbsolute at h
  cases hspelling : path.spelling with
  | nil => rfl
  | cons c spelling =>
    rw [hspelling] at h
    exact List.dropWhile_cons_of_neg (by simpa using h)

theorem foldlM_pieces (hlocate : tree.locate path = .ok place) :
    (pieces path.spelling).foldlM tree.step (tree.origin path) = .ok place := by
  obtain ⟨hne, hwidth⟩ := Tree.width_le_of_locate hlocate
  rw [Tree.locate_eq hne hwidth] at hlocate
  have hslashes : ∀ spelling : Text, (Text.fields '/' spelling).foldlM tree.step [] =
      (Text.fields '/' (spelling.dropWhile (· == '/'))).foldlM tree.step [] := by
    intro spelling
    induction spelling with
    | nil => rfl
    | cons c spelling ih =>
      by_cases hc : c = '/'
      · have hroot : tree.step [] [] = .ok [] := Tree.step_empty rfl
        rw [Text.fields, List.splitOn_cons_eq_if_modifyHead, if_pos (beq_iff_eq.2 hc),
          List.dropWhile_cons_of_pos (by simp [hc]), ← ih, List.foldlM_cons, hroot]
        rfl
      · rw [List.dropWhile_cons_of_neg (by simp [hc])]
  have hfields : (Text.fields '/' (path.spelling.dropWhile (· == '/'))).foldlM tree.step
      (tree.origin path) = .ok place := by
    rw [← hlocate, Path.segments]
    cases habsolute : path.isAbsolute with
    | true =>
      rw [Tree.origin, if_pos habsolute]
      exact (hslashes _).symm
    | false => rw [dropWhile_of_relative habsolute]
  rcases pieces_cases path.spelling with hpieces | hpieces
  · rwa [hpieces] at hfields
  · exact Tree.foldlM_step_concat (hpieces ▸ hfields)

/-! ### The walk to a directory -/

/-- Where a walk sets out. -/
def outset (path : Path) : Path :=
  if path.isAbsolute then ⟨['/']⟩ else ⟨['.']⟩

/-- The path with which the walk comes to a directory. -/
def arrival (path : Path) : Path :=
  (pieces path.spelling).foldl child (outset path)

/-- The spelling of a directory to which the walk comes: no character is special, and the dots in
front of a relative path are followed by one slash. -/
structure Searchable (path : Path) : Prop where
  plain : Plain path.spelling
  no_gap : path.isAbsolute = false → ¬ GapAfterDots (pieces path.spelling)

theorem standing_outset (path : Path) : Standing (outset path) := by
  unfold outset
  split
  · exact ⟨nofun, fun h => absurd h (by decide)⟩
  · exact ⟨nofun, fun _ => rfl⟩

theorem isHere_outset (path : Path) : isHere (outset path) = !path.isAbsolute := by
  unfold outset
  cases path.isAbsolute <;> decide

theorem locate_outset (hlocate : tree.locate path = .ok place) :
    tree.locate (outset path) = .ok (tree.origin path) := by
  unfold outset Tree.origin
  cases habsolute : path.isAbsolute with
  | true =>
    have hroot : tree.step [] [] = .ok [] := Tree.step_empty rfl
    have hsegments : (⟨['/']⟩ : Path).segments = [[], []] := rfl
    have horigin : tree.origin ⟨['/']⟩ = [] := rfl
    rw [if_pos rfl, if_pos rfl, Tree.locate_eq (List.cons_ne_nil _ _) (by decide), hsegments,
      horigin, List.foldlM_cons, hroot]
    exact foldlM_singleton.trans hroot
  | false =>
    obtain ⟨hne, hwidth⟩ := Tree.width_le_of_locate hlocate
    obtain ⟨first, rest, hpath⟩ := path.exists_segments
    rw [Tree.locate_eq hne hwidth, hpath, Tree.origin, habsolute, if_neg Bool.false_ne_true]
      at hlocate
    obtain ⟨middle, hfirst, -⟩ := foldlM_cons_eq_ok.1 hlocate
    have hdirectory := (Tree.step_ok hfirst).1
    have hsegments : (⟨['.']⟩ : Path).segments = [['.']] := rfl
    have horigin : tree.origin ⟨['.']⟩ = tree.workingDirectory := rfl
    rw [if_neg Bool.false_ne_true, if_neg Bool.false_ne_true,
      Tree.locate_eq (List.cons_ne_nil _ _) (by decide), hsegments, horigin, foldlM_singleton]
    simp [Tree.step, hdirectory, Component.ofSegment?]

theorem width_dropWhile_le (text : Text) :
    Text.width (text.dropWhile (· == '/')) ≤ text.width := by
  have happend := congrArg Text.width
    (List.takeWhile_append_dropWhile (p := (· == '/')) (l := text))
  rw [Text.width_append] at happend
  omega

/-- The slashes in front make room for what the walk puts in front. -/
theorem width_lead_outset_le (path : Path) :
    (lead (outset path)).width + Text.width (path.spelling.dropWhile (· == '/')) ≤
      path.spelling.width := by
  cases habsolute : path.isAbsolute with
  | true =>
    have hlead : lead (outset path) = ['/'] := by
      rw [outset, if_pos habsolute]
      decide
    have hslash : ('/' : Char).utf8Size = 1 := by decide
    obtain ⟨_ | ⟨c, rest⟩⟩ := path
    · cases habsolute
    · have hc : c = '/' := by simpa [Path.isAbsolute] using habsolute
      have hrest := width_dropWhile_le rest
      subst hc
      rw [hlead, List.dropWhile_cons_of_pos (by rfl), Text.width_cons, Text.width_cons, hslash,
        Text.width_nil]
      omega
  | false =>
    have hlead : lead (outset path) = [] := by
      rw [lead, isHere_outset, habsolute]
      rfl
    rw [hlead, Text.width_nil, Nat.zero_add]
    exact width_dropWhile_le _

theorem width_intercalate_pieces_le (text : Text) :
    Text.width (['/'].intercalate (pieces text)) ≤ Text.width (text.dropWhile (· == '/')) := by
  have hjoin : ['/'].intercalate (Text.fields '/' (text.dropWhile (· == '/'))) =
      text.dropWhile (· == '/') := List.intercalate_splitOn '/'
  rcases pieces_cases text with h | h
  · rw [h] at hjoin
    exact Nat.le_of_eq (congrArg Text.width hjoin)
  · rw [h] at hjoin
    rw [← hjoin]
    by_cases hnil : pieces text = []
    · simp [hnil]
    · rw [Text.intercalate_concat hnil, Text.width_append]
      exact Nat.le_add_right _ _

theorem width_pieces_le (path : Path) :
    (lead (outset path)).width + Text.width (['/'].intercalate (pieces path.spelling)) ≤
      path.spelling.width :=
  Nat.le_trans (Nat.add_le_add_left (width_intercalate_pieces_le _) _) (width_lead_outset_le path)

theorem expand_pieces (directories : Bool) (rest : List Step)
    (hlocate : tree.locate start = .ok place) (h : Searchable start) :
    expand tree directories ((pieces start.spelling).map .literal ++ rest) (outset start) =
        expand tree directories rest (arrival start) ∧
      Standing (arrival start) ∧ tree.locate (arrival start) = .ok place := by
  have hwidth := (Tree.width_le_of_locate hlocate).2
  refine expand_literals directories rest (standing_outset start) (locate_outset hlocate)
    (foldlM_pieces hlocate) (fun _ => not_mem_piece) (fun hhere => ?_)
    fun _ => Nat.le_trans (width_pieces_le start) hwidth
  rw [isHere_outset, Bool.not_eq_true'] at hhere
  exact h.no_gap hhere

/-! ### The walk below the directory -/

theorem everywhere_eq (ending : Text) : everywhere ending = ['*', '*', '/', '*'] ++ ending :=
  rfl

/-- The names below the directory whose last one has the ending. -/
def namesEnding (tree : Tree) (place : Location) (ending : Text) : List (List Text) :=
  (tree.below place).filter fun names =>
    names.getLast?.any (accepts (.anySequence :: chars ending))

theorem plain_piece {text piece : Text} (h : Plain text) (hpiece : piece ∈ pieces text) :
    Plain piece := by
  have hfields : piece ∈ Text.fields '/' (text.dropWhile (· == '/')) := by
    rcases pieces_cases text with hpieces | hpieces
    · exact hpieces ▸ hpiece
    · exact hpieces ▸ List.mem_append_left _ hpiece
  exact fun c hc => h c ((List.dropWhile_suffix _).subset (Text.mem_of_mem_fields hfields hc))

theorem plain_stem {path : Path} (h : Plain path.spelling) : Plain (path.stem ++ ['/']) := by
  have hstem : ∀ c ∈ path.stem, c ∈ path.spelling := by
    intro c hc
    rcases path.stem_cases with heq | heq
    · rwa [heq]
    · rw [heq]
      exact List.mem_append_left _ hc
  intro c hc
  rcases List.mem_append.1 hc with hc | hc
  · exact h c (hstem c hc)
  · rw [List.mem_singleton.1 hc]
    decide

theorem expand_everywhere {base : Path} (hlocate : tree.locate base = .ok place)
    (hdirectory : tree.isDirectoryAt place) :
    expand tree false [.components, .pattern (.anySequence :: chars ending)] base =
      (namesEnding tree place ending).map fun names => names.foldl child base := by
  have hbelow : namesBelow tree base = tree.below place := by
    rw [namesBelow, hlocate]
    exact if_pos hdirectory
  have hcollect : ∀ lists : List (List Text),
      (lists.flatMap fun names =>
        if names.getLast?.any (accepts (.anySequence :: chars ending)) then
          [names.foldl child base] else []) =
      (lists.filter fun names => names.getLast?.any (accepts (.anySequence :: chars ending))).map
        fun names => names.foldl child base := by
    intro lists
    induction lists with
    | nil => rfl
    | cons names lists ih =>
      rw [List.flatMap_cons, ih, List.filter_cons]
      split <;> rfl
  rw [namesEnding, ← hcollect, ← hbelow, expand]
  · simp only [expand, Bool.false_and, Bool.false_eq_true, if_false]
    rfl
  · intro hstep
    cases hstep

theorem parse_join_everywhere (hending : Plain ending) (h : Plain path.spelling)
    (hpath : path.spelling ≠ []) :
    ∃ tokens, parse (path.join ⟨everywhere ending⟩).spelling = .ok tokens := by
  have hspelling : (path.join ⟨everywhere ending⟩).spelling =
      (path.stem ++ ['/']) ++ everywhere ending := by
    rw [Path.join_eq hpath rfl]
    simp
  rw [hspelling, parse, parseFrom_plain (plain_stem h), parseFrom_everywhere hending]
  · exact ⟨_, rfl⟩
  · simp

theorem pieces_join_everywhere (hslash : '/' ∉ ending) (hne : ending ≠ [])
    (hpath : path.spelling ≠ []) :
    pieces (path.join ⟨everywhere ending⟩).spelling =
      pieces path.spelling ++ [['*', '*'], '*' :: ending] := by
  have hlast : (everywhere ending).getLast? ≠ some '/' := by
    rw [everywhere_eq, List.getLast?_append_of_ne_nil _ hne]
    exact fun h => hslash (List.mem_of_getLast? h)
  have hfields : Text.fields '/' (everywhere ending) = [['*', '*'], '*' :: ending] := by
    have hstar : '/' ∉ '*' :: ending := by simp [hslash]
    have hcut : everywhere ending = ['*', '*'] ++ '/' :: '*' :: ending := rfl
    rw [hcut, Text.fields, List.splitOn_append_cons_self_of_not_mem (by decide),
      List.splitOn_eq_singleton hstar]
  rw [Path.join_eq hpath rfl,
    pieces_append path.stem (by simp [everywhere]) hlast (List.cons_ne_nil _ _), hfields,
    pieces_spelling]

/-- Below a directory the walk finds the names with the ending, at any depth. -/
theorem walk_everywhere (hending : Plain ending) (hslash : '/' ∉ ending) (hne : ending ≠ [])
    (hlocate : tree.locate start = .ok place) (hdirectory : tree.isDirectoryAt place)
    (h : Searchable start) :
    walk tree (start.join ⟨everywhere ending⟩).spelling =
      .ok ((namesEnding tree place ending).map fun names => names.foldl child (arrival start)) := by
  have hpath := (Tree.width_le_of_locate hlocate).1
  obtain ⟨tokens, hparse⟩ := parse_join_everywhere hending h.plain hpath
  have hliterals : (pieces start.spelling).mapM (fun piece => (parse piece).map Step.ofTokens) =
      .ok ((pieces start.spelling).map .literal) :=
    mapM_eq_ok_map fun piece hpiece => by
      rw [parse_plain (plain_piece h.plain hpiece)]
      exact congrArg Except.ok (ofTokens_chars piece)
  have hwildcards :
      [['*', '*'], '*' :: ending].mapM (fun piece => (parse piece).map Step.ofTokens) =
        .ok [.components, .pattern (.anySequence :: chars ending)] := by
    rw [List.mapM_cons, List.mapM_cons, parse_star hending, Except.map, ofTokens_star]
    rfl
  have hhead : ((start.join ⟨everywhere ending⟩).spelling.head? == some '/') = start.isAbsolute :=
    Path.isAbsolute_join hpath rfl
  have hlast : ((start.join ⟨everywhere ending⟩).spelling.getLast? == some '/') = false := by
    have hcut : (start.join ⟨everywhere ending⟩).spelling =
        (start.stem ++ ['/', '*', '*', '/', '*']) ++ ending := by
      rw [Path.join_eq hpath rfl]
      simp [everywhere]
    rw [beq_eq_false_iff_ne, hcut, List.getLast?_append_of_ne_nil _ hne]
    exact fun h => hslash (List.mem_of_getLast? h)
  obtain ⟨hexpand, -, harrival⟩ :=
    expand_pieces false [.components, .pattern (.anySequence :: chars ending)] hlocate h
  unfold walk
  rw [hparse, pieces_join_everywhere hslash hne hpath,
    mapM_append_of_ok hliterals hwildcards, hhead, hlast]
  change Except.ok (expand tree false _ (outset start)) = _
  rw [hexpand, expand_everywhere harrival hdirectory]

end Glob
end Reindent
