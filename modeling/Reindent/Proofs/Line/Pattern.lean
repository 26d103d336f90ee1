import Reindent.Text.Basic

/-!
# Reindent.Proofs.Line.Pattern

Patterns that are tried in an order of preference, as a search with backtracking does.

* `Pattern`       — characters of a class, repetition, choice and named groups.
* `Pattern.ways`  — all ways to take a pattern off the front of a text, the preferred ones first.
* `Pattern.first?` — the groups of the way that a search settles on.
* `Pattern.Takes` — what a way takes, without the order.
* `mem_ways_iff`  — the ways are those that take the pattern.
-/

namespace Reindent

/-- Patterns with groups named by `γ`. Only single characters are repeated. -/
inductive Pattern (γ : Type) where
  | one (p : Char → Bool)
  | seq (pattern next : Pattern γ)
  /-- The first one is preferred. -/
  | either (pattern other : Pattern γ)
  /-- Any number of characters, as many as possible. -/
  | most (p : Char → Bool)
  /-- Any number of characters, as few as possible. -/
  | fewest (p : Char → Bool)
  /-- The pattern, or else nothing. -/
  | possibly (pattern : Pattern γ)
  | group (name : γ) (pattern : Pattern γ)
  /-- The end of the text. -/
  | finish

/-- The texts that groups have taken. -/
abbrev Groups (γ : Type) := List (γ × Text)

namespace Pattern

variable {γ : Type}

/-- What is left after no character of the class, after one, and so on. -/
def stops (p : Char → Bool) : Text → List Text
  | [] => [[]]
  | c :: rest => (c :: rest) :: if p c then stops p rest else []

/-- The ways to take the pattern off the front of a text, each with what is left. -/
def ways : Pattern γ → Text → List (Groups γ × Text)
  | one _, [] => []
  | one p, c :: rest => if p c then [([], rest)] else []
  | seq pattern next, s =>
    (ways pattern s).flatMap fun (groups, rest) =>
      (ways next rest).map fun (others, rest) => (groups ++ others, rest)
  | either pattern other, s => ways pattern s ++ ways other s
  | most p, s => (stops p s).reverse.map ([], ·)
  | fewest p, s => (stops p s).map ([], ·)
  | possibly pattern, s => ways pattern s ++ [([], s)]
  | group name pattern, s =>
    (ways pattern s).map fun (groups, rest) =>
      ((name, s.take (s.length - rest.length)) :: groups, rest)
  | finish, s => if s.isEmpty then [([], [])] else []

/-- The groups of the way that comes first. -/
def first? (pattern : Pattern γ) (s : Text) : Option (Groups γ) :=
  (pattern.ways s).head?.map Prod.fst

/-- The pattern takes `taken`, where `rest` follows. -/
def Takes : Pattern γ → Text → Groups γ → Text → Prop
  | one p, taken, groups, _ => ∃ c, p c = true ∧ taken = [c] ∧ groups = []
  | seq pattern next, taken, groups, rest =>
    ∃ front back inner outer, taken = front ++ back ∧ groups = inner ++ outer ∧
      Takes pattern front inner (back ++ rest) ∧ Takes next back outer rest
  | either pattern other, taken, groups, rest =>
    Takes pattern taken groups rest ∨ Takes other taken groups rest
  | most p, taken, groups, _ | fewest p, taken, groups, _ =>
    (∀ c ∈ taken, p c = true) ∧ groups = []
  | possibly pattern, taken, groups, rest =>
    Takes pattern taken groups rest ∨ taken = [] ∧ groups = []
  | group name pattern, taken, groups, rest =>
    ∃ inner, groups = (name, taken) :: inner ∧ Takes pattern taken inner rest
  | finish, taken, groups, rest => taken = [] ∧ groups = [] ∧ rest = []

theorem mem_stops {p : Char → Bool} {s rest : Text} :
    rest ∈ stops p s ↔ ∃ taken, s = taken ++ rest ∧ ∀ c ∈ taken, p c = true := by
  induction s with
  | nil =>
    rw [stops, List.mem_singleton]
    constructor
    · rintro rfl
      exact ⟨[], rfl, nofun⟩
    · rintro ⟨taken, htaken, -⟩
      exact (List.append_eq_nil_iff.1 htaken.symm).2
  | cons c s ih =>
    rw [stops, List.mem_cons]
    constructor
    · rintro (rfl | hrest)
      · exact ⟨[], rfl, nofun⟩
      · split at hrest
        · rename_i hc
          obtain ⟨taken, rfl, hall⟩ := ih.1 hrest
          exact ⟨c :: taken, rfl, List.forall_mem_cons.2 ⟨hc, hall⟩⟩
        · cases hrest
    · rintro ⟨taken, htaken, hall⟩
      cases taken with
      | nil => exact .inl htaken.symm
      | cons d taken =>
        obtain ⟨rfl, rfl⟩ := List.cons.inj htaken
        rw [List.forall_mem_cons] at hall
        rw [if_pos hall.1]
        exact .inr (ih.2 ⟨taken, rfl, hall.2⟩)

/-! ### The ways of each kind of pattern -/

section Ways

variable {p : Char → Bool} {pattern next : Pattern γ} {name : γ} {s rest : Text}
  {groups : Groups γ}

theorem mem_ways_one :
    (groups, rest) ∈ (one p).ways s ↔ ∃ c, p c = true ∧ s = c :: rest ∧ groups = [] := by
  cases s with
  | nil => simp [ways]
  | cons d s =>
    simp only [ways]
    constructor
    · intro h
      split at h
      · rename_i hd
        cases List.mem_singleton.1 h
        exact ⟨d, hd, rfl, rfl⟩
      · cases h
    · rintro ⟨c, hc, hs, rfl⟩
      cases hs
      rw [if_pos hc]
      exact List.mem_singleton_self _

theorem mem_ways_seq :
    (groups, rest) ∈ (seq pattern next).ways s ↔
      ∃ inner middle outer, (inner, middle) ∈ pattern.ways s ∧ (outer, rest) ∈ next.ways middle ∧
        groups = inner ++ outer := by
  simp only [ways, List.mem_flatMap, List.mem_map, Prod.exists, Prod.mk.injEq]
  constructor
  · rintro ⟨inner, middle, hinner, outer, _, houter, rfl, rfl⟩
    exact ⟨inner, middle, outer, hinner, houter, rfl⟩
  · rintro ⟨inner, middle, outer, hinner, houter, rfl⟩
    exact ⟨inner, middle, hinner, outer, rest, houter, rfl, rfl⟩

theorem mem_ways_most :
    (groups, rest) ∈ (most p).ways s ↔ rest ∈ stops p s ∧ groups = [] := by
  simp only [ways, List.mem_map, List.mem_reverse, Prod.mk.injEq]
  constructor
  · rintro ⟨_, hrest, rfl, rfl⟩
    exact ⟨hrest, rfl⟩
  · rintro ⟨hrest, rfl⟩
    exact ⟨rest, hrest, rfl, rfl⟩

/-- The preference makes no difference to what is possible. -/
theorem mem_ways_fewest :
    (groups, rest) ∈ (fewest p).ways s ↔ (groups, rest) ∈ (most p).ways s := by
  simp only [ways, List.mem_map, List.mem_reverse]

theorem mem_ways_possibly :
    (groups, rest) ∈ (possibly pattern).ways s ↔
      (groups, rest) ∈ pattern.ways s ∨ groups = [] ∧ rest = s := by
  rw [ways, List.mem_append, List.mem_singleton, Prod.mk.injEq]

theorem mem_ways_group :
    (groups, rest) ∈ (group name pattern).ways s ↔
      ∃ inner, (inner, rest) ∈ pattern.ways s ∧
        groups = (name, s.take (s.length - rest.length)) :: inner := by
  simp only [ways, List.mem_map, Prod.exists, Prod.mk.injEq]
  constructor
  · rintro ⟨inner, _, hinner, rfl, rfl⟩
    exact ⟨inner, hinner, rfl⟩
  · rintro ⟨inner, hinner, rfl⟩
    exact ⟨inner, rest, hinner, rfl, rfl⟩

theorem mem_ways_finish :
    (groups, rest) ∈ (finish : Pattern γ).ways s ↔ s = [] ∧ groups = [] ∧ rest = [] := by
  cases s <;> simp [ways]

end Ways

/-- The ways to take a pattern off a text are those that take it. -/
theorem mem_ways_iff {pattern : Pattern γ} {s rest : Text} {groups : Groups γ} :
    (groups, rest) ∈ pattern.ways s ↔
      ∃ taken, s = taken ++ rest ∧ pattern.Takes taken groups rest := by
  induction pattern generalizing s rest groups with
  | one p =>
    rw [mem_ways_one]
    constructor
    · rintro ⟨c, hc, rfl, rfl⟩
      exact ⟨[c], rfl, c, hc, rfl, rfl⟩
    · rintro ⟨_, rfl, c, hc, rfl, rfl⟩
      exact ⟨c, hc, rfl, rfl⟩
  | seq pattern next ih ihnext =>
    rw [mem_ways_seq]
    constructor
    · rintro ⟨inner, middle, outer, hinner, houter, rfl⟩
      obtain ⟨front, rfl, hfront⟩ := ih.1 hinner
      obtain ⟨back, rfl, hback⟩ := ihnext.1 houter
      exact ⟨front ++ back, by rw [List.append_assoc], front, back, inner, outer, rfl, rfl,
        hfront, hback⟩
    · rintro ⟨_, rfl, front, back, inner, outer, rfl, rfl, hfront, hback⟩
      exact ⟨inner, back ++ rest, outer, ih.2 ⟨front, by rw [List.append_assoc], hfront⟩,
        ihnext.2 ⟨back, rfl, hback⟩, rfl⟩
  | either pattern other ih ihother =>
    simp only [ways, List.mem_append, ih, ihother, Takes, and_or_left, exists_or]
  | most p => simp only [mem_ways_most, mem_stops, Takes, ← exists_and_right, and_assoc]
  | fewest p =>
    simp only [mem_ways_fewest, mem_ways_most, mem_stops, Takes, ← exists_and_right, and_assoc]
  | possibly pattern ih =>
    rw [mem_ways_possibly, ih]
    simp only [Takes, and_or_left, exists_or]
    refine or_congr_right ⟨?_, ?_⟩
    · rintro ⟨rfl, rfl⟩
      exact ⟨[], rfl, rfl, rfl⟩
    · rintro ⟨_, rfl, rfl, rfl⟩
      exact ⟨rfl, rfl⟩
  | group name pattern ih =>
    rw [mem_ways_group]
    constructor
    · rintro ⟨inner, hinner, rfl⟩
      obtain ⟨taken, rfl, htakes⟩ := ih.1 hinner
      exact ⟨taken, rfl, inner, by rw [List.take_left' (by simp)], htakes⟩
    · rintro ⟨taken, rfl, inner, rfl, htakes⟩
      exact ⟨inner, ih.2 ⟨taken, rfl, htakes⟩, by rw [List.take_left' (by simp)]⟩
  | finish =>
    rw [mem_ways_finish]
    constructor
    · rintro ⟨rfl, rfl, rfl⟩
      exact ⟨[], rfl, rfl, rfl, rfl⟩
    · rintro ⟨_, rfl, rfl, rfl, rfl⟩
      exact ⟨rfl, rfl, rfl⟩

theorem first?_eq_none_iff {pattern : Pattern γ} {s : Text} :
    pattern.first? s = none ↔ ∀ groups rest, (groups, rest) ∉ pattern.ways s := by
  rw [first?, Option.map_eq_none_iff, List.head?_eq_none_iff, List.eq_nil_iff_forall_not_mem,
    Prod.forall]

theorem exists_way_of_first? {pattern : Pattern γ} {s : Text} {groups : Groups γ}
    (h : pattern.first? s = some groups) : ∃ rest, (groups, rest) ∈ pattern.ways s := by
  obtain ⟨⟨_, rest⟩, hhead, rfl⟩ := Option.map_eq_some_iff.1 h
  exact ⟨rest, List.mem_of_head? hhead⟩

end Pattern

end Reindent
