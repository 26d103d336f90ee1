import Mathlib.Data.Nat.Basic

/-!
# Reindent.Proofs.Document.Returns

How the carriage returns at the ends of lines move from pass to pass, in numbers.

Passes over documents that differ only in the ends of their lines put the lines into the same
order: the line at `i` comes from `source i`. Here `r j i` is the number of carriage returns at the
end of line `i` before pass `j`, and `last` the last line.

* `closedReturns`, `openReturns` — the carriage returns after a pass, for a document whose last line
  is terminated and for one whose last line is not.
* `Settling` — the passes settle, and the lines of the last one that changed something make up the
  first document again when they are joined with its conventions.
* `closedReturns_settled`, `openReturns_settled` — such passes have not changed the first document
  at all.
-/

namespace Reindent

/-- The last line keeps its terminator, which takes a carriage return out of the line that comes
there and adds one if it is `\r\n`. -/
def closedReturns (last : Nat) (source : Nat → Nat) (final : Bool) (r : Nat → Nat) (i : Nat) :
    Nat :=
  if i = last then r (source last) - 1 + final.toNat else r (source i)

/-- The line without a terminator gets the common one, and the last line loses its own. -/
def openReturns (last : Nat) (source : Nat → Nat) (common : Bool) (r : Nat → Nat) (i : Nat) : Nat :=
  if i = last then (if source last = last then r last else r (source last) - 1)
  else if source i = last then r last + common.toNat else r (source i)

/-- The carriage returns of documents of which each is made of the one before by `step`, with the
convention of that one. The last document is made of itself, and with the convention of the first
one, the document before the last makes the first. -/
structure Settling (last k : Nat) (step : Bool → (Nat → Nat) → Nat → Nat)
    (convention : (Nat → Nat) → Bool) (r : Nat → Nat → Nat) : Prop where
  pass : ∀ j ≤ k, ∀ i ≤ last, r (j + 1) i = step (convention (r j)) (r j) i
  settled : ∀ i ≤ last, r (k + 1) i = step (convention (r (k + 1))) (r (k + 1)) i
  back : ∀ i ≤ last, r 0 i = step (convention (r 0)) (r k) i

variable {last k : Nat} {source : Nat → Nat} {r : Nat → Nat → Nat}

theorem Settling.eq_of_convention {step : Bool → (Nat → Nat) → Nat → Nat}
    {convention : (Nat → Nat) → Bool} (h : Settling last k step convention r)
    (hsame : convention (r k) = convention (r 0)) : ∀ i ≤ last, r (k + 1) i = r 0 i := by
  intro i hi
  rw [h.pass k (Nat.le_refl k) i hi, h.back i hi, hsame]

/-! ### A last line with a terminator -/

/-- The last line ends with a carriage return. -/
def endsWithReturn (last : Nat) (r : Nat → Nat) : Bool :=
  decide (0 < r last)

theorem endsWithReturn_eq_true {r : Nat → Nat} : endsWithReturn last r = true ↔ 0 < r last :=
  decide_eq_true_iff

theorem endsWithReturn_eq_false {r : Nat → Nat} : endsWithReturn last r = false ↔ r last = 0 := by
  rw [endsWithReturn, decide_eq_false_iff_not, Nat.pos_iff_ne_zero, not_not]

theorem closedReturns_last (final : Bool) (r : Nat → Nat) :
    closedReturns last source final r last = r (source last) - 1 + final.toNat := by
  rw [closedReturns, if_pos rfl]

theorem closedReturns_of_ne {i : Nat} (h : i ≠ last) (final : Bool) (r : Nat → Nat) :
    closedReturns last source final r i = r (source i) := by
  rw [closedReturns, if_neg h]

section Closed

variable (h : Settling last k (closedReturns last source) (endsWithReturn last) r)
include h

theorem closed_inner {i : Nat} (hi : i < last) : r (k + 1) i = r 0 i := by
  rw [h.pass k (Nat.le_refl k) i (Nat.le_of_lt hi), h.back i (Nat.le_of_lt hi),
    closedReturns_of_ne (Nat.ne_of_lt hi), closedReturns_of_ne (Nat.ne_of_lt hi)]

theorem closed_stays (hfirst : 0 < r 0 last) : ∀ j ≤ k, 0 < r j last := by
  intro j
  induction j with
  | zero => exact fun _ => hfirst
  | succ j ih =>
    intro hj
    have hlast := h.pass j (Nat.le_of_succ_le hj) last (Nat.le_refl last)
    rw [closedReturns_last, endsWithReturn_eq_true.2 (ih (Nat.le_of_succ_le hj))] at hlast
    rw [hlast]
    exact Nat.succ_pos _

/-- If it has come up, the line that comes to the end of the settled document has no carriage
return besides it. -/
theorem closed_source_le (hfirst : r 0 last = 0) (hlater : 0 < r k last) :
    r (k + 1) (source last) ≤ 1 := by
  have hback := h.back last (Nat.le_refl last)
  have hpass := h.pass k (Nat.le_refl k) last (Nat.le_refl last)
  have hsettled := h.settled last (Nat.le_refl last)
  rw [closedReturns_last, endsWithReturn_eq_false.2 hfirst] at hback
  rw [closedReturns_last, endsWithReturn_eq_true.2 hlater] at hpass
  simp only [Bool.toNat_false, Bool.toNat_true] at hback hpass
  have hone : r (k + 1) last = 1 := by omega
  rw [closedReturns_last, endsWithReturn_eq_true.2 (by omega)] at hsettled
  simp only [Bool.toNat_true] at hsettled
  omega

/-- Then it cannot have come up: a line with two carriage returns would have to come to the end, and
such a line would be in the settled document still. -/
theorem closed_never (hsource : ∀ i ≤ last, source i ≤ last) (hfirst : r 0 last = 0)
    (hsmall : r (k + 1) (source last) ≤ 1) :
    ∀ j ≤ k, r j last = 0 ∧ ∀ i ≤ last, 2 ≤ r j i → 2 ≤ r (k + 1) i := by
  intro j
  induction j with
  | zero =>
    intro _
    refine ⟨hfirst, ?_⟩
    intro i hi htwo
    rcases Nat.lt_or_eq_of_le hi with hlt | rfl
    · rw [closed_inner h hlt]
      exact htwo
    · omega
  | succ j ih =>
    intro hj
    obtain ⟨hzero, htwos⟩ := ih (Nat.le_of_succ_le hj)
    have hnext := h.pass j (Nat.le_of_succ_le hj)
    have hlast : r (j + 1) last = 0 := by
      have hstep := hnext last (Nat.le_refl last)
      rw [closedReturns_last, endsWithReturn_eq_false.2 hzero] at hstep
      simp only [Bool.toNat_false] at hstep
      have hcomes : ¬ 2 ≤ r j (source last) := by
        intro htwo
        have hsettledTwo := htwos (source last) (hsource last (Nat.le_refl last)) htwo
        omega
      omega
    refine ⟨hlast, ?_⟩
    intro i hi htwo
    rcases Nat.lt_or_eq_of_le hi with hlt | rfl
    · have hstep := hnext i hi
      rw [closedReturns_of_ne (Nat.ne_of_lt hlt)] at hstep
      rw [hstep] at htwo
      rw [h.settled i hi, closedReturns_of_ne (Nat.ne_of_lt hlt)]
      exact htwos (source i) (hsource i hi) htwo
    · omega

theorem closedReturns_settled (hsource : ∀ i ≤ last, source i ≤ last) :
    ∀ i ≤ last, r (k + 1) i = r 0 i := by
  refine h.eq_of_convention ?_
  rcases Nat.eq_zero_or_pos (r 0 last) with hfirst | hfirst
  · have hzero : r k last = 0 := by
      by_contra hlater
      have hsmall := closed_source_le h hfirst (Nat.pos_of_ne_zero hlater)
      exact hlater (closed_never h hsource hfirst hsmall k (Nat.le_refl k)).1
    rw [endsWithReturn_eq_false.2 hfirst, endsWithReturn_eq_false.2 hzero]
  · have hlater := closed_stays h hfirst k (Nat.le_refl k)
    rw [endsWithReturn_eq_true.2 hfirst, endsWithReturn_eq_true.2 hlater]

end Closed

/-! ### A last line without a terminator -/

/-- Some line before the last one ends with a carriage return. -/
def hasReturns (last : Nat) (r : Nat → Nat) : Bool :=
  decide (∃ i < last, 0 < r i)

theorem hasReturns_eq_true {r : Nat → Nat} : hasReturns last r = true ↔ ∃ i < last, 0 < r i := by
  rw [hasReturns, decide_eq_true_iff]

theorem hasReturns_eq_false {r : Nat → Nat} : hasReturns last r = false ↔ ∀ i < last, r i = 0 := by
  rw [Bool.eq_false_iff, ne_eq, hasReturns_eq_true, not_exists]
  refine forall_congr' fun i => ?_
  rw [not_and, Nat.pos_iff_ne_zero, not_not]

theorem openReturns_last_of_ne (h : source last ≠ last) (common : Bool) (r : Nat → Nat) :
    openReturns last source common r last = r (source last) - 1 := by
  rw [openReturns, if_pos rfl, if_neg h]

theorem openReturns_of_source {i : Nat} (hi : i ≠ last) (h : source i = last) (common : Bool)
    (r : Nat → Nat) : openReturns last source common r i = r last + common.toNat := by
  rw [openReturns, if_neg hi, if_pos h]

theorem openReturns_of_source_ne {i : Nat} (hi : i ≠ last) (h : source i ≠ last) (common : Bool)
    (r : Nat → Nat) : openReturns last source common r i = r (source i) := by
  rw [openReturns, if_neg hi, if_neg h]

theorem openReturns_congr (hstays : ∀ i < last, source i ≠ last) (common common' : Bool)
    (r : Nat → Nat) {i : Nat} (hi : i ≤ last) :
    openReturns last source common r i = openReturns last source common' r i := by
  rcases Nat.lt_or_eq_of_le hi with hlt | rfl
  · rw [openReturns_of_source_ne (Nat.ne_of_lt hlt) (hstays i hlt),
      openReturns_of_source_ne (Nat.ne_of_lt hlt) (hstays i hlt)]
  · rw [openReturns, openReturns, if_pos rfl, if_pos rfl]

theorem openReturns_zero (hsource : ∀ i ≤ last, source i ≤ last) {r : Nat → Nat}
    (hzero : ∀ i ≤ last, r i = 0) :
    ∀ i ≤ last, openReturns last source (hasReturns last r) r i = 0 := by
  intro i hi
  have hnone : hasReturns last r = false :=
    hasReturns_eq_false.2 fun p hp => hzero p (Nat.le_of_lt hp)
  have hcomes := hzero (source i) (hsource i hi)
  have hcomesLast := hzero (source last) (hsource last (Nat.le_refl last))
  have hlast := hzero last (Nat.le_refl last)
  rw [openReturns, hnone]
  split
  · split
    · exact hlast
    · omega
  · split
    · rw [hlast]
      rfl
    · exact hcomes

section Open

variable (h : Settling last k (openReturns last source) (hasReturns last) r)
include h

/-- The line that was the last one gets the common terminator `\r\n`, so that it stays the common
one. -/
theorem open_stays {p : Nat} (hp : p < last) (hpsource : source p = last)
    (hfirst : hasReturns last (r 0) = true) : ∀ j ≤ k, hasReturns last (r j) = true := by
  intro j
  induction j with
  | zero => exact fun _ => hfirst
  | succ j ih =>
    intro hj
    have hstep := h.pass j (Nat.le_of_succ_le hj) p (Nat.le_of_lt hp)
    rw [openReturns_of_source (Nat.ne_of_lt hp) hpsource, ih (Nat.le_of_succ_le hj)] at hstep
    rw [hasReturns_eq_true]
    refine ⟨p, hp, ?_⟩
    rw [hstep]
    exact Nat.succ_pos _

/-- If it has come up, the lines of the settled document have one carriage return at most. -/
theorem open_inner_le (hfirst : hasReturns last (r 0) = false)
    (hlater : hasReturns last (r k) = true) : ∀ i < last, r (k + 1) i ≤ 1 := by
  intro i hi
  have hne := Nat.ne_of_lt hi
  have hpass := h.pass k (Nat.le_refl k) i (Nat.le_of_lt hi)
  have hback := h.back i (Nat.le_of_lt hi)
  rw [hasReturns_eq_false.1 hfirst i hi] at hback
  by_cases hsourceLast : source i = last
  · rw [openReturns_of_source hne hsourceLast] at hback
    rw [openReturns_of_source hne hsourceLast, hlater, Bool.toNat_true] at hpass
    omega
  · rw [openReturns_of_source_ne hne hsourceLast] at hback hpass
    omega

/-- Then the settled document takes its last line from one of those, so that the first document had
no carriage return to begin with. -/
theorem open_zero (hsource : ∀ i ≤ last, source i ≤ last) (hmoved : source last ≠ last)
    (hfirst : hasReturns last (r 0) = false) (hlater : hasReturns last (r k) = true) :
    ∀ i ≤ last, r 0 i = 0 := by
  intro i hi
  rcases Nat.lt_or_eq_of_le hi with hlt | rfl
  · exact hasReturns_eq_false.1 hfirst i hlt
  · have hback := h.back i hi
    have hpass := h.pass k (Nat.le_refl k) i hi
    have hsettled := h.settled i hi
    rw [openReturns_last_of_ne hmoved] at hback hpass hsettled
    have hbelow : source i < i := Nat.lt_of_le_of_ne (hsource i hi) hmoved
    have hcomes := open_inner_le h hfirst hlater (source i) hbelow
    omega

theorem open_never (hsource : ∀ i ≤ last, source i ≤ last) (hzero : ∀ i ≤ last, r 0 i = 0) :
    ∀ j ≤ k, ∀ i ≤ last, r j i = 0 := by
  intro j
  induction j with
  | zero => exact fun _ => hzero
  | succ j ih =>
    intro hj i hi
    rw [h.pass j (Nat.le_of_succ_le hj) i hi]
    exact openReturns_zero hsource (ih (Nat.le_of_succ_le hj)) i hi

theorem openReturns_settled (hsource : ∀ i ≤ last, source i ≤ last)
    (hinjective : ∀ i ≤ last, ∀ i' ≤ last, source i = source i' → i = i') :
    ∀ i ≤ last, r (k + 1) i = r 0 i := by
  by_cases hused : ∃ p < last, source p = last
  · obtain ⟨p, hp, hpsource⟩ := hused
    have hmoved : source last ≠ last := by
      intro hstays
      have hsame : source p = source last := hpsource.trans hstays.symm
      exact Nat.ne_of_lt hp (hinjective p (Nat.le_of_lt hp) last (Nat.le_refl last) hsame)
    refine h.eq_of_convention ?_
    cases hfirst : hasReturns last (r 0) with
    | true => exact open_stays h hp hpsource hfirst k (Nat.le_refl k)
    | false =>
      by_contra hlater
      rw [Bool.not_eq_false] at hlater
      have hzero := open_zero h hsource hmoved hfirst hlater
      obtain ⟨i, hi, hpos⟩ := hasReturns_eq_true.1 hlater
      have hnone := open_never h hsource hzero k (Nat.le_refl k) i (Nat.le_of_lt hi)
      omega
  · intro i hi
    have hstays : ∀ i < last, source i ≠ last := fun i hi heq => hused ⟨i, hi, heq⟩
    rw [h.pass k (Nat.le_refl k) i hi, h.back i hi]
    exact openReturns_congr hstays _ _ _ hi

end Open
end Reindent
