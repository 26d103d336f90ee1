import Reindent.Path.Basic

/-!
# Reindent.Proofs.Path.Order

The order of paths by their components.

* `Component.order`, `Path.orderComponents` — linear orders.
* `Path.order_eq_iff` — spellings that do not differ in the order are the same path.
* `Path.Before`       — one path stands before another.
-/

namespace Reindent

namespace Component

/-- Components are ordered by their kinds, and names among themselves by their texts. -/
theorem order_eq_compareLex (a b : Component) :
    order a b = compareLex (compareOn rank) (compareOn text) a b := by
  cases a <;> cases b
  case name.name s t => simp [order, compareLex, compareOn, rank, text, Text.order]
  all_goals rfl

instance : Std.TransCmp order := by
  rw [funext fun a => funext (order_eq_compareLex a)]
  infer_instance

theorem eq_of_order_eq {a b : Component} (h : order a b = .eq) : a = b := by
  cases a <;> cases b
  case name.name s t => exact congrArg name (Std.LawfulEqOrd.eq_of_compare h)
  all_goals first | rfl | cases h

instance : Std.LawfulEqCmp order where
  compare_self := Std.ReflCmp.compare_self
  eq_of_compare := eq_of_order_eq

end Component

namespace Path

theorem orderComponents_eq_compareLex (as bs : List Component) :
    orderComponents as bs = List.compareLex Component.order as bs := by
  induction as generalizing bs with
  | nil => cases bs <;> rfl
  | cons a as ih =>
    cases bs with
    | nil => rfl
    | cons b bs => rw [orderComponents, List.compareLex_cons_cons, ih]

instance : Std.TransCmp orderComponents := by
  rw [funext fun as => funext (orderComponents_eq_compareLex as)]
  infer_instance

instance : Std.LawfulEqCmp orderComponents := by
  rw [funext fun as => funext (orderComponents_eq_compareLex as)]
  infer_instance

instance : Std.TransCmp order where
  eq_swap {p q} := @Std.OrientedCmp.eq_swap _ orderComponents _ p.components q.components
  isLE_trans h h' := @Std.TransCmp.isLE_trans _ orderComponents _ _ _ _ h h'

variable {p q r : Path}

theorem same_iff : p.same q = true ↔ p.components = q.components :=
  beq_iff_eq

theorem same_comm (p q : Path) : p.same q = q.same p :=
  Bool.beq_comm

theorem same_congr (h : p.components = q.components) : p.same = q.same := by
  funext other
  rw [same, same, h]

theorem order_eq_iff : order p q = .eq ↔ p.components = q.components :=
  @Std.LawfulEqCmp.compare_eq_iff_eq _ orderComponents _ _ _

/-- The path `p` stands before `q`. -/
def Before (p q : Path) : Prop :=
  order p q = .lt

theorem Before.trans (h : Before p q) (h' : Before q r) : Before p r :=
  Std.TransCmp.lt_trans h h'

theorem Before.components_ne (h : Before p q) : p.components ≠ q.components := by
  intro heq
  have hsame : order p q = .eq := order_eq_iff.2 heq
  rw [Before, hsame] at h
  cases h

theorem Before.not_same (h : Before p q) : p.same q = false :=
  beq_eq_false_iff_ne.2 h.components_ne

/-- A path that does not stand behind another stands before it or is the same. -/
theorem before_or_same_of_isLE (h : (order p q).isLE) :
    Before p q ∨ p.components = q.components := by
  cases horder : order p q with
  | lt => exact .inl horder
  | eq => exact .inr (order_eq_iff.1 horder)
  | gt =>
    rw [horder] at h
    cases h

/-- Which of two paths comes first is said by their components. -/
theorem before_congr {p' q' : Path} (hp : p.components = p'.components)
    (hq : q.components = q'.components) : Before p q ↔ Before p' q' := by
  rw [Before, Before, order, order, hp, hq]

end Path

end Reindent
