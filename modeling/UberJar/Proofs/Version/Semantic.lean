import UberJar.Version.Semantic

open Std

namespace UberJar.Version

variable {α β : Type}

theorem ne_gt_trans {cmp : α → α → Ordering} [TransCmp cmp] {a b c : α} (hab : cmp a b ≠ .gt) (hbc : cmp b c ≠ .gt) :
    cmp a c ≠ .gt :=
  Ordering.isLE_iff_ne_gt.1 (TransCmp.isLE_trans (Ordering.isLE_iff_ne_gt.2 hab) (Ordering.isLE_iff_ne_gt.2 hbc))

theorem transCmp_of_image (cmp : β → β → Ordering) [htrans : TransCmp cmp] (f : α → β) :
    TransCmp fun a b => cmp (f a) (f b) where
  eq_swap := htrans.eq_swap
  isLE_trans := htrans.isLE_trans

/-- Compares by `low` within a class and by `high` outside it, and puts the class below all else. -/
def compareSplit (isLow : α → Bool) (low high : α → α → Ordering) (a b : α) : Ordering :=
  match isLow a, isLow b with
  | true, true => low a b
  | true, false => .lt
  | false, true => .gt
  | false, false => high a b

instance (isLow : α → Bool) (low high : α → α → Ordering) [TransCmp low] [TransCmp high] :
    TransCmp (compareSplit isLow low high) where
  eq_swap {a b} := by
    cases ha : isLow a <;> cases hb : isLow b <;> simp only [compareSplit, ha, hb]
    · exact OrientedCmp.eq_swap
    · rfl
    · rfl
    · exact OrientedCmp.eq_swap
  isLE_trans {a b c} hab hbc := by
    cases ha : isLow a <;> cases hb : isLow b <;> cases hc : isLow c <;>
      simp only [compareSplit, ha, hb, hc, Ordering.isLE_lt, Ordering.isLE_gt, Bool.false_eq_true] at hab hbc ⊢
    · exact TransCmp.isLE_trans hab hbc
    · exact TransCmp.isLE_trans hab hbc

namespace Semantic

theorem compareRows_eq (cmp : α → α → Ordering) : compareRows cmp = List.compareLex cmp := by
  funext as bs
  induction as generalizing bs with
  | nil => cases bs <;> rfl
  | cons a as ih =>
    cases bs with
    | nil => rfl
    | cons b bs => rw [compareRows, ih, List.compareLex_cons_cons]

instance (cmp : α → α → Ordering) [TransCmp cmp] : TransCmp (compareRows cmp) := by
  rw [compareRows_eq]
  infer_instance

instance : TransCmp compareText := inferInstanceAs (TransCmp (compareRows (compareOn Char.toNat)))

theorem comparePreRelease_eq :
    comparePreRelease = compareSplit isNumeric (compareLex (compareOn List.length) compareText) compareText := by
  funext a b
  cases ha : isNumeric a <;> cases hb : isNumeric b <;> simp only [comparePreRelease, compareSplit, ha, hb]
  -- both numeric: the row of comparisons is that of the definition
  rfl

instance : TransCmp comparePreRelease := by
  rw [comparePreRelease_eq]
  infer_instance

/-- An identifier without its leading zeros. -/
def significant (identifier : List Char) : List Char := identifier.dropWhile (· == '0')

theorem compareBuild_eq :
    compareBuild = compareSplit isNumeric
      (compareLex (compareLex (compareOn fun a => (significant a).length) fun a b =>
        compareText (significant a) (significant b)) (compareOn List.length)) compareText := by
  funext a b
  cases ha : isNumeric a <;> cases hb : isNumeric b <;> simp only [compareBuild, compareSplit, ha, hb]
  rfl

instance : TransCmp compareBuild := by
  have := transCmp_of_image compareText significant
  rw [compareBuild_eq]
  infer_instance

theorem comparePreReleases_eq :
    comparePreReleases = compareSplit (!·.isEmpty) (compareRows comparePreRelease) fun _ _ => .eq := by
  funext as bs
  cases as <;> cases bs <;> rfl

instance : TransCmp comparePreReleases := by
  have : TransCmp fun _ _ : List (List Char) => Ordering.eq :=
    { eq_swap := rfl
      isLE_trans := fun _ h => h }
  rw [comparePreReleases_eq]
  infer_instance

theorem compare_eq :
    compare = compareLex (compareLex (compareLex (compareLex (compareOn major) (compareOn minor)) (compareOn patch))
      fun v w => comparePreReleases v.preRelease w.preRelease) fun v w => compareRows compareBuild v.build w.build :=
  rfl

instance : TransCmp compare := by
  have := transCmp_of_image comparePreReleases preRelease
  have := transCmp_of_image (compareRows compareBuild) build
  rw [compare_eq]
  infer_instance

end Semantic
end UberJar.Version
