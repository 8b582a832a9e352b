import UberJar.Proofs.Text.Blank
import UberJar.Proofs.Version.Semantic
import UberJar.Version.Order

open Std

namespace UberJar.Version

/-- A text that reads as a semantic version. -/
def IsSemantic (version : String) : Prop := (semantic? version.toList).isSome = true

instance : DecidablePred IsSemantic := fun _ => inferInstanceAs (Decidable (_ = true))

/-- Compares versions by their numbers. -/
def compareNumbers (a b : String) : Ordering :=
  Semantic.compareRows Ord.compare (numbers a.toList) (numbers b.toList)

instance : TransCmp compareNumbers :=
  transCmp_of_image (Semantic.compareRows Ord.compare) fun a : String => numbers a.toList

theorem compareNumbers_self (a : String) : compareNumbers a a = .eq := ReflCmp.compare_self

theorem compareNumbers_swap (a b : String) : compareNumbers b a = (compareNumbers a b).swap := OrientedCmp.eq_swap

theorem compare_of_semantic? {a b : String} {v w : Semantic} (ha : semantic? a.toList = some v)
    (hb : semantic? b.toList = some w) : compare a b = v.compare w := by
  simp [compare, compareTexts, ha, hb]

theorem compare_of_not_isSemantic {a b : String} (hnot : ¬(IsSemantic a ∧ IsSemantic b)) :
    compare a b = compareNumbers a b := by
  simp only [compare, compareTexts, compareNumbers]
  split
  · rename_i v w ha hb
    exact absurd ⟨Option.isSome_iff_exists.2 ⟨v, ha⟩, Option.isSome_iff_exists.2 ⟨w, hb⟩⟩ hnot
  · rfl

instance : OrientedCmp compare where
  eq_swap {a b} := by
    by_cases hboth : IsSemantic a ∧ IsSemantic b
    · obtain ⟨v, hv⟩ := Option.isSome_iff_exists.1 hboth.1
      obtain ⟨w, hw⟩ := Option.isSome_iff_exists.1 hboth.2
      rw [compare_of_semantic? hv hw, compare_of_semantic? hw hv]
      exact OrientedCmp.eq_swap
    · rw [compare_of_not_isSemantic hboth, compare_of_not_isSemantic fun h => hboth h.symm]
      exact OrientedCmp.eq_swap

theorem compare_self (a : String) : compare a a = .eq := ReflCmp.compare_self

theorem compare_swap (a b : String) : compare b a = (compare a b).swap := OrientedCmp.eq_swap

theorem compare_ne_lt_iff {a b : String} : compare a b ≠ .lt ↔ compare b a ≠ .gt := by
  rw [compare_swap a b, ne_eq, ne_eq, Ordering.swap_eq_gt]

/-- Versions that their order puts in a row: one that is not above another is not above those that this one is not
    above. -/
def TransitiveOn (versions : List String) : Prop :=
  ∀ a ∈ versions, ∀ b ∈ versions, ∀ c ∈ versions, compare a b ≠ .gt → compare b c ≠ .gt → compare a c ≠ .gt

theorem TransitiveOn.subset {versions others : List String} (htransitive : TransitiveOn versions)
    (hsubset : others ⊆ versions) : TransitiveOn others :=
  fun a ha b hb c hc => htransitive a (hsubset ha) b (hsubset hb) c (hsubset hc)

/-- Versions for which one of the two orders suffices: all of them are semantic versions, or any two of them are
    compared as their numbers are. -/
def Coherent (versions : List String) : Prop :=
  (∀ a ∈ versions, IsSemantic a) ∨ ∀ a ∈ versions, ∀ b ∈ versions, compare a b = compareNumbers a b

theorem Coherent.transitiveOn {versions : List String} (hcoherent : Coherent versions) : TransitiveOn versions := by
  intro a ha b hb c hc hab hbc
  rcases hcoherent with hsemantic | hnumbers
  · obtain ⟨u, hu⟩ := Option.isSome_iff_exists.1 (hsemantic a ha)
    obtain ⟨v, hv⟩ := Option.isSome_iff_exists.1 (hsemantic b hb)
    obtain ⟨w, hw⟩ := Option.isSome_iff_exists.1 (hsemantic c hc)
    rw [compare_of_semantic? hu hv] at hab
    rw [compare_of_semantic? hv hw] at hbc
    rw [compare_of_semantic? hu hw]
    exact ne_gt_trans hab hbc
  · rw [hnumbers a ha b hb] at hab
    rw [hnumbers b hb c hc] at hbc
    rw [hnumbers a ha c hc]
    exact ne_gt_trans hab hbc

/-- A text with the numbers of a version that does not read as a semantic version. -/
def unread (version : String) : String := String.ofList ('_' :: dropV version.toList)

@[simp] theorem numbers_unread (version : String) : numbers (unread version).toList = numbers version.toList := by
  simp [unread, numbers, dropV, List.splitOnP_cons_eq_if_modifyHead, number?]

theorem trim_underscore (text : List Char) : ∃ rest, Text.trim ('_' :: text) = '_' :: rest := by
  have hblank : Text.isBlank '_' = false := by decide
  have hstart : ('_' :: text).dropWhile Text.isBlank = '_' :: text := List.dropWhile_cons_of_neg (by simp [hblank])
  obtain ⟨back, hsplit, hback, -⟩ := Text.dropEndWhile_spec Text.isBlank ('_' :: text)
  rw [Text.trim, Text.dropAround, hstart]
  cases hend : Text.dropEndWhile Text.isBlank ('_' :: text) with
  | nil =>
    rw [hend, List.nil_append] at hsplit
    rw [hback '_' (hsplit ▸ List.mem_cons_self)] at hblank
    cases hblank
  | cons c rest =>
    rw [hend, List.cons_append] at hsplit
    exact ⟨rest, by rw [(List.cons.inj hsplit).1]⟩

theorem ofParts?_underscore (major minor patch suffix : List Char) :
    Semantic.ofParts? ('_' :: major) minor patch suffix = none := by
  have hnumber : number? ('_' :: major) = none := by simp [number?]
  by_cases hzero : ['_' :: major, minor, patch].any Semantic.hasLeadingZero = true
  · simp [Semantic.ofParts?, hzero]
  · simp [Semantic.ofParts?, hzero, hnumber]

theorem semantic?_underscore (text : List Char) : semantic? ('_' :: text) = none := by
  obtain ⟨rest, htrim⟩ := trim_underscore text
  obtain ⟨first, others, hsplit⟩ :=
    List.exists_cons_of_ne_nil (List.splitOn_ne_nil '.' (rest.takeWhile fun c => c != '-' && c != '+'))
  have hcore : (('_' :: rest).takeWhile fun c => c != '-' && c != '+').splitOn '.' = ('_' :: first) :: others := by
    simp [List.splitOn_cons_eq_if_modifyHead, hsplit]
  have hdrop : dropV ('_' :: rest) = '_' :: rest := rfl
  simp only [semantic?, htrim, hdrop, hcore]
  match others with
  | [] => exact ofParts?_underscore ..
  | [_] => exact ofParts?_underscore ..
  | [_, _] => exact ofParts?_underscore ..
  | _ :: _ :: _ :: _ => rfl

theorem not_isSemantic_unread (version : String) : ¬IsSemantic (unread version) := by
  simp [IsSemantic, unread, semantic?_underscore]

/-- With a text between them that is compared by its numbers, versions are in a row only as far as their numbers are. -/
theorem compare_iff_of_unread {a b : String} (htransitive : TransitiveOn [a, b, unread b]) :
    compare a b ≠ .gt ↔ compareNumbers a b ≠ .gt := by
  have hnumbers (c : String) : compare c (unread b) = compareNumbers c b := by
    rw [compare_of_not_isSemantic fun h => not_isSemantic_unread b h.2]
    simp [compareNumbers]
  have hself : compare b (unread b) = .eq := (hnumbers b).trans (compareNumbers_self b)
  constructor
  · intro hab
    rw [← hnumbers a]
    exact htransitive a (by simp) b (by simp) (unread b) (by simp) hab (by simp [hself])
  · intro hab
    rw [← hnumbers a] at hab
    exact htransitive a (by simp) (unread b) (by simp) b (by simp) hab (by simp [compare_swap b, hself])

/-- Two versions are compared as their numbers are exactly if every text that is no semantic version fits in with
    them. -/
theorem compare_eq_compareNumbers_iff {a b : String} :
    compare a b = compareNumbers a b ↔ ∀ c, ¬IsSemantic c → TransitiveOn [a, b, c] := by
  constructor
  · intro hab c hc
    have hba : compare b a = compareNumbers b a := by
      rw [compare_swap, hab, ← compareNumbers_swap]
    refine Coherent.transitiveOn (.inr fun v hv w hw => ?_)
    by_cases hboth : IsSemantic v ∧ IsSemantic w
    · have hknown {u : String} (hu : u ∈ [a, b, c]) (hsemantic : IsSemantic u) : u = a ∨ u = b := by
        rcases List.mem_cons.1 hu with rfl | hu
        · exact .inl rfl
        rcases List.mem_cons.1 hu with rfl | hu
        · exact .inr rfl
        · exact absurd (List.mem_singleton.1 hu ▸ hsemantic) hc
      rcases hknown hv hboth.1 with rfl | rfl <;> rcases hknown hw hboth.2 with rfl | rfl
      · rw [compare_self, compareNumbers_self]
      · exact hab
      · exact hba
      · rw [compare_self, compareNumbers_self]
    · exact compare_of_not_isSemantic hboth
  · intro hall
    have hab := compare_iff_of_unread (hall _ (not_isSemantic_unread b))
    have hswapped : TransitiveOn [b, a, unread a] :=
      (hall _ (not_isSemantic_unread a)).subset (by simp)
    have hba := compare_iff_of_unread hswapped
    rw [compare_swap a b, compareNumbers_swap a b] at hba
    cases hcompare : compare a b <;> cases hnumbers : compareNumbers a b <;> simp [hcompare, hnumbers] at hab hba ⊢

/-- A version is equal to itself, and a comparison the other way round has the opposite result. Three versions are in a
    row if all of them are semantic ones, or if any two of them are compared as their numbers are. Where two are not,
    some third text breaks the row. -/
theorem compare_preorder_of_coherent (a b c : String) :
    compare a a = .eq ∧ compare b a = (compare a b).swap ∧
      (Coherent [a, b, c] → compare a b ≠ .gt → compare b c ≠ .gt → compare a c ≠ .gt) ∧
      (compare a b = compareNumbers a b ↔ ∀ d, ¬IsSemantic d → TransitiveOn [a, b, d]) := by
  refine ⟨compare_self a, compare_swap a b, fun hcoherent hab hbc => ?_, compare_eq_compareNumbers_iff⟩
  exact hcoherent.transitiveOn a (by simp) b (by simp) c (by simp) hab hbc

theorem compare_preorder_of_coherent_qualifier :
    Coherent ["1.2", "1.2.3", "1.2.3.Final"] ∧ ¬IsSemantic "1.2.3.Final" ∧ compare "1.2" "1.2.3" ≠ .gt ∧
      compare "1.2.3" "1.2.3.Final" ≠ .gt ∧ compare "1.2" "1.2.3.Final" ≠ .gt := by
  have hcoherent : Coherent ["1.2", "1.2.3", "1.2.3.Final"] := .inr (by decide +kernel)
  have hfirst : compare "1.2" "1.2.3" ≠ .gt := by decide +kernel
  have hsecond : compare "1.2.3" "1.2.3.Final" ≠ .gt := by decide +kernel
  exact ⟨hcoherent, by decide +kernel, hfirst, hsecond,
    (compare_preorder_of_coherent _ _ _).2.2.1 hcoherent hfirst hsecond⟩

/-- A pre-release is below its release, and that is below a version with a fourth number. But the number of the
    pre-release counts more than the fourth one. -/
theorem not_transitive_behind_preRelease :
    ¬∀ a b c : String, compare a b ≠ .gt → compare b c ≠ .gt → compare a c ≠ .gt := by
  intro htransitive
  have hfirst : compare "3.0-2" "3.0.0" ≠ .gt := by decide +kernel
  have hsecond : compare "3.0.0" "3.0.0.1" ≠ .gt := by decide +kernel
  have hthird : compare "3.0-2" "3.0.0.1" = .gt := by decide +kernel
  exact htransitive _ _ _ hfirst hsecond hthird

end UberJar.Version
