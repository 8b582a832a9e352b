import Mathlib.Data.List.Nodup
import UberJar.Proofs.Relocation.Package
import UberJar.Relocation.Relocator

namespace UberJar.Relocation

/-- What may follow a package: nothing, or a text whose first character ends a segment. -/
def EndsAt (ends : Char → Prop) (tail : List Char) : Prop := tail = [] ∨ ∃ c rest, ends c ∧ tail = c :: rest

/-- What may follow a package in a path: nothing, or a slash. -/
def IsBelow (tail : List Char) : Prop := EndsAt (· = '/') tail

/-- What may follow a package in a class name: nothing, a dot or a `$`. -/
def IsWithin (tail : List Char) : Prop := EndsAt (fun c => c = '.' ∨ c = '$') tail

theorem EndsAt.left {ends : Char → Prop} {front back : List Char} (h : EndsAt ends (front ++ back)) :
    EndsAt ends front := by
  cases front with
  | nil => exact .inl rfl
  | cons c front =>
    rcases h with hnil | ⟨d, rest, hd, heq⟩
    · cases hnil
    · obtain ⟨rfl, -⟩ := List.cons.inj heq
      exact .inr ⟨c, front, hd, rfl⟩

theorem some_eq_some_iff_exists_endsAt (ends : Char → Prop) {word front moved : List Char} :
    some front = some moved ↔ ∃ tail, EndsAt ends tail ∧ word ++ [] = word ++ tail ∧ moved = front ++ tail := by
  simp only [List.append_cancel_left_eq, Option.some.injEq]
  constructor
  · rintro rfl
    exact ⟨[], .inl rfl, rfl, by simp⟩
  · rintro ⟨tail, -, rfl, rfl⟩
    simp

theorem ite_eq_some_iff_exists_endsAt (ends : Char → Prop) [DecidablePred ends] {word front rest moved : List Char}
    {c : Char} :
    (if ends c then some (front ++ c :: rest) else none) = some moved ↔
      ∃ tail, EndsAt ends tail ∧ word ++ c :: rest = word ++ tail ∧ moved = front ++ tail := by
  simp only [List.append_cancel_left_eq, Option.ite_none_right_eq_some, Option.some.injEq]
  constructor
  · rintro ⟨hc, rfl⟩
    exact ⟨c :: rest, .inr ⟨c, rest, hc, rfl⟩, rfl, rfl⟩
  · rintro ⟨tail, hnil | ⟨d, rest', hd, rfl⟩, heq, rfl⟩
    · rw [hnil] at heq
      cases heq
    · obtain ⟨rfl, rfl⟩ := List.cons.inj heq
      exact ⟨hd, rfl⟩

theorem dropPrefix?_eq_none {word text : List Char} (hdrop : Text.dropPrefix? word text = none) (rest : List Char) :
    text ≠ word ++ rest := by
  intro htext
  rw [Text.dropPrefix?_eq_some.2 htext] at hdrop
  cases hdrop

/-- The characters of class names and directories. -/
def isPathChar (c : Char) : Bool := isSegmentChar c || c == '/'

theorem toNat_lt_of_isPathChar {c : Char} (hc : isPathChar c = true) : c.toNat < 128 := by
  simp only [isPathChar, Bool.or_eq_true, beq_iff_eq] at hc
  rcases hc with hc | rfl
  · exact toNat_lt_of_isSegmentChar hc
  · decide

/-- A package as a directory. -/
theorem replaceChar_package_cons {package : List Char} (hpackage : isPackage package = true) :
    ∃ c rest, Text.replaceChar '.' '/' package = c :: rest ∧ isSegmentChar c = true ∧
      ∀ d ∈ Text.replaceChar '.' '/' package, isPathChar d = true := by
  obtain ⟨c, rest, rfl, hc, hrest⟩ := isPackage_cons hpackage
  have hdot : c ≠ '.' := by
    rintro rfl
    simp [isSegmentChar] at hc
  refine ⟨c, Text.replaceChar '.' '/' rest, by simp [Text.replaceChar, hdot], hc, fun d hd => ?_⟩
  obtain ⟨e, he, rfl⟩ := List.mem_map.1 hd
  by_cases hed : e = '.'
  · simp [hed, isPathChar]
  · rcases List.mem_cons.1 he with rfl | he
    · simp [hed, isPathChar, hc]
    · rcases hrest e he with hseg | hdot
      · simp [hed, isPathChar, hseg]
      · exact absurd hdot hed

/-- A package is read off its directory. -/
theorem undotted {package : List Char} (hpackage : isPackage package = true) :
    Text.replaceChar '/' '.' (Text.replaceChar '.' '/' package) = package := by
  simp only [Text.replaceChar, List.map_map]
  refine (List.map_congr_left fun c hc => ?_).trans (List.map_id package)
  rcases isSegmentChar_or_dot hpackage c hc with hsegment | rfl
  · have hdot : c ≠ '.' := by
      rintro rfl
      exact absurd hsegment (by decide)
    have hslash : c ≠ '/' := by
      rintro rfl
      exact absurd hsegment (by decide)
    simp [hdot, hslash]
  · simp

theorem eq_of_replaceChar {package other : List Char} (hpackage : isPackage package = true)
    (hother : isPackage other = true) (h : Text.replaceChar '.' '/' package = Text.replaceChar '.' '/' other) :
    package = other := by
  rw [← undotted hpackage, h, undotted hother]

namespace Rule

theorem source_ne_destination (r : Rule) : r.source ≠ r.destination := by
  intro hsame
  have hunder : isUnder r.source r.source = true := by
    rw [isUnder, Text.dropPrefix?_eq_some.2 (List.append_nil r.source).symm]
  have hnot := r.not_under
  rw [← hsame, hunder] at hnot
  cases hnot

theorem sourcePath_ne_destinationPath (r : Rule) : r.sourcePath ≠ r.destinationPath :=
  fun hsame => r.source_ne_destination (eq_of_replaceChar r.source_valid r.destination_valid hsame)

theorem source_eq_of_sourcePath {r s : Rule} (h : r.sourcePath = s.sourcePath) : r.source = s.source :=
  eq_of_replaceChar r.source_valid s.source_valid h

theorem length_sourcePath (r : Rule) : r.sourcePath.length = r.source.length := List.length_map _

theorem Precedes.source_ne {r s : Rule} (h : r.Precedes s) : r.source ≠ s.source := by
  intro hsource
  rcases h with hlonger | ⟨-, hless⟩
  · rw [hsource] at hlonger
    exact Nat.lt_irrefl _ hlonger
  · rw [hsource] at hless
    exact List.lt_irrefl _ hless

theorem sourcePath_cons (r : Rule) : ∃ c rest, r.sourcePath = c :: rest ∧ isSegmentChar c = true := by
  obtain ⟨c, rest, hcons, hc, -⟩ := replaceChar_package_cons r.source_valid
  exact ⟨c, rest, hcons, hc⟩

theorem destinationPath_cons (r : Rule) : ∃ c rest, r.destinationPath = c :: rest ∧ isSegmentChar c = true := by
  obtain ⟨c, rest, hcons, hc, -⟩ := replaceChar_package_cons r.destination_valid
  exact ⟨c, rest, hcons, hc⟩

theorem isPathChar_sourcePath (r : Rule) : ∀ d ∈ r.sourcePath, isPathChar d = true := by
  obtain ⟨-, -, -, -, hall⟩ := replaceChar_package_cons r.source_valid
  exact hall

theorem isPathChar_destinationPath (r : Rule) : ∀ d ∈ r.destinationPath, isPathChar d = true := by
  obtain ⟨-, -, -, -, hall⟩ := replaceChar_package_cons r.destination_valid
  exact hall

theorem movePath?_iff {r : Rule} {path moved : List Char} :
    r.movePath? path = some moved ↔
      ∃ tail, IsBelow tail ∧ path = r.sourcePath ++ tail ∧ moved = r.destinationPath ++ tail := by
  unfold movePath?
  cases hdrop : Text.dropPrefix? r.sourcePath path with
  | none =>
    simp only [reduceCtorEq, false_iff]
    rintro ⟨tail, -, hpath, -⟩
    exact dropPrefix?_eq_none hdrop tail hpath
  | some tail =>
    obtain rfl := Text.dropPrefix?_eq_some.1 hdrop
    cases tail with
    | nil => exact some_eq_some_iff_exists_endsAt (· = '/')
    | cons c rest => exact ite_eq_some_iff_exists_endsAt (· = '/')

theorem moveName?_iff {r : Rule} {name moved : List Char} :
    r.moveName? name = some moved ↔
      ∃ tail, IsWithin tail ∧ name = r.source ++ tail ∧ moved = r.destination ++ tail := by
  unfold moveName?
  cases hdrop : Text.dropPrefix? r.source name with
  | none =>
    simp only [reduceCtorEq, false_iff]
    rintro ⟨tail, -, hname, -⟩
    exact dropPrefix?_eq_none hdrop tail hname
  | some tail =>
    obtain rfl := Text.dropPrefix?_eq_some.1 hdrop
    cases tail with
    | nil => exact some_eq_some_iff_exists_endsAt fun c => c = '.' ∨ c = '$'
    | cons c rest => exact ite_eq_some_iff_exists_endsAt fun c => c = '.' ∨ c = '$'

end Rule

namespace Relocator

/-- No two rules have one source. -/
theorem nodup_sources (relocator : Relocator) : (relocator.rules.map Rule.source).Nodup :=
  List.pairwise_map.2 (relocator.ordered.imp fun h => h.source_ne)

theorem eq_of_source_eq {relocator : Relocator} {r s : Rule} (hr : r ∈ relocator.rules) (hs : s ∈ relocator.rules)
    (h : r.source = s.source) : r = s :=
  List.inj_on_of_nodup_map relocator.nodup_sources hr hs h

end Relocator
end UberJar.Relocation
