import Mathlib.Data.List.TakeWhile
import UberJar.Proofs.Pom.Managed
import UberJar.Proofs.Text.Blank
import UberJar.Proofs.Text.Words

namespace UberJar.Pom

open Effective

/-- The characters that ranges of versions are written with. -/
def rangeMarks : List Char := ['[', ']', '(', ')', ',']

/-- A version that files can be looked up by: it is there, nothing in it is left to expand, and it is no range. -/
structure IsResolvable (version : String) : Prop where
  usable : IsUsable version
  noMark : ∀ c ∈ version.toList, c ∉ rangeMarks

/-- Whether a text starts like a range of versions. -/
def IsRange (text : List Char) : Prop := text.head? = some '[' ∨ text.head? = some '('

instance (text : List Char) : Decidable (IsRange text) := inferInstanceAs (Decidable (_ ∨ _))

/-- The texts, without blanks around them, that ask for a version: the version as it is, or a range with the version as
    its lower bound, behind which there is a comma or nothing but brackets. -/
inductive AsksFor (version : List Char) : List Char → Prop
  | plain (hplain : ¬IsRange version) : AsksFor version version
  | range {opens bound rest : List Char} (hstart : IsRange opens) (hopens : ∀ c ∈ opens, isBracket c = true)
      (hbound : Text.trim bound = version) (hrest : rest.head? = some ',' ∨ ∀ c ∈ rest, isBracket c = true) :
      AsksFor version (opens ++ bound ++ rest)

variable {e : Effective} {r : Requirement} {chars opens bound rest version : List Char} {chain : List Document}

/-- What stands between the opening brackets of a range and its first comma, or its closing brackets. -/
def boundText (text : List Char) : List Char := Text.before ',' (Text.dropAround isBracket text)

theorem toList_lowerBound (text : String) : (lowerBound text).toList =
    if IsRange (Text.trim text.toList) then Text.trim (boundText (Text.trim text.toList))
    else Text.trim text.toList := by
  rw [lowerBound]
  generalize Text.trim text.toList = chars
  cases chars with
  | nil => rfl
  | cons c rest => by_cases hc : c = '[' ∨ c = '(' <;> simp [IsRange, boundText, hc]

theorem infix_lowerBound (text : String) : (lowerBound text).toList <:+: text.toList := by
  have htrim : Text.trim text.toList <:+: text.toList := Text.infix_dropAround _ _
  rw [toList_lowerBound]
  split
  · have hbefore : boundText (Text.trim text.toList) <:+: Text.trim text.toList :=
      (List.takeWhile_prefix _).isInfix.trans (Text.infix_dropAround _ _)
    exact (Text.infix_dropAround _ _).trans (hbefore.trans htrim)
  · exact htrim

/-- A range begins with brackets, behind which its lower bound stands. -/
theorem IsRange.exists_bound (hrange : IsRange chars) :
    ∃ opens rest, chars = opens ++ boundText chars ++ rest ∧ IsRange opens ∧ (∀ c ∈ opens, isBracket c = true) ∧
      (rest.head? = some ',' ∨ ∀ c ∈ rest, isBracket c = true) := by
  obtain ⟨closes, hcloses, hbrackets, -⟩ := Text.dropEndWhile_spec isBracket (chars.dropWhile isBracket)
  change chars.dropWhile isBracket = Text.dropAround isBracket chars ++ closes at hcloses
  refine ⟨chars.takeWhile isBracket, (Text.dropAround isBracket chars).dropWhile (· != ',') ++ closes, ?_, ?_,
    List.all_eq_true.1 List.all_takeWhile, ?_⟩
  · have hinner : boundText chars ++ (Text.dropAround isBracket chars).dropWhile (· != ',') =
        Text.dropAround isBracket chars := List.takeWhile_append_dropWhile
    rw [List.append_assoc, ← List.append_assoc (boundText chars), hinner, ← hcloses, List.takeWhile_append_dropWhile]
  · cases chars with
    | nil => exact hrange
    | cons c rest =>
      have hc : isBracket c = true := by rcases hrange with h | h <;> cases h <;> rfl
      rw [List.takeWhile_cons_of_pos hc]
      exact hrange
  · rcases Text.dropWhile_eq_nil_or_cons (· != ',') (Text.dropAround isBracket chars) with hnil | ⟨c, rest, hcons, hc⟩
    · exact .inr (by rwa [hnil])
    · exact .inl (by simpa [hcons] using hc)

/-- A text asks for its lower bound. -/
theorem asksFor_lowerBound (text : String) : AsksFor (lowerBound text).toList (Text.trim text.toList) := by
  rw [toList_lowerBound]
  split
  · rename_i hrange
    obtain ⟨opens, rest, hsplit, hstart, hopens, hrest⟩ := hrange.exists_bound
    have hasks : AsksFor (Text.trim (boundText (Text.trim text.toList)))
        (opens ++ boundText (Text.trim text.toList) ++ rest) := .range hstart hopens rfl hrest
    rwa [← hsplit] at hasks
  · rename_i hplain
    exact .plain hplain

theorem notMem_rangeMarks_iff {c : Char} : c ∉ rangeMarks ↔ isBracket c = false ∧ c ≠ ',' := by
  simp [rangeMarks, isBracket, and_assoc]

theorem notMem_rangeMarks_of_isBlank {c : Char} (hc : Text.isBlank c = true) : c ∉ rangeMarks := by
  intro hmem
  have hmarks : rangeMarks.all (!Text.isBlank ·) = true := by decide
  have hmark := List.all_eq_true.1 hmarks c hmem
  simp [hc] at hmark

/-- A lower bound without any mark of a range in it is what is taken of the range. -/
theorem boundText_of_noMark (hopens : ∀ c ∈ opens, isBracket c = true) (hne : bound ≠ [])
    (hbound : ∀ c ∈ bound, c ∉ rangeMarks) (hrest : rest.head? = some ',' ∨ ∀ c ∈ rest, isBracket c = true) :
    boundText (opens ++ bound ++ rest) = bound := by
  have hcommas : ∀ c ∈ bound, (c != ',') = true :=
    fun c hc => bne_iff_ne.2 (notMem_rangeMarks_iff.1 (hbound c hc)).2
  have hbrackets {c : Char} (hc : c ∈ bound) : isBracket c = false := (notMem_rangeMarks_iff.1 (hbound c hc)).1
  have hstart : (opens ++ bound ++ rest).dropWhile isBracket = bound ++ rest := by
    obtain ⟨c, bound, rfl⟩ := List.exists_cons_of_ne_nil hne
    rw [List.append_assoc, List.dropWhile_append_of_pos hopens, List.cons_append,
      List.dropWhile_cons_of_neg (by simp [hbrackets List.mem_cons_self])]
  rw [boundText, Text.before, Text.dropAround, hstart]
  rcases hrest with hcomma | hcloses
  · obtain ⟨rest, rfl⟩ := List.head?_eq_some_iff.1 hcomma
    rw [Text.dropEndWhile_append_cons (by decide)]
    exact (Text.takeWhile_append_cons hcommas (by decide)).1
  · obtain ⟨front, c, rfl⟩ := (List.eq_nil_or_concat' bound).resolve_left hne
    rw [Text.dropEndWhile_append (hbrackets (by simp)) hcloses]
    exact List.takeWhile_eq_self_iff.2 hcommas

/-- A text that asks for a version that can be looked up comes to that version. -/
theorem AsksFor.lowerBound_eq {text version : String} (hasks : AsksFor version.toList (Text.trim text.toList))
    (hversion : IsResolvable version) : lowerBound text = version := by
  refine String.toList_injective ?_
  rw [toList_lowerBound]
  generalize hchars : Text.trim text.toList = chars at hasks
  cases hasks with
  | plain hplain => exact if_neg hplain
  | @range opens bound rest hstart hopens hbound hrest =>
    have hrange : IsRange (opens ++ bound ++ rest) := by
      rw [IsRange, List.append_assoc, List.head?_append]
      rcases hstart with h | h <;> simp [h]
    obtain ⟨front, back, hsplit, hfront, hback⟩ := Text.trim_spec bound
    rw [hbound] at hsplit
    -- Neither the version nor the blanks around it hold a mark that the bound could be cut at.
    have hmarks : ∀ c ∈ bound, c ∉ rangeMarks := by
      intro c hc
      rw [hsplit, List.mem_append, List.mem_append] at hc
      rcases hc with (hc | hc) | hc
      · exact notMem_rangeMarks_of_isBlank (hfront c hc)
      · exact hversion.noMark c hc
      · exact notMem_rangeMarks_of_isBlank (hback c hc)
    have hne : bound ≠ [] := by
      rintro rfl
      exact hversion.usable.1 (String.toList_injective hbound.symm)
    rw [if_pos hrange, boundText_of_noMark hopens hne hmarks hrest, hbound]

/-- A text comes to a version that can be looked up exactly if it asks for one. -/
theorem isResolvable_lowerBound_iff {text : String} :
    IsResolvable (lowerBound text) ↔
      ∃ version, IsResolvable version ∧ AsksFor version.toList (Text.trim text.toList) := by
  constructor
  · exact fun hresolvable => ⟨_, hresolvable, asksFor_lowerBound text⟩
  · rintro ⟨version, hversion, hasks⟩
    rwa [hasks.lowerBound_eq hversion]

namespace Effective

/-- A requirement comes from a dependency that counts, and nothing is left to expand in its version. Files can be looked
    up by this version if and only if the dependency asks for one by which they can, on its own or as the lower bound of
    a range. -/
theorem requirement_resolvable_iff (hr : r ∈ (ofChain chain).requirements) :
    Text.contains opening r.coordinate.version.toList = false ∧
    ∃ d ∈ (ofChain chain).dependencies, ∃ text, (ofChain chain).Counts d text ∧
      r = (ofChain chain).requirementAt d text ∧
      (IsResolvable r.coordinate.version ↔
        ∃ version, IsResolvable version ∧ AsksFor version.toList (Text.trim text.toList)) := by
  obtain ⟨d, hd, text, hcounts, rfl⟩ := mem_requirements hr
  exact ⟨Text.contains_eq_false_of_infix hcounts.isUsable.2 (infix_lowerBound text), d, hd, text, hcounts, rfl,
    isResolvable_lowerBound_iff⟩

/-- A dependency on a range with blanks around its bounds. -/
theorem requirement_resolvable_iff_of_range :
    ∃ (pom : Document) (r : Requirement), pom.properties = some [("low", " 1.0")] ∧
      pom.dependencies = some [⟨"g", "a", some "[($\x7blow\x7d , 2.0) ", none, none, none, none, none⟩] ∧
      r = ⟨⟨"g", "a", "1.0", none, "jar"⟩, []⟩ ∧ r ∈ (ofChain [pom]).requirements ∧
      AsksFor "1.0".toList "[( 1.0 , 2.0)".toList ∧ IsResolvable r.coordinate.version := by
  let d : Dependency := ⟨"g", "a", some "[($\x7blow\x7d , 2.0) ", none, none, none, none, none⟩
  let pom : Document := { properties := some [("low", " 1.0")], dependencies := some [d] }
  have hr : ⟨⟨"g", "a", "1.0", none, "jar"⟩, []⟩ ∈ (ofChain [pom]).requirements := by decide +kernel
  have hasks : AsksFor "1.0".toList ("[(".toList ++ " 1.0 ".toList ++ ", 2.0)".toList) :=
    .range (by decide) (List.all_eq_true.1 (by decide)) (by decide) (.inl (by decide))
  have hversion : IsResolvable "1.0" := ⟨⟨by decide, by decide⟩, by simp [rangeMarks]⟩
  obtain ⟨-, d', hd', text, hcounts, -, hiff⟩ := requirement_resolvable_iff hr
  obtain rfl : d' = d := List.mem_singleton.1 hd'
  have htext : (ofChain [pom]).versionOf? d ((ofChain [pom]).moduleIdOf d) = some "[( 1.0 , 2.0)" := by
    decide +kernel
  obtain rfl : text = "[( 1.0 , 2.0)" := Option.some.inj (hcounts.usable.symm.trans htext)
  have htrim : Text.trim "[( 1.0 , 2.0)".toList = "[(".toList ++ " 1.0 ".toList ++ ", 2.0)".toList := by decide
  exact ⟨pom, _, rfl, rfl, rfl, hr, hasks, hiff.2 ⟨"1.0", hversion, htrim ▸ hasks⟩⟩

/-- A range without a lower bound, one that goes on behind the closing bracket of its lower bound, and a property
    without text come to versions that nothing can be looked up by. -/
theorem requirement_unresolvable :
    ∃ pom : Document, pom.properties = some [("blank", " ")] ∧
      pom.dependencies = some [⟨"g", "a", some "(,1.0]", none, none, none, none, none⟩,
        ⟨"g", "b", some "[1.0],[2.0]", none, none, none, none, none⟩,
        ⟨"g", "c", some "$\x7bblank\x7d", none, none, none, none, none⟩] ∧
      (ofChain [pom]).requirements.map (·.coordinate.version) = ["", "1.0]", ""] ∧
      ¬IsResolvable "" ∧ ¬IsResolvable "1.0]" :=
  ⟨{  properties := some [("blank", " ")]
      dependencies := some [⟨"g", "a", some "(,1.0]", none, none, none, none, none⟩,
        ⟨"g", "b", some "[1.0],[2.0]", none, none, none, none, none⟩,
        ⟨"g", "c", some "$\x7bblank\x7d", none, none, none, none, none⟩] },
    rfl, rfl, by decide +kernel, fun hversion => hversion.usable.1 rfl,
    fun hversion => hversion.noMark ']' (by decide) (by decide)⟩

end Effective
end UberJar.Pom
