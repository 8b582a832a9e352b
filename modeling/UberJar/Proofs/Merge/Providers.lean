import Mathlib.Data.List.TakeWhile
import UberJar.Merge.Services
import UberJar.Proofs.Distinct
import UberJar.Proofs.Text.Blank
import UberJar.Proofs.Text.Lines
import UberJar.Proofs.Text.Utf8

namespace UberJar.Services

open Text

/-- A text that stands for itself in a line. -/
structure IsProvider (name : List Char) : Prop where
  ne_nil : name ≠ []
  feed : '\n' ∉ name
  comment : '#' ∉ name
  trimmed : trim name = name

theorem provider_eq_self {name : List Char} (hname : IsProvider name) : provider name = name := by
  have hbefore : before '#' name = name := by
    rw [before, List.takeWhile_eq_self_iff]
    intro c hc
    rw [bne_iff_ne]
    rintro rfl
    exact hname.comment hc
  rw [provider, hbefore, hname.trimmed]

theorem isProvider_of_mem {data : Bytes} {name : List Char} (hmem : name ∈ providers data) : IsProvider name := by
  simp only [providers, List.mem_filter, List.mem_map, Bool.not_eq_true', List.isEmpty_eq_false_iff] at hmem
  obtain ⟨⟨line, hline, rfl⟩, hne⟩ := hmem
  refine ⟨hne, fun hfeed => ?_, fun hcomment => ?_, trim_trim _⟩
  · exact notMem_of_mem_splitOn hline ((List.takeWhile_subset _) (trim_subset _ hfeed))
  · exact absurd (List.all_eq_true.1 List.all_takeWhile '#' (trim_subset _ hcomment)) (by decide)

theorem intercalate_feed {name : List Char} {names : List (List Char)} :
    ['\n'].intercalate (name :: names) ++ ['\n'] = (name :: names).flatMap (· ++ ['\n']) := by
  induction names generalizing name with
  | nil => simp
  | cons next names ih => rw [List.flatMap_cons, ← ih, List.intercalate_cons_cons, List.append_assoc]

theorem providers_lines {names : List (List Char)} (hnames : ∀ name ∈ names, IsProvider name) :
    providers (Utf8.encode (['\n'].intercalate names ++ ['\n'])) = names := by
  have hself : names.map provider = names := by
    refine (List.map_congr_left fun name hname => ?_).trans (List.map_id names)
    exact provider_eq_self (hnames name hname)
  have hkept : names.filter (!·.isEmpty) = names := by
    rw [List.filter_eq_self]
    intro name hname
    simpa using (hnames name hname).ne_nil
  rw [providers, Utf8.decodeLossy_encode]
  cases names with
  | nil => rfl
  | cons name names =>
    rw [intercalate_feed, splitOn_lines fun name hname => (hnames name hname).feed, List.map_append, hself,
      List.filter_append, hkept]
    exact List.append_nil _

/-- The names that are known come first, and behind them those that are not, each once. -/
theorem reverse_foldl_addProvider (known names : List (List Char)) :
    (names.foldl addProvider known).reverse = known.reverse ++ (names.removeAll known).eraseDups := by
  induction names generalizing known with
  | nil => simp [List.removeAll]
  | cons name names ih =>
    rw [List.foldl_cons, ih]
    by_cases hknown : name ∈ known
    · simp [addProvider, List.removeAll, hknown]
    · have hfirst : (name :: names).removeAll known = name :: names.removeAll known := by
        simp [List.removeAll, hknown]
      have hrest : names.removeAll (name :: known) = (names.removeAll known).filter (!· == name) := by
        simp [List.removeAll, List.filter_filter, beq_eq_decide]
      rw [hfirst, List.eraseDups_cons, ← hrest]
      simp [addProvider, hknown]

theorem distinct_eq_eraseDups (names : List (List Char)) : distinct names = names.eraseDups := by
  have hall : names.removeAll [] = names := by simp [List.removeAll]
  rw [distinct, reverse_foldl_addProvider, hall]
  rfl

/-- A merged service file names the providers of the one file and then those of the other, each once. -/
theorem providers_merge (existing incoming : Bytes) :
    providers (merge existing incoming) = (providers existing ++ providers incoming).eraseDups := by
  rw [merge, distinct_eq_eraseDups, providers_lines]
  intro name hname
  rw [List.mem_eraseDups, List.mem_append] at hname
  exact hname.elim isProvider_of_mem isProvider_of_mem

/-- A merged service file names the providers of both files. -/
theorem mem_providers_merge {existing incoming : Bytes} {name : List Char} :
    name ∈ providers (merge existing incoming) ↔ name ∈ providers existing ∨ name ∈ providers incoming := by
  rw [providers_merge, List.mem_eraseDups, List.mem_append]

/-- A service file that names each of its providers once and in a line of its own, without comments. -/
structure IsListing (data : Bytes) : Prop where
  nodup : (providers data).Nodup
  comment : '#' ∉ Utf8.decodeLossy data
  lines : data = Utf8.encode (['\n'].intercalate (providers data) ++ ['\n'])

theorem isListing_merge (existing incoming : Bytes) : IsListing (merge existing incoming) := by
  have hproviders := providers_merge existing incoming
  have hmerge : merge existing incoming =
      Utf8.encode (['\n'].intercalate (providers (merge existing incoming)) ++ ['\n']) := by
    rw [hproviders, ← distinct_eq_eraseDups]
    rfl
  refine ⟨?_, ?_, hmerge⟩
  · rw [hproviders]
    exact nodup_eraseDups _
  · have hnames : ∀ name ∈ providers (merge existing incoming), '#' ∉ name :=
      fun name hname => (isProvider_of_mem hname).comment
    rw [hmerge, Utf8.decodeLossy_encode]
    cases hnamed : providers (merge existing incoming) with
    | nil => decide
    | cons name names =>
      rw [hnamed] at hnames
      rw [intercalate_feed, List.mem_flatMap]
      rintro ⟨other, hother, hmem⟩
      rcases List.mem_append.1 hmem with hmem | hmem
      · exact hnames other hother hmem
      · exact absurd hmem (by decide)

end UberJar.Services
