import UberJar.Resolution.Selection

namespace UberJar.Selection

/-- Whether a version of the module with a key is selected. -/
def Holds (s : Selection) (key : String) : Prop := (s.find? key).isSome = true

instance (s : Selection) (key : String) : Decidable (s.Holds key) := inferInstanceAs (Decidable (_ = true))

theorem find?_append (s t : Selection) (key : String) : (s ++ t).find? key = (s.find? key).or (t.find? key) := by
  induction s with
  | nil => rfl
  | cons selected s ih =>
    cases selected with
    | file artifact => exact ih
    | module c requestedBy =>
      by_cases hkey : c.moduleId = key
      · simp [find?, hkey]
      · simpa [find?, hkey] using ih

theorem exists_mem_of_find? {s : Selection} {key : String} {c : Coordinate} (hfind : s.find? key = some c) :
    ∃ label, .module c label ∈ s := by
  induction s with
  | nil => cases hfind
  | cons first s ih =>
    cases first with
    | file artifact =>
      obtain ⟨label, hmem⟩ := ih hfind
      exact ⟨label, List.mem_cons_of_mem _ hmem⟩
    | module other label =>
      by_cases hkey : other.moduleId = key
      · rw [find?, if_pos hkey] at hfind
        obtain rfl := Option.some.inj hfind
        exact ⟨label, List.mem_cons_self⟩
      · rw [find?, if_neg hkey] at hfind
        obtain ⟨label, hmem⟩ := ih hfind
        exact ⟨label, List.mem_cons_of_mem _ hmem⟩

theorem selects_iff {s : Selection} {c : Coordinate} : s.selects c = true ↔ s.find? c.moduleId = some c := by
  rw [selects, beq_iff_eq]

theorem holds_of_selects {s : Selection} {c : Coordinate} (hselects : s.selects c = true) : s.Holds c.moduleId := by
  rw [Holds, selects_iff.1 hselects]
  rfl

theorem find?_upgrade (s : Selection) (c : Coordinate) (key : String) :
    (s.upgrade c).find? key = if c.moduleId = key then (s.find? key).map fun _ => c else s.find? key := by
  induction s with
  | nil => simp [upgrade, find?]
  | cons selected s ih =>
    simp only [upgrade, List.map_cons] at ih ⊢
    cases selected with
    | file artifact => exact ih
    | module current requestedBy =>
      by_cases hsame : current.moduleId = c.moduleId
      · by_cases hkey : c.moduleId = key
        · simp [find?, hsame, hkey]
        · simpa [find?, hsame, hkey] using ih
      · by_cases hkey : c.moduleId = key
        · have hother : current.moduleId ≠ key := hkey ▸ hsame
          simpa [find?, hsame, hkey, hother] using ih
        · by_cases hcurrent : current.moduleId = key
          · have hdifferent : key ≠ c.moduleId := fun heq => hkey heq.symm
            simp [find?, hcurrent, hkey, hdifferent]
          · simpa [find?, hsame, hkey, hcurrent] using ih

/-- A request that is granted selects its coordinate, and leaves all other modules as they are. -/
theorem find?_of_request? {s t : Selection} {c : Coordinate} {label : String}
    (hrequest : s.request? c label = some t) (key : String) :
    t.find? key = if c.moduleId = key then some c else s.find? key := by
  unfold request? at hrequest
  cases hfind : s.find? c.moduleId with
  | none =>
    simp only [hfind, Option.some.injEq] at hrequest
    rw [← hrequest, find?_append]
    by_cases hkey : c.moduleId = key
    · simp [← hkey, hfind, find?]
    · simp [hkey, find?]
  | some current =>
    simp only [hfind, Option.ite_none_right_eq_some, Option.some.injEq] at hrequest
    rw [← hrequest.2, find?_upgrade]
    by_cases hkey : c.moduleId = key
    · simp [← hkey, hfind]
    · simp [hkey]

/-- A request is refused only for a module that is selected already. -/
theorem holds_of_request?_eq_none {s : Selection} {c : Coordinate} {label : String}
    (hrequest : s.request? c label = none) : s.Holds c.moduleId := by
  unfold request? at hrequest
  cases hfind : s.find? c.moduleId with
  | none => simp [hfind] at hrequest
  | some current => simp [Holds, hfind]

/-- Whether granted or refused, a request ends with its module selected. -/
theorem holds_getD_request? (s : Selection) (c : Coordinate) (label key : String) :
    ((s.request? c label).getD s).Holds key ↔ s.Holds key ∨ c.moduleId = key := by
  cases hrequest : s.request? c label with
  | none =>
    have hholds := holds_of_request?_eq_none hrequest
    constructor
    · exact .inl
    · rintro (h | rfl)
      · exact h
      · exact hholds
  | some t =>
    rw [Option.getD_some, Holds, find?_of_request? hrequest]
    by_cases hkey : c.moduleId = key <;> simp [hkey, Holds]

end UberJar.Selection
