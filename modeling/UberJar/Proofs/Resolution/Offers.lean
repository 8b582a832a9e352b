import UberJar.Proofs.Distinct
import UberJar.Proofs.Resolution.Course
import UberJar.Proofs.Resolution.Requests

namespace UberJar

/-- Whether two entries are for the same module. -/
def Selected.sameModule : Selected → Selected → Bool
  | .module c _, .module c' _ => c.moduleId == c'.moduleId
  | _, _ => false

namespace Selection

/-- Takes in an offer. -/
def offer (s : Selection) : Selected → Selection
  | .module c label => (s.request? c label).getD s
  | .file artifact => s ++ [.file artifact]

/-- The selection that some offers lead to. -/
def ofOffers (offers : List Selected) : Selection := offers.foldl offer []

/-- The entry of a module at the coordinate that is preferred of all that are offered for it. -/
def atNewest (offers : List Selected) : Selected → Selected
  | .module c label =>
    .module ((newest ((coordinates offers).filter (·.moduleId == c.moduleId))).getD c) label
  | .file artifact => .file artifact

variable {offers : List Selected}

theorem coordinates_append (s t : Selection) : (s ++ t).coordinates = s.coordinates ++ t.coordinates :=
  List.filterMap_append

theorem ofOffers_concat (offers : List Selected) (selected : Selected) :
    ofOffers (offers ++ [selected]) = (ofOffers offers).offer selected := by
  simp [ofOffers]

theorem answers_ofOffers (offers : List Selected) : (ofOffers offers).Answers (coordinates offers) := by
  induction offers using List.reverseRecOn with
  | nil => exact fun _ => rfl
  | append_singleton offers selected ih =>
    rw [ofOffers_concat, coordinates_append]
    cases selected with
    | module c label => exact ih.request c label
    | file artifact =>
      intro key
      rw [offer, find?_append, ih key]
      simp [find?, coordinates]

theorem moduleId_of_find? {s : Selection} {key : String} {c : Coordinate} (hfind : s.find? key = some c) :
    c.moduleId = key := by
  induction s with
  | nil => cases hfind
  | cons first s ih =>
    cases first with
    | file artifact => exact ih hfind
    | module other label =>
      by_cases hkey : other.moduleId = key
      · rw [find?, if_pos hkey] at hfind
        exact Option.some.inj hfind ▸ hkey
      · rw [find?, if_neg hkey] at hfind
        exact ih hfind

theorem any_sameModule (s : Selection) (c : Coordinate) (label : String) :
    s.any (Selected.sameModule (.module c label)) = (s.find? c.moduleId).isSome := by
  induction s with
  | nil => rfl
  | cons first s ih =>
    cases first with
    | file artifact => exact ih
    | module other label' =>
      rw [List.any_cons, ih, find?]
      by_cases hkey : other.moduleId = c.moduleId
      · simp [Selected.sameModule, hkey]
      · simp [Selected.sameModule, hkey, Ne.symm hkey]

theorem atNewest_module (offers : List Selected) (c : Coordinate) (label : String) :
    atNewest offers (.module c label) = .module (((ofOffers offers).find? c.moduleId).getD c) label := by
  rw [answers_ofOffers offers c.moduleId]
  rfl

theorem sameModule_atNewest (offers : List Selected) (selected other : Selected) :
    selected.sameModule (atNewest offers other) = selected.sameModule other := by
  cases other with
  | file artifact => rfl
  | module c label =>
    rw [atNewest_module]
    cases selected with
    | file artifact => rfl
    | module c' label' =>
      cases hfind : (ofOffers offers).find? c.moduleId with
      | none => rfl
      | some current => rw [Option.getD_some, Selected.sameModule, Selected.sameModule, moduleId_of_find? hfind]

theorem atNewest_concat_module (offers : List Selected) (c c' : Coordinate) (label label' : String) :
    atNewest (offers ++ [.module c label]) (.module c' label') =
      if c.moduleId = c'.moduleId then .module ((prefer ((ofOffers offers).find? c'.moduleId) c).getD c') label'
      else atNewest offers (.module c' label') := by
  rw [atNewest_module, ofOffers_concat, offer, find?_getD_request?, atNewest_module]
  split <;> rfl

theorem atNewest_concat_file (offers : List Selected) (artifact : Artifact) :
    atNewest (offers ++ [.file artifact]) = atNewest offers := by
  unfold atNewest
  rw [coordinates_append]
  simp [coordinates]

/-- An offer for a module that is there already changes nothing but the coordinate of its entry. -/
theorem offer_of_find?_eq_some {s : Selection} {c current : Coordinate} (label : String)
    (hfind : s.find? c.moduleId = some current) :
    s.offer (.module c label) = if Version.isAbove c.version current.version then s.upgrade c else s := by
  simp only [offer, request?, hfind]
  split <;> rfl

theorem map_atNewest_of_find?_eq_some {c current : Coordinate} (label : String)
    (hfind : (ofOffers offers).find? c.moduleId = some current) (entries : List Selected) :
    entries.map (atNewest (offers ++ [.module c label])) =
      if Version.isAbove c.version current.version then upgrade c (entries.map (atNewest offers))
      else entries.map (atNewest offers) := by
  by_cases habove : Version.isAbove c.version current.version = true
  · rw [if_pos habove, upgrade, List.map_map]
    refine List.map_congr_left fun other _ => ?_
    cases other with
    | file artifact => rfl
    | module c' label' =>
      rw [atNewest_concat_module, Function.comp_apply, atNewest_module]
      by_cases hkey : c.moduleId = c'.moduleId
      · simp [← hkey, hfind, prefer, habove, moduleId_of_find? hfind]
      · cases hold : (ofOffers offers).find? c'.moduleId with
        | none => simp [hkey, Ne.symm hkey]
        | some old => simp [hkey, moduleId_of_find? hold, Ne.symm hkey]
  · rw [if_neg habove]
    refine List.map_congr_left fun other _ => ?_
    cases other with
    | file artifact => rfl
    | module c' label' =>
      rw [atNewest_concat_module, atNewest_module]
      by_cases hkey : c.moduleId = c'.moduleId
      · simp [← hkey, hfind, prefer, habove]
      · simp [hkey]

theorem atNewest_of_not_sameModule {c : Coordinate} {label : String} {other : Selected}
    (hother : Selected.sameModule (.module c label) other = false) :
    atNewest (offers ++ [.module c label]) other = atNewest offers other := by
  cases other with
  | file artifact => rfl
  | module c' label' => rw [atNewest_concat_module, if_neg (by simpa [Selected.sameModule] using hother)]

/-- The selection holds the first offer of each module in its place, at the coordinate preferred of all its offers, and
    every offered file. -/
theorem ofOffers_eq (offers : List Selected) :
    ofOffers offers = (offers.eraseDupsBy Selected.sameModule).map (atNewest offers) := by
  induction offers using List.reverseRecOn with
  | nil => rfl
  | append_singleton offers selected ih =>
    have hany : (offers.eraseDupsBy Selected.sameModule).any selected.sameModule =
        (ofOffers offers).any selected.sameModule := by
      rw [ih, List.any_map]
      exact congrArg (List.any _) (funext fun other => (sameModule_atNewest offers selected other).symm)
    rw [ofOffers_concat, eraseDupsBy_concat, hany]
    cases selected with
    | file artifact =>
      have hnone : (ofOffers offers).any (Selected.sameModule (.file artifact)) = false :=
        List.any_eq_false.2 fun _ _ => Bool.false_ne_true
      rw [hnone, if_neg Bool.false_ne_true, List.map_append, atNewest_concat_file, ← ih]
      rfl
    | module c label =>
      rw [any_sameModule (ofOffers offers)] at hany
      rw [any_sameModule]
      cases hfind : (ofOffers offers).find? c.moduleId with
      | none =>
        rw [hfind] at hany
        have hothers : ∀ other ∈ offers.eraseDupsBy Selected.sameModule,
            atNewest (offers ++ [.module c label]) other = atNewest offers other := fun other hother =>
          atNewest_of_not_sameModule (Bool.not_eq_true _ ▸ List.any_eq_false.1 hany other hother)
        rw [Option.isSome_none, if_neg Bool.false_ne_true, List.map_append, List.map_congr_left hothers, ← ih,
          List.map_singleton, atNewest_concat_module, if_pos rfl, hfind, offer, request?, hfind]
        rfl
      | some current =>
        rw [Option.isSome_some, if_pos rfl, offer_of_find?_eq_some label hfind,
          map_atNewest_of_find?_eq_some label hfind, ← ih]

/-- Every file of the selection was offered. -/
theorem file_mem_of_mem_ofOffers {artifact : Artifact} (hmem : .file artifact ∈ ofOffers offers) :
    .file artifact ∈ offers := by
  rw [ofOffers_eq, List.mem_map] at hmem
  obtain ⟨entry, hentry, heq⟩ := hmem
  cases entry with
  | module c label => cases heq
  | file given => exact heq ▸ eraseDupsBy_subset _ _ hentry

theorem moduleIds_upgrade (s : Selection) (c : Coordinate) :
    (s.upgrade c).coordinates.map (·.moduleId) = s.coordinates.map (·.moduleId) := by
  rw [upgrade, coordinates, coordinates, List.filterMap_map, List.map_filterMap, List.map_filterMap]
  refine congrArg (List.filterMap · s) (funext fun entry => ?_)
  cases entry with
  | file artifact => rfl
  | module c' label => by_cases hkey : c'.moduleId = c.moduleId <;> simp [hkey]

theorem mem_coordinates {s : Selection} {c : Coordinate} (hmem : c ∈ s.coordinates) : ∃ label, .module c label ∈ s := by
  obtain ⟨entry, hentry, hc⟩ := List.mem_filterMap.1 hmem
  cases entry with
  | file artifact => cases hc
  | module c' label =>
    obtain rfl := Option.some.inj hc
    exact ⟨label, hentry⟩

/-- Each module is there once. -/
theorem nodup_ofOffers (offers : List Selected) : ((ofOffers offers).coordinates.map (·.moduleId)).Nodup := by
  induction offers using List.reverseRecOn with
  | nil => exact List.nodup_nil
  | append_singleton offers selected ih =>
    rw [ofOffers_concat]
    cases selected with
    | file artifact => simpa [offer, coordinates_append, coordinates] using ih
    | module c label =>
      cases hfind : (ofOffers offers).find? c.moduleId with
      | none =>
        have hfresh : c.moduleId ∉ (ofOffers offers).coordinates.map (·.moduleId) := by
          intro hmem
          obtain ⟨c', hc', hkey⟩ := List.mem_map.1 hmem
          obtain ⟨label', hentry⟩ := mem_coordinates hc'
          exact beq_eq_false_iff_ne.1 (not_holds_of_find?_eq_none hfind hentry) hkey
        simp only [offer, request?, hfind, Option.getD_some, coordinates_append, List.map_append]
        exact List.concat_eq_append ▸ (List.nodup_concat _ _).2 ⟨hfresh, ih⟩
      | some current =>
        rw [offer_of_find?_eq_some label hfind]
        split
        · rwa [moduleIds_upgrade]
        · exact ih

end Selection

/-- The entry that a declaration asks for. -/
def Declaration.offer (d : Declaration) : Selected :=
  match d.source with
  | .maven c => .module c d.label
  | .file path => .file ⟨none, path, d.label⟩

namespace Resolution

/-- The entries that a node asks for, in the order of its requirements. -/
def Node.offers (node : Node) (requirements : List Pom.Requirement) : List Selected :=
  (requirements.filter (!node.excludes ·.coordinate)).map fun r => .module r.coordinate node.requestedBy

/-- All that is offered: what is declared, and what the followed nodes ask for, earliest node first. -/
def offers (declarations : List Declaration) (record : Walk.Record) : List Selected :=
  declarations.map (·.offer) ++ record.reverse.flatMap fun followed => followed.1.offers followed.2

theorem coordinate_of_offered {declarations : List Declaration} {record : Walk.Record} {artifact : Artifact}
    (hmem : .file artifact ∈ offers declarations record) : artifact.coordinate = none := by
  rcases List.mem_append.1 hmem with hdeclared | hasked
  · obtain ⟨d, -, hd⟩ := List.mem_map.1 hdeclared
    unfold Declaration.offer at hd
    cases hsource : d.source with
    | maven c => simp [hsource] at hd
    | file path =>
      simp only [hsource, Selected.file.injEq] at hd
      rw [← hd]
  · obtain ⟨followed, -, hfollowed⟩ := List.mem_flatMap.1 hasked
    obtain ⟨r, -, hr⟩ := List.mem_map.1 hfollowed
    cases hr

namespace Walk

theorem selection_ofDeclarations (declarations : List Declaration) :
    (ofDeclarations declarations).selection = Selection.ofOffers (declarations.map (·.offer)) := by
  induction declarations using List.reverseRecOn with
  | nil => rfl
  | append_singleton declarations d ih =>
    rw [List.map_append, List.map_singleton, Selection.ofOffers_concat, ← ih, ofDeclarations, List.foldl_append,
      ← ofDeclarations, List.foldl_cons, List.foldl_nil, take, Declaration.offer]
    cases d.source <;> rfl

theorem selection_followAll (node : Node) (w : Walk) (requirements : List Pom.Requirement) :
    (w.followAll node requirements).selection = (node.offers requirements).foldl Selection.offer w.selection := by
  induction requirements generalizing w with
  | nil => rfl
  | cons r requirements ih =>
    have hstep := selection_follow node w r
    rw [followAll, List.foldl_cons, ← followAll, ih, hstep, Node.offers, Node.offers, List.filter_cons]
    cases node.excludes r.coordinate <;> rfl

/-- A walk selects what its offers lead to. -/
theorem Course.selection_eq {σ : Type}
    {requirementsOf : Coordinate → ExceptT ResolveError (StateM σ) (List Pom.Requirement)}
    {declarations : List Declaration} {s₀ s : σ} {queued : List Node} {record : Record} {w : Walk}
    (course : Course requirementsOf (ofDeclarations declarations) s₀ queued record w s) :
    w.selection = Selection.ofOffers (offers declarations record) := by
  induction course with
  | start => simpa [offers] using selection_ofDeclarations declarations
  | @follow queued joined record w w' node requirements s s' course hnext hrequirements hjoined ih =>
    obtain ⟨-, -, hselection, -⟩ := next?_fresh hnext
    rw [selection_followAll, hselection, ih]
    simp [offers, Selection.ofOffers]

end Walk
end Resolution
end UberJar
