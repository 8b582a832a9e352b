import UberJar.Proofs.State
import UberJar.Resolution.Resolve

namespace UberJar.Resolution

variable {σ : Type} {R : σ → σ → Prop} [IsPreorder σ R]

/-- The walk does what following requirements does. -/
theorem Walk.leads_run {requirementsOf : Coordinate → ExceptT ResolveError (StateM σ) (List Pom.Requirement)}
    (hrequirements : ∀ c, Leads R (requirementsOf c).run) (fuel : Nat) (w : Walk) :
    Leads R (w.run requirementsOf fuel).run := by
  induction fuel generalizing w with
  | zero => exact leads_result (.ok _)
  | succ fuel ih =>
    rw [run]
    split
    · exact leads_result (.ok _)
    · exact leads_bind (hrequirements _) fun _ => ih _

namespace Library

variable {library : Library (StateM σ)} (hisFile : ∀ path, Leads R (library.isFile path))
  (hfile : ∀ c, Leads R (library.file c)) (hdocument : ∀ c, Leads R (library.document c))

include hdocument

theorem leads_chain (origin : Coordinate) (depth : Nat) (c : Coordinate) :
    Leads R (library.chain origin depth c).run := by
  induction depth generalizing c with
  | zero => exact leads_result (.error _)
  | succ depth ih =>
    refine leads_bind (x := library.document c) (hdocument c) fun found => ?_
    cases found with
    | none => exact leads_result (.ok [])
    | some document =>
      simp only
      split
      · exact leads_result (.ok _)
      · exact leads_bind (ih _) fun above => leads_result (.ok _)

theorem leads_effective? (c : Coordinate) : Leads R (library.effective? c).run := by
  refine leads_bind (leads_chain hdocument _ _ _) fun documents => ?_
  split <;> exact leads_result (.ok _)

theorem leads_requirementsOf (c : Coordinate) : Leads R (library.requirementsOf c).run := by
  refine leads_bind (leads_effective? hdocument c) fun found => ?_
  split <;> exact leads_result (.ok _)

omit hdocument in
include hisFile in
theorem leads_declare (w : Walk) (d : Declaration) : Leads R (library.declare w d).run := by
  unfold declare
  split
  · exact leads_result (.ok _)
  · refine leads_bind (leads_lift (hisFile _)) fun found => ?_
    split
    · exact leads_result (.ok _)
    · exact leads_result (.error _)

include hfile in
theorem leads_artifact? (selected : Selected) : Leads R (library.artifact? selected).run := by
  unfold artifact?
  split
  · exact leads_result (.ok _)
  · next c requestedBy =>
    split
    · exact leads_result (.ok none)
    · refine leads_bind (x := library.file c) (hfile c) fun found => ?_
      split
      · exact leads_result (.ok _)
      · refine leads_bind (leads_effective? hdocument _) fun pom => ?_
        split
        · exact leads_result (.ok none)
        · exact leads_result (.error _)

include hisFile hfile in
/-- A resolution does what its lookups do. -/
theorem leads_resolve (declarations : List Declaration) : Leads R (library.resolve declarations).run := by
  unfold resolve
  simp only
  refine leads_bind (leads_foldlM (leads_declare hisFile) _ _) fun walk => ?_
  refine leads_bind (Walk.leads_run (leads_requirementsOf hdocument) _ walk) fun selection => ?_
  split
  · exact leads_result (.error _)
  · refine leads_bind (leads_mapM (leads_artifact? hfile hdocument) _) fun artifacts => ?_
    exact leads_result (.ok _)

end Library
end UberJar.Resolution
