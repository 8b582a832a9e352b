import UberJar.Proofs.Resolution.Effects

namespace UberJar.Resolution

variable {σ : Type} {P : σ → Prop}

theorem Walk.gives_run {requirementsOf : Coordinate → ExceptT ResolveError (StateM σ) (List Pom.Requirement)}
    {fixed : Coordinate → ExceptT ResolveError Id (List Pom.Requirement)}
    (hrequirements : ∀ c, Gives P (requirementsOf c).run (fixed c).run) (fuel : Nat) (w : Walk) :
    Gives P (w.run requirementsOf fuel).run (w.run fixed fuel).run := by
  induction fuel generalizing w with
  | zero => exact gives_result (.ok _)
  | succ fuel ih =>
    rw [run, run]
    split
    · exact gives_result (.ok _)
    · exact gives_bind (hrequirements _) fun _ => ih _

/-- From all states of a kind, a library answers like a fixed one. -/
structure Library.AnswersLike (P : σ → Prop) (library : Library (StateM σ)) (fixed : Library Id) : Prop where
  isFile : ∀ path, Gives P (library.isFile path) (fixed.isFile path)
  file : ∀ c, Gives P (library.file c) (fixed.file c)
  document : ∀ c, Gives P (library.document c) (fixed.document c)
  searched : library.searched = fixed.searched

namespace Library.AnswersLike

variable {library : Library (StateM σ)} {fixed : Library Id} (hlike : library.AnswersLike P fixed)
include hlike

theorem gives_chain (origin : Coordinate) (depth : Nat) (c : Coordinate) :
    Gives P (library.chain origin depth c).run (fixed.chain origin depth c).run := by
  induction depth generalizing c with
  | zero => exact gives_result (.error _)
  | succ depth ih =>
    refine gives_bind (x := library.document c) (y := fixed.document c) (hlike.document c) fun found => ?_
    cases found with
    | none => exact gives_result (.ok [])
    | some document =>
      simp only
      split
      · exact gives_result (.ok _)
      · exact gives_bind (ih _) fun above => gives_result (.ok _)

theorem gives_effective? (c : Coordinate) : Gives P (library.effective? c).run (fixed.effective? c).run := by
  refine gives_bind (hlike.gives_chain _ _ _) fun documents => ?_
  cases documents with
  | nil => exact gives_result (.ok none)
  | cons document above => exact gives_result (.ok _)

theorem gives_requirementsOf (c : Coordinate) :
    Gives P (library.requirementsOf c).run (fixed.requirementsOf c).run := by
  refine gives_bind (hlike.gives_effective? c) fun found => ?_
  cases found with
  | none => exact gives_result (.ok [])
  | some pom => exact gives_result (.ok _)

theorem gives_declare (w : Walk) (d : Declaration) : Gives P (library.declare w d).run (fixed.declare w d).run := by
  unfold declare
  cases d.source with
  | maven c => exact gives_result (.ok _)
  | file path =>
    refine gives_bind (y := ExceptT.lift (fixed.isFile path)) (gives_lift (hlike.isFile path)) fun found => ?_
    cases found with
    | true => exact gives_result (.ok _)
    | false => exact gives_result (.error _)

theorem gives_artifact? (selected : Selected) :
    Gives P (library.artifact? selected).run (fixed.artifact? selected).run := by
  unfold artifact?
  cases selected with
  | file artifact => exact gives_result (.ok _)
  | module c requestedBy =>
    simp only
    split
    · exact gives_result (.ok none)
    · refine gives_bind (x := library.file c) (y := fixed.file c) (hlike.file c) fun found => ?_
      cases found with
      | some path => exact gives_result (.ok _)
      | none =>
        refine gives_bind (hlike.gives_effective? c) fun pom => ?_
        rw [hlike.searched]
        split
        · exact gives_result (.ok none)
        · exact gives_result (.error _)

/-- A resolution with lookups whose answers do not change is the one with these answers. -/
theorem gives_resolve (declarations : List Declaration) :
    Gives P (library.resolve declarations).run (fixed.resolve declarations).run := by
  unfold resolve
  simp only
  refine gives_bind (gives_foldlM hlike.gives_declare _ _) fun walk => ?_
  refine gives_bind (Walk.gives_run hlike.gives_requirementsOf _ walk) fun selection => ?_
  cases selection with
  | none => exact gives_result (.error _)
  | some selection =>
    refine gives_bind (gives_mapM hlike.gives_artifact? _) fun artifacts => ?_
    exact gives_result (.ok _)

end Library.AnswersLike

namespace Library

variable {library : Library (StateM σ)} {s : σ}

/-- What a library answers from one state. -/
def answersFrom (library : Library (StateM σ)) (s : σ) : Library Id where
  isFile path := ((library.isFile path).run s).1
  file c := ((library.file c).run s).1
  document c := ((library.document c).run s).1
  searched := library.searched

theorem run_file_answersFrom (library : Library (StateM σ)) (s : σ) (c : Coordinate) :
    ((library.answersFrom s).file c).run = ((library.file c).run s).1 := rfl

theorem answersLike_answersFrom (hisFile : ∀ path, ((library.isFile path).run s).2 = s)
    (hfile : ∀ c, ((library.file c).run s).2 = s) (hdocument : ∀ c, ((library.document c).run s).2 = s) :
    library.AnswersLike (· = s) (library.answersFrom s) where
  isFile path := gives_of_unchanged (hisFile path)
  file c := gives_of_unchanged (hfile c)
  document c := gives_of_unchanged (hdocument c)
  searched := rfl

end Library
end UberJar.Resolution
