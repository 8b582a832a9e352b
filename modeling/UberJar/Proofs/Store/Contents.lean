import Mathlib.Data.Set.Finite.Lattice
import Mathlib.Data.Set.Finite.List
import UberJar.Proofs.Store.Lookups

namespace UberJar

namespace FileTree

/-- A tree whose files hold nothing but some contents. -/
def HoldsOnly (t : FileTree) (contents : Set Bytes) : Prop :=
  ∀ place data, t.at? place = some (.file data) → data ∈ contents

theorem holdsOnly_empty (workingDirectory : Location) (contents : Set Bytes) :
    (empty workingDirectory).HoldsOnly contents := by
  have hdirectories (parents : List Location) (m : Std.TreeMap Location Content compare)
      (hm : ∀ (place : Location) (data : Bytes), m[place]? ≠ some (.file data)) (place : Location) (data : Bytes) :
      (parents.foldl (fun m place => m.insert place .directory) m)[place]? ≠ some (.file data) := by
    induction parents generalizing m with
    | nil => exact hm place data
    | cons parent parents ih =>
      refine ih _ fun other found => ?_
      rw [Std.TreeMap.getElem?_insert]
      split
      · simp
      · exact hm other found
  intro place data hplace
  unfold at? at hplace
  split at hplace
  · cases hplace
  · exact absurd hplace (hdirectories _ ∅ (by simp) place data)

end FileTree

namespace Repository

/-- A repository that gives nothing but some contents, as long as the files hold nothing else. -/
def Serves (r : Repository (StateM FileTree)) (contents : Set Bytes) : Prop :=
  ∀ t path data, t.HoldsOnly contents → r.answer t path = .ok (some data) → data ∈ contents

theorem serves_directory (root : Path) (contents : Set Bytes) :
    (directory root : Repository (StateM FileTree)).Serves contents := by
  intro t path data ht hanswer
  have hrun : (FileSystem.readFile (placeBelow root path) : StateM FileTree (Except OsError Bytes)).run t =
      pure (t.readFile (placeBelow root path), t) := rfl
  unfold answer directory at hanswer
  simp only [StateT.run_bind, hrun, pure_bind] at hanswer
  split at hanswer
  · next found hread =>
    obtain rfl := Option.some.inj (Except.ok.inj hanswer)
    obtain ⟨place, -, hplace⟩ := FileTree.readFile_eq_ok_iff.1 hread
    exact ht place found hplace
  · cases hanswer
  · cases hanswer

theorem serves_holding (files : List (String × Bytes)) :
    (Store.holding files).Serves {data | data ∈ files.map (·.2)} := by
  intro t path data _ hanswer
  have hlookup : files.lookup path = some data := Except.ok.inj hanswer
  obtain ⟨before, after, rfl, -⟩ := List.lookup_eq_some_iff.1 hlookup
  simp

end Repository

namespace Store

variable {store : Store (StateM FileTree)} {contents : Set Bytes} {t t' : FileTree} {place : Path} {data : Bytes}

theorem Kept.holdsOnly (hkept : Kept t place data t') (ht : t.HoldsOnly contents) (hdata : data ∈ contents) :
    t'.HoldsOnly contents := by
  intro other found hother
  by_cases hplace : t'.locate place = .ok other
  · obtain ⟨other', hplace', hdata'⟩ := FileTree.readFile_eq_ok_iff.1 hkept.data
    obtain rfl := Except.ok.inj (hplace'.symm.trans hplace)
    cases hdata'.symm.trans hother
    exact hdata
  · by_cases hdraft : t'.locate (draftOf place) = .ok other
    · cases (hkept.draft other hdraft hplace).symm.trans hother
    · rcases hkept.others other hdraft hplace with hsame | ⟨-, hnew⟩
      · exact ht other found (hsame.symm.trans hother)
      · cases hnew.symm.trans hother

theorem Fills.holdsOnly (hserves : ∀ r ∈ store.repositories, r.Serves contents) (ht : t.HoldsOnly contents)
    (hfills : store.Fills t t') : t'.HoldsOnly contents := by
  induction hfills with
  | refl => exact ht
  | tail _ htakes ih =>
    obtain ⟨c, data, -, ⟨r, hr, hanswer⟩, hkept⟩ := htakes
    exact hkept.holdsOnly ih (hserves r hr _ _ data ih hanswer)

/-- The documents that some contents hold. -/
def documentsIn (contents : Set Bytes) : Set Pom.Document := {d | ∃ data ∈ contents, d.IsReadFrom data}

/-- The coordinates that POMs made of some documents require. -/
def coordinatesIn (documents : Set Pom.Document) : Set Coordinate :=
  {c | ∃ chain : List Pom.Document, (chain.length ≤ Resolution.maxChain ∧ ∀ d ∈ chain, d ∈ documents) ∧
    ∃ r ∈ (Pom.Effective.ofChain chain).requirements, r.coordinate = c}

theorem finite_documentsIn (hfinite : contents.Finite) : (documentsIn contents).Finite := by
  have hunion : documentsIn contents = ⋃ data ∈ contents, {d | d.IsReadFrom data} := by
    ext d
    simp [documentsIn]
  rw [hunion]
  refine hfinite.biUnion fun data _ => Set.Subsingleton.finite fun d hd e he => ?_
  exact Except.ok.inj (Eq.trans (Eq.symm hd) he)

theorem finite_coordinatesIn {documents : Set Pom.Document} (hfinite : documents.Finite) :
    (coordinatesIn documents).Finite := by
  have hchains :
      {chain : List Pom.Document | chain.length ≤ Resolution.maxChain ∧ ∀ d ∈ chain, d ∈ documents}.Finite := by
    have := hfinite.to_subtype
    refine ((List.finite_length_le documents Resolution.maxChain).image (List.map Subtype.val)).subset ?_
    rintro chain ⟨hlength, hmem⟩
    exact ⟨chain.attachWith _ hmem, by simpa using hlength, by simp⟩
  have hunion : coordinatesIn documents =
      ⋃ chain ∈ {chain : List Pom.Document | chain.length ≤ Resolution.maxChain ∧ ∀ d ∈ chain, d ∈ documents},
        {c | c ∈ (Pom.Effective.ofChain chain).requirements.map (·.coordinate)} := by
    ext c
    simp [coordinatesIn]
  rw [hunion]
  exact hchains.biUnion fun chain _ => List.finite_toSet _

theorem Reads.mem_documentsIn (hserves : ∀ r ∈ store.repositories, r.Serves contents) (ht : t.HoldsOnly contents)
    {d : Pom.Document} (hreads : store.Reads t d) : d ∈ documentsIn contents := by
  obtain ⟨t₁, place, data, hfills, hdata, hread⟩ := hreads
  obtain ⟨other, -, hother⟩ := FileTree.readFile_eq_ok_iff.1 hdata
  exact ⟨data, hfills.holdsOnly hserves ht other data hother, hread⟩

end Store
end UberJar
