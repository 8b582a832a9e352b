import Mathlib.Logic.Relation
import UberJar.Proofs.Store.Fetch
import UberJar.Resolution.Library

namespace UberJar

/-- A document that data holds. -/
def Pom.Document.IsReadFrom (data : Bytes) (d : Pom.Document) : Prop :=
  Xml.Decoder.run read (Text.Utf8.decodeLossy data) = .ok d

theorem Pom.Document.isReadFrom_of_parse {data : Bytes} {origin : String} {d : Pom.Document}
    (hparse : Pom.Document.parse (Text.Utf8.decodeLossy data) origin = .ok d) : IsReadFrom data d := by
  unfold parse at hparse
  unfold IsReadFrom
  split at hparse
  · next document hread => rw [hread, ← Except.ok.inj hparse]
  · cases hparse

namespace Store

variable {store : Store (StateM FileTree)} {c : Coordinate} {t t' : FileTree}

/-- A tree into whose cache one file was fetched. -/
def Takes (store : Store (StateM FileTree)) (t t' : FileTree) : Prop :=
  ∃ c data, ¬t.IsFile (store.pathOf c) ∧ (∃ r ∈ store.repositories, r.answer t c.repositoryPath = .ok (some data)) ∧
    Kept t (store.pathOf c) data t'

/-- A tree into whose cache files were fetched one after the other. -/
abbrev Fills (store : Store (StateM FileTree)) : FileTree → FileTree → Prop := Relation.ReflTransGen store.Takes

theorem fills_of_fetch (hreads : ∀ r ∈ store.repositories, r.IsReadOnly) {found : Option Path}
    (hfetch : (store.fetch c).run.run t = (.ok found, t')) : store.Fills t t' := by
  cases found with
  | none => exact (fetch_eq_ok_none hreads hfetch).1 ▸ .refl
  | some place =>
    obtain ⟨hplace, -, ⟨-, rfl⟩ | ⟨hfile, r, hr, data, hanswer, hkept⟩⟩ := fetch_eq_ok_some hreads hfetch
    · exact .refl
    · exact .single ⟨c, data, hplace ▸ hfile, ⟨r, hr, hanswer⟩, hplace ▸ hkept⟩

theorem readFile_of_orElseThrow {error : OsError → ResolveError} {place : Path} {data : Bytes}
    (hrun : (FileSystem.orElseThrow error (FileSystem.readFile (m := StateM FileTree) place)).run.run t =
      (.ok data, t')) : t'.readFile place = .ok data ∧ t' = t := by
  obtain ⟨hdata, rfl⟩ := Prod.mk.inj (FileSystem.orElseThrow_eq_ok_iff.1 hrun)
  exact ⟨hdata, rfl⟩

/-- A document is read from the file that is fetched for it. -/
theorem document_eq_ok {found : Option Pom.Document} (hdocument : (store.library.document c).run t = (.ok found, t')) :
    ((store.fetch c).run.run t = (.ok none, t') ∧ found = none) ∨
      ∃ place data d, (store.fetch c).run.run t = (.ok (some place), t') ∧ t'.readFile place = .ok data ∧
        d.IsReadFrom data ∧ found = some d := by
  obtain ⟨fetched, t₁, hfetch, hread⟩ := run_bind_state_eq_ok_iff.1 hdocument
  cases fetched with
  | none =>
    obtain ⟨rfl, rfl⟩ := run_pure_eq_ok hread
    exact .inl ⟨hfetch, rfl⟩
  | some place =>
    obtain ⟨data, t₂, hopen, hrest⟩ := run_bind_state_eq_ok_iff.1 hread
    obtain ⟨d, t₃, hparse, hfound⟩ := run_bind_state_eq_ok_iff.1 hrest
    obtain ⟨hdata, rfl⟩ := readFile_of_orElseThrow hopen
    obtain ⟨hd, rfl⟩ := Prod.mk.inj hparse
    obtain ⟨rfl, rfl⟩ := run_pure_eq_ok hfound
    exact .inr ⟨place, data, d, hfetch, hdata, Pom.Document.isReadFrom_of_parse hd, rfl⟩

/-- Documents that were read from files in the course of filling the cache. -/
def Reads (store : Store (StateM FileTree)) (t : FileTree) (d : Pom.Document) : Prop :=
  ∃ t₁ place data, store.Fills t t₁ ∧ t₁.readFile place = .ok data ∧ d.IsReadFrom data

theorem chain_eq_ok (hreads : ∀ r ∈ store.repositories, r.IsReadOnly) {origin : Coordinate} {depth : Nat}
    {documents : List Pom.Document} (hchain : (store.library.chain origin depth c).run.run t = (.ok documents, t')) :
    store.Fills t t' ∧ documents.length ≤ depth ∧ ∀ d ∈ documents, store.Reads t d := by
  induction depth generalizing c t documents with
  | zero => cases (Prod.mk.inj hchain).1
  | succ depth ih =>
    rw [Resolution.Library.chain] at hchain
    obtain ⟨found, t₁, hdocument, hchain⟩ := run_bind_state_eq_ok_iff.1 hchain
    rcases document_eq_ok hdocument with ⟨hfetch, rfl⟩ | ⟨place, data, d, hfetch, hdata, hread, rfl⟩
    · obtain ⟨rfl, rfl⟩ := run_pure_eq_ok hchain
      exact ⟨fills_of_fetch hreads hfetch, Nat.zero_le _, by simp⟩
    · have hfills := fills_of_fetch hreads hfetch
      have hd : store.Reads t d := ⟨t₁, place, data, hfills, hdata, hread⟩
      cases hparent : d.parentPom? with
      | none =>
        simp only [hparent] at hchain
        obtain ⟨rfl, rfl⟩ := run_pure_eq_ok hchain
        exact ⟨hfills, by simp, by simpa using hd⟩
      | some parent =>
        simp only [hparent] at hchain
        obtain ⟨above, t₂, habove, hpure⟩ := run_bind_state_eq_ok_iff.1 hchain
        obtain ⟨rfl, rfl⟩ := run_pure_eq_ok hpure
        obtain ⟨hrest, hlength, habove⟩ := ih habove
        refine ⟨hfills.trans hrest, by simpa using hlength, ?_⟩
        rintro e (_ | ⟨_, he⟩)
        · exact hd
        · obtain ⟨t₃, place, data, hfills', hread⟩ := habove e he
          exact ⟨t₃, place, data, hfills.trans hfills', hread⟩

theorem effective?_eq_ok (hreads : ∀ r ∈ store.repositories, r.IsReadOnly) {found : Option Pom.Effective}
    (heffective : (store.library.effective? c).run.run t = (.ok found, t')) :
    store.Fills t t' ∧ ∀ pom, found = some pom →
      ∃ documents, documents.length ≤ Resolution.maxChain ∧ (∀ d ∈ documents, store.Reads t d) ∧
        pom = .ofChain documents := by
  rw [Resolution.Library.effective?] at heffective
  obtain ⟨documents, t₁, hchain, hpure⟩ := run_bind_state_eq_ok_iff.1 heffective
  obtain ⟨hfills, hlength, hread⟩ := chain_eq_ok hreads hchain
  cases documents with
  | nil =>
    obtain ⟨rfl, rfl⟩ := run_pure_eq_ok hpure
    exact ⟨hfills, by simp⟩
  | cons d documents =>
    obtain ⟨rfl, rfl⟩ := run_pure_eq_ok hpure
    refine ⟨hfills, fun pom hpom => ⟨d :: documents, hlength, hread, ?_⟩⟩
    exact (Option.some.inj hpom).symm

theorem requirementsOf_eq_ok (hreads : ∀ r ∈ store.repositories, r.IsReadOnly) {requirements : List Pom.Requirement}
    (hrequirements : (store.library.requirementsOf c).run.run t = (.ok requirements, t')) :
    store.Fills t t' ∧ (requirements = [] ∨
      ∃ documents, documents.length ≤ Resolution.maxChain ∧ (∀ d ∈ documents, store.Reads t d) ∧
        requirements = (Pom.Effective.ofChain documents).requirements) := by
  rw [Resolution.Library.requirementsOf] at hrequirements
  obtain ⟨found, t₁, heffective, hpure⟩ := run_bind_state_eq_ok_iff.1 hrequirements
  obtain ⟨hfills, hpom⟩ := effective?_eq_ok hreads heffective
  cases found with
  | none =>
    obtain ⟨rfl, rfl⟩ := run_pure_eq_ok hpure
    exact ⟨hfills, .inl rfl⟩
  | some pom =>
    obtain ⟨rfl, rfl⟩ := run_pure_eq_ok hpure
    obtain ⟨documents, hlength, hread, rfl⟩ := hpom pom rfl
    exact ⟨hfills, .inr ⟨documents, hlength, hread, rfl⟩⟩

end Store
end UberJar
