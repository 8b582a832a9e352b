import UberJar.Proofs.Pom.Managed

namespace UberJar.Pom

/-- The properties that a reference to a parent defines. -/
def Parent.properties (p : Parent) : List (String × String) :=
  [("project.parent.version", p.version), ("project.parent.groupId", p.group)]

namespace Document

/-- The group that a document gives itself, or else that of its parent. -/
def groupOrParents? (d : Document) : Option String := d.group <|> d.parent.map (·.group)

/-- The version that a document gives itself, or else that of its parent. -/
def versionOrParents? (d : Document) : Option String := d.version <|> d.parent.map (·.version)

/-- The value that a document defines for a property: the last one that it writes, or else the one that its reference
    to a parent defines. -/
def property? (d : Document) (name : String) : Option String :=
  (((d.properties.getD []).filter (·.1 == name)).getLast?.map (·.2)).or (d.parent.bind (·.properties.lookup name))

/-- The version that a document manages for a module as written, the last one if there are several. -/
def managedVersion? (d : Document) (moduleId : String) : Option String :=
  (d.managedVersions.filter (·.moduleId == moduleId)).getLast?.map (·.version)

end Document

namespace Effective

theorem getElem?_extendProperties (table : Table) (d : Document) (name : String) :
    (extendProperties table d)[name]? = (d.property? name).or table[name]? := by
  rw [extendProperties, getElem?_foldl_insert, Document.property?, Option.or_assoc]
  congr 1
  cases d.parent with
  | none => rfl
  | some p =>
    rw [getElem?_insert, getElem?_insert, Option.bind_some, Parent.properties, List.lookup_cons, List.lookup_cons]
    by_cases hgroup : "project.parent.groupId" = name
    · subst hgroup
      rfl
    · by_cases hversion : "project.parent.version" = name
      · subst hversion
        rfl
      · rw [if_neg hgroup, if_neg hversion, beq_eq_false_iff_ne.2 (Ne.symm hgroup),
          beq_eq_false_iff_ne.2 (Ne.symm hversion)]
        rfl

theorem getElem?_extendManaged (table : Table) (d : Document) (moduleId : String) :
    (extendManaged table d)[moduleId]? = (d.managedVersion? moduleId).or table[moduleId]? := by
  rw [extendManaged_eq, getElem?_foldl_insert, Document.managedVersion?]

/-- A part of an effective POM that every document overrides with what it says about it is, for a chain, what the first
    document says that says anything. -/
theorem foldl_extend_eq_or {α : Type} (part : Effective → Option α) (own : Document → Option α)
    (hextend : ∀ e d, part (extend e d) = (own d).or (part e)) (chain : List Document) (e : Effective) :
    part (chain.reverse.foldl extend e) = (chain.findSome? own).or (part e) := by
  induction chain with
  | nil => rfl
  | cons d parents ih =>
    rw [List.reverse_cons, List.foldl_append, List.foldl_cons, List.foldl_nil, hextend, ih, List.findSome?_cons]
    cases own d <;> rfl

/-- A part that is always there: it is what the first document says, or else what it was. -/
theorem foldl_extend_eq_getD {α : Type} (part : Effective → α) (own : Document → Option α)
    (hextend : ∀ e d, part (extend e d) = (own d).getD (part e)) (chain : List Document) (e : Effective) :
    part (chain.reverse.foldl extend e) = (chain.findSome? own).getD (part e) := by
  have hor := foldl_extend_eq_or (some ∘ part) own
    (fun e d => (congrArg some (hextend e d)).trans Option.or_some.symm) chain e
  exact Option.some.inj (hor.trans Option.or_some)

/-- Apart from the properties that every POM has, a chain comes to its documents on top of each other. -/
theorem ofChain_foldl (chain : List Document) :
    (ofChain chain).group = (chain.reverse.foldl extend {}).group ∧
    (ofChain chain).artifact = (chain.reverse.foldl extend {}).artifact ∧
    (ofChain chain).version = (chain.reverse.foldl extend {}).version ∧
    (ofChain chain).managed = (chain.reverse.foldl extend {}).managed ∧
    (ofChain chain).properties = (ofChain chain).builtIn.foldl (fun t (name, value) => t.insertIfNew name value)
      (chain.reverse.foldl extend {}).properties := by
  simp only [ofChain, builtIn, and_self]

/-- Group, artifact, version, properties and managed versions of a chain are those of the first document, child first,
    that has any. A property that no document defines is taken from the coordinate that results, if it is one that
    every POM has. -/
theorem ofChain_overrides (chain : List Document) :
    (ofChain chain).group = (chain.findSome? (·.groupOrParents?)).getD "" ∧
    (ofChain chain).artifact = (chain.findSome? (·.artifact)).getD "" ∧
    (ofChain chain).version = (chain.findSome? (·.versionOrParents?)).getD "" ∧
    (∀ name, (ofChain chain).properties[name]? = (chain.findSome? (·.property? name)).or
      ([("project.groupId", (ofChain chain).group), ("project.artifactId", (ofChain chain).artifact),
        ("project.version", (ofChain chain).version), ("pom.groupId", (ofChain chain).group),
        ("pom.version", (ofChain chain).version), ("version", (ofChain chain).version)].lookup name)) ∧
    ∀ moduleId, (ofChain chain).managed[moduleId]? = chain.findSome? (·.managedVersion? moduleId) := by
  obtain ⟨hgroup, hartifact, hversion, hmanaged, hproperties⟩ := ofChain_foldl chain
  refine ⟨?_, ?_, ?_, fun name => ?_, fun moduleId => ?_⟩
  · rw [hgroup]
    exact foldl_extend_eq_getD (·.group) _ (fun _ _ => rfl) chain {}
  · rw [hartifact]
    exact foldl_extend_eq_getD (·.artifact) _ (fun _ _ => rfl) chain {}
  · rw [hversion]
    exact foldl_extend_eq_getD (·.version) _ (fun _ _ => rfl) chain {}
  · have hfirst := foldl_extend_eq_or (·.properties[name]?) (·.property? name)
      (fun e d => getElem?_extendProperties e.properties d name) chain {}
    rw [Std.TreeMap.getElem?_emptyc, Option.or_none] at hfirst
    rw [hproperties, getElem?_foldl_insertIfNew, hfirst]
    rfl
  · have hfirst := foldl_extend_eq_or (·.managed[moduleId]?) (·.managedVersion? moduleId)
      (fun e d => getElem?_extendManaged e.managed d moduleId) chain {}
    rwa [Std.TreeMap.getElem?_emptyc, Option.or_none, ← hmanaged] at hfirst

end Effective
end UberJar.Pom
