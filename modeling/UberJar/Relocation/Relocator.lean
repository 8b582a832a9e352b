import UberJar.Entry
import UberJar.Relocation.Rule

namespace UberJar.Relocation

/-- The order in which rules are tried: longer sources first, sources of one length by their text. -/
def Rule.Precedes (a b : Rule) : Prop :=
  b.source.length < a.source.length ∨ (a.source.length = b.source.length ∧ a.source < b.source)

instance (a b : Rule) : Decidable (a.Precedes b) := inferInstanceAs (Decidable (_ ∨ _))

/-- Puts a rule at its place. A rule for a source that has one already must agree with it. -/
def insertRule (rule : Rule) : List Rule → Except ConfigError (List Rule)
  | [] => .ok [rule]
  | first :: rest =>
    if rule.source = first.source then
      if rule.destination = first.destination then .ok (first :: rest)
      else
        .error (.duplicateRelocation (String.ofList rule.source) (String.ofList first.destination)
          (String.ofList rule.destination))
    else if rule.Precedes first then .ok (rule :: first :: rest)
    else (insertRule rule rest).map (first :: ·)

theorem Rule.Precedes.trans {a b c : Rule} (hab : a.Precedes b) (hbc : b.Precedes c) : a.Precedes c := by
  rcases hab with hab | ⟨hab, hltab⟩ <;> rcases hbc with hbc | ⟨hbc, hltbc⟩
  · exact .inl (by omega)
  · exact .inl (by omega)
  · exact .inl (by omega)
  · exact .inr ⟨by omega, List.lt_trans hltab hltbc⟩

theorem Rule.precedes_or_eq (a b : Rule) : a.Precedes b ∨ a.source = b.source ∨ b.Precedes a := by
  unfold Rule.Precedes
  rcases Nat.lt_trichotomy a.source.length b.source.length with h | h | h
  · exact .inr (.inr (.inl h))
  · by_cases hlt : a.source < b.source
    · exact .inl (.inr ⟨h, hlt⟩)
    · by_cases hgt : b.source < a.source
      · exact .inr (.inr (.inr ⟨h.symm, hgt⟩))
      · exact .inr (.inl (List.le_antisymm (List.not_lt.1 hgt) (List.not_lt.1 hlt)))
  · exact .inl (.inl h)

theorem mem_insertRule {rule : Rule} {rules rules' : List Rule} (h : insertRule rule rules = .ok rules')
    {r : Rule} (hr : r ∈ rules') : r = rule ∨ r ∈ rules := by
  induction rules generalizing rules' with
  | nil =>
    simp only [insertRule, Except.ok.injEq] at h
    subst h
    simpa using hr
  | cons first rest ih =>
    unfold insertRule at h
    split at h
    · split at h
      · simp only [Except.ok.injEq] at h
        exact .inr (h ▸ hr)
      · simp at h
    · split at h
      · simp only [Except.ok.injEq] at h
        subst h
        simpa using hr
      · cases hrest : insertRule rule rest with
        | error e => simp [hrest, Except.map] at h
        | ok rest' =>
          simp only [hrest, Except.map, Except.ok.injEq] at h
          subst h
          rcases List.mem_cons.1 hr with rfl | hr
          · simp
          · rcases ih hrest hr with rfl | hmem
            · exact .inl rfl
            · exact .inr (List.mem_cons_of_mem _ hmem)

theorem pairwise_insertRule {rule : Rule} {rules rules' : List Rule} (hp : rules.Pairwise Rule.Precedes)
    (h : insertRule rule rules = .ok rules') : rules'.Pairwise Rule.Precedes := by
  induction rules generalizing rules' with
  | nil =>
    simp only [insertRule, Except.ok.injEq] at h
    subst h
    simp
  | cons first rest ih =>
    obtain ⟨hfirst, hrest⟩ := List.pairwise_cons.1 hp
    unfold insertRule at h
    split at h
    · split at h
      · simp only [Except.ok.injEq] at h
        exact h ▸ hp
      · simp at h
    · rename_i hne
      split at h
      · rename_i hbefore
        simp only [Except.ok.injEq] at h
        subst h
        refine List.pairwise_cons.2 ⟨fun r hr => ?_, hp⟩
        rcases List.mem_cons.1 hr with rfl | hr
        · exact hbefore
        · exact hbefore.trans (hfirst r hr)
      · rename_i hafter
        cases hins : insertRule rule rest with
        | error e => simp [hins, Except.map] at h
        | ok rest' =>
          simp only [hins, Except.map, Except.ok.injEq] at h
          subst h
          refine List.pairwise_cons.2 ⟨fun r hr => ?_, ih hrest hins⟩
          rcases mem_insertRule hins hr with rfl | hmem
          · rcases Rule.precedes_or_eq r first with hlt | heq | hgt
            · exact absurd hlt hafter
            · exact absurd heq hne
            · exact hgt
          · exact hfirst r hmem

/-- Relocation rules in the order in which they are tried. -/
structure Relocator where
  rules : List Rule
  ordered : rules.Pairwise Rule.Precedes

namespace Relocator

/-- No rules. -/
def empty : Relocator := ⟨[], .nil⟩

instance : Inhabited Relocator := ⟨empty⟩

/-- Adds a rule. -/
def insert (relocator : Relocator) (rule : Rule) : Except ConfigError Relocator :=
  match h : insertRule rule relocator.rules with
  | .ok rules => .ok ⟨rules, pairwise_insertRule relocator.ordered h⟩
  | .error e => .error e

/-- The relocator of declared rules. -/
def ofRules (rules : List Rule) : Except ConfigError Relocator := rules.foldlM insert empty

/-- Whether there is nothing to relocate. -/
def isEmpty (relocator : Relocator) : Bool := relocator.rules.isEmpty

/-- Moves a path outside the directories of services and versions, by the first rule that applies. -/
def moveUnversioned? (relocator : Relocator) (path : List Char) : Option (List Char) :=
  relocator.rules.findSome? (·.movePath? path)

/-- Moves a dotted name by the first rule that applies. -/
def moveName? (relocator : Relocator) (name : List Char) : Option (List Char) :=
  relocator.rules.findSome? (·.moveName? name)

/-- Moves the path of an entry. The name of a service file is a class name; the path of a class for certain
    releases moves inside the directory of its release. -/
def movePath? (relocator : Relocator) (path : List Char) : Option (List Char) :=
  if EntryPath.services.isPrefixOf path then
    match EntryPath.service? path with
    | some service => (relocator.moveName? service).map (EntryPath.services ++ ·)
    | none => none
  else
    match EntryPath.splitVersion? path with
    | some (directory, rest) => (relocator.moveUnversioned? rest).map (directory ++ ·)
    | none => relocator.moveUnversioned? path

/-- Whether a path is a rule's destination directory or lies below it, inside or outside the directory of a
    release. -/
def collides (rule : Rule) (path : List Char) : Bool :=
  let path := match EntryPath.splitVersion? path with
    | some (_, rest) => rest
    | none => path
  path == rule.destinationPath || (rule.destinationPath ++ ['/']).isPrefixOf path

/-- Refuses first-party entries at the destination of a rule, where relocated entries are to go. -/
def requireFreeDestinations (relocator : Relocator) (entries : List Entry) : Except ConfigError Unit :=
  match relocator.rules.findSome? fun rule =>
    (entries.find? fun entry => collides rule entry.path.toList).map fun entry => (rule, entry) with
  | some (rule, entry) => .error (.namespaceCollision (String.ofList rule.destination) entry.path)
  | none => .ok ()

end Relocator
end UberJar.Relocation
