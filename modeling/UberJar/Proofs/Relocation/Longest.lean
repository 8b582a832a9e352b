import UberJar.Proofs.Except
import UberJar.Proofs.Relocation.ClassNames
import UberJar.Proofs.Relocation.Paths

namespace UberJar.Relocation

/-- Two of the rules have one source and different destinations. -/
def Disagree (rules : List Rule) : Prop :=
  ∃ r ∈ rules, ∃ s ∈ rules, r.source = s.source ∧ r.destination ≠ s.destination

instance (rules : List Rule) : Decidable (Disagree rules) :=
  inferInstanceAs (Decidable (∃ r ∈ rules, ∃ s ∈ rules, r.source = s.source ∧ r.destination ≠ s.destination))

/-- A text is a package, or continues it at the end of a segment. -/
def LiesUnder (ends : Char → Prop) (package text : List Char) : Prop :=
  ∃ tail, EndsAt ends tail ∧ text = package ++ tail

/-- What becomes of a text that moves by the rule with the longest source it lies under: nothing, if it lies under none.
    `source` and `destination` give the packages of a rule in the form that the text has. -/
def MovesByLongest (rules : List Rule) (source destination : Rule → List Char) (ends : Char → Prop) (text : List Char) :
    Option (List Char) → Prop
  | none => ∀ r ∈ rules, ¬LiesUnder ends (source r) text
  | some moved => ∃ r ∈ rules,
      (∃ tail, EndsAt ends tail ∧ text = source r ++ tail ∧ moved = destination r ++ tail) ∧
        ∀ s ∈ rules, LiesUnder ends (source s) text → s ≠ r → s.source.length < r.source.length

theorem MovesByLongest.of_mem_iff {rules rules' : List Rule} (hsame : ∀ r, r ∈ rules ↔ r ∈ rules')
    {source destination : Rule → List Char} {ends : Char → Prop} {text : List Char} {moved? : Option (List Char)}
    (hmoves : MovesByLongest rules source destination ends text moved?) :
    MovesByLongest rules' source destination ends text moved? := by
  cases moved? <;> simpa only [MovesByLongest, hsame] using hmoves

namespace Rule

theorem eq_of_parts {r s : Rule} (hsource : r.source = s.source) (hdestination : r.destination = s.destination) :
    r = s := by
  cases r
  cases s
  obtain rfl := hsource
  obtain rfl := hdestination
  rfl

end Rule

section

variable {rule : Rule} {rules rules' : List Rule}

theorem subset_insertRule (h : insertRule rule rules = .ok rules') : rule ∈ rules' ∧ rules ⊆ rules' := by
  fun_induction insertRule rule rules generalizing rules' with
  | case1 =>
    obtain rfl := Except.ok.inj h
    exact ⟨List.mem_cons_self, List.nil_subset _⟩
  | case2 first rest hsource hdestination =>
    obtain rfl := Except.ok.inj h
    obtain rfl := Rule.eq_of_parts hsource hdestination
    exact ⟨List.mem_cons_self, List.Subset.refl _⟩
  | case3 first rest hsource hdestination => cases h
  | case4 first rest hsource hprecedes =>
    obtain rfl := Except.ok.inj h
    exact ⟨List.mem_cons_self, List.subset_cons_self rule _⟩
  | case5 first rest hsource hprecedes ih =>
    obtain ⟨inserted, hinserted, rfl⟩ := map_eq_ok_iff.1 h
    obtain ⟨hmem, hsubset⟩ := ih hinserted
    exact ⟨List.mem_cons_of_mem first hmem, List.cons_subset_cons first hsubset⟩

/-- A rule is refused if one with the same source and another destination is there. -/
theorem insertRule_fails_iff (hordered : rules.Pairwise Rule.Precedes) :
    (∃ e, insertRule rule rules = .error e) ↔
      ∃ r ∈ rules, r.source = rule.source ∧ r.destination ≠ rule.destination := by
  fun_induction insertRule rule rules with
  | case1 => simp
  | case2 first rest hsource hdestination =>
    simp only [reduceCtorEq, exists_false, false_iff]
    rintro ⟨r, hr, hsame, hother⟩
    rcases List.mem_cons.1 hr with rfl | hr
    · exact hother hdestination.symm
    · exact ((List.pairwise_cons.1 hordered).1 r hr).source_ne (hsource.symm.trans hsame.symm)
  | case3 first rest hsource hdestination =>
    exact ⟨fun _ => ⟨first, List.mem_cons_self, hsource.symm, Ne.symm hdestination⟩, fun _ => ⟨_, rfl⟩⟩
  | case4 first rest hsource hprecedes =>
    simp only [reduceCtorEq, exists_false, false_iff]
    rintro ⟨r, hr, hsame, -⟩
    rcases List.mem_cons.1 hr with rfl | hr
    · exact hsource hsame.symm
    · exact (hprecedes.trans ((List.pairwise_cons.1 hordered).1 r hr)).source_ne hsame.symm
  | case5 first rest hsource hprecedes ih =>
    simp only [map_eq_error_iff, ih (List.pairwise_cons.1 hordered).2, List.exists_mem_cons_iff]
    exact (or_iff_right fun hfirst => hsource hfirst.1.symm).symm

end

namespace Relocator

variable {relocator other : Relocator} {rule : Rule} {rules : List Rule}

theorem insert_eq_ok_iff : relocator.insert rule = .ok other ↔ insertRule rule relocator.rules = .ok other.rules := by
  unfold insert
  split
  · rename_i inserted hinserted
    constructor
    · intro h
      obtain rfl := Except.ok.inj h
      exact hinserted
    · intro h
      cases other
      obtain rfl := Except.ok.inj (hinserted.symm.trans h)
      rfl
  · rename_i e hfails
    simp [hfails]

theorem insert_eq_error_iff {e : ConfigError} :
    relocator.insert rule = .error e ↔ insertRule rule relocator.rules = .error e := by
  unfold insert
  split
  · rename_i inserted hinserted
    simp [hinserted]
  · rename_i failure hfails
    rw [hfails, Except.error.injEq, Except.error.injEq]

theorem ofRules_concat (rules : List Rule) (rule : Rule) :
    ofRules (rules ++ [rule]) = ofRules rules >>= fun relocator => relocator.insert rule := by
  simp [ofRules]

/-- A relocator has the declared rules. -/
theorem mem_ofRules (h : ofRules rules = .ok relocator) (r : Rule) : r ∈ relocator.rules ↔ r ∈ rules := by
  induction rules using List.reverseRecOn generalizing relocator with
  | nil =>
    obtain rfl := Except.ok.inj h
    rfl
  | append_singleton rules rule ih =>
    rw [ofRules_concat, bind_eq_ok_iff] at h
    obtain ⟨before, hbefore, hinsert⟩ := h
    have hinserted := insert_eq_ok_iff.1 hinsert
    obtain ⟨hrule, hsubset⟩ := subset_insertRule hinserted
    rw [List.mem_append, List.mem_singleton, ← ih hbefore]
    constructor
    · exact fun hr => (mem_insertRule hinserted hr).symm
    · rintro (hr | rfl)
      · exact hsubset hr
      · exact hrule

/-- Rules are refused if two of them have one source and different destinations. -/
theorem ofRules_fails_iff : (∃ e, ofRules rules = .error e) ↔ Disagree rules := by
  induction rules using List.reverseRecOn with
  | nil => simp [ofRules, Disagree, pure, Except.pure]
  | append_singleton rules rule ih =>
    rw [ofRules_concat]
    cases hbefore : ofRules rules with
    | error e =>
      obtain ⟨r, hr, s, hs, hdiffer⟩ := ih.1 ⟨e, hbefore⟩
      refine ⟨fun _ => ⟨r, List.mem_append_left _ hr, s, List.mem_append_left _ hs, hdiffer⟩, fun _ => ⟨e, rfl⟩⟩
    | ok before =>
      have hagree : ¬Disagree rules := by
        rw [← ih, hbefore]
        simp
      have hinsert : (∃ e, before.insert rule = .error e) ↔
          ∃ r ∈ rules, r.source = rule.source ∧ r.destination ≠ rule.destination := by
        simp only [insert_eq_error_iff, insertRule_fails_iff before.ordered, mem_ofRules hbefore]
      refine hinsert.trans ⟨?_, ?_⟩
      · rintro ⟨r, hr, hdiffer⟩
        exact ⟨r, List.mem_append_left _ hr, rule, by simp, hdiffer⟩
      · rintro ⟨r, hr, s, hs, hsource, hdestination⟩
        rw [List.mem_append, List.mem_singleton] at hr hs
        -- One of the two is the new rule, as the others agree.
        rcases hr with hr | rfl
        · rcases hs with hs | rfl
          · exact absurd ⟨r, hr, s, hs, hsource, hdestination⟩ hagree
          · exact ⟨r, hr, hsource, hdestination⟩
        · rcases hs with hs | rfl
          · exact ⟨s, hs, hsource.symm, hdestination.symm⟩
          · exact absurd rfl hdestination

/-- A relocator is known by its rules, whose order is fixed. -/
theorem eq_of_mem_iff (hsame : ∀ r, r ∈ relocator.rules ↔ r ∈ other.rules) : relocator = other := by
  have hperm : relocator.rules.Perm other.rules :=
    (List.perm_ext_iff_of_nodup relocator.nodup_sources.of_map other.nodup_sources.of_map).2 hsame
  have hrules : relocator.rules = other.rules :=
    hperm.eq_of_pairwise (fun r s _ _ hrs hsr => absurd rfl (hrs.trans hsr).source_ne) relocator.ordered other.ordered
  cases relocator
  cases other
  simpa using hrules

/-- The first rule that moves a text is the one with the longest source that the text lies under. -/
theorem movesByLongest_findSome? (relocator : Relocator) {source destination : Rule → List Char} {ends : Char → Prop}
    {text : List Char} {move? : Rule → Option (List Char)}
    (hmove : ∀ r moved, move? r = some moved ↔
      ∃ tail, EndsAt ends tail ∧ text = source r ++ tail ∧ moved = destination r ++ tail)
    (hlength : ∀ r, (source r).length = r.source.length) (hsource : ∀ r s, source r = source s → r.source = s.source) :
    MovesByLongest relocator.rules source destination ends text (relocator.rules.findSome? move?) := by
  have hlies {r : Rule} (hunder : LiesUnder ends (source r) text) : move? r ≠ none := by
    obtain ⟨tail, htail, htext⟩ := hunder
    simp [(hmove r _).2 ⟨tail, htail, htext, rfl⟩]
  cases hfind : relocator.rules.findSome? move? with
  | none => exact fun r hr hunder => hlies hunder (List.findSome?_eq_none_iff.1 hfind r hr)
  | some moved =>
    obtain ⟨front, r, back, hrules, hmoved, hfront⟩ := List.findSome?_eq_some_iff.1 hfind
    have hr : r ∈ relocator.rules := by simp [hrules]
    refine ⟨r, hr, (hmove r moved).1 hmoved, fun s hs hunder hne => ?_⟩
    have hle := relocator.length_sourcePath_le hrules hs fun hmem => hlies hunder (hfront s hmem)
    rw [Rule.length_sourcePath, Rule.length_sourcePath] at hle
    refine Nat.lt_of_le_of_ne hle fun heq => hne ?_
    -- Sources of one length that begin one text are the same.
    obtain ⟨tail, -, htext, -⟩ := (hmove r moved).1 hmoved
    obtain ⟨tail', -, htext'⟩ := hunder
    have hboth : source s ++ tail' = source r ++ tail := htext'.symm.trans htext
    have hsame := (List.append_inj hboth (by rw [hlength, hlength, heq])).1
    exact eq_of_source_eq hs hr (hsource s r hsame)

theorem movesByLongest_moveName? (relocator : Relocator) (name : List Char) :
    MovesByLongest relocator.rules Rule.source Rule.destination (fun c => c = '.' ∨ c = '$') name
      (relocator.moveName? name) :=
  relocator.movesByLongest_findSome? (fun _ _ => Rule.moveName?_iff) (fun _ => rfl) fun _ _ h => h

theorem movesByLongest_movePath? (relocator : Relocator) {path : List Char} (hservices : ¬EntryPath.services <+: path)
    (hversions : ¬EntryPath.versions <+: path) :
    MovesByLongest relocator.rules Rule.sourcePath Rule.destinationPath (· = '/') path (relocator.movePath? path) := by
  rw [relocator.movePath?_of_outside hservices hversions]
  exact relocator.movesByLongest_findSome? (fun _ _ => Rule.movePath?_iff) Rule.length_sourcePath
    fun _ _ => Rule.source_eq_of_sourcePath

/-- The order in which rules are declared does not matter. They are refused if two of them have one source and different
    destinations; else they give one relocator, with each source once, by which the longest source that a name or a path
    lies under moves it. -/
theorem ofRules_perm {rules rules' : List Rule} (hperm : rules.Perm rules') :
    ((∃ e, ofRules rules = .error e) ↔ Disagree rules) ∧ ((∃ e, ofRules rules' = .error e) ↔ Disagree rules) ∧
      (¬Disagree rules → ∃ relocator, ofRules rules = .ok relocator ∧ ofRules rules' = .ok relocator ∧
        (relocator.rules.map Rule.source).Nodup ∧
        (∀ name, MovesByLongest rules Rule.source Rule.destination (fun c => c = '.' ∨ c = '$') name
          (relocator.moveName? name)) ∧
        ∀ path, ¬EntryPath.services <+: path → ¬EntryPath.versions <+: path →
          MovesByLongest rules Rule.sourcePath Rule.destinationPath (· = '/') path (relocator.movePath? path)) := by
  have hdisagree : Disagree rules' ↔ Disagree rules := by simp only [Disagree, hperm.mem_iff]
  refine ⟨ofRules_fails_iff, ofRules_fails_iff.trans hdisagree, fun hagree => ?_⟩
  cases hrules : ofRules rules with
  | error e => exact absurd (ofRules_fails_iff.1 ⟨e, hrules⟩) hagree
  | ok relocator =>
    cases hrules' : ofRules rules' with
    | error e => exact absurd (hdisagree.1 (ofRules_fails_iff.1 ⟨e, hrules'⟩)) hagree
    | ok relocator' =>
      have hmem := mem_ofRules hrules
      have hsame : relocator' = relocator :=
        eq_of_mem_iff fun r => by rw [mem_ofRules hrules', hmem, hperm.mem_iff]
      exact ⟨relocator, rfl, congrArg Except.ok hsame, relocator.nodup_sources,
        fun name => (relocator.movesByLongest_moveName? name).of_mem_iff hmem,
        fun path hservices hversions => (relocator.movesByLongest_movePath? hservices hversions).of_mem_iff hmem⟩

/-- Of two nested packages the outer one is declared twice, before the nested one and after it. -/
theorem ofRules_perm_of_nested_packages :
    ∃ outer nested : Rule, [outer, nested, outer].Perm [nested, outer, outer] ∧ ¬Disagree [outer, nested, outer] ∧
      ∃ relocator, ofRules [outer, nested, outer] = .ok relocator ∧ ofRules [nested, outer, outer] = .ok relocator ∧
        MovesByLongest [outer, nested, outer] Rule.source Rule.destination (fun c => c = '.' ∨ c = '$')
          "org.a.b.C".toList
          (some "y.b.C".toList) ∧
        MovesByLongest [outer, nested, outer] Rule.sourcePath Rule.destinationPath (· = '/') "org/a/d/C.class".toList
          (some "x/a/d/C.class".toList) := by
  let nested : Rule := ⟨"org.a.b".toList, "y.b".toList, by decide, by decide, by decide⟩
  let outer : Rule := ⟨"org.a".toList, "x.a".toList, by decide, by decide, by decide⟩
  have hperm : [outer, nested, outer].Perm [nested, outer, outer] := List.Perm.swap nested outer [outer]
  have hagree : ¬Disagree [outer, nested, outer] := by decide
  obtain ⟨relocator, hrules, hrules', -, hnames, hpaths⟩ := (ofRules_perm hperm).2.2 hagree
  have hsorted : (⟨[nested, outer], by decide⟩ : Relocator) = relocator := Except.ok.inj (Eq.trans (by rfl) hrules)
  have hname : relocator.moveName? "org.a.b.C".toList = some "y.b.C".toList := by
    rw [← hsorted]
    decide +kernel
  have hpath : relocator.movePath? "org/a/d/C.class".toList = some "x/a/d/C.class".toList := by
    rw [← hsorted]
    decide +kernel
  refine ⟨outer, nested, hperm, hagree, relocator, hrules, hrules', hname ▸ hnames _, hpath ▸ hpaths _ ?_ ?_⟩
  · decide +kernel
  · decide +kernel

end Relocator
end UberJar.Relocation
