import UberJar.Proofs.Manifest.RoundTrip
import UberJar.Proofs.Text.Ascii

namespace UberJar

open Text

namespace Attribute

theorem isNamed_iff {a : Attribute} {name : List Char} :
    a.isNamed name = true ↔ a.name.map Char.toLower = name.map Char.toLower := by
  rw [isNamed, beq_iff_eq]

theorem isNamed_self (a : Attribute) : a.isNamed a.name = true := isNamed_iff.2 rfl

theorem isNamed_comm {a b : Attribute} : a.isNamed b.name = b.isNamed a.name := by
  rw [Bool.eq_iff_iff, isNamed_iff, isNamed_iff, eq_comm]

theorem isNamed_congr {a b : Attribute} (hsame : a.isNamed b.name = true) (name : List Char) :
    a.isNamed name = b.isNamed name := by
  rw [Bool.eq_iff_iff, isNamed_iff, isNamed_iff, isNamed_iff.1 hsame]

theorem isNamed_name {a : Attribute} {name : List Char} (hname : a.isNamed name = true) (b : Attribute) :
    b.isNamed a.name = b.isNamed name := by
  rw [Bool.eq_iff_iff, isNamed_iff, isNamed_iff, isNamed_iff.1 hname]

/-- Whether an attribute has none of the names of some attributes. -/
def isBeside (attributes : List Attribute) (a : Attribute) : Bool := !attributes.any fun c => a.isNamed c.name

/-- An attribute that is called like one that stands for itself, and has its value, stands for itself. -/
theorem IsPlain.of_isNamed {a b : Attribute} (hb : b.IsPlain) (hname : b.isNamed a.name = true)
    (hvalue : b.value = a.value) : a.IsPlain := by
  have hsame : a.name.map Char.toLower = b.name.map Char.toLower := (isNamed_iff.1 hname).symm
  have hmem {c : Char} (hc : c.isAlpha = false) : c ∈ a.name ↔ c ∈ b.name := by
    rw [← mem_map_toLower_iff hc, hsame, mem_map_toLower_iff hc]
  exact {
    name_trimmed := trim_eq_self_of_toLower hsame hb.name_trimmed
    name_colon := (hmem (by decide)).not.2 hb.name_colon
    name_unbroken := ⟨(hmem (by decide)).not.2 hb.name_unbroken.1, (hmem (by decide)).not.2 hb.name_unbroken.2⟩
    value_trimmed := hvalue ▸ hb.value_trimmed
    value_unbroken := hvalue ▸ hb.value_unbroken }

end Attribute

namespace Manifest

/-- Setting an attribute gives the first one of its name another value, or adds it behind the others. -/
theorem setIn_cases (item : Attribute) (attributes : List Attribute) :
    ((∀ a ∈ attributes, a.isNamed item.name = false) ∧ setIn item attributes = attributes ++ [item]) ∨
      ∃ front old back, attributes = front ++ old :: back ∧ old.isNamed item.name = true ∧
        (∀ a ∈ front, a.isNamed item.name = false) ∧
        setIn item attributes = front ++ ⟨old.name, item.value⟩ :: back := by
  induction attributes with
  | nil => exact .inl ⟨by simp, rfl⟩
  | cons first rest ih =>
    cases hfirst : first.isNamed item.name with
    | true => exact .inr ⟨[], first, rest, rfl, hfirst, by simp, by simp [setIn, hfirst]⟩
    | false =>
      have hset : setIn item (first :: rest) = first :: setIn item rest := by simp [setIn, hfirst]
      rcases ih with ⟨hnone, hrest⟩ | ⟨front, old, back, rfl, hold, hfront, hrest⟩
      · exact .inl ⟨List.forall_mem_cons.2 ⟨hfirst, hnone⟩, by rw [hset, hrest, List.cons_append]⟩
      · exact .inr ⟨first :: front, old, back, rfl, hold, List.forall_mem_cons.2 ⟨hfirst, hfront⟩,
          by rw [hset, hrest, List.cons_append]⟩

theorem get?_eq_some {m : Manifest} {name value : List Char} (hget : m.get? name = some value) :
    ∃ a ∈ m.main, a.isNamed name = true ∧ a.value = value := by
  obtain ⟨a, hfind, rfl⟩ := Option.map_eq_some_iff.1 hget
  exact ⟨a, List.mem_of_find?_eq_some hfind, (List.find?_some (p := fun a : Attribute => a.isNamed name) hfind :), rfl⟩

theorem get?_set (m : Manifest) (item : Attribute) (name : List Char) :
    (m.set item).get? name = if item.isNamed name then some item.value else m.get? name := by
  have hset : (m.set item).get? name = ((setIn item m.main).find? (·.isNamed name)).map (·.value) := rfl
  have hnone {attributes : List Attribute} (hunnamed : ∀ a ∈ attributes, a.isNamed item.name = false)
      (hname : item.isNamed name = true) : attributes.find? (·.isNamed name) = none := by
    rw [List.find?_eq_none]
    intro a ha
    rw [← Attribute.isNamed_name hname a, hunnamed a ha]
    simp
  rw [hset, get?]
  rcases setIn_cases item m.main with ⟨hunnamed, hmain⟩ | ⟨front, old, back, hold, hnamed, hfront, hmain⟩
  · rw [hmain, List.find?_append]
    cases hname : item.isNamed name with
    | true => simp [hnone hunnamed hname, hname]
    | false => simp [hname]
  · have hold' : old.isNamed name = item.isNamed name := Attribute.isNamed_congr hnamed name
    have hnew : Attribute.isNamed ⟨old.name, item.value⟩ name = item.isNamed name := hold'
    rw [hmain, hold, List.find?_append, List.find?_append, List.find?_cons, List.find?_cons, hnew, hold']
    cases hname : item.isNamed name with
    | true => simp [hnone hfront hname]
    | false => simp

theorem mem_set {m : Manifest} {item a : Attribute} (ha : a ∈ (m.set item).main) :
    (a.isNamed item.name = true ∧ a.value = item.value) ∨ a ∈ m.main := by
  change a ∈ setIn item m.main at ha
  rcases setIn_cases item m.main with ⟨-, hmain⟩ | ⟨front, old, back, hold, hnamed, -, hmain⟩
  · rw [hmain, List.mem_append, List.mem_singleton] at ha
    rcases ha with ha | rfl
    · exact .inr ha
    · exact .inl ⟨a.isNamed_self, rfl⟩
  · rw [hmain, List.mem_append, List.mem_cons] at ha
    rcases ha with ha | rfl | ha
    · exact .inr (by simp [hold, ha])
    · exact .inl ⟨hnamed, rfl⟩
    · exact .inr (by simp [hold, ha])

/-- Attributes of other names are left as they are, each at its place among them. -/
theorem filter_set (m : Manifest) {item : Attribute} {p : Attribute → Bool}
    (hp : ∀ a : Attribute, a.isNamed item.name = true → p a = false) :
    (m.set item).main.filter p = m.main.filter p := by
  change (setIn item m.main).filter p = _
  rcases setIn_cases item m.main with ⟨-, hmain⟩ | ⟨front, old, back, hold, hnamed, -, hmain⟩
  · rw [hmain, List.filter_append, List.filter_singleton, hp item item.isNamed_self]
    simp
  · have hnew : p ⟨old.name, item.value⟩ = false := hp _ hnamed
    rw [hmain, hold, List.filter_append, List.filter_append, List.filter_cons_of_neg (by simp [hnew]),
      List.filter_cons_of_neg (by simp [hp old hnamed])]

/-- Sets attributes one after the other. -/
def setAll (m : Manifest) (attributes : List Attribute) : Manifest := attributes.foldl Manifest.set m

theorem setAll_cons (m : Manifest) (first : Attribute) (rest : List Attribute) :
    m.setAll (first :: rest) = (m.set first).setAll rest := rfl

theorem sections_setAll (m : Manifest) (attributes : List Attribute) : (m.setAll attributes).sections = m.sections := by
  induction attributes generalizing m with
  | nil => rfl
  | cons first rest ih => exact ih (m.set first)

theorem get?_setAll_of_unnamed {m : Manifest} {attributes : List Attribute} {name : List Char}
    (hunnamed : ∀ a ∈ attributes, a.isNamed name = false) : (m.setAll attributes).get? name = m.get? name := by
  induction attributes generalizing m with
  | nil => rfl
  | cons first rest ih =>
    obtain ⟨hfirst, hrest⟩ := List.forall_mem_cons.1 hunnamed
    rw [setAll_cons, ih hrest, get?_set, hfirst, if_neg (by simp)]

/-- Every one of several attributes has its value once all of them are set, as no other is called like it. -/
theorem get?_setAll {m : Manifest} {attributes : List Attribute}
    (hdistinct : attributes.Pairwise fun a b => a.isNamed b.name = false) :
    ∀ a ∈ attributes, (m.setAll attributes).get? a.name = some a.value := by
  induction attributes generalizing m with
  | nil => simp
  | cons first rest ih =>
    obtain ⟨hfirst, hrest⟩ := List.pairwise_cons.1 hdistinct
    rw [List.forall_mem_cons, setAll_cons]
    refine ⟨?_, ih hrest⟩
    have hunnamed : ∀ a ∈ rest, a.isNamed first.name = false :=
      fun a ha => Attribute.isNamed_comm.trans (hfirst a ha)
    rw [get?_setAll_of_unnamed hunnamed, get?_set, if_pos first.isNamed_self]

theorem mem_setAll {m : Manifest} {attributes : List Attribute} {a : Attribute} (ha : a ∈ (m.setAll attributes).main) :
    (∃ c ∈ attributes, a.isNamed c.name = true ∧ a.value = c.value) ∨ a ∈ m.main := by
  induction attributes generalizing m with
  | nil => exact .inr ha
  | cons first rest ih =>
    rcases ih ha with ⟨c, hc, hset⟩ | ha
    · exact .inl ⟨c, List.mem_cons_of_mem _ hc, hset⟩
    · exact (mem_set ha).imp_left fun hset => ⟨first, List.mem_cons_self, hset⟩

theorem filter_setAll (m : Manifest) {attributes : List Attribute} {p : Attribute → Bool}
    (hp : ∀ c ∈ attributes, ∀ a : Attribute, a.isNamed c.name = true → p a = false) :
    (m.setAll attributes).main.filter p = m.main.filter p := by
  induction attributes generalizing m with
  | nil => rfl
  | cons first rest ih =>
    obtain ⟨hfirst, hrest⟩ := List.forall_mem_cons.1 hp
    rw [setAll_cons, ih _ hrest, filter_set m hfirst]

theorem IsPlain.set {m : Manifest} (hm : m.IsPlain) {item : Attribute} (hitem : item.IsPlain) :
    (m.set item).IsPlain := by
  refine ⟨fun a ha => ?_, hm.sections⟩
  change a ∈ setIn item m.main at ha
  rcases setIn_cases item m.main with ⟨-, hmain⟩ | ⟨front, old, back, hold, -, -, hmain⟩
  · rw [hmain, List.mem_append, List.mem_singleton] at ha
    exact ha.elim (hm.main a) fun heq => heq ▸ hitem
  · have hplain := hm.main old (by simp [hold])
    rw [hmain, List.mem_append, List.mem_cons] at ha
    rcases ha with ha | rfl | ha
    · exact hm.main a (by simp [hold, ha])
    · exact ⟨hplain.name_trimmed, hplain.name_colon, hplain.name_unbroken, hitem.value_trimmed, hitem.value_unbroken⟩
    · exact hm.main a (by simp [hold, ha])

theorem IsPlain.setAll {m : Manifest} (hm : m.IsPlain) {attributes : List Attribute}
    (hattributes : ∀ a ∈ attributes, a.IsPlain) : (m.setAll attributes).IsPlain := by
  induction attributes generalizing m with
  | nil => exact hm
  | cons first rest ih =>
    obtain ⟨hfirst, hrest⟩ := List.forall_mem_cons.1 hattributes
    exact ih (hm.set hfirst) hrest

theorem HasVersion.setAll {m : Manifest} (hm : m.HasVersion) (attributes : List Attribute) :
    (m.setAll attributes).HasVersion := by
  induction attributes generalizing m with
  | nil => exact hm
  | cons first rest ih =>
    refine ih ((hasVersion_iff _).2 ?_)
    rw [get?_set]
    split
    · rfl
    · exact (hasVersion_iff m).1 hm

/-- The normal form has the values of the main attributes. -/
theorem get?_normal {m : Manifest} {name value : List Char} (hget : m.get? name = some value) :
    m.normal.get? name = some value := by
  have hmain : m.normal.main = (if m.HasVersion then [] else [.version]) ++ m.main := m.written_eq
  rw [get?, hmain]
  split
  · exact hget
  · rename_i hversion
    have hother : Attribute.version.isNamed name = false := by
      rw [Bool.eq_false_iff]
      intro hname
      have hsame : m.get? Attribute.version.name = m.get? name := by
        rw [get?, get?, funext fun a => Attribute.isNamed_name hname a]
      exact hversion ((hasVersion_iff m).2 (by rw [hsame, hget]; rfl))
    rw [List.singleton_append, List.find?_cons, hother]
    exact hget

/-- The version that is written before the main attributes is not affected by attributes of other names. -/
theorem filter_version_setAll (m : Manifest) (attributes : List Attribute) :
    (if (m.setAll attributes).HasVersion then [] else [Attribute.version]).filter (Attribute.isBeside attributes) =
      (if m.HasVersion then [] else [Attribute.version]).filter (Attribute.isBeside attributes) := by
  cases hbeside : Attribute.version.isBeside attributes with
  | false =>
    have hnone (hversion : Prop) [Decidable hversion] :
        (if hversion then [] else [Attribute.version]).filter (Attribute.isBeside attributes) = [] := by
      split
      · rfl
      · rw [List.filter_cons_of_neg (by simp [hbeside]), List.filter_nil]
    rw [hnone, hnone]
  | true =>
    have hunnamed : ∀ c ∈ attributes, c.isNamed Attribute.version.name = false := by
      intro c hc
      rw [Attribute.isNamed_comm]
      simpa using List.any_eq_false.1 (by simpa [Attribute.isBeside] using hbeside) c hc
    have hsame : (m.setAll attributes).HasVersion ↔ m.HasVersion := by
      rw [hasVersion_iff, hasVersion_iff, get?_setAll_of_unnamed hunnamed]
    simp only [hsame]

/-- `result` is `base` with `attributes` in it: they have their values, every attribute is one of them or one of `base`
    or the version that `base` lacked, those of other names are all there in their order, and the sections are those of
    `base`. -/
structure Merges (base : Manifest) (attributes : List Attribute) (result : Manifest) : Prop where
  arrive : ∀ a ∈ attributes, result.get? a.name = some a.value
  known : ∀ a ∈ result.main, (∃ c ∈ attributes, a.isNamed c.name = true ∧ a.value = c.value) ∨ a ∈ base.main ∨
    (a = .version ∧ ¬base.HasVersion)
  others : result.main.filter (Attribute.isBeside attributes) = base.written.filter (Attribute.isBeside attributes)
  sections : result.sections = base.normal.sections

theorem merges_normal {base : Manifest} {attributes : List Attribute}
    (hdistinct : attributes.Pairwise fun a b => a.isNamed b.name = false) :
    Merges base attributes (base.setAll attributes).normal := by
  have hmain : (base.setAll attributes).normal.main = _ := (base.setAll attributes).written_eq
  refine ⟨fun a ha => get?_normal (get?_setAll hdistinct a ha), fun a ha => ?known, ?others, ?sections⟩
  case known =>
    rw [hmain, List.mem_append] at ha
    rcases ha with ha | ha
    · split at ha
      · cases ha
      · rename_i hnone
        exact .inr (.inr ⟨List.mem_singleton.1 ha, fun hversion => hnone (hversion.setAll attributes)⟩)
    · exact (mem_setAll ha).imp_right .inl
  case others =>
    have hset : ∀ c ∈ attributes, ∀ a : Attribute, a.isNamed c.name = true → a.isBeside attributes = false := by
      intro c hc a ha
      simpa [Attribute.isBeside] using ⟨c, hc, ha⟩
    rw [hmain, written_eq, List.filter_append, List.filter_append, filter_setAll base hset, filter_version_setAll]
  case sections => rw [normal_sections, normal_sections, sections_setAll]

/-- The manifest that configured attributes are set in. -/
def base (existing : Option Bytes) : Manifest := (existing.map parse).getD default

theorem isPlain_base (existing : Option Bytes) : (base existing).IsPlain := by
  cases existing with
  | some data => exact isPlain_parse data
  | none =>
    have hmain : ∀ a ∈ [Attribute.version, Attribute.creator], a.IsPlain := by decide
    exact ⟨hmain, by simp [base, default]⟩

theorem build_eq (existing : Option Bytes) {attributes : List Attribute} (hne : attributes ≠ []) :
    build existing attributes = ((base existing).setAll attributes).toBytes := by
  cases existing with
  | none => rfl
  | some data => simp [build, hne, base, setAll]

/-- Attributes that arrive stand for themselves, as all do that are read. -/
theorem isPlain_of_arrives {data : Bytes} {a : Attribute} (harrive : (parse data).get? a.name = some a.value) :
    a.IsPlain := by
  obtain ⟨b, hb, hname, hvalue⟩ := get?_eq_some harrive
  exact ((isPlain_parse data).main b hb).of_isNamed hname hvalue

/-- Configured attributes of different names arrive, with nothing else changed, exactly if all of them stand for
    themselves. -/
theorem merges_build_iff {existing : Option Bytes} {attributes : List Attribute} (hne : attributes ≠ [])
    (hdistinct : attributes.Pairwise fun a b => a.isNamed b.name = false) :
    Merges (base existing) attributes (parse (build existing attributes)) ↔ ∀ a ∈ attributes, a.IsPlain := by
  constructor
  · exact fun hmerges a ha => isPlain_of_arrives (hmerges.arrive a ha)
  · intro hplain
    rw [build_eq existing hne, parse_toBytes ((isPlain_base existing).setAll hplain)]
    exact merges_normal hdistinct

/-- Beside attributes and a section of a manifest without a version, a value takes the place of another. -/
theorem merges_build_iff_beside_others :
    Merges (base (some (Utf8.encode "main-class: Old\nX: y\n\nName: a/\n".toList)))
        [⟨"Main-Class".toList, "New".toList⟩]
        (parse (build (some (Utf8.encode "main-class: Old\nX: y\n\nName: a/\n".toList))
          [⟨"Main-Class".toList, "New".toList⟩])) ∧
      parse (build (some (Utf8.encode "main-class: Old\nX: y\n\nName: a/\n".toList))
          [⟨"Main-Class".toList, "New".toList⟩]) =
        ⟨[.version, ⟨"main-class".toList, "New".toList⟩, ⟨"X".toList, "y".toList⟩], [["Name: a/".toList]]⟩ := by
  exact ⟨(merges_build_iff (by decide) (by decide)).2 (by decide), by decide +kernel⟩

/-- Behind a line break, a value adds another attribute, and behind an empty line a section. -/
theorem build_line_break_adds_attribute_and_section :
    parse (build none [⟨"Main-Class".toList, "a.Main\nX: y\n\nName: z/".toList⟩]) =
        ⟨[.version, .creator, ⟨"Main-Class".toList, "a.Main".toList⟩, ⟨"X".toList, "y".toList⟩],
          [["Name: z/".toList]]⟩ ∧
      ¬Merges (base none) [⟨"Main-Class".toList, "a.Main\nX: y\n\nName: z/".toList⟩]
        (parse (build none [⟨"Main-Class".toList, "a.Main\nX: y\n\nName: z/".toList⟩])) := by
  have hread : parse (build none [⟨"Main-Class".toList, "a.Main\nX: y\n\nName: z/".toList⟩]) =
      ⟨[.version, .creator, ⟨"Main-Class".toList, "a.Main".toList⟩, ⟨"X".toList, "y".toList⟩],
        [["Name: z/".toList]]⟩ := by decide +kernel
  refine ⟨hread, fun hmerges => ?_⟩
  have harrive := hmerges.arrive _ List.mem_cons_self
  rw [hread] at harrive
  exact absurd harrive (by decide)

end Manifest
end UberJar
