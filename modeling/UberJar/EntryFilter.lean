import UberJar.Error
import UberJar.Glob.Match
import UberJar.Text.Blank

namespace UberJar

/-- A declared exclusion: the pattern's text, and what it is made of. -/
structure EntryPattern where
  text : String
  tokens : List Glob.Token
  deriving Inhabited

/-- Whether a pattern matches an entry path. -/
def EntryPattern.isMatch (p : EntryPattern) (path : String) : Bool :=
  Glob.isMatch p.tokens (Text.Utf8.ofString path)

/-- Reads a pattern, without the blanks around it and the slashes before it. -/
def EntryPattern.parse (text : String) : Except ConfigError EntryPattern :=
  let pattern := (Text.trim text.toList).dropWhile (· == '/')
  if pattern.isEmpty then .error (.invalidPattern text .empty)
  else
    match Glob.parse pattern with
    | .ok tokens => .ok ⟨String.ofList pattern, tokens⟩
    | .error fault => .error (.invalidPattern text (.glob (String.ofList pattern) fault))

/-- The declared exclusions, in the order of their declaration. -/
structure EntryFilter where
  patterns : List EntryPattern := []
  deriving Inhabited

namespace EntryFilter

/-- Reads a list of patterns. -/
def parse (texts : List String) : Except ConfigError EntryFilter := do
  return ⟨← texts.mapM EntryPattern.parse⟩

/-- The declared patterns' texts. -/
def texts (f : EntryFilter) : List String := f.patterns.map (·.text)

/-- The first declared pattern that matches a path. -/
def matching? (f : EntryFilter) (path : String) : Option String :=
  (f.patterns.find? (·.isMatch path)).map (·.text)

theorem matching?_eq_none_iff {f : EntryFilter} {path : String} :
    f.matching? path = none ↔ ∀ pattern ∈ f.patterns, pattern.isMatch path = false := by
  rw [matching?, Option.map_eq_none_iff, List.find?_eq_none]
  simp only [Bool.not_eq_true]

theorem mem_texts_of_matching? {f : EntryFilter} {path text : String} (hmatch : f.matching? path = some text) :
    text ∈ f.texts := by
  obtain ⟨pattern, hfind, rfl⟩ := Option.map_eq_some_iff.1 hmatch
  exact List.mem_map_of_mem (List.mem_of_find?_eq_some hfind)

/-- Whether some pattern matches a path. -/
def excludes (f : EntryFilter) (path : String) : Bool := (f.matching? path).isSome

end EntryFilter
end UberJar
