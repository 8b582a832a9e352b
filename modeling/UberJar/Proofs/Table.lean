import Std.Data.TreeMap

namespace UberJar

variable {α : Type}

theorem getElem?_insert {m : Std.TreeMap String α compare} {key key' : String} {value : α} :
    (m.insert key value)[key']? = if key = key' then some value else m[key']? := by
  simp only [Std.TreeMap.getElem?_insert, Std.LawfulEqCmp.compare_eq_iff_eq]

theorem getElem?_foldl_insert {β : Type} (name : β → String) (value : β → α) (items : List β)
    (m : Std.TreeMap String α compare) (key : String) :
    (items.foldl (fun m item => m.insert (name item) (value item)) m)[key]? =
      ((items.filter (name · == key)).getLast?.map value).or m[key]? := by
  induction items generalizing m with
  | nil => rfl
  | cons item items ih =>
    rw [List.foldl_cons, ih, getElem?_insert]
    by_cases hkey : name item = key
    · have hfirst : (item :: items).filter (name · == key) = item :: items.filter (name · == key) := by simp [hkey]
      rw [if_pos hkey, hfirst, List.getLast?_cons]
      cases (items.filter (name · == key)).getLast? <;> rfl
    · have hrest : (item :: items).filter (name · == key) = items.filter (name · == key) := by simp [hkey]
      rw [if_neg hkey, hrest]

theorem getElem?_insertIfNew {m : Std.TreeMap String α compare} {key key' : String} {value : α} :
    (m.insertIfNew key value)[key']? = m[key']?.or (if key' = key then some value else none) := by
  simp only [Std.TreeMap.getElem?_insertIfNew, Std.LawfulEqCmp.compare_eq_iff_eq]
  by_cases hkey : key = key'
  · subst hkey
    cases hfound : m[key]? with
    | some found =>
      have hmem : key ∈ m := by rw [Std.TreeMap.mem_iff_isSome_getElem?, hfound]; rfl
      simp [hmem]
    | none =>
      have hnew : key ∉ m := (getElem?_eq_none_iff m key).1 hfound
      simp [hnew]
  · rw [if_neg fun hsame => hkey hsame.1, if_neg (Ne.symm hkey), Option.or_none]

theorem getElem?_foldl_insertIfNew (items : List (String × α)) (m : Std.TreeMap String α compare) (key : String) :
    (items.foldl (fun m (name, value) => m.insertIfNew name value) m)[key]? = m[key]?.or (items.lookup key) := by
  induction items generalizing m with
  | nil => exact Option.or_none.symm
  | cons item items ih =>
    rw [List.foldl_cons, ih, getElem?_insertIfNew, Option.or_assoc, List.lookup_cons]
    by_cases hkey : key = item.1
    · simp [hkey]
    · rw [if_neg hkey, Option.none_or, beq_eq_false_iff_ne.2 hkey]

end UberJar
