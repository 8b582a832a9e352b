import UberJar.Xml.Attributes
import UberJar.Xml.Event

namespace UberJar.Xml

/-- A name that stands for a namespace. -/
structure Binding where
  name : List Char
  space : List Char
  /-- The number of elements open at the place of the binding. -/
  depth : Nat
  deriving DecidableEq, Repr

/-- The namespace of names that begin with `xml`. -/
def xmlNamespace : List Char := "http://www.w3.org/XML/1998/namespace".toList

/-- The namespace of the attributes that bind names. -/
def bindingNamespace : List Char := "http://www.w3.org/2000/xmlns/".toList

/-- The namespace of the attribute that marks an element as having no value. -/
def instanceNamespace : List Char := "http://www.w3.org/2001/XMLSchema-instance".toList

/-- The bindings in scope, innermost first. -/
structure Scope where
  bindings : List Binding := []
  /-- The number of open elements. -/
  depth : Nat := 0
  /-- Whether the innermost element has just ended; its bindings are still in scope. -/
  isEnding : Bool := false
  deriving DecidableEq, Repr

namespace Scope

/-- Leaves the innermost element if it has ended. -/
def settle (s : Scope) : Scope :=
  if s.isEnding then
    { bindings := s.bindings.filter fun b => b.depth < s.depth, depth := s.depth - 1, isEnding := false }
  else s

/-- Binds a name. The two names with a meaning of their own keep it, and no other name takes that meaning. -/
def bind (s : Scope) (name space : List Char) : Except Fault Scope :=
  if name = "xml".toList then
    if space = xmlNamespace then .ok s else .error (.reservedNamespace name)
  else if name = "xmlns".toList ∨ space = xmlNamespace ∨ space = bindingNamespace then
    .error (.reservedNamespace name)
  else if name.isEmpty then .ok s
  else .ok { s with bindings := ⟨name, space, s.depth⟩ :: s.bindings }

/-- Takes in the binding that an attribute makes, if it makes one. -/
def addAttribute (s : Scope) (a : Attribute) : Except Fault Scope :=
  match Text.dropPrefix? "xmlns:".toList a.name with
  | some name => s.bind name a.rawValue
  | none => .ok s

/-- Enters an element. -/
def enter (s : Scope) (tag : Tag) : Except Fault Scope :=
  (leadingAttributes tag.attributes).foldlM addAttribute { s with depth := s.depth + 1 }

/-- The scope behind an event. -/
def after (s : Scope) : Event → Except Fault Scope
  | .opened tag => s.settle.enter tag
  | .closed _ => .ok { s.settle with isEnding := true }
  | _ => .ok s.settle

/-- The namespace that a name stands for. -/
def space? (s : Scope) (name : List Char) : Option (List Char) :=
  (s.bindings.find? fun b => b.name == name).map (·.space)

/-- Whether an attribute marks its element as having no value. -/
def isNilMark (s : Scope) (a : Attribute) : Bool :=
  match Text.splitFirst? ':' a.name with
  | some (space, name) =>
    name == "nil".toList && s.space? space == some instanceNamespace &&
      (a.rawValue == ['1'] || a.rawValue == "true".toList)
  | none => false

/-- Whether a tag marks its element as having no value. -/
def isNil (s : Scope) (tag : Tag) : Bool := (distinctAttributes tag.attributes).any s.isNilMark

end Scope
end UberJar.Xml
