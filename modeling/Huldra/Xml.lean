import Huldra.Text

/-!
# Xml — the trees of `xml.etree.ElementTree`, as far as they are read

A parsed document is a tree of elements; `text` is what stands before the first child, `tail` what
follows the element in its parent.  A tag is written with its namespace, as `{namespace}name`.
-/

namespace Huldra
namespace Xml

open Text

structure Element where
  tag : String
  attrib : List (String × Text) := []
  text : Option Text := none
  tail : Option Text := none
  children : List Element := []

namespace Element

/-- `element.find(tag)`: the first child of that tag. -/
def find (element : Element) (tag : String) : Option Element :=
  element.children.find? fun child => child.tag = tag

/-- `element.findall(tag)`. -/
def findall (element : Element) (tag : String) : List Element :=
  element.children.filter fun child => child.tag = tag

/-- `element.get(name)`. -/
def get (element : Element) (name : String) : Option Text :=
  (element.attrib.find? fun item => item.1 = name).map (·.2)

/-- A text that is there and not empty. -/
def someText (text : Option Text) : List Text :=
  (text.filter (· ≠ [])).toList

mutual

/-- `list(element.itertext())` -/
def itertext : Element → List Text
  | ⟨_, _, text, _, children⟩ => someText text ++ itertextAll children

def itertextAll : List Element → List Text
  | [] => []
  | ⟨tag, attrib, text, tail, children⟩ :: rest =>
      itertext ⟨tag, attrib, text, tail, children⟩ ++ someText tail ++ itertextAll rest

end

end Element

/-! ## Words -/

/-- `value.split()` -/
def splitSpaces (value : Text) : List Text :=
  (value.splitOnP isSpace).filter (· ≠ [])

/-- `" ".join(parts)` -/
def joinSpaces : List Text → Text
  | [] => []
  | [part] => part
  | part :: rest => part ++ ' ' :: joinSpaces rest

/-- `_normalize_space` -/
def normalizeSpace (value : Text) : Text :=
  joinSpaces (splitSpaces value)

/-- `value or None` for a text. -/
def orNone (value : Text) : Option Text :=
  if value = [] then none else some value

/-- `_text` -/
def text (element : Option Element) : Option Text :=
  match element.bind (·.text) with
  | none => none
  | some value => orNone (normalizeSpace value)

/-- A name with its namespace. -/
def qualified (namespace_ localName : String) : String :=
  "\x7b" ++ namespace_ ++ "\x7d" ++ localName

/-- `_child_text` -/
def childText (parent : Element) (localName namespace_ : String) : Option Text :=
  text (parent.find (qualified namespace_ localName))

/-- A text with something in it that is no white space. -/
def NonBlank (value : Text) : Prop :=
  ∃ c ∈ value, isSpace c = false

theorem nonBlank_joinSpaces {part : Text} (h : NonBlank part) (rest : List Text) :
    NonBlank (joinSpaces (part :: rest)) := by
  rcases h with ⟨c, hc, hspace⟩
  cases rest with
  | nil => exact ⟨c, hc, hspace⟩
  | cons next rest => exact ⟨c, List.mem_append_left _ hc, hspace⟩

theorem splitOnP_not {p : Char → Bool} {value : Text} :
    ∀ part ∈ value.splitOnP p, ∀ c ∈ part, p c = false := by
  induction value with
  | nil =>
      intro part hpart c hc
      rw [List.splitOnP_nil, List.mem_singleton] at hpart
      subst hpart
      cases hc
  | cons first rest ih =>
      intro part hpart c hc
      rw [List.splitOnP_cons_eq_if_modifyHead] at hpart
      split at hpart
      case isTrue =>
        rcases List.mem_cons.1 hpart with rfl | hpart
        · cases hc
        · exact ih part hpart c hc
      case isFalse hfirst =>
        cases hparts : rest.splitOnP p with
        | nil => exact absurd hparts (List.splitOnP_ne_nil p rest)
        | cons head parts =>
            rw [hparts, List.modifyHead_cons] at hpart
            rcases List.mem_cons.1 hpart with rfl | hpart
            · rcases List.mem_cons.1 hc with rfl | hc
              · simpa using hfirst
              · exact ih head (by simp [hparts]) c hc
            · exact ih part (by simp [hparts, hpart]) c hc

/-- What is left of a text is blank only if nothing is left. -/
theorem nonBlank_normalizeSpace {value : Text} (h : normalizeSpace value ≠ []) :
    NonBlank (normalizeSpace value) := by
  unfold normalizeSpace at h ⊢
  cases hparts : splitSpaces value with
  | nil => exact absurd (by rw [hparts]; rfl) h
  | cons part rest =>
      have hpart : part ∈ splitSpaces value := by simp [hparts]
      simp only [splitSpaces, List.mem_filter, decide_eq_true_eq] at hpart
      cases part with
      | nil => exact absurd rfl hpart.2
      | cons c part =>
          have hspace := splitOnP_not _ hpart.1 c List.mem_cons_self
          exact nonBlank_joinSpaces ⟨c, List.mem_cons_self, hspace⟩ rest

theorem nonBlank_of_text {element : Option Element} {value : Text} (h : text element = some value) :
    NonBlank value := by
  unfold text at h
  split at h
  · cases h
  · unfold orNone at h
    split at h
    · cases h
    case isFalse hne =>
      cases h
      exact nonBlank_normalizeSpace hne

end Xml
end Huldra
