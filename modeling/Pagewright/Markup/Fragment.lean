import Pagewright.Text.Quoted

/-!
# Markup

A document of markup is a list of fragments: markup that is the same for every document, holes that hold
a text and show it escaped, and markup that a template brings along. Only the last kind can open or
close a tag that is not in the fixed fragments: an escaped text has none of the five characters that
mean something in markup (`escape_plain`).
-/

namespace Pagewright.Markup

/-- The five characters that mean something in markup, and what stands for them. -/
def references : List (Char × List Char) :=
  [('&', "&amp;".toList), ('<', "&lt;".toList), ('>', "&gt;".toList), ('\'', "&#39;".toList),
   ('"', "&#34;".toList)]

/-- A character as markup. -/
def escapedChar (c : Char) : List Char := (references.lookup c).getD [c]

/-- A text as markup. -/
def escape (s : List Char) : List Char := s.flatMap escapedChar

@[simp] theorem escape_nil : escape [] = [] := rfl

@[simp] theorem escape_cons (c : Char) (s : List Char) : escape (c :: s) = escapedChar c ++ escape s :=
  rfl

@[simp] theorem escape_append (s t : List Char) : escape (s ++ t) = escape s ++ escape t := by
  simp [escape]

/-- Angle brackets and quotes cannot occur in what stands for a character. -/
theorem escapedChar_plain (c : Char) :
    '<' ∉ escapedChar c ∧ '>' ∉ escapedChar c ∧ '"' ∉ escapedChar c ∧ '\'' ∉ escapedChar c := by
  unfold escapedChar references
  by_cases h1 : c = '&'
  · subst h1; decide
  by_cases h2 : c = '<'
  · subst h2; decide
  by_cases h3 : c = '>'
  · subst h3; decide
  by_cases h4 : c = '\''
  · subst h4; decide
  by_cases h5 : c = '"'
  · subst h5; decide
  have hn : List.lookup c
      [('&', "&amp;".toList), ('<', "&lt;".toList), ('>', "&gt;".toList), ('\'', "&#39;".toList),
       ('"', "&#34;".toList)] = none := by
    simp [List.lookup_cons, List.lookup_nil, beq_false_of_ne h1, beq_false_of_ne h2, beq_false_of_ne h3,
      beq_false_of_ne h4, beq_false_of_ne h5]
  rw [hn]
  simp only [Option.getD_none, List.mem_singleton]
  exact ⟨fun h => h2 h.symm, fun h => h3 h.symm, fun h => h5 h.symm, fun h => h4 h.symm⟩

/-- Angle brackets and quotes cannot occur in an escaped text. -/
theorem escape_plain (s : List Char) :
    '<' ∉ escape s ∧ '>' ∉ escape s ∧ '"' ∉ escape s ∧ '\'' ∉ escape s := by
  simp only [escape, List.mem_flatMap, not_exists, not_and]
  exact ⟨fun c _ => (escapedChar_plain c).1, fun c _ => (escapedChar_plain c).2.1,
    fun c _ => (escapedChar_plain c).2.2.1, fun c _ => (escapedChar_plain c).2.2.2⟩

/-- A part of a document of markup. -/
inductive Fragment where
  /-- Markup that stands as it is. -/
  | fixed (markup : String)
  /-- A text that is shown escaped. -/
  | hole (text : String)
  /-- Markup given by a template. -/
  | rich (markup : String)
  deriving Repr, DecidableEq

namespace Fragment

/-- The characters of a fragment. -/
def chars : Fragment → List Char
  | fixed markup => markup.toList
  | hole text => escape text.toList
  | rich markup => markup.toList

/-- A value shown escaped. -/
def value (v : Value) : Fragment := hole v.display

end Fragment

/-- The characters of a document. -/
def chars (fragments : List Fragment) : List Char := fragments.flatMap Fragment.chars

@[simp] theorem chars_append (a b : List Fragment) : chars (a ++ b) = chars a ++ chars b := by
  simp [chars]

/-- A document as text. -/
def text (fragments : List Fragment) : String := String.ofList (chars fragments)

end Pagewright.Markup
