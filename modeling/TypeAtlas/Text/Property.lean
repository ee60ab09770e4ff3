/-
Texts of custom properties and class names: property values may be quoted, truth has several
spellings, lists are separated by commas, and the class of a runtime object names its type.
-/
import TypeAtlas.Text.Blank

namespace TypeAtlas.Text

/-! ## Property values -/

/-- Takes one pair of double quotes off. A text that does not start and end with a quote of its
own stays. -/
def unquote (s : String) : String :=
  match s.toList with
  | '"' :: rest =>
    match rest.reverse with
    | '"' :: inner => String.ofList inner.reverse
    | _ => s
  | _ => s

/-- The text of a property value without outer blanks and quotes, unless nothing is left. -/
def propertyString (s : String) : Option String := nonBlank? (unquote (trim s))

/-- Folds the ASCII capitals of a text. -/
def foldAscii (s : String) : List Char := s.toList.map Char.toLower

/-- Whether two texts agree up to the case of ASCII letters. -/
def sameIgnoringAsciiCase (a b : String) : Bool := foldAscii a == foldAscii b

/-- Whether a property value is a spelling of truth: `true`, `Boolean.TRUE` or a qualified
`….Boolean.TRUE`, in any case. -/
def isTruthy (s : String) : Bool :=
  match propertyString s with
  | none => false
  | some t =>
    let cs := foldAscii t
    cs == "true".toList || cs == "boolean.true".toList || ".boolean.true".toList.isSuffixOf cs

/-- The parts between the separators; one more part than there are separators. -/
def splitChars (sep : Char) : List Char → List (List Char)
  | [] => [[]]
  | c :: cs =>
    if c = sep then [] :: splitChars sep cs
    else
      match splitChars sep cs with
      | [] => [[c]]
      | part :: parts => (c :: part) :: parts

/-- The trimmed, non-empty parts of a comma-separated list, in written order. -/
def commaList (s : String) : List String :=
  (splitChars ',' s.toList).filterMap fun part => nonBlank? (String.ofList part)

/-! ## Class names -/

/-- What follows the last `sep`, or everything if there is none. -/
def afterLast (sep : Char) (cs : List Char) : List Char :=
  (cs.reverse.takeWhile (· != sep)).reverse

theorem afterLast_append {sep : Char} {ys : List Char} (h : sep ∉ ys) (xs : List Char) :
    afterLast sep (xs ++ ys) = afterLast sep xs ++ ys := by
  have hys : ∀ c ∈ ys.reverse, (c != sep) = true := by
    intro c hc
    have hne : c ≠ sep := fun hsame => h (hsame ▸ List.mem_reverse.1 hc)
    simpa using hne
  unfold afterLast
  rw [List.reverse_append, List.takeWhile_append_of_pos hys, List.reverse_append,
    List.reverse_reverse]

theorem afterLast_concat (sep : Char) (xs : List Char) : afterLast sep (xs ++ [sep]) = [] := by
  simp [afterLast]

/-- Before what follows the last `sep` stands nothing, or a `sep`. -/
theorem afterLast_cases (sep : Char) (cs : List Char) :
    afterLast sep cs = cs ∨ ∃ before, cs = before ++ sep :: afterLast sep cs := by
  have hsplit := congrArg List.reverse
    (List.takeWhile_append_dropWhile (p := (· != sep)) (l := cs.reverse))
  rw [List.reverse_append, List.reverse_reverse] at hsplit
  unfold afterLast
  cases hdrop : cs.reverse.dropWhile (· != sep) with
  | nil =>
    rw [hdrop] at hsplit
    exact .inl hsplit
  | cons c rest =>
    have hc : c = sep := by
      have hhead := List.head?_dropWhile_not (· != sep) cs.reverse
      rw [hdrop] at hhead
      simpa using hhead
    rw [hdrop, hc, List.reverse_cons, List.append_assoc] at hsplit
    exact .inr ⟨rest.reverse, hsplit.symm⟩

/-- Takes `tail` off the end once, if it is there. -/
def dropTail (tail cs : List Char) : List Char :=
  if tail.isSuffixOf cs then cs.take (cs.length - tail.length) else cs

theorem dropTail_append (tail cs : List Char) : dropTail tail (cs ++ tail) = cs := by
  have hsuffix : tail.isSuffixOf (cs ++ tail) = true := by simp
  unfold dropTail
  rw [if_pos hsuffix]
  simp

/-- The type code behind the class of a runtime object: package, outer classes and one `Model`
ending are dropped. -/
def typeCodeForClass (className : String) : String :=
  String.ofList (dropTail "Model".toList (afterLast '$' (afterLast '.' className.toList)))

end TypeAtlas.Text
