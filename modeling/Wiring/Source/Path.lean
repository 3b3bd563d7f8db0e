/-!
Paths of files as text. A path is made of segments between slashes; an empty segment, or
a dot that is not at the front, leads nowhere and is no component of the path.
-/

namespace Wiring.Path

/-- The segments of a path, of which there is at least one. -/
def segments : List Char → List (List Char)
  | [] => [[]]
  | c :: cs =>
    match segments cs with
    | [] => [[c]]
    | segment :: rest => if c = '/' then [] :: segment :: rest else (c :: segment) :: rest

def ofSegments : List (List Char) → List Char
  | [] => []
  | [segment] => segment
  | segment :: rest => segment ++ '/' :: ofSegments rest

def isAbsolute (path : String) : Bool := path.toList.head? == some '/'

/-- A path taken from a base directory. An absolute path leaves the base behind. -/
def join (base path : String) : String :=
  if isAbsolute path || base.isEmpty then path
  else if base.toList.getLast? = some '/' then base ++ path
  else base ++ "/" ++ path

/-- The segments of a path from its last component backwards. The first segment stays;
it is empty in an absolute path. -/
def dropEmptyEnd : List (List Char) → List (List Char)
  | [] => []
  | [first] => [first]
  | segment :: rest =>
    if segment = [] ∨ segment = ['.'] then dropEmptyEnd rest else segment :: rest

/-- The segments of a path up to its last component, in reverse. -/
def reversed (path : String) : List (List Char) := dropEmptyEnd (segments path.toList).reverse

/-- The path without its last component, if it has one. -/
def parent? (path : String) : Option String :=
  match reversed path with
  | [] => none
  | [first] => if first = [] then none else some ""
  | _ :: rest =>
    match dropEmptyEnd rest with
    | [[]] => some "/"
    | above => some (String.ofList (ofSegments above.reverse))

/-- The last component of a path, if it is a name. -/
def fileName? (path : String) : Option (List Char) :=
  match reversed path with
  | [] => none
  | [['.']] => none
  | last :: _ => if last = [] ∨ last = ['.', '.'] then none else some last

/-- What stands after the last dot of the file name. A dot at its front does not count. -/
def extension? (path : String) : Option String := do
  let name ← fileName? path
  let after := name.reverse.takeWhile (· ≠ '.')
  match name.reverse.drop after.length with
  | _ :: _ :: _ => return String.ofList after.reverse
  | _ => none

theorem ofSegments_segments (cs : List Char) : ofSegments (segments cs) = cs := by
  induction cs with
  | nil => rfl
  | cons c cs ih =>
    unfold segments
    split
    · rename_i h
      simp [h, ofSegments] at ih
      subst ih
      rfl
    · rename_i segment rest h
      rw [h] at ih
      split
      · rename_i hc
        subst hc
        simp [ofSegments, ih]
      · cases rest with
        | nil =>
          simp only [ofSegments] at ih ⊢
          rw [ih]
        | cons next rest =>
          simp only [ofSegments, List.cons_append] at ih ⊢
          rw [ih]

end Wiring.Path
