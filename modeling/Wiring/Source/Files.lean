import Wiring.Report.ReadError
import Wiring.Source.Path

/-!
Files, seen as a function from paths to texts, and trees of files that give such a
function.
-/

namespace Wiring

/-- The text of each file, or why it has none. -/
abbrev Files := String → Except FileError String

/-- A file or directory. A file that is not valid text has no text. -/
inductive FileTree where
  | file (text : Option String)
  | directory (entries : List (String × FileTree))
deriving Inhabited

namespace FileTree

def empty : FileTree := .directory []

/-- The entries of a directory; a file has none. -/
def entries : FileTree → List (String × FileTree)
  | .file _ => []
  | .directory entries => entries

def entry? (tree : FileTree) (name : String) : Option FileTree :=
  (tree.entries.find? fun e => e.1 == name).map Prod.snd

/-- The directory with an entry added or replaced. -/
def setEntry (tree : FileTree) (name : String) (entry : FileTree) : FileTree :=
  .directory ((tree.entries.filter fun e => e.1 != name) ++ [(name, entry)])

/-- The tree with something put at a place; directories on the way are made. -/
def put (content : FileTree) : List String → FileTree → FileTree
  | [], _ => content
  | name :: names, tree => tree.setEntry name (put content names ((tree.entry? name).getD empty))

/-- The tree with something put at a path, whose empty segments and lone dots lead
nowhere. -/
def putAt (tree : FileTree) (path : String) (content : FileTree) : FileTree :=
  let segments := (Path.segments path.toList).map String.ofList
  content.put (segments.filter fun segment => segment != "" && segment != ".") tree

/-- Follows the segments of a path. `above` holds the directories on the way down, the
nearest first. A step up from the topmost one leads out of the tree, where there are only
empty directories. -/
def walk (above : List FileTree) (tree : FileTree) : List String → Except FileError FileTree
  | [] => .ok tree
  | segment :: rest =>
    match tree with
    | .file _ => .error .notADirectory
    | .directory _ =>
      if segment = "" ∨ segment = "." then walk above tree rest
      else if segment = ".." then
        match above with
        | [] => walk [] empty rest
        | outer :: above => walk above outer rest
      else
        match tree.entry? segment with
        | none => .error .notFound
        | some next => walk (tree :: above) next rest

/-- The text of a file of a tree. An absolute path leads out of the tree. -/
def toFiles (tree : FileTree) : Files := fun path =>
  let segments := (Path.segments path.toList).map String.ofList
  if path.isEmpty then .error .notFound
  else
    match walk [] (if Path.isAbsolute path then empty else tree) segments with
    | .error e => .error e
    | .ok (.directory _) => .error .isADirectory
    | .ok (.file none) => .error .invalidData
    | .ok (.file (some text)) => .ok text

end FileTree

end Wiring
