/-! A tree of files, and the system's messages when a path cannot be read. -/
namespace ChipEight

inductive FileError
  | notFound
  | notADirectory
  | isADirectory
  deriving DecidableEq, Repr

/-- The system's text for an error, with its number. -/
def FileError.text : FileError → String
  | .notFound => "No such file or directory (os error 2)"
  | .notADirectory => "Not a directory (os error 20)"
  | .isADirectory => "Is a directory (os error 21)"

inductive FileNode
  | file (bytes : List UInt8)
  | directory

structure FileTree where
  entries : List (String × FileNode) := []

namespace FileTree

/-- A directory that a path can lead to. -/
inductive Place
  /-- A directory that the tree lies in. -/
  | above
  /-- The directory itself. -/
  | top
  /-- One of its directories. -/
  | below

def Place.parent : Place → Place
  | .above | .top => .above
  | .below => .top

/-- Follows the parts of a path. Nothing is known of what else lies above the tree. -/
def follow (tree : FileTree) : Place → List String → Except FileError (List UInt8)
  | _, [] => .error .isADirectory
  | place, "" :: rest => tree.follow place rest
  | place, "." :: rest => tree.follow place rest
  | place, ".." :: rest => tree.follow place.parent rest
  | .top, name :: rest =>
    match tree.entries.lookup name, rest with
    | none, _ => .error .notFound
    | some .directory, _ => tree.follow .below rest
    | some (.file bytes), [] => .ok bytes
    | some (.file _), _ :: _ => .error .notADirectory
  | .above, _ :: _ => .error .notFound
  | .below, _ :: _ => .error .notFound

def read (tree : FileTree) (path : String) : Except FileError (List UInt8) :=
  tree.follow .top (path.splitOn "/")

end FileTree

end ChipEight
