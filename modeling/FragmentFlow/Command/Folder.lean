import FragmentFlow.Command.Run

/-!
# Files of a folder

What a command finds when it runs in a folder that holds some texts.  A path is
followed part by part, and the first part that leads nowhere is at fault.  Of the
system around the folder only what every system has is known: a few directories,
and the file that is always empty.
-/

namespace FragmentFlow.Command

/-- Why a path has no text. -/
inductive PathFault where
  | missing
  | notDirectory
  | isDirectory
  | nameTooLong
  deriving DecidableEq, Repr

/-- A fault of a path in words. -/
def PathFault.message : PathFault → String
  | missing => "No such file or directory (os error 2)"
  | notDirectory => "Not a directory (os error 20)"
  | isDirectory => "Is a directory (os error 21)"
  | nameTooLong => "File name too long (os error 36)"

/-- The most bytes that a name may have. -/
def maxName : Nat := 255

/-- The most bytes that a path may have. -/
def maxPath : Nat := 4095

/-- The directories that every system has at its root. -/
def rootDirectories : List String :=
  ["bin", "boot", "dev", "etc", "home", "lib", "media", "mnt", "opt", "proc", "run", "sbin",
   "srv", "sys", "tmp", "usr", "var"]

/-- Where a path leads. -/
inductive Place where
  /-- To a file with a text. -/
  | file (text : String)
  /-- To a directory of the folder, by the names that lead to it. -/
  | inside (names : List String)
  /-- To a directory that the folder lies in. -/
  | around
  /-- To a directory of the system, by the names that lead to it from the root. -/
  | system (names : List String)

/-- Texts by the names that lead to them. -/
abbrev Folder := List (List String × String)

namespace Folder

/-- The place of some names in a folder. -/
def place? (folder : Folder) (names : List String) : Option Place :=
  match folder.lookup names with
  | some text => some (.file text)
  | none => if folder.any fun entry => names.isPrefixOf entry.1 then some (.inside names) else none

end Folder

namespace Place

/-- The place of some names in the system. -/
def ofSystem? : List String → Option Place
  | [name] => if rootDirectories.contains name then some (.system [name]) else none
  | ["dev", "null"] => some (.file "")
  | _ => none

/-- The directory above a place. -/
def above : Place → Place
  | inside [] | around => .around
  | inside names => .inside names.dropLast
  | system names => .system names.dropLast
  | file text => .file text

/-- The place of a name in a directory. -/
def below? (folder : Folder) (name : String) : Place → Option Place
  | inside names => folder.place? (names ++ [name])
  | system names => ofSystem? (names ++ [name])
  | around | file _ => none

/-- Follows one part of a path; a file has no parts, not even itself. -/
def follow (folder : Folder) (place : Place) (part : String) : Except PathFault Place :=
  match place with
  | file _ => .error .notDirectory
  | _ =>
    if part == "" || part == "." then .ok place
    else if part == ".." then .ok place.above
    else if maxName < part.utf8ByteSize then .error .nameTooLong
    else
      match place.below? folder part with
      | some further => .ok further
      | none => .error .missing

/-- The text at a place. -/
def text? : Place → Except PathFault String
  | file text => .ok text
  | _ => .error .isDirectory

end Place

namespace Folder

/-- The text under a path, which starts at the folder or, with a slash in front, at
the root of the system. -/
def read (folder : Folder) (path : String) : Except PathFault String := do
  if maxPath < path.utf8ByteSize then .error .nameTooLong
  else
    let start := if path.toList.head? == some '/' then .system [] else .inside []
    let place ← (path.splitOn "/").foldlM (Place.follow folder) start
    place.text?

/-- A folder by the paths of its texts. -/
def ofPaths (entries : List (String × String)) : Folder :=
  entries.map fun (path, text) =>
    ((path.splitOn "/").filter fun part => part != "" && part != ".", text)

/-- A folder as the files that a command may read. -/
def files (folder : Folder) : Files := fun path =>
  (folder.read path).mapError PathFault.message

end Folder

end FragmentFlow.Command
