import PocketLisp.Text.Quoted
import PocketLisp.Text.Utf8

/-!
# Files

What the command line reads. A folder is a tree of files below one working directory; paths are
followed from there, one name after the other. What lies outside is a place of directories of which
nothing is known but that they are there.

* `FileFault`: why a file cannot be read, with its wording.
* `Folder.read`: the content of the file at a path.
* `sourceText`: content as source text: UTF-8, with all ends of lines made newlines.
-/

namespace PocketLisp.Command

/-- Why a file cannot be read. -/
inductive FileFault where
  /-- There is nothing at the path. -/
  | missing
  /-- The path goes on behind a file. -/
  | notDirectory
  /-- There is a directory at the path. -/
  | isDirectory
  /-- The path, or a name along it, is longer than can be. -/
  | nameTooLong
  /-- The content is no text. -/
  | undecodable (f : Text.Utf8.Fault)
  deriving DecidableEq

/-- Why bytes are no text, in words. -/
def reasonText : Text.Utf8.Reason → String
  | .badStart => "invalid start byte"
  | .badContinuation => "invalid continuation byte"
  | .cutOff => "unexpected end of data"

/-- Where bytes are no text, in words: one byte is shown, several are given by their offsets. -/
def bytesText (f : Text.Utf8.Fault) : String :=
  if f.count = 1 then
    "byte 0x" ++ String.ofList (Text.hex 2 f.first.toNat) ++ " in position " ++ toString f.pos
  else "bytes in position " ++ toString f.pos ++ "-" ++ toString (f.pos + f.count - 1)

/-- The wording of a fault about the file `name`. -/
def FileFault.message (name : String) : FileFault → String
  | .missing => "[Errno 2] No such file or directory: " ++ Text.quoted name
  | .notDirectory => "[Errno 20] Not a directory: " ++ Text.quoted name
  | .isDirectory => "[Errno 21] Is a directory: " ++ Text.quoted name
  | .nameTooLong => "[Errno 36] File name too long: " ++ Text.quoted name
  | .undecodable f => "'utf-8' codec can't decode " ++ bytesText f ++ ": " ++ reasonText f.reason

/-- A content as source text. -/
def sourceText (content : List UInt8) : Except FileFault String :=
  match Text.Utf8.decode content with
  | .ok cs => .ok (String.ofList (Text.unifyNewlines cs))
  | .error f => .error (.undecodable f)

/-- The names along a path. -/
abbrev Path := List String

namespace Path

/-- The names along a written path. Empty names come from a slash at an end or beside another. -/
def ofString (s : String) : Path := s.splitOn "/"

/-- One more name at the end of a path: the empty name and `.` stay, and `..` goes back. -/
def step (path : Path) (name : String) : Path :=
  if name = "" ∨ name = "." then path
  else if name = ".." then path.dropLast
  else path ++ [name]

/-- The path by names only, without ways round. -/
def normal (path : Path) : Path := path.foldl step []

/-- The places along the way from `here`, each by names only. -/
def stops (here : Path) : Path → List Path
  | [] => [here]
  | name :: names => here :: stops (step here name) names

end Path

/-- Where a walk along a path stands: in a directory below the working directory, or outside. -/
inductive Place where
  | inside (path : Path)
  | outside

/-- The place one directory up. -/
def Place.up : Place → Place
  | .inside [] => .outside
  | .inside path => .inside path.dropLast
  | .outside => .outside

/-- The greatest number of bytes in a name. -/
def maxName : Nat := 255

/-- The greatest number of bytes in a path. -/
def maxPath : Nat := 4095

/-- Directories and files below a working directory, by path. -/
structure Folder where
  dirs : List Path := []
  files : List (Path × List UInt8) := []

namespace Folder

/-- The folder with the given directories and files, and all directories on the way to them. -/
def ofNames (dirs : List String) (files : List (String × List UInt8)) : Folder :=
  let parents := files.map fun f => (Path.ofString f.1).dropLast
  { dirs := (dirs.map Path.ofString ++ parents).flatMap (Path.stops [])
    files := files.map fun f => ((Path.ofString f.1).normal, f.2) }

/-- There is a directory at `path`. -/
def isDirectory (folder : Folder) (path : Path) : Bool :=
  path.isEmpty || folder.dirs.contains path

/-- The content of the file at `path`. -/
def file? (folder : Folder) (path : Path) : Option (List UInt8) := folder.files.lookup path

/-- Follows the names from a place. -/
def follow (folder : Folder) (place : Place) : Path → Except FileFault (List UInt8)
  | [] => .error .isDirectory
  | name :: names =>
    if name = "" ∨ name = "." then folder.follow place names
    else if name = ".." then folder.follow place.up names
    else if maxName < name.utf8ByteSize then .error .nameTooLong
    else
      match place with
      | .outside => .error .missing
      | .inside here =>
        let there := here ++ [name]
        if folder.isDirectory there then folder.follow (.inside there) names
        else
          match folder.file? there with
          | none => .error .missing
          | some content => if names.isEmpty then .ok content else .error .notDirectory

/-- Where a path starts: a leading slash leads outside. -/
def start (name : String) : Place :=
  if name.toList.head? = some '/' then .outside else .inside []

/-- The content of the file that `name` leads to. The empty name leads nowhere. -/
def read (folder : Folder) (name : String) : Except FileFault (List UInt8) :=
  if name = "" then .error .missing
  else if maxPath < name.utf8ByteSize then .error .nameTooLong
  else folder.follow (start name) (Path.ofString name)

end Folder

end PocketLisp.Command
