import Bellows.CommandLine.Path
import Bellows.Keyed
import Bellows.Text.Quoted

/-!
Folders: files, folders and links under their places below the root of all paths. Main definitions
are the place that a path leads to (`Folder.placeOf`), what stands there (`Folder.entry`), and the
folder after a file was written (`Folder.put`).
-/
namespace Bellows

/-- What a path leads to. -/
inductive Entry
  | missing
  | folder
  | file (octets : List UInt8)
  deriving DecidableEq

/-- Why a file is not written: the number of the fault and its name. -/
structure WriteFault where
  number : Nat
  reason : String
  deriving DecidableEq, Repr

namespace WriteFault

def missing : WriteFault := ⟨2, "No such file or directory"⟩

def notFolder : WriteFault := ⟨20, "Not a directory"⟩

def isFolder : WriteFault := ⟨21, "Is a directory"⟩

def tooManyLinks : WriteFault := ⟨40, "Too many levels of symbolic links"⟩

def message (f : WriteFault) (path : Path) : String :=
  s!"[Errno {f.number}] {f.reason}: {quoted path.text}"

end WriteFault

/-- What stands at a place: a folder, a file with its octets, or a link to a path. -/
inductive Item
  | folder
  | file (octets : List UInt8)
  | link (target : String)
  deriving DecidableEq

/-- The root of all paths with everything below it, each item under the names that lead to it. -/
abbrev Folder := Keyed (List String) Item

namespace Folder

variable (f : Folder)

/-- What stands at a place; the root is a folder itself. -/
def item? (place : List String) : Option Item :=
  if place.isEmpty then some .folder else f.get? place

/-- Where the names of a path start from: the root, or else the folder that it is seen from. -/
def start (here : List String) (path : String) : List String :=
  if (Path.ofText path).root = "" then here else []

/-- The place where names lead from a folder, with what follows a link. The folder above the root
is the root. -/
def walkWith (follow : List String → List String → Except WriteFault (List String))
    (place : List String) : List String → Except WriteFault (List String)
  | [] => .ok place
  | name :: names =>
    match f.item? place with
    | none => .error .missing
    | some .folder =>
      if name = "" || name = "." then walkWith follow place names
      else if name = ".." then walkWith follow place.dropLast names
      else
        match f.item? (place ++ [name]) with
        | some (.link target) => follow (start place target) (target.splitOn "/" ++ names)
        | _ => walkWith follow (place ++ [name]) names
    | some _ => .error .notFolder

/-- The place where names lead from a folder over at most so many links. -/
def walk : Nat → List String → List String → Except WriteFault (List String)
  | 0 => f.walkWith fun _ _ => .error .tooManyLinks
  | links + 1 => f.walkWith (walk links)

/-- How many links a path may lead over. -/
def linkLimit : Nat := 40

/-- The place that a path leads to from a folder, whether or not something stands there. -/
def placeOf (here : List String) (path : String) : Except WriteFault (List String) :=
  f.walk linkLimit (start here path) (path.splitOn "/")

/-- What a path leads to from a folder. -/
def entry (here : List String) (path : String) : Entry :=
  if path = "" then .missing
  else
    match (f.placeOf here path).map f.item? with
    | .ok (some .folder) => .folder
    | .ok (some (.file octets)) => .file octets
    | _ => .missing

/-- The folder with a text written to a path, in a file that may be there already. -/
def write (here : List String) (path : Path) (text : String) : Except WriteFault Folder :=
  match f.placeOf here path.text with
  | .error fault => .error fault
  | .ok place =>
    match f.item? place with
    | some .folder => .error .isFolder
    | some (.link _) => .error .tooManyLinks
    | _ => .ok (f.put place (.file text.toUTF8.toList))

/-- The folder with an item at a place, and folders on the way to it. -/
def add (place : List String) (item : Item) : Folder :=
  let above := (List.range place.length).map place.take
  (above.foldl (fun g place => if (g.item? place).isSome then g else g.put place .folder) f).put
    place item

end Folder
end Bellows
