import OnDemand.Path
import OnDemand.Table

/-!
# Disks

A disk is a tree of directories and files with modification times, kept as a table from the names on
the way from the root.  There are no links and no permissions.  This module says where a path leads,
or why it leads nowhere.
-/

namespace OnDemand

/-- What a file holds. -/
inductive Content where
  | text (t : Text)
  /-- Bytes that are no text. -/
  | binary (bytes : List UInt8)
  deriving DecidableEq, Repr

namespace Content

/-- The text that the bytes encode, if they encode one. -/
def decode? (bytes : List UInt8) : Option Text :=
  (String.fromUTF8? ⟨bytes.toArray⟩).map String.toList

/-- What a file of these bytes holds. -/
def ofBytes (bytes : List UInt8) : Content :=
  match decode? bytes with
  | some t => .text t
  | none => .binary bytes

/-- The bytes of the content. -/
def bytes : Content → List UInt8
  | .text t => (String.ofList t).toUTF8.data.toList
  | .binary bytes => bytes

/-- The content with a text after it. -/
def append (c : Content) (t : Text) : Content :=
  match c with
  | .text u => .text (u ++ t)
  | .binary bytes => ofBytes (bytes ++ (Content.text t).bytes)

end Content

/-- A directory or a file, and when it was last changed. -/
inductive Node where
  | directory (time : Nat)
  | file (content : Content) (time : Nat)
  deriving DecidableEq, Repr

/-- When the node was last changed. -/
def Node.time : Node → Nat
  | .directory time => time
  | .file _ time => time

/-- The names on the way from the root. -/
abbrev Place := List Text

/-- Directories and files. -/
structure Disk where
  /-- All but the root. -/
  nodes : Table Place Node := []
  /-- When the next change happens. -/
  clock : Nat
  /-- The directory in which relative paths start. -/
  here : Place
  deriving Repr

/-- Why something cannot be done with a path. -/
inductive Fault where
  | notFound
  | alreadyExists
  | notDirectory
  | isDirectory
  | nameTooLong
  /-- The path ends at a directory without naming it. -/
  | busy
  /-- There is a null character in the path. -/
  | nullCharacter
  /-- The file holds no text. -/
  | notText
  deriving DecidableEq, Repr

/-- What is reported of the fault. -/
def Fault.message : Fault → Text
  | .notFound => "No such file or directory (os error 2)".toList
  | .alreadyExists => "File exists (os error 17)".toList
  | .notDirectory => "Not a directory (os error 20)".toList
  | .isDirectory => "Is a directory (os error 21)".toList
  | .nameTooLong => "File name too long (os error 36)".toList
  | .busy => "Device or resource busy (os error 16)".toList
  | .nullCharacter => "file name contained an unexpected NUL byte".toList
  | .notText => "stream did not contain valid UTF-8".toList

namespace Disk

/-- The node at a place other than the root. -/
def node? (d : Disk) (place : Place) : Option Node := Table.get? place d.nodes

/-- Whether there is a directory at the place. -/
def isDirectoryAt (d : Disk) (place : Place) : Bool :=
  place.isEmpty ||
    match d.node? place with
    | some (.directory _) => true
    | _ => false

/-- The disk with its clock moved past all the times on it. -/
def afterAll (d : Disk) : Disk :=
  { d with clock := d.nodes.foldl (fun t (_, node) => max t (node.time + 1)) d.clock }

/-! ## Following paths -/

/-- The most bytes that a name has. -/
def longestName : Nat := 255

/-- The most bytes that a path has. -/
def longestPath : Nat := 4095

/-- Where a path leads. -/
inductive Target where
  /-- To something that is there. -/
  | present (place : Place)
  /-- To a name that is free in a directory; `slashed` when slashes follow it. -/
  | absent (directory : Place) (name : Text) (slashed : Bool)
  deriving DecidableEq, Repr

/-- Where the pieces lead that follow `place`. -/
def walk (d : Disk) (place : Place) : List Text → Except Fault Target
  | [] => .ok (.present place)
  | piece :: rest =>
    if !d.isDirectoryAt place then .error .notDirectory
    else if Path.isIdle piece then d.walk place rest
    else if piece = "..".toList then d.walk place.dropLast rest
    else if longestName < Text.byteSize piece then .error .nameTooLong
    else if (d.node? (place ++ [piece])).isSome then d.walk (place ++ [piece]) rest
    -- Nothing but slashes may follow a name that is free.
    else if rest.all List.isEmpty then .ok (.absent place piece (!rest.isEmpty))
    else .error .notFound

/-- Where a path leads. -/
def target (d : Disk) (p : Path) : Except Fault Target :=
  if '\x00' ∈ p then .error .nullCharacter
  else if p.isEmpty then .error .notFound
  else if longestPath < Text.byteSize p then .error .nameTooLong
  else d.walk (if Path.isAbsolute p then [] else d.here) (Text.splitAt '/' p)

/-- The node to which a path leads, the root being a directory that never changes. -/
def nodeAt (d : Disk) (p : Path) : Except Fault (Place × Node) :=
  match d.target p with
  | .error fault => .error fault
  | .ok (.absent ..) => .error .notFound
  | .ok (.present place) => .ok (place, (d.node? place).getD (.directory 0))

/-! ## Questions -/

/-- Whether the path leads to a directory. -/
def isDirectory (d : Disk) (p : Path) : Bool :=
  match d.nodeAt p with
  | .ok (_, .directory _) => true
  | _ => false

/-- When what the path leads to was last changed. -/
def time? (d : Disk) (p : Path) : Option Nat :=
  match d.nodeAt p with
  | .ok (_, node) => some node.time
  | .error _ => none

/-- The text of a file. -/
def read (d : Disk) (p : Path) : Except Fault Text :=
  match d.nodeAt p with
  | .error fault => .error fault
  | .ok (_, .directory _) => .error .isDirectory
  | .ok (_, .file (.text t) _) => .ok t
  | .ok (_, .file (.binary _) _) => .error .notText

/-- Whether the path leads to a file that holds just this text. -/
def holds (d : Disk) (p : Path) (t : Text) : Bool :=
  match d.read p with
  | .ok u => u == t
  | .error _ => false

/-- The files at or below the place to which a path leads, each by its path. -/
def filesBelow (d : Disk) (p : Path) : List Path :=
  match d.nodeAt p with
  | .error _ => []
  | .ok (_, .file ..) => [p]
  | .ok (place, .directory _) =>
    d.nodes.filterMap fun (key, node) =>
      match node, Text.dropPrefix? place key with
      | .file .., some names => some (Path.join p (Text.joinWith "/".toList names))
      | _, _ => none

end Disk
end OnDemand
