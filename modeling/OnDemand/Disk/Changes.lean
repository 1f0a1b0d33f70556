import OnDemand.Disk.Basic

/-!
# Changes to disks

Each change takes the next time of the clock, so that a file changed later has a later time.  What
is created, moved or removed changes its directory too.  There is always room: a change is made in
full, or it fails and nothing is changed.
-/

namespace OnDemand.Disk

/-- What a change comes to: the disk afterwards, and a fault if it could not be made. -/
abbrev Change := Disk × Except Fault Unit

/-! ## Single nodes -/

/-- The disk with a node at a place. -/
def put (d : Disk) (place : Place) (node : Node) : Disk :=
  { d with nodes := Table.insert place node d.nodes }

/-- The disk with the time of a directory set. -/
def touch (d : Disk) (directory : Place) (time : Nat) : Disk :=
  match d.node? directory with
  | some (.directory _) => d.put directory (.directory time)
  | _ => d

/-- The disk with the clock moved on. -/
def tick (d : Disk) : Disk := { d with clock := d.clock + 1 }

/-- The disk with a new node in a directory. -/
def create (d : Disk) (directory : Place) (name : Text) (node : Node) : Disk :=
  ((d.put (directory ++ [name]) node).touch directory d.clock).tick

/-- The disk without the node at a place. -/
def drop (d : Disk) (place : Place) : Disk :=
  ({ d with nodes := Table.erase place d.nodes }.touch place.dropLast d.clock).tick

/-! ## Files -/

/-- Writes a file, whatever it held before; `revise` says what it holds then. -/
def revise (d : Disk) (p : Path) (revise : Option Content → Content) : Change :=
  match d.target p with
  | .error fault => (d, .error fault)
  | .ok (.absent _ _ true) => (d, .error .isDirectory)
  | .ok (.absent directory name false) =>
    (d.create directory name (.file (revise none) d.clock), .ok ())
  | .ok (.present place) =>
    match d.node? place with
    | some (.file content _) =>
      ((d.put place (.file (revise (some content)) d.clock)).tick, .ok ())
    | _ => (d, .error .isDirectory)

/-- Writes a file. -/
def write (d : Disk) (p : Path) (content : Content) : Change := d.revise p fun _ => content

/-- Writes a text at the end of a file, which is created if need be. -/
def append (d : Disk) (p : Path) (t : Text) : Change :=
  d.revise p fun content => (content.getD (.text [])).append t

/-- Sets the time of a file. -/
def setTime (d : Disk) (p : Path) (time : Nat) : Disk :=
  match d.nodeAt p with
  | .ok (place, .file content _) => d.put place (.file content time)
  | _ => d

/-- Removes a file. -/
def remove (d : Disk) (p : Path) : Change :=
  match d.nodeAt p with
  | .error fault => (d, .error fault)
  | .ok (_, .directory _) => (d, .error .isDirectory)
  | .ok (place, .file ..) => (d.drop place, .ok ())

/-- Whether the path ends with a name, slashes after it aside. -/
def endsNamed (p : Path) : Bool :=
  match ((Text.splitAt '/' p).filter fun piece => !piece.isEmpty).getLast? with
  | some piece => piece != ".".toList && piece != "..".toList
  | none => false

/-- Why no file can be moved to where the path `q` leads, if none can. -/
def obstacle? (d : Disk) (q : Path) : Target → Option Fault
  | .absent _ _ slashed => if slashed then some .notDirectory else none
  | .present place =>
    if !endsNamed q then some .busy
    else if q.getLast? = some '/' then some .notDirectory
    else if d.isDirectoryAt place then some .isDirectory
    else none

/-- The disk with the file at a place moved to where another path leads. -/
def move (d : Disk) (place : Place) (content : Content) (time : Nat) : Target → Disk
  | .absent directory name _ => (d.drop place).create directory name (.file content time)
  | .present other =>
    if place = other then d
    else ((d.drop place).put other (.file content time)).touch other.dropLast d.clock

/-- Moves a file over what is at the other path, which must not be a directory. -/
def rename (d : Disk) (p q : Path) : Change :=
  match d.nodeAt p, d.target q with
  | .error fault, _ => (d, .error fault)
  | _, .error fault => (d, .error fault)
  | .ok (_, .directory _), _ => (d, .error .isDirectory)
  | .ok (place, .file content time), .ok target =>
    match d.obstacle? q target with
    | some fault => (d, .error fault)
    | none => (d.move place content time target, .ok ())

/-- Copies a file. -/
def copy (d : Disk) (p q : Path) : Change :=
  match d.nodeAt p with
  | .error fault => (d, .error fault)
  | .ok (_, .directory _) => (d, .error .isDirectory)
  | .ok (_, .file content _) => d.write q content

/-! ## Directories -/

/-- Creates a directory. -/
def makeDirectory (d : Disk) (p : Path) : Change :=
  match d.target p with
  | .error fault => (d, .error fault)
  | .ok (.present _) => (d, .error .alreadyExists)
  | .ok (.absent directory name _) => (d.create directory name (.directory d.clock), .ok ())

/-- Creates a directory, unless there is one. -/
def ensureDirectory (d : Disk) (p : Path) : Change :=
  match d.makeDirectory p with
  | (d, .ok ()) => (d, .ok ())
  | (d, .error fault) => (d, if d.isDirectory p then .ok () else .error fault)

/-- The path and the directories it passes through, the path first. -/
def ancestors (p : Path) : List Path :=
  if p.isEmpty then []
  else
    match Path.parent? p with
    | some q => if _h : q.length < p.length then p :: ancestors q else [p]
    | none => [p]
termination_by p.length

/-- Creates the directories, innermost first, up to the first that need not be created. -/
def makeUpwards (d : Disk) : List Path → Change
  | [] => (d, .ok ())
  | p :: outer =>
    match d.makeDirectory p with
    | (d, .ok ()) => (d, .ok ())
    -- Something further out is missing and has to be created first.
    | (d, .error .notFound) =>
      match d.makeUpwards outer with
      | (d, .error fault) => (d, .error fault)
      | (d, .ok ()) => d.ensureDirectory p
    | (d, .error fault) => (d, if d.isDirectory p then .ok () else .error fault)

/-- Creates a directory and all that lead to it. -/
def makeDirectories (d : Disk) (p : Path) : Change := d.makeUpwards (ancestors p)

/-- The disk with a file written; directories are created as needed. -/
def install (d : Disk) (p : Path) (content : Content) : Disk :=
  let d := match Path.parent? p with
    | some dir => (d.makeDirectories dir).1
    | none => d
  (d.write p content).1

end OnDemand.Disk
