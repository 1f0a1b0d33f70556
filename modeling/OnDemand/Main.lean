import OnDemand.CommandLine.Run

/-!
# The program

Reads what a command line needs from the world, runs it, and writes back what it changed.
-/

namespace OnDemand.Program

/-- The value of a variable, if it is set. -/
def settingOf? (name : String) : IO (Option (Text × Text)) := do
  return (← IO.getEnv name).map fun value => (name.toList, value.toList)

/-- The variables that settings and directories can come from. -/
def settingNames : List String :=
  ["HOME", "TMPDIR", "VCSN_HOME", "VCSN_RUSTC", "VCSN_RUSTFLAGS", "VCSN_EDITION", "VCSN_OPT_LEVEL",
    "VCSN_EXTERN", "VCSN_LIBRARY_PATH", "VCSN_PLUGINDIR", "VCSN_VERBOSE", "VCSN_DEBUG", "VCSN_TIME"]

/-- The place to which an absolute path leads. -/
def placeOf (path : String) : Place := Path.steps path.toList

/-- The disk with the directories on the way to a place. -/
def withDirectories (d : Disk) (place : Place) : Disk :=
  ((List.range (place.length + 1)).map place.take).foldl
    (fun d p => if d.isDirectoryAt p then d else d.put p (.directory 0)) d

/-- The disk with a file or a directory of the world and all that is below it. -/
partial def withWorld (d : Disk) (path : String) : IO Disk := do
  let place := placeOf path
  let here := (← IO.currentDir) / path
  if ← here.isDir then
    let mut d := withDirectories d place
    for entry in ← here.readDir do
      d ← withWorld d (path ++ "/" ++ entry.fileName)
    return d
  else if ← here.pathExists then
    let bytes ← IO.FS.readBinFile here
    let changed := (← here.metadata).modified
    let time := changed.sec.toNat * 10 ^ 9 + changed.nsec.toNat
    return (withDirectories d place.dropLast).put place
      (.file (.ofBytes bytes.data.toList) time)
  else return d

/-- Writes back what differs between two disks. -/
def writeBack (before after : Disk) : IO Unit := do
  for (place, node) in after.nodes do
    let path := String.ofList (Text.joinWith "/".toList ([] :: place))
    if before.node? place ≠ some node then
      match node with
      | .directory _ => IO.FS.createDirAll path
      | .file content _ => IO.FS.writeBinFile path ⟨content.bytes.toArray⟩
  for (place, node) in before.nodes do
    if let .file .. := node then
      if (after.node? place).isNone then
        IO.FS.removeFile (String.ofList (Text.joinWith "/".toList ([] :: place)))

/-- The text as an absolute path. -/
def absolute (here : String) (path : Path) : String :=
  String.ofList (Path.join here.toList path)

/-- The programs that can stand in for a compiler. -/
def programs : List Program :=
  [⟨"/bin/true".toList, true, []⟩, ⟨"/bin/false".toList, false, []⟩]

/-- Building with those programs.  The modules they build cannot be opened. -/
def workshop : Workshop Unit where
  toolchain settings :=
    (Compiler.find? programs settings).map fun compiler job s => (s, compiler.run job)
  loader path s := (s, ⟨[], .error (.unopened path "not a library".toList)⟩)

/-- What a command line sees of the world. -/
def look (line : CommandLine) : IO (World Unit) := do
  let found ← settingNames.filterMapM settingOf?
  let environment : Environment := fun name => found.lookup name
  let here := toString (← IO.currentDir)
  let around := Surroundings.ofEnvironment none environment
  let mut disk := withDirectories { clock := 0, here := placeOf here } (placeOf here)
  let file := Settings.fileIn (Settings.homeOf around environment)
  disk ← withWorld disk (absolute here file)
  if let .ok settings := line.settings ⟨around, environment, ⟨disk, 0, 0, ()⟩⟩ then
    disk ← withWorld disk (absolute here (settings.pluginDirectory around))
    if let some log := settings.timingLog then
      disk ← withWorld disk (absolute here log)
  return ⟨around, environment, ⟨disk.afterAll, ← IO.monoNanosNow, 0, ()⟩⟩

/-- Runs a command line and gives its exit code. -/
def execute (arguments : List Text) : IO UInt32 := do
  match CommandLine.ofArguments arguments with
  | .error refusal =>
    IO.print (String.ofList refusal.output)
    return refusal.code.toUInt32
  | .ok line =>
    let world ← look line
    let ending := line.run world workshop
    writeBack world.site.disk ending.site.disk
    IO.print (String.ofList ending.output)
    if let some error := ending.error then
      IO.eprint (String.ofList error.report)
    return ending.code.toUInt32

end OnDemand.Program

/-- Runs the command line. -/
def main (arguments : List String) : IO UInt32 :=
  OnDemand.Program.execute (arguments.map String.toList)
