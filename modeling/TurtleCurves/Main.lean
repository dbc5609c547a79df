import TurtleCurves.Command.Program

/-!
This module contains the command line. It fetches the files and the variables that a run may look at,
lets the run go over them, and carries out what the run left behind. Drawings are written out; a picture
is known by its size and its texts only, so none can be encoded.
-/

namespace TurtleCurves
namespace Command

def directoryCode : UInt32 := 21

def contentsOf (bytes : ByteArray) : Contents :=
  match String.fromUTF8? bytes with
  | some s => .text s
  | none => .bytes bytes.toList

def fetchNode (name : FileName) : IO (Option Store.Node) := do
  try
    return some (.file (contentsOf (← IO.FS.readBinFile name.shown)))
  catch
    | .inappropriateType _ code _ => return if code = directoryCode then some .directory else none
    | _ => return none

def namesOf (invocation : Invocation) : List FileName :=
  let config := invocation.config.toList.map .ofText
  let outputs :=
    match invocation.request with
    | some (.render _ output _ _) =>
      let name := FileName.ofText output
      [name, name.withSuffix Picture.companionSuffix]
    | _ => []
  (config ++ outputs).flatMap fun name => name.ancestors ++ [name]

def fetchStore (names : List FileName) : IO Store :=
  names.foldlM (fun store name => do
    match ← fetchNode name with
    | some node => return store.put name node
    | none => return store) {}

def fetchEnvironment : IO Settings.Environment := do
  let names := Settings.Field.all.map (Settings.Environment.variableName Settings.Environment.lead)
  names.filterMapM fun name => return (← IO.getEnv name).map (name, ·)

def writeNode (name : FileName) : Store.Node → IO Unit
  | .directory => IO.FS.createDirAll name.shown
  | .file (.text s) => IO.FS.writeFile name.shown s
  | .file (.bytes b) => IO.FS.writeBinFile name.shown ⟨b.toArray⟩
  | .file (.png ..) | .file (.jpeg _) =>
    throw (IO.userError (name.shown ++ " is a picture, and pictures cannot be encoded"))

def writeChanges (before after : Store) : IO Unit :=
  after.nodes.forM fun (name, node) => do
    if before.find? name ≠ some node then writeNode name node

def plainWording : Fault → String
  | .badEncoding => "the file is not text in UTF-8"
  | .isDirectory => "there is a directory where a file is expected"
  | .fileInTheWay | .notDirectory => "there is a file where a directory is expected"
  | .divisionByZero => "division by zero"
  | .overflow => "a number is too large"
  | _ => "a value does not suit what is done with it"

def carryOut (arguments : List String) : IO UInt32 := do
  let surroundings : Surroundings :=
    ⟨Catalogue.builtIn, ← fetchEnvironment, ⟨"", 0⟩⟩
  let before ← fetchStore (((Invocation.ofArguments arguments).map namesOf).getD [])
  let started ← IO.monoMsNow
  let (report, after) ← IO.lazyPure fun _ => (surroundings.run arguments).run before
  let seconds := Float.ofNat ((← IO.monoMsNow) - started) / 1000
  writeChanges before after
  for line in report.lines do
    IO.println (line.shown seconds)
  match report.ending with
  | .done => return 0
  | .failed fault =>
    IO.eprintln ("Error: " ++ fault.message?.getD (plainWording fault))
    return 1
  | .misused =>
    IO.eprintln "Error: this is not how the program is used"
    return 2

end Command
end TurtleCurves

def main (arguments : List String) : IO UInt32 := do
  try
    TurtleCurves.Command.carryOut arguments
  catch e =>
    IO.eprintln ("Error: " ++ toString e)
    return 1
