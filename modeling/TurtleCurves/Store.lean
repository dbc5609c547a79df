import TurtleCurves.Entries
import TurtleCurves.Fault
import TurtleCurves.Store.FileName

/-!
This module contains the store of files that a program reads and writes. A store is a value: what the
files hold and which directories there are. An action on it may fail, and what it had written until
then stays written.
-/

namespace TurtleCurves

inductive PixelMode
  | gray
  | color
  | colorAlpha
deriving Repr, DecidableEq, Inhabited

namespace PixelMode

def name : PixelMode → String
  | gray => "L"
  | color => "RGB"
  | colorAlpha => "RGBA"

end PixelMode

/-- What is known of a picture without looking at its pixels. -/
structure Picture where
  mode : PixelMode
  width : Nat
  height : Nat
deriving Repr, DecidableEq, Inhabited

inductive Contents
  | text (s : String)
  | bytes (b : List UInt8)
  | png (picture : Picture) (notes : List (String × String))
  | jpeg (picture : Picture)
deriving Repr, DecidableEq, Inhabited

inductive Store.Node
  | directory
  | file (contents : Contents)
deriving Repr, DecidableEq, Inhabited

/-- Files and directories under their names. The place where one is needs no entry. -/
structure Store where
  nodes : Entries FileName Store.Node := []
deriving Repr, Inhabited

abbrev Task := ExceptT Fault (StateM Store)

namespace Task

def ofResult {α : Type} : Result α → Task α
  | .ok a => pure a
  | .error fault => throw fault

def perform {α : Type} (task : Task α) (store : Store) : Result α × Store :=
  task.run.run store

end Task

namespace Store

def find? (store : Store) (name : FileName) : Option Node :=
  if name.steps = [] then some .directory else store.nodes.get? name

def put (store : Store) (name : FileName) (node : Node) : Store :=
  ⟨store.nodes.put name node⟩

def files (store : Store) : List (FileName × Contents) :=
  store.nodes.filterMap fun (name, node) =>
    match node with
    | .file contents => some (name, contents)
    | .directory => none

def obstacle? (store : Store) (directories : List FileName) : Option FileName :=
  directories.find? fun name =>
    match store.find? name with
    | some (.file _) => true
    | _ => false

def withDirectories (store : Store) (directories : List FileName) : Store :=
  directories.foldl (fun store name => if (store.find? name).isSome then store else store.put name .directory)
    store

def makeParents (name : FileName) : Task Unit := do
  let store ← get
  match store.obstacle? name.ancestors with
  | some obstacle => throw (if obstacle = name.parent then .fileInTheWay else .notDirectory)
  | none => set (store.withDirectories name.ancestors)

def write (name : FileName) (contents : Contents) : Task Unit := do
  match (← get).find? name with
  | some .directory => throw .isDirectory
  | _ => modify fun store => store.put name (.file contents)

def contents (store : Store) (name : FileName) : Result Contents :=
  match store.find? name with
  | some (.file contents) => .ok contents
  | some .directory => .error .isDirectory
  | none => .error (if (store.obstacle? name.ancestors).isSome then .notDirectory else .noFile)

def readText (store : Store) (name : FileName) : Result String := do
  match ← store.contents name with
  | .text s => return s
  | .bytes b =>
    match String.fromUTF8? ⟨b.toArray⟩ with
    | some s => return s
    | none => .error .badEncoding
  | .png .. | .jpeg _ => .error .badEncoding

theorem find?_put_self (store : Store) {name : FileName} (node : Node) (h : name.steps ≠ []) :
    (store.put name node).find? name = some node := by
  simp [find?, put, h, Entries.get?_put_self]

theorem find?_put_of_ne (store : Store) {name other : FileName} (node : Node) (h : other ≠ name) :
    (store.put name node).find? other = store.find? other := by
  by_cases hn : other.steps = []
  . simp [find?, hn]
  . simp [find?, put, hn, Entries.get?_put_of_ne _ node h]

end Store
end TurtleCurves
