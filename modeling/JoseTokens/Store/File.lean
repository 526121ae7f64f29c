import JoseTokens.Store.FileTree
import JoseTokens.Store.Options

namespace JoseTokens

structure FileStore where
  tree : FileTree
  base : Path
  deriving DecidableEq, Repr

namespace FileStore

def fileVersion : Nat := 1

def create (tree : FileTree) (base : Path) : Except Error FileStore :=
  match tree.makeDirectories base with
  | .ok tree => .ok ⟨tree, base⟩
  | .error _ => .error .io

def classPath (s : FileStore) (storage : StorageClass) : Path :=
  s.base ++ [storage.text]

def isFileName (name : String) : Bool :=
  !name.isEmpty && name != "." && name != ".." &&
    !name.toList.contains '/' && !name.toList.contains '\\'

def ending : String := ".json"

def keyPath (s : FileStore) (r : Reference) : Except Error Path :=
  if isFileName r.name then .ok (s.classPath r.storage ++ [r.name ++ ending])
  else .error (.invalidArgument (.fileName r.name))

def temporary (path : Path) : Path :=
  path.dropLast ++ [path.getLast?.getD "" ++ ".tmp"]

def pathText (path : Path) : String :=
  String.intercalate "/" path

def record : Json.Record (Nat × List Jwk) where
  name := "KeyFile"
  members := [
    .of "version" true (Json.natural (Nat.pow 2 32) "u32") fun version file => (version, file.2),
    .of "keys" true (Json.list Jwk.read) fun keys file => (file.1, keys)]

def parse (path : Path) (data : Bytes) : Except Error Container :=
  match Json.document (record.read (0, [])) data with
  | .error e => .error (.storage (.unreadable (pathText path) e))
  | .ok (version, keys) =>
      if version ≠ fileVersion then .error (.storage (.fileVersion version (pathText path)))
      else Container.ofKeys keys

def load (s : FileStore) (path : Path) : Except Error (Option Container) :=
  match s.tree.read path with
  | .ok data => (parse path data).map some
  | .error .notFound => .ok none
  | .error .refused => .error .io

def get (s : FileStore) (r : Reference) (o : StoreOptions) : Except Error Container := do
  match ← s.load (← s.keyPath r) with
  | some c => o.apply c
  | none => .error (.keyNotFound r)

def render (c : Container) : Bytes :=
  let file := Json.object [("version", .int fileVersion), ("keys", .array (c.keys.map Jwk.toJson))]
  Bytes.ofText (file.indented)

def steps : List (FileTree → Except FileTree.Fault FileTree) → FileTree → Bool × FileTree
  | [], tree => (true, tree)
  | step :: rest, tree =>
      match step tree with
      | .ok tree => steps rest tree
      | .error _ => (false, tree)

def saveSteps (path : Path) (data : Bytes) : List (FileTree → Except FileTree.Fault FileTree) := [
  fun tree => tree.makeDirectories path.dropLast,
  fun tree => tree.write (temporary path) data,
  fun tree => tree.rename (temporary path) path]

/-- Adds a version. Also a save that fails gives back the store as it left it. -/
def save (s : FileStore) (r : Reference) (key : Jwk) : Except Error Unit × FileStore :=
  let loaded := do
    let path ← s.keyPath r
    return (path, ← s.load path)
  match loaded with
  | .error e => (.error e, s)
  | .ok (path, old) =>
      let c := match old with
        | some c => c.push key
        | none => ⟨key, []⟩
      let (done, tree) := steps (saveSteps path (render c)) s.tree
      (if done then .ok () else .error .io, { s with tree })

def nameOf? (file : String) : Option String :=
  let chars := file.toList
  let size := chars.length - ending.length
  if ending.toList.isSuffixOf chars then some (String.ofList (chars.take size)) else none

def listFiles (s : FileStore) (directory : Path) (o : StoreOptions) :
    List String → Except Error (List (String × Listing))
  | [] => .ok []
  | file :: rest =>
      match nameOf? file with
      | none => s.listFiles directory o rest
      | some name => do
          match ← s.load (directory ++ [file]) with
          | none => s.listFiles directory o rest
          | some c => return (name, o.listing c) :: (← s.listFiles directory o rest)

def list (s : FileStore) (storage : StorageClass) (o : StoreOptions) :
    Except Error (List (String × Listing)) :=
  match s.tree.entries (s.classPath storage) with
  | .ok files => (s.listFiles (s.classPath storage) o files).map Listing.sorted
  | .error .notFound => .ok []
  | .error .refused => .error .io

end FileStore

end JoseTokens
