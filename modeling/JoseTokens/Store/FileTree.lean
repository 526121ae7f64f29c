import JoseTokens.Bytes

namespace JoseTokens

abbrev Path := List String

def Path.ofText (text : String) : Path :=
  (text.toList.splitOn '/').filterMap fun name =>
    if name = [] ∨ name = ['.'] then none else some (String.ofList name)

inductive FileTree.Node where
  | file (data : Bytes)
  | directory
  deriving DecidableEq, Repr

structure FileTree where
  nodes : List (Path × FileTree.Node) := []
  deriving DecidableEq, Repr

namespace FileTree

inductive Fault where
  | notFound
  | refused
  deriving DecidableEq, Repr

def maxNameSize : Nat := 255

def find? (t : FileTree) (path : Path) : Option Node :=
  if path.isEmpty then some .directory else (t.nodes.find? fun (p, _) => p == path).map (·.2)

def maxPathSize : Nat := 4095

def isSpeakable (path : Path) : Bool :=
  decide ((String.join (path.map ("/" ++ ·))).utf8ByteSize ≤ maxPathSize) &&
    path.all fun name => !name.toList.contains '\x00'

/-- The node at a path, looked for from the root on. Before a name is looked for, what comes
before it has to be a directory, and the name may not be too long. -/
def locateFrom (t : FileTree) : Path → Path → Except Fault Node
  | done, [] =>
      match t.find? done with
      | some node => .ok node
      | none => .error .notFound
  | done, name :: rest =>
      match t.find? done with
      | none => .error .notFound
      | some (.file _) => .error .refused
      | some .directory =>
          if maxNameSize < name.utf8ByteSize then .error .refused
          else locateFrom t (done ++ [name]) rest

def locate (t : FileTree) (path : Path) : Except Fault Node :=
  if isSpeakable path then t.locateFrom [] path else .error .refused

def read (t : FileTree) (path : Path) : Except Fault Bytes :=
  match t.locate path with
  | .ok (.file data) => .ok data
  | .ok .directory => .error .refused
  | .error fault => .error fault

def entries (t : FileTree) (path : Path) : Except Fault (List String) :=
  match t.locate path with
  | .ok .directory =>
      .ok (t.nodes.filterMap fun (p, _) => if p.dropLast == path then p.getLast? else none)
  | .ok (.file _) => .error .refused
  | .error fault => .error fault

def set (path : Path) (node : Node) : List (Path × Node) → List (Path × Node)
  | [] => [(path, node)]
  | (p, old) :: rest => if p = path then (p, node) :: rest else (p, old) :: set path node rest

def makeDirectoriesFrom (t : FileTree) : Path → Path → Except Fault FileTree
  | _, [] => .ok t
  | done, name :: rest =>
      let path := done ++ [name]
      match t.locate path with
      | .ok .directory => makeDirectoriesFrom t path rest
      | .ok (.file _) => .error .refused
      | .error .refused => .error .refused
      | .error .notFound => makeDirectoriesFrom ⟨t.nodes ++ [(path, .directory)]⟩ path rest

def makeDirectories (t : FileTree) (path : Path) : Except Fault FileTree :=
  t.makeDirectoriesFrom [] path

def write (t : FileTree) (path : Path) (data : Bytes) : Except Fault FileTree :=
  match t.locate path.dropLast, t.locate path with
  | .ok .directory, .ok (.file _) => .ok ⟨set path (.file data) t.nodes⟩
  | .ok .directory, .error .notFound => .ok ⟨set path (.file data) t.nodes⟩
  | .error .notFound, _ => .error .notFound
  | _, _ => .error .refused

def rename (t : FileTree) (source target : Path) : Except Fault FileTree :=
  match t.locate source, t.locate target with
  | .ok (.file data), .ok (.file _) => .ok (moved data)
  | .ok (.file data), .error .notFound => .ok (moved data)
  | .error .notFound, _ => .error .notFound
  | _, _ => .error .refused
where
  moved (data : Bytes) : FileTree :=
    ⟨(set target (.file data) t.nodes).filter fun (p, _) => p != source⟩

end FileTree

end JoseTokens
