import LiveTemplates.Files.Refusal
import LiveTemplates.Keyed

/-!
# File systems

A file system holds files and directories by their names, in octets, from the root on. A relative
path leads on from the working directory. A file is an identifier under which its contents are
stored, so a stream that was opened goes on reading the same file when its name is given to another
one. Operations of resources may be made to fail at single paths, and a barrier at a path keeps
everybody from looking it up, as a directory does that must not be searched. Who may list or read
what is no part of a file system otherwise, nor are links.
-/

namespace LiveTemplates

inductive DirectoryEntry where
  | file (id : Nat)
  | directory (modified : Int)
deriving DecidableEq

structure Stored where
  contents : Bytes
  modified : Int
deriving DecidableEq

/-- The operations that resources use, and that may be made to fail. -/
inductive Operation where
  | stat
  | read
  | openStream
deriving DecidableEq

structure FileSystem where
  entries : Keyed (List Bytes) DirectoryEntry := []
  stored : Keyed Nat Stored := []
  nextId : Nat := 0
  faults : Keyed (Text × Operation) Refusal := []
  barriers : Keyed Text Barrier := []
  workingDirectory : List Bytes := []

namespace FileSystem

section Lookup

variable (fs : FileSystem)

def entryAt : List Bytes → Option DirectoryEntry
  | [] => some (.directory 0)
  | names => fs.entries.find? names

/-- The names of what a name in a directory denotes, whether or not there is anything. The root is
its own parent. -/
def enter (names : List Bytes) (name : Text) : Except SystemError (List Bytes) :=
  match fs.entryAt names with
  | some (.directory _) =>
    if name = Path.parent then .ok names.dropLast
    else
      match name.octets with
      | .error _ => .error .notFound
      | .ok octets =>
        if nameLimit < octets.length then .error .nameTooLong else .ok (names ++ [octets])
  | some (.file _) => .error .notDirectory
  | none => .error .notFound

/-- Follows texts from a directory. The last one may denote nothing. -/
def follow (names : List Bytes) : List Text → Except SystemError (List Bytes)
  | [] => .ok names
  | name :: rest =>
    match fs.enter names name with
    | .error e => .error e
    | .ok names' => follow names' rest

/-- The names that a path leads to. -/
def place (path : Path) : Except SystemError (List Bytes) :=
  fs.follow (if path.isAbsolute then [] else fs.workingDirectory) path.names

/-- The refusal of a path that cannot be handed over, or that a barrier stands at. -/
def reach (path : Path) : Except Refusal Unit :=
  match path.check with
  | .error refusal => .error refusal
  | .ok () =>
    match fs.barriers.find? path.text with
    | some barrier => .error (.system barrier.error)
    | none => .ok ()

def lookup (path : Path) : Except Refusal DirectoryEntry :=
  match fs.reach path with
  | .error refusal => .error refusal
  | .ok () =>
    match fs.place path with
    | .error e => .error (.system e)
    | .ok names =>
      match fs.entryAt names with
      | none => .error (.system .notFound)
      | some entry => .ok entry

/-- The refusal of an operation at a path that was made to fail, before the path is looked up. -/
def allowed (path : Path) (operation : Operation) : Except Refusal Unit :=
  match fs.faults.find? (path.text, operation) with
  | some refusal => .error refusal
  | none => .ok ()

def storedAt (id : Nat) : Stored := (fs.stored.find? id).getD ⟨[], 0⟩

def modified (path : Path) : Except Refusal Int :=
  match fs.allowed path .stat with
  | .error refusal => .error refusal
  | .ok () =>
    match fs.lookup path with
    | .error refusal => .error refusal
    | .ok (.directory modified) => .ok modified
    | .ok (.file id) => .ok (fs.storedAt id).modified

def openedFile (path : Path) (operation : Operation) : Except Refusal Nat :=
  match fs.allowed path operation with
  | .error refusal => .error refusal
  | .ok () =>
    match fs.lookup path with
    | .error refusal => .error refusal
    | .ok (.directory _) => .error (.system .isDirectory)
    | .ok (.file id) => .ok id

def contents (path : Path) : Except Refusal Bytes :=
  match fs.openedFile path .read with
  | .error refusal => .error refusal
  | .ok id => .ok (fs.storedAt id).contents

def openStream (path : Path) : Except Refusal Nat := fs.openedFile path .openStream

/-- What is at a path, where a path that cannot be a file's is as good as an empty one. Fails on
errors that leave open whether there is anything. -/
def find? (path : Path) : Except SystemError (Option DirectoryEntry) :=
  match fs.lookup path with
  | .ok entry => .ok (some entry)
  | .error (.system e) => if e.meansAbsent then .ok none else .error e
  | .error _ => .ok none

def isFile (path : Path) : Except SystemError Bool :=
  match fs.find? path with
  | .error e => .error e
  | .ok (some (.file _)) => .ok true
  | .ok _ => .ok false

def isDirectory (path : Path) : Except SystemError Bool :=
  match fs.find? path with
  | .error e => .error e
  | .ok (some (.directory _)) => .ok true
  | .ok _ => .ok false

/-- The texts under which a directory lists what is directly in it. -/
def listing (path : Path) : List Text :=
  match fs.place path with
  | .ok names =>
    fs.entries.keys.filterMap fun key =>
      match key.getLast? with
      | some octets => if key.dropLast = names then some (Text.ofOctets octets) else none
      | none => none
  | .error _ => []

end Lookup

section Changes

variable (fs : FileSystem)

/-- The names at which something can be put. -/
def target (path : Path) : Except SystemError (List Bytes) :=
  match path.check with
  | .error (.system e) => .error e
  | .error _ => .error .notFound
  | .ok () => fs.place path

/-- Writes a file: in place if it exists, else as a new one. -/
def write (path : Path) (contents : Bytes) (modified : Int) : Except SystemError FileSystem :=
  match fs.target path with
  | .error e => .error e
  | .ok names =>
    match fs.entryAt names with
    | some (.directory _) => .error .isDirectory
    | some (.file id) => .ok { fs with stored := fs.stored.put id ⟨contents, modified⟩ }
    | none => .ok { fs with
        entries := fs.entries.put names (.file fs.nextId)
        stored := fs.stored.put fs.nextId ⟨contents, modified⟩
        nextId := fs.nextId + 1 }

def touch (path : Path) (modified : Int) : Except SystemError FileSystem :=
  match fs.target path with
  | .error e => .error e
  | .ok names =>
    match fs.entryAt names with
    | none => .error .notFound
    | some (.directory _) => .ok { fs with entries := fs.entries.put names (.directory modified) }
    | some (.file id) =>
      .ok { fs with stored := fs.stored.put id ⟨(fs.storedAt id).contents, modified⟩ }

def makeDirectory (path : Path) (modified : Int) : Except SystemError FileSystem :=
  match fs.target path with
  | .error e => .error e
  | .ok names =>
    match fs.entryAt names with
    | some (.file _) => .error .notDirectory
    | _ => .ok { fs with entries := fs.entries.put names (.directory modified) }

def isEmptyAt (names : List Bytes) : Bool :=
  fs.entries.all fun (key, _) => !(names.isPrefixOf key && key.length > names.length)

def remove (path : Path) : Except SystemError FileSystem :=
  match fs.target path with
  | .error e => .error e
  | .ok names =>
    match fs.entryAt names with
    | none => .error .notFound
    | some (.file _) => .ok { fs with entries := fs.entries.drop names }
    | some (.directory _) =>
      if fs.isEmptyAt names then .ok { fs with entries := fs.entries.drop names }
      else .error .notEmpty

/-- Gives what is at one path, with everything below it, the name of another. -/
def rename (source destination : Path) : Except SystemError FileSystem :=
  match fs.target source, fs.target destination with
  | .error e, _ => .error e
  | _, .error e => .error e
  | .ok old, .ok new =>
    if (fs.entryAt old).isNone then .error .notFound
    else if old = new then .ok fs
    else
      let kept := fs.entries.filter fun (key, _) => !new.isPrefixOf key
      .ok { fs with
        entries := kept.map fun (key, entry) =>
          if old.isPrefixOf key then (new ++ key.drop old.length, entry) else (key, entry) }

/-- Makes an operation at exactly this path fail, or lets it work again. -/
def setFault (path : Text) (operation : Operation) (fault : Option Refusal) : FileSystem :=
  match fault with
  | none => { fs with faults := fs.faults.drop (path, operation) }
  | some refusal => { fs with faults := fs.faults.put (path, operation) refusal }

/-- Puts a barrier at exactly this path, or takes it away. -/
def setBarrier (path : Text) : Option Barrier → FileSystem
  | none => { fs with barriers := fs.barriers.drop path }
  | some barrier => { fs with barriers := fs.barriers.put path barrier }

end Changes

inductive Edit where
  | write (path : Path) (contents : Bytes) (modified : Int)
  | touch (path : Path) (modified : Int)
  | makeDirectory (path : Path) (modified : Int)
  | remove (path : Path)
  | rename (source destination : Path)
  | fault (path : Text) (operation : Operation) (fault : Option Refusal)
  | bar (path : Text) (barrier : Option Barrier)

/-- The file system after an edit, or as it was if the edit is refused. -/
def edit (e : Edit) (fs : FileSystem) : FileSystem :=
  let result :=
    match e with
    | .write path contents modified => fs.write path contents modified
    | .touch path modified => fs.touch path modified
    | .makeDirectory path modified => fs.makeDirectory path modified
    | .remove path => fs.remove path
    | .rename source destination => fs.rename source destination
    | .fault path operation fault => .ok (fs.setFault path operation fault)
    | .bar path barrier => .ok (fs.setBarrier path barrier)
  match result with
  | .ok fs' => fs'
  | .error _ => fs

end FileSystem

end LiveTemplates
