import LiveTemplates.Watch.File

/-!
# Registries

A registry maps the names of templates to watched caches, one for each file that was asked for
below its base directory. A cache whose file cannot be read is forgotten unless it has compiled
before, so that names without a file leave nothing behind.
-/

namespace LiveTemplates

/-- A cache in a registry. Its number tells it from all others made there. -/
structure CacheEntry (A : Type) where
  number : Nat
  file : TrackedFile
  cache : Cache A Int := {}

/-- What a registry reports. -/
inductive Record where
  | watching (path : Path) (strategy : Strategy)
  | loadFailed (name message : Text)
  | compilerCalled

def Record.message : Record → Text
  | .watching path strategy =>
    Text.ofString "Watching template " ++ path.text ++ Text.ofString " (" ++ strategy.name ++
      Text.ofString " marker)"
  | .loadFailed name message =>
    Text.ofString "Failed to load template " ++ name.quoted ++ Text.ofString ": " ++ message
  | .compilerCalled => []

structure Registry (A : Type) where
  base : Path
  strategy : Strategy
  entries : Keyed Path (CacheEntry A) := []
  created : Nat := 0
  compiled : Nat := 0
  records : List Record := []

inductive RegistryFailure (F : Type) where
  | notFound (e : NoSuchTemplate)
  | load (e : LoadFailure Int F)
  /-- The file system does not tell whether there is a file. -/
  | lookup (e : SystemError) (path : Path)

def suffix : Text := Text.ofString ".json"

/-- Whether a name can denote a template directly below a base directory. -/
def isTemplateName (name : Text) : Bool :=
  name ≠ [] && name ≠ Path.here && name ≠ Path.parent &&
    !name.any fun p => p = .char '/' || p = .char '\\' || p = .char '\x00'

/-- The name of the template in a file of this name, where a file whose name is the bare suffix
is taken by its whole name. -/
def templateName (fileName : Text) : Text :=
  if fileName = suffix then fileName else fileName.take (fileName.length - suffix.length)

/-- Puts a text into a list that is in order, behind its equals. -/
def insertInOrder (t : Text) : List Text → List Text
  | [] => [t]
  | u :: rest => if t.precedes u then t :: u :: rest else u :: insertInOrder t rest

def inOrder (ts : List Text) : List Text := ts.foldl (fun sorted t => insertInOrder t sorted) []

namespace Registry

variable {A F : Type}

def size (r : Registry A) : Nat := r.entries.length

def note (r : Registry A) (record : Record) : Registry A :=
  { r with records := r.records ++ [record] }

def pathOf (r : Registry A) (name : Text) : Except NoSuchTemplate Path :=
  if isTemplateName name then .ok (r.base.child (name ++ suffix)) else .error ⟨name⟩

/-- The cache at a path, made on first use. -/
def cacheAt (r : Registry A) (path : Path) : CacheEntry A × Registry A :=
  match r.entries.find? path with
  | some entry => (entry, r)
  | none =>
    let entry : CacheEntry A := { number := r.created, file := .watching path r.strategy }
    (entry, { r with
      entries := r.entries.put path entry
      created := r.created + 1
      records := r.records ++ [.watching path r.strategy] })

/-- The cache of a name, made on first use. -/
def cacheOf (r : Registry A) (name : Text) :
    Except (RegistryFailure F) (CacheEntry A) × Registry A :=
  match r.pathOf name with
  | .error e => (.error (.notFound e), r)
  | .ok path =>
    let (entry, r) := r.cacheAt path
    (.ok entry, r)

/-- The cache of a name if it is watched already or its file exists. -/
def find (files : FileSystem) (r : Registry A) (name : Text) :
    Except (RegistryFailure F) (Option (CacheEntry A)) × Registry A :=
  match r.pathOf name with
  | .error e => (.error (.notFound e), r)
  | .ok path =>
    match r.entries.find? path with
    | some entry => (.ok (some entry), r)
    | none =>
      match files.isFile path with
      | .error e => (.error (.lookup e path), r)
      | .ok false => (.ok none, r)
      | .ok true =>
        let (entry, r) := r.cacheAt path
        (.ok (some entry), r)

def onCache {α : Type} (files : FileSystem) (r : Registry A) (path : Path) (entry : CacheEntry A)
    (step : Watch WatchedFile A Int F → Except (LoadFailure Int F) α × Watch WatchedFile A Int F) :
    Except (LoadFailure Int F) α × Registry A :=
  let (outcome, w) := step
    { resource := ⟨entry.file, files⟩, cache := entry.cache, compiled := r.compiled }
  let compilerCalls := w.events.filterMap fun
    | .compilerCalled => some Record.compilerCalled
    | _ => none
  (outcome, { r with
    entries := r.entries.put path { entry with file := w.resource.file, cache := w.cache }
    compiled := w.compiled
    records := r.records ++ compilerCalls })

/-- Drops the cache at a path if it has never compiled. -/
def forget (r : Registry A) (path : Path) : Registry A :=
  match r.entries.find? path with
  | some entry =>
    if entry.cache.held.isNone then { r with entries := r.entries.drop path } else r
  | none => r

/-- The artifact of the cache at a path. The two failures that a template can cause are reported
under its name. -/
def loadAt (compile : Compiler A F) (files : FileSystem) (r : Registry A) (name : Text)
    (path : Path) : Except (LoadFailure Int F) (Artifact A) × Registry A :=
  let (entry, r) := r.cacheAt path
  let access := WatchedFile.source.access
  match r.onCache files path entry (serve access (compile.reading access.read)) with
  | (.error (.unavailable e), r) =>
    (.error (.unavailable e), r.note (.loadFailed name e.message))
  | (.error (.invalid e), r) => (.error (.invalid e), r.note (.loadFailed name e.message))
  | (outcome, r) => (outcome, r)

/-- The template of a name, compiled from its present contents. -/
def load (compile : Compiler A F) (files : FileSystem) (r : Registry A) (name : Text) :
    Except (RegistryFailure F) (Artifact A) × Registry A :=
  match r.pathOf name with
  | .error e => (.error (.notFound e), r)
  | .ok path =>
    match r.loadAt compile files name path with
    | (.ok artifact, r) => (.ok artifact, r)
    | (.error (.unavailable e), r) => (.error (.load (.unavailable e)), r.forget path)
    | (.error e, r) => (.error (.load e), r)

/-- Whether the next load of a name would compile, if there is a cache for it. -/
def staleness (files : FileSystem) (r : Registry A) (name : Text) :
    Except (RegistryFailure F) (Option Bool) × Registry A :=
  match r.find files name with
  | (.error e, r) => (.error e, r)
  | (.ok none, r) => (.ok none, r)
  | (.ok (some entry), r) =>
    match r.onCache files entry.file.path entry (isOutdated WatchedFile.source.access) with
    | (.error e, r) => (.error (.load e), r)
    | (.ok stale, r) => (.ok (some stale), r)

/-- Those of the listed texts under which there are files in the base directory. -/
def filesAmong (files : FileSystem) (r : Registry A) :
    List Text → Except (RegistryFailure F) (List Text)
  | [] => .ok []
  | listed :: rest =>
    match files.isFile (r.base.child listed) with
    | .error e => .error (.lookup e (r.base.child listed))
    | .ok true => (filesAmong files r rest).map (listed :: ·)
    | .ok false => filesAmong files r rest

/-- The names of the template files in the base directory, in order. -/
def names (files : FileSystem) (r : Registry A) : Except (RegistryFailure F) (List Text) :=
  match files.isDirectory r.base with
  | .error e => .error (.lookup e r.base)
  | .ok false => .ok []
  | .ok true =>
    (r.filesAmong files ((files.listing r.base).filter fun t => suffix.isSuffixOf t)).map
      fun found => inOrder (found.map templateName)

end Registry

end LiveTemplates
