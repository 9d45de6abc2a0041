import LiveTemplates.Json.Writer
import LiveTemplates.Service.Settings

/-!
# The service as it is installed

The working directory of a service, in some file system, holds its settings. A service that was
given none has those it comes with, and one template of measuring stations.
-/

namespace LiveTemplates

namespace Service

def installedAt : Int := 1000000000000000000

def addDirectory (path : String) (fs : FileSystem) : FileSystem :=
  fs.edit (.makeDirectory (Path.parse (Text.ofString path)) 0)

def addFile (path : String) (contents : List Char) (fs : FileSystem) : FileSystem :=
  fs.edit (.write (Path.parse (Text.ofString path)) (Utf8.encode contents) installedAt)

def lines (ls : List String) : List Char := ls.flatMap fun l => l.toList ++ ['\n']

def withSettings (contents : List Char) (fs : FileSystem) : FileSystem :=
  addFile "config/settings.yaml" contents (addDirectory "config" fs)

/-- The files of a service that was given settings. -/
def filesFor (settings : Json) (fs : FileSystem) : FileSystem :=
  withSettings ((settings.written.chars?).getD []) fs

def installedSettings : Settings := ⟨Path.parse (Text.ofString "templates"), .modified⟩

/-- The sections that the service itself reads. -/
def settingsLines : List String := [
  "templates:",
  "  # relative paths are resolved against the project root",
  "  base_path: \"templates\"",
  "  # mtime: file modification time, digest: sha1 of the contents",
  "  marker: \"mtime\"",
  "",
  "runtime:",
  "  thread_pool_workers: 2"
]

def stationLines : List String := [
  "\x7b",
  "  // JSON-LD context is copied verbatim into the output",
  "  \"@context\": \x7b",
  "    \"gsp\": \"http://www.opengis.net/ont/geosparql#\",",
  "    \"schema\": \"https://schema.org/\",",
  "    \"name\": \"schema:name\"",
  "  \x7d,",
  "  \"type\": \"FeatureCollection\",",
  "  \"features\": [",
  "    \x7b",
  "      \"$source\": \"st:Station\",",
  "      \"@id\": \"$\x7b@id\x7d\",",
  "      \"name\": \"$\x7bst:name\x7d\",",
  "      /* only active stations expose a measurement link */",
  "      \"measurement\": \"$$\x7bst:active = true\x7d\",",
  "      \"geometry\": \x7b",
  "        \"@type\": \"gsp:wktLiteral\",",
  "        \"wkt\": \"$\x7bst:location\x7d\"",
  "      \x7d",
  "    \x7d",
  "  ]",
  "\x7d"
]

/-- The files of a service that was given no settings. -/
def installedFiles (fs : FileSystem) : FileSystem :=
  addFile "templates/station.json" (lines stationLines)
    (addDirectory "templates" (withSettings (lines settingsLines) fs))

end Service

end LiveTemplates
