namespace HotkeyScript

namespace Path

def splitSlashes : List Char → List (List Char)
  | [] => [[]]
  | c :: rest =>
    match c, splitSlashes rest with
    | '/', pieces => [] :: pieces
    | c, first :: pieces => (c :: first) :: pieces
    | c, [] => [[c]]

def pieces (path : String) : List String := (splitSlashes path.toList).map String.ofList

def isAbsolute (path : String) : Bool :=
  match pieces path with
  | first :: _ :: _ => first.isEmpty
  | _ => false

def isIdle (piece : String) : Bool := piece.isEmpty || piece = "."

def withoutIdleEnd : List String → List String
  | [] => []
  | first :: rest => first :: (rest.reverse.dropWhile isIdle).reverse

def parent (path : String) : String :=
  match withoutIdleEnd (withoutIdleEnd (pieces path)).dropLast with
  | [""] => "/"
  | names => "/".intercalate names

def isDash (path : String) : Bool := withoutIdleEnd (pieces path) = ["-"]

end Path

inductive Entry where
  | directory
  | file (content : ByteArray)

structure FileSystem where
  entries : List (List String × Entry) := []
  -- Where a path that is not absolute begins. This directory and those that it lies in are always
  -- there.
  workingDirectory : List String := []
  readOnly : List String → Bool := fun _ => false

namespace FileSystem

def entry? (fs : FileSystem) (place : List String) : Option Entry :=
  if place.isPrefixOf fs.workingDirectory then some .directory else fs.entries.lookup place

def isDirectory (fs : FileSystem) (place : List String) : Bool :=
  match fs.entry? place with
  | some .directory => true
  | _ => false

def put (fs : FileSystem) (place : List String) (entry : Entry) : FileSystem :=
  if (fs.entries.lookup place).isSome then
    { fs with entries := fs.entries.map fun e => if e.1 = place then (place, entry) else e }
  else { fs with entries := fs.entries ++ [(place, entry)] }

def step (place : List String) (piece : String) : List String :=
  if Path.isIdle piece then place
  else if piece = ".." then place.dropLast
  else place ++ [piece]

def start (fs : FileSystem) (path : String) : List String :=
  if Path.isAbsolute path then [] else fs.workingDirectory

-- The place that the pieces of a path lead to. Only the last need not exist: every piece is
-- looked up in a directory, and so is the empty one after a slash at the end.
def locate (fs : FileSystem) (place : List String) : List String → Option (List String)
  | [] => some place
  | piece :: rest => if fs.isDirectory place then fs.locate (step place piece) rest else none

def find? (fs : FileSystem) (path : String) : Option (List String) :=
  fs.locate (fs.start path) (Path.pieces path)

def read? (fs : FileSystem) (path : String) : Option ByteArray :=
  match (fs.find? path).bind fs.entry? with
  | some (.file content) => some content
  | _ => none

def write? (fs : FileSystem) (path : String) (content : ByteArray) : Option FileSystem :=
  (fs.find? path).bind fun place =>
    if fs.isDirectory place || fs.readOnly place then none
    else some (fs.put place (.file content))

-- Creates the directories that the pieces of a path pass through and that do not exist yet, up
-- to a file in the way or a place where the system refuses.
def createAlong (fs : FileSystem) (place : List String) : List String → FileSystem × Bool
  | [] => (fs, true)
  | piece :: rest =>
    let next := step place piece
    match fs.entry? next with
    | some .directory => fs.createAlong next rest
    | some (.file _) => (fs, false)
    | none =>
      if fs.readOnly next then (fs, false) else (fs.put next .directory).createAlong next rest

def createDirectories (fs : FileSystem) (path : String) : FileSystem × Bool :=
  fs.createAlong (fs.start path) (Path.pieces path)

def makeParent (fs : FileSystem) (path : String) : FileSystem × Bool :=
  if (Path.parent path).isEmpty then (fs, true) else fs.createDirectories (Path.parent path)

-- The command itself has no use for these two. They are for callers that hand files over, and look
-- at them again, as a list of paths and contents.
def ofFiles (files : List (String × ByteArray)) : FileSystem :=
  files.foldl (fun fs (path, content) =>
    let made := (fs.createDirectories (Path.parent path)).1
    (made.write? path content).getD made) {}

def files (fs : FileSystem) : List (String × ByteArray) :=
  let found := fs.entries.filterMap fun (place, entry) =>
    match entry with
    | .file content => some ("/".intercalate place, content)
    | .directory => none
  found.mergeSort fun a b => !(b.1 < a.1)

end FileSystem
end HotkeyScript
