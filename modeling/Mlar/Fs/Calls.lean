import Mlar.Fs.Basic

/-!
# The filesystem calls of `create_file` and `extract`

The POSIX calls behind `Path::exists`, `Path::is_dir`, `fs::canonicalize`, `fs::create_dir`,
`fs::create_dir_all`, `File::create` and an append-mode `OpenOptions::open`, on a
`FileSystem` seen from the working directory `cwd`. Each takes the components of its path,
as `std` hands the bytes of a `Path` to the kernel, which parses them the same way.

`create_dir_all` is the recursive algorithm of `std`: make the directory, and when its
parent is missing make the parent first and try again.

`components` drops a trailing `/` and a trailing `.`, which the kernel reads: a path that ends
so must lead to a directory (`checkEnding`). `openPath` and `createPath` are `File::open` and
`File::create` on the raw path.
-/

namespace Mlar

open Path

/-- The absolute path naming a location, as `fs::canonicalize` returns it. -/
def Location.toPath (loc : Location) : List Char :=
  render (.rootDir :: loc.map .normal)

namespace FileSystem

/-- Resolve the components of a path from `cwd`; the empty path names nothing. -/
def resolvePath (fs : FileSystem) (cwd : Location) (comps : List Component) (last : Bool) :
    Except ErrorKind Location :=
  if comps = [] then .error .notFound else resolve fs last maxSymlinks cwd comps

/-- `stat`: the node a path leads to, following every symbolic link. -/
def stat (fs : FileSystem) (cwd : Location) (comps : List Component) : Except ErrorKind Node :=
  match fs.resolvePath cwd comps true with
  | .error err => .error err
  | .ok loc =>
      match fs loc with
      | some node => .ok node
      | none => .error .notFound

/-- `Path::exists`: `stat` succeeds. -/
def pathExists (fs : FileSystem) (cwd : Location) (comps : List Component) : Bool :=
  match fs.stat cwd comps with
  | .ok _ => true
  | .error _ => false

/-- `Path::is_dir`: `stat` finds a directory. -/
def isDir (fs : FileSystem) (cwd : Location) (comps : List Component) : Bool :=
  match fs.stat cwd comps with
  | .ok .dir => true
  | _ => false

/-- `realpath`: the location a path leads to, which must exist. -/
def canonicalize (fs : FileSystem) (cwd : Location) (comps : List Component) :
    Except ErrorKind Location :=
  match fs.resolvePath cwd comps true with
  | .error err => .error err
  | .ok loc =>
      match fs loc with
      | some _ => .ok loc
      | none => .error .notFound

/-- `mkdir`: the last component is not followed, and must not exist. -/
def mkdir (fs : FileSystem) (cwd : Location) (comps : List Component) :
    Except ErrorKind FileSystem :=
  match fs.resolvePath cwd comps false with
  | .error err => .error err
  | .ok loc =>
      match fs loc with
      | some _ => .error .alreadyExists
      | none => .ok (fs.set loc .dir)

/-- `DirBuilder::create_dir_all` on the path whose components are `revComps.reverse`: make
the directory; when its parent is missing, make the parent first and try again. An error on
a path that is a directory by then is no error, and the empty path needs nothing. -/
def createDirAllRev (fs : FileSystem) (cwd : Location) :
    List Component → Except ErrorKind FileSystem
  | [] => .ok fs
  | comp :: revParent =>
      let comps := (comp :: revParent).reverse
      match fs.mkdir cwd comps with
      | .ok fs' => .ok fs'
      | .error .notFound =>
          if comp = .rootDir then .error .other
          else
            match createDirAllRev fs cwd revParent with
            | .error err => .error err
            | .ok fs' =>
                match fs'.mkdir cwd comps with
                | .ok fs'' => .ok fs''
                | .error err => if fs'.isDir cwd comps then .ok fs' else .error err
      | .error err => if fs.isDir cwd comps then .ok fs else .error err

/-- `fs::create_dir_all`. -/
def createDirAll (fs : FileSystem) (cwd : Location) (comps : List Component) :
    Except ErrorKind FileSystem :=
  fs.createDirAllRev cwd comps.reverse

/-- `File::create` (`O_CREAT | O_TRUNC`): a missing file is created and an existing one
emptied. A symbolic link as the last component is followed, so a dangling one creates its
target. The result is the location of the opened file. -/
def openCreate (fs : FileSystem) (cwd : Location) (comps : List Component) :
    Except ErrorKind (Location × FileSystem) :=
  match fs.resolvePath cwd comps true with
  | .error err => .error err
  | .ok loc =>
      match fs loc with
      | some .dir => .error .isADirectory
      | some (.symlink _) => .error .filesystemLoop
      | _ => .ok (loc, fs.set loc (.file []))

/-- `File::open` for reading: the path is resolved following a last link, and must lead to a
node, which a directory also is. The result is the location of the opened file. -/
def openRead (fs : FileSystem) (cwd : Location) (comps : List Component) :
    Except ErrorKind Location :=
  match fs.resolvePath cwd comps true with
  | .error err => .error err
  | .ok loc =>
      match fs loc with
      | none => .error .notFound
      | some (.symlink _) => .error .filesystemLoop
      | some _ => .ok loc

/-- A path that ends in `/` or `/.` must lead to a directory, every link followed. -/
def dirAt (fs : FileSystem) (cwd : Location) (comps : List Component) : Except ErrorKind Unit :=
  match fs.stat cwd comps with
  | .ok .dir => .ok ()
  | .ok _ => .error .notADirectory
  | .error err => .error err

/-- What the kernel asks of a raw path by how it ends, before the call itself. -/
def checkEnding (fs : FileSystem) (cwd : Location) (path : List Char) : Except ErrorKind Unit :=
  if ending path = .name then .ok () else fs.dirAt cwd (components path)

/-- `Path::exists` on a raw path: one that ends as a directory exists only as a directory. -/
def existsPath (fs : FileSystem) (cwd : Location) (path : List Char) : Bool :=
  match fs.checkEnding cwd path with
  | .ok () => fs.pathExists cwd (components path)
  | .error _ => false

/-- `fs::canonicalize` on a raw path. -/
def canonicalizePath (fs : FileSystem) (cwd : Location) (path : List Char) :
    Except ErrorKind Location :=
  (fs.checkEnding cwd path).bind fun () => fs.canonicalize cwd (components path)

/-- `fs::create_dir` on a raw path. One that ends in `/.` names a directory that must already
exist, so `mkdir` fails on it, with `EEXIST` when it does. -/
def mkdirPath (fs : FileSystem) (cwd : Location) (path : List Char) : Except ErrorKind FileSystem :=
  if ending path = .dot then (fs.dirAt cwd (components path)).bind fun () => .error .alreadyExists
  else fs.mkdir cwd (components path)

/-- `File::open` on a raw path: `ENOTDIR` when it ends as a directory and leads to a file. -/
def openPath (fs : FileSystem) (cwd : Location) (path : List Char) : Except ErrorKind Location :=
  (fs.checkEnding cwd path).bind fun () => fs.openRead cwd (components path)

/-- `File::create` on a raw path. `O_CREAT` refuses a path that ends in `/` with `EISDIR` once
the directory that would hold its last name is found, and one that ends in `/.` once it leads
to a directory. -/
def createPath (fs : FileSystem) (cwd : Location) (path : List Char) :
    Except ErrorKind (Location × FileSystem) :=
  match ending path with
  | .name => fs.openCreate cwd (components path)
  | .slash => (fs.resolvePath cwd (components path) false).bind fun _ => .error .isADirectory
  | .dot => (fs.dirAt cwd (components path)).bind fun () => .error .isADirectory

/-- A `write` to an open file, which appends at its end. -/
def writeAt (fs : FileSystem) (loc : Location) (bytes : List UInt8) :
    Except ErrorKind FileSystem :=
  match fs loc with
  | some (.file data) => .ok (fs.set loc (.file (data ++ bytes)))
  | some .dir => .error .isADirectory
  | _ => .error .notFound

/-- `OpenOptions::new().append(true).open(path)?.write(bytes)`: the file must exist, and a
symbolic link as the last component is followed. -/
def appendWrite (fs : FileSystem) (cwd : Location) (comps : List Component)
    (bytes : List UInt8) : Except ErrorKind FileSystem :=
  match fs.resolvePath cwd comps true with
  | .error err => .error err
  | .ok loc => fs.writeAt loc bytes

end FileSystem

end Mlar
