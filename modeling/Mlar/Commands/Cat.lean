import Mlar.Commands.Extract

/-!
# The `cat` command

`cat` writes the data of archive entries to one destination, one entry after the other.
With `--glob` each argument is a glob pattern: for each pattern in the order given, every
name of the sorted index that the pattern matches is written, so that an entry several
patterns match is written once for each of them; a pattern that does not compile is reported
and skipped. Without `--glob` each argument is an entry name, written in the order given. A
failed lookup and a missing entry are reported and skipped; a failed copy is reported and ends
the command through `?`.

The destination, standard output or a file created for the command, is modelled as the sinks
of `linearExtract` are: any `W` with its `write`. Into a file, `cat` appends exactly the bytes
`catOutput` lists and ends as it says (`cat_file_content`).
-/

namespace Mlar

/-- `io::copy` from an entry's data into a sink: the bytes the data yields are written,
then the error that stopped the data, if any, is returned. -/
def copyTo {W : Type} (write : W → List UInt8 → Io (Except ErrorKind Unit)) (data : Stream)
    (sink : W) : Io (Except Error Unit) := do
  match ← write sink data.bytes with
  | .error err => pure (.error (.ioError err))
  | .ok () =>
      match data.failure with
      | some err => pure (.error err)
      | none => pure (.ok ())

/-- The copy of `extract` is the one of `cat`, into a file. -/
theorem copyTo_fileWrite (data : Stream) (file : File) :
    copyTo fileWrite data file = copyToFile data file := rfl

section Cat

variable {W : Type} (write : W → List UInt8 → Io (Except ErrorKind Unit)) (destination : W)
  (mla : ArchiveReader)

/-- One entry of `cat`: look it up and copy its data into the destination. A failed lookup
and a missing entry are reported and skipped, `notFound` being the line each mode prints for
a missing entry; a failed copy is reported and ends the command. -/
def catFile (notFound : String → Diagnostic) (fname : String) : Io Unit :=
  match mla.getFile fname with
  | .error err => Io.eprintln (.lookupFileFailed fname err)
  | .ok none => Io.eprintln (notFound fname)
  | .ok (some subFile) => do
      match ← copyTo write subFile.data destination with
      | .error err => do
          Io.eprintln (.unableToExtract fname err)
          Io.fail err
      | .ok () => pure ()

/-- The loop of `cat` over entry names. -/
def catFiles (notFound : String → Diagnostic) : List String → Io Unit
  | [] => pure ()
  | fname :: rest => do
      catFile write destination mla notFound fname
      catFiles notFound rest

/-- The inner loop of `cat --glob`, over the sorted index: the names `pat` matches are
written. -/
def catMatching (pat : Pattern) : List String → Io Unit
  | [] => pure ()
  | fname :: rest => do
      if pat.isMatch fname then catFile write destination mla .subfileNotFound fname
      catMatching pat rest

/-- The outer loop of `cat --glob`, over the patterns given; `compile` is `Pattern::new`. -/
def catPatterns (compile : String → Except PatternError Pattern) (archiveFiles : List String) :
    List String → Io Unit
  | [] => pure ()
  | argPattern :: rest => do
      match compile argPattern with
      | .error err => Io.eprintln (.invalidGlobPattern argPattern err)
      | .ok pat => catMatching write destination mla pat archiveFiles
      catPatterns compile archiveFiles rest

/-- `cat`, from the point where the destination and the archive are open: `glob` says whether
`--glob` was given, and `filesValues` are the arguments. -/
def cat (compile : String → Except PatternError Pattern) (glob : Bool)
    (filesValues : List String) : Io Unit :=
  if glob then
    match mla.listFiles with
    | .error err => Io.fail err
    | .ok files => catPatterns write destination mla compile (sortNames files) filesValues
  else catFiles write destination mla .fileNotFound filesValues

/-- The inner loop of `cat --glob` is the loop over the names the pattern matches. -/
theorem catMatching_eq (pat : Pattern) (names : List String) :
    catMatching write destination mla pat names =
      catFiles write destination mla .subfileNotFound (names.filter pat.isMatch) := by
  induction names with
  | nil => rfl
  | cons fname rest ih =>
      by_cases hmatch : pat.isMatch fname
      · simp [catMatching, catFiles, hmatch, ih]
      · simp [catMatching, hmatch, ih]

end Cat

/-! ## What `cat` writes -/

/-- What `cat` writes for one name: the data of the entry it finds, up to the error that
stops the data. -/
def entryBytes (mla : ArchiveReader) (fname : String) : List UInt8 × Option Error :=
  match mla.found fname with
  | none => ([], none)
  | some subFile => (subFile.data.bytes, subFile.data.failure)

/-- What `cat` writes for a list of names: the data of each entry found, in order, up to the
first whose data fails, that one included. -/
def catBytes (mla : ArchiveReader) : List String → List UInt8 × Option Error
  | [] => ([], none)
  | fname :: rest => andThen (entryBytes mla fname) (catBytes mla rest)

theorem catBytes_append (mla : ArchiveReader) (names more : List String) :
    catBytes mla (names ++ more) = andThen (catBytes mla names) (catBytes mla more) := by
  induction names with
  | nil => exact (nil_andThen _).symm
  | cons fname rest ih =>
      rw [List.cons_append]
      simp only [catBytes, ih, andThen_assoc]

/-- The names `cat --glob` writes, in order: for each pattern that compiles, the names of the
index it matches. -/
def globNames (compile : String → Except PatternError Pattern) (archiveFiles : List String)
    (patterns : List String) : List String :=
  patterns.flatMap fun argPattern =>
    match compile argPattern with
    | .error _ => []
    | .ok pat => archiveFiles.filter pat.isMatch

/-- What `cat` writes into its destination, and the error that ends the command, if any. -/
def catOutput (mla : ArchiveReader) (compile : String → Except PatternError Pattern)
    (glob : Bool) (filesValues : List String) : List UInt8 × Option Error :=
  if glob then
    match mla.listFiles with
    | .error err => ([], some err)
    | .ok files => catBytes mla (globNames compile (sortNames files) filesValues)
  else catBytes mla filesValues

/-! ## `cat` into a file -/

/-- A run of `cat` into the file at `loc`, which holds `old` when the run starts: it appends
`out.1` to that file, prints some lines on standard error, changes nothing else, and ends as
`out.2` says. -/
def CatsInto (loc : Location) (old : List UInt8) (os : Os) (run : EStateM.Result Abort Os Unit)
    (out : List UInt8 × Option Error) : Prop :=
  ∃ lines, run = Io.endWith out.2
    { os with fs := os.fs.set loc (.file (old ++ out.1)), stderr := os.stderr ++ lines }

section Into

variable {loc : Location} {old : List UInt8} {os : Os}

/-- A run that ends where it starts writes nothing. -/
theorem CatsInto.of_end (hfile : os.fs loc = some (.file old)) (failure : Option Error) :
    CatsInto loc old os (Io.endWith failure os) ([], failure) :=
  ⟨[], by rw [List.append_nil, List.append_nil, FileSystem.set_of_eq hfile]⟩

/-- A run that only prints writes nothing. -/
theorem CatsInto.of_stderr (hfile : os.fs loc = some (.file old)) (failure : Option Error)
    (lines : List Diagnostic) :
    CatsInto loc old os (Io.endWith failure { os with stderr := os.stderr ++ lines }) ([], failure) :=
  ⟨lines, by rw [List.append_nil, FileSystem.set_of_eq hfile]⟩

/-- Two runs of `cat` one after the other write one output after the other. -/
theorem CatsInto.bind {x : Io Unit} {f : Unit → Io Unit} {out₁ out₂ : List UInt8 × Option Error}
    (hx : CatsInto loc old os (x os) out₁)
    (hf : ∀ os', os'.fs loc = some (.file (old ++ out₁.1)) →
      CatsInto loc (old ++ out₁.1) os' (f () os') out₂) :
    CatsInto loc old os ((x >>= f) os) (andThen out₁ out₂) := by
  obtain ⟨lines, hrun⟩ := hx
  rcases out₁ with ⟨bytes, _ | err⟩
  · rcases out₂ with ⟨more', failure⟩
    obtain ⟨more, hmore⟩ :=
      hf { os with fs := os.fs.set loc (.file (old ++ bytes)), stderr := os.stderr ++ lines }
        (FileSystem.set_same _ _ _)
    refine ⟨lines ++ more, ?_⟩
    rw [Io.bind_apply, hrun]
    simp only [Io.endWith, andThen] at hmore ⊢
    rw [hmore, FileSystem.set_set, List.append_assoc, List.append_assoc]
  · exact ⟨lines, by rw [Io.bind_apply, hrun]; rfl⟩

variable (mla : ArchiveReader)

/-- One entry of `cat` into a file appends its data there. -/
theorem catFile_into (hfile : os.fs loc = some (.file old)) (notFound : String → Diagnostic)
    (fname : String) :
    CatsInto loc old os (catFile fileWrite loc mla notFound fname os) (entryBytes mla fname) := by
  unfold catFile entryBytes ArchiveReader.found
  rcases hget : mla.getFile fname with err | _ | subFile
  · exact CatsInto.of_stderr hfile none _
  · exact CatsInto.of_stderr hfile none _
  · cases hfail : subFile.data.failure with
    | none =>
        exact ⟨[], by simp [copyTo, fileWrite, Io.change_apply, FileSystem.writeAt, hfile, hfail,
          Except.map, Io.endWith]⟩
    | some err =>
        exact ⟨[.unableToExtract fname err], by simp [copyTo, fileWrite, Io.change_apply,
          FileSystem.writeAt, hfile, hfail, Except.map, Io.endWith]⟩

/-- The loop of `cat` into a file appends the data of the entries, in order, until one
fails. -/
theorem catFiles_into (notFound : String → Diagnostic) (names : List String) :
    ∀ {old : List UInt8} {os : Os}, os.fs loc = some (.file old) →
      CatsInto loc old os (catFiles fileWrite loc mla notFound names os) (catBytes mla names) := by
  induction names with
  | nil => exact fun hfile => CatsInto.of_end hfile none
  | cons fname rest ih =>
      intro old os hfile
      simp only [catFiles, catBytes]
      exact CatsInto.bind (catFile_into mla hfile notFound fname) fun _ hfile' => ih hfile'

/-- The loops of `cat --glob` into a file append the data of the entries `globNames` lists. -/
theorem catPatterns_into (compile : String → Except PatternError Pattern)
    (archiveFiles patterns : List String) :
    ∀ {old : List UInt8} {os : Os}, os.fs loc = some (.file old) →
      CatsInto loc old os (catPatterns fileWrite loc mla compile archiveFiles patterns os)
        (catBytes mla (globNames compile archiveFiles patterns)) := by
  induction patterns with
  | nil => exact fun hfile => CatsInto.of_end hfile none
  | cons argPattern rest ih =>
      intro old os hfile
      simp only [catPatterns, globNames, List.flatMap_cons, catBytes_append]
      cases compile argPattern with
      | error err => exact CatsInto.bind (CatsInto.of_stderr hfile none _) fun _ hfile' => ih hfile'
      | ok pat =>
          dsimp only
          rw [catMatching_eq]
          exact CatsInto.bind (catFiles_into mla _ _ hfile) fun _ hfile' => ih hfile'

end Into

/-- `cat_file_content`: into a file, which holds `old` at the start, `cat` appends exactly the
bytes `catOutput` lists, prints only on standard error, changes nothing else, and ends with
the error `catOutput` gives, if any. With `--glob`, that is the data of the entries each
pattern matches, pattern after pattern; without it, of the names given, in order. -/
theorem cat_file_content {os : Os} {loc : Location} {old : List UInt8}
    (hfile : os.fs loc = some (.file old)) (mla : ArchiveReader)
    (compile : String → Except PatternError Pattern) (glob : Bool) (filesValues : List String) :
    ∃ lines, cat fileWrite loc mla compile glob filesValues os =
      Io.endWith (catOutput mla compile glob filesValues).2
        { os with fs := os.fs.set loc (.file (old ++ (catOutput mla compile glob filesValues).1)),
                  stderr := os.stderr ++ lines } := by
  unfold cat catOutput
  cases glob with
  | false => exact catFiles_into mla _ filesValues hfile
  | true =>
      cases mla.listFiles with
      | error err => exact CatsInto.of_end hfile (some err)
      | ok files => exact catPatterns_into mla compile _ filesValues hfile

/-- A filesystem holding an empty file `/o`. -/
def catTree : FileSystem := fun loc =>
  if loc = [] then some .dir else if loc = [['o']] then some (.file []) else none

/-- An archive of the entries `a` and `b`, indexed as `b` then `a`, each holding one byte. -/
def twoByteArchive : ArchiveReader where
  listFiles := .ok ["b", "a"]
  getFile name :=
    if name = "a" then .ok (some ⟨"a", 1, ⟨[1], none⟩⟩)
    else if name = "b" then .ok (some ⟨"b", 1, ⟨[2], none⟩⟩)
    else .ok none
  layout := []

/-- `Pattern::new` where `*` matches every name and any other pattern only itself. -/
def starOrName (argPattern : String) : Except PatternError Pattern :=
  .ok ⟨fun name => argPattern == "*" || name == argPattern⟩

/-- `cat --glob '*'` into the empty file `/o` writes the bytes of every entry in name order:
the byte of `a`, then the byte of `b`, though the index lists `b` first. -/
theorem cat_file_content_star :
    catTree [['o']] = some (.file []) ∧
    ∃ lines, cat fileWrite [['o']] twoByteArchive starOrName true ["*"]
        ⟨catTree, [], [], [], []⟩ =
      .ok () ⟨catTree.set [['o']] (.file [1, 2]), [], [], lines, []⟩ :=
  ⟨rfl, @cat_file_content ⟨catTree, [], [], [], []⟩ [['o']] [] rfl twoByteArchive starOrName true
    ["*"]⟩

end Mlar
