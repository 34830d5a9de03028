import Mlar.Archive.Calls
import Mlar.Path.Sanitize

/-!
# The `extract` command

`extract` makes the output directory if it is missing, canonicalizes it, lists and sorts the
entry names, and then takes one of two paths. With no file filter it creates the
destination of every entry first and hands a map from names to append-mode `FileWriter`s to
`linear_extract`, which writes the whole archive in one pass. With a filter it extracts the
selected entries one by one: look the entry up, create its destination with `create_file`,
copy its bytes.

`create_file` computes the destination with `get_extracted_path`, creates the containing
directory when it does not exist, canonicalizes that directory, and skips the entry when the
canonical directory is not below the output directory; otherwise it creates (or truncates)
the destination file.
-/

namespace Mlar

open Path

/-- `glob::Pattern`, which is not part of this repository: a compiled pattern, known by the
names it matches. -/
structure Pattern where
  isMatch : String → Bool

/-- The pattern `*` compiled: with the default options of `Pattern::matches`, `*` also matches
`/` and a leading `.`, so it matches every name. -/
def Pattern.star : Pattern := ⟨fun _ => true⟩

/-- `ExtractFileNameMatcher`: the entries an extraction selects. The set of file names is
kept as a list, of which only membership is used. -/
inductive ExtractFileNameMatcher where
  | files (names : List String)
  | globPatterns (patterns : List Pattern)
  | anything

/-- The patterns of `from_matches`, compiled in turn with `compile`, which is `Pattern::new`: the
first that does not compile is reported, and `expect` then panics. -/
def compilePatterns (compile : String → Except PatternError Pattern) :
    List String → Io (List Pattern)
  | [] => pure []
  | pat :: rest =>
      match compile pat with
      | .error err => do
          Io.eprintln (.invalidFilterPattern pat err)
          throw (.panic "Invalid glob pattern: ()")
      | .ok pattern => do
          let patterns ← compilePatterns compile rest
          pure (pattern :: patterns)

/-- `ExtractFileNameMatcher::from_matches`: without a `files` argument every entry is selected;
with `--glob` the arguments are compiled as patterns, and otherwise they are the names to
select. -/
def ExtractFileNameMatcher.fromMatches (compile : String → Except PatternError Pattern)
    (glob : Bool) : Option (List String) → Io ExtractFileNameMatcher
  | none => pure .anything
  | some filesValues =>
      if glob then do
        let patterns ← compilePatterns compile filesValues
        pure (.globPatterns patterns)
      else pure (.files filesValues)

/-- `ExtractFileNameMatcher::match_file_name`: an empty set of names or of patterns selects
every entry. -/
def ExtractFileNameMatcher.matchFileName : ExtractFileNameMatcher → String → Bool
  | .files names, fileName => names.isEmpty || names.contains fileName
  | .globPatterns patterns, fileName => patterns.isEmpty || patterns.any (·.isMatch fileName)
  | .anything, _ => true

/-! ## `create_file` -/

/-- The first step of `create_file`: create the containing directory, with its parents, if
it does not exist. -/
def createContainingDirectory (outputDir containingDirectory : List Char) : Io Unit := do
  if ← pathExists containingDirectory then pure ()
  else
    match ← createDirAll containingDirectory with
    | .error err => do
        Io.eprintln (.createPathFailed outputDir err)
        Io.fail (.ioError err)
    | .ok () => pure ()

/-- The last step of `create_file`: canonicalize the containing directory, and create the
destination file only if that directory is below the output directory. -/
def createInOutputDir (outputDir : List Char) (fname : String)
    (extractedPath containingDirectory : List Char) : Io (Option (File × List Char)) := do
  match ← canonicalize containingDirectory with
  | .error err => do
      Io.eprintln (.canonicalizePathFailed containingDirectory err)
      Io.fail (.ioError err)
  | .ok canonical =>
      if startsWith canonical outputDir then
        match ← fileCreate extractedPath with
        | .error err => do
            Io.eprintln (.unableToCreate fname err)
            Io.fail (.ioError err)
        | .ok file => pure (some (file, extractedPath))
      else do
        Io.eprintln (.outsideOutputDir fname canonical)
        pure none

/-- `create_file`: create the destination of `fname` below `outputDir` and the directories
leading to it, and return the opened file with its path; `none` skips the entry. -/
def createFile (outputDir : List Char) (fname : String) : Io (Option (File × List Char)) :=
  match getExtractedPath outputDir fname with
  | none => do
      Io.eprintln (.containsParentDir fname)
      pure none
  | some extractedPath =>
      match parent extractedPath with
      | none => do
          Io.eprintln (.noParent fname extractedPath)
          pure none
      | some containingDirectory => do
          createContainingDirectory outputDir containingDirectory
          createInOutputDir outputDir fname extractedPath containingDirectory

/-- `FileWriter`: a destination that is opened in append mode for each write and closed
after it, so that no descriptor stays open between writes. -/
structure FileWriter where
  path : List Char
  deriving DecidableEq, Repr

/-- `<FileWriter as Write>::write`. -/
def FileWriter.write (writer : FileWriter) (buf : List UInt8) : Io (Except ErrorKind Unit) :=
  appendWrite writer.path buf

/-! ## The two paths of `extract` -/

/-- The first loop of the linear path: create the destination of each entry in turn and
insert a `FileWriter` for it into the map; a later insertion of a name hides an earlier one,
as `HashMap::insert` replaces it. -/
def exportWriters (outputDir : List Char) (exportMap : List (String × FileWriter)) :
    List String → Io (List (String × FileWriter))
  | [] => pure exportMap
  | fname :: rest => do
      match ← createFile outputDir fname with
      | some (_, path) => exportWriters outputDir ((fname, ⟨path⟩) :: exportMap) rest
      | none => exportWriters outputDir exportMap rest

/-- One iteration of the filtered loop: skip an entry the matcher does not select or that
cannot be looked up, and otherwise create its destination and copy its bytes. -/
def extractFile (matcher : ExtractFileNameMatcher) (outputDir : List Char) (verbose : Bool)
    (mla : ArchiveReader) (fname : String) : Io Unit :=
  if matcher.matchFileName fname then
    match mla.getFile fname with
    | .error err => Io.eprintln (.lookupFailed fname err)
    | .ok none => Io.eprintln (.subfileNotFound fname)
    | .ok (some subFile) => do
        match ← createFile outputDir fname with
        | none => pure ()
        | some (extractedFile, _) => do
            if verbose then Io.println fname
            match ← copyToFile subFile.data extractedFile with
            | .error err => do
                Io.eprintln (.unableToExtract fname err)
                Io.fail err
            | .ok () => pure ()
  else pure ()

/-- The filtered loop of `extract`, over the sorted entry names. -/
def extractFiles (matcher : ExtractFileNameMatcher) (outputDir : List Char) (verbose : Bool)
    (mla : ArchiveReader) : List String → Io Unit
  | [] => pure ()
  | fname :: rest => do
      extractFile matcher outputDir verbose mla fname
      extractFiles matcher outputDir verbose mla rest

/-- What `extract` does once the output directory is canonical and the sorted entry names
are known: the linear path without a filter, the filtered loop otherwise. -/
def extractEntries (matcher : ExtractFileNameMatcher) (outputDir : List Char) (verbose : Bool)
    (mla : ArchiveReader) (iter : List String) : Io Unit :=
  match matcher with
  | .anything => do
      if verbose then Io.println "Extracting the whole archive using a linear extraction"
      let exportMap ← exportWriters outputDir [] iter
      linearExtract FileWriter.write mla exportMap
  | _ => extractFiles matcher outputDir verbose mla iter

/-- The start of `extract`: create the output directory if it does not exist, and
canonicalize it. -/
def prepareOutputDir (outputDir : List Char) : Io (List Char) := do
  if ← pathExists outputDir then pure ()
  else
    match ← createDir outputDir with
    | .error err => do
        Io.eprintln (.createOutputDirFailed outputDir err)
        Io.fail (.ioError err)
    | .ok () => pure ()
  match ← canonicalize outputDir with
  | .error err => do
      Io.eprintln (.canonicalizeOutputDirFailed outputDir err)
      Io.fail (.ioError err)
  | .ok canonical => pure canonical

/-- `extract`, from the point where the matcher is built and the archive is open. -/
def extract (matcher : ExtractFileNameMatcher) (outputDir : List Char) (verbose : Bool)
    (mla : ArchiveReader) : Io Unit := do
  let outputDir ← prepareOutputDir outputDir
  match mla.listFiles with
  | .error err => Io.fail err
  | .ok files => extractEntries matcher outputDir verbose mla (sortNames files)

/-- `extract` from its start, with the archive opened by `open_mla_file`: the matcher is built
from the `files` arguments, `glob` telling whether `--glob` was given, before anything else. -/
def extractCommand (compile : String → Except PatternError Pattern) (glob : Bool)
    (filesValues : Option (List String)) (outputDir : List Char) (verbose : Bool)
    (mla : ArchiveReader) : Io Unit := do
  let matcher ← ExtractFileNameMatcher.fromMatches compile glob filesValues
  extract matcher outputDir verbose mla

end Mlar
