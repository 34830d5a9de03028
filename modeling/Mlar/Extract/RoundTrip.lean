import Mlar.Extract.Report
import Mlar.Extract.Content
import Mlar.Commands.Create
import Mlar.Commands.Convert
import Mlar.Commands.List

/-!
# From `create` to `extract`

`create` hands each file named on the command line to `add_file`, and `extract` writes each
entry of an archive to its destination. Through an archive that gives back what it was given
(`ArchiveReader.Holds`), the two compose: when `create` succeeds, extracting the archive it
wrote, with or without a filter, leaves at the destination of each selected name the bytes of
the file `create` read under that name (`create_extract_round_trip`), provided no other name
given to `create` leads to the same destination. The names the round trip loses are those
with no destination, a `..` component among them.

`convert` composes in the same way with `list`: from an archive whose every listed entry is
found under its name and reads to its end, `convert` succeeds, and the archive it wrote lists
what the source lists and finds each entry as the source does (`convert_list_round_trip`).
-/

namespace Mlar

open Path

/-- The name an `add_file` call adds. -/
def WriterCall.addedName : WriterCall → Option String
  | .addFile filename _ _ => some filename
  | .finalize => none

/-- Modelled from the spec: an archive that gives back the entries `add_file` was called with.
It lists their names, in an order the spec leaves open, and finds each entry with its size and
the bytes its data yielded, which its body stores. -/
structure ArchiveReader.Holds (mla : ArchiveReader) (calls : List WriterCall) : Prop where
  listed : ∃ names, mla.listFiles = .ok names ∧ names.Perm (calls.filterMap WriterCall.addedName)
  found : ∀ filename size data, WriterCall.addFile filename size data ∈ calls →
    mla.found filename = some ⟨filename, size, ⟨data.bytes, none⟩⟩
  stored : ∀ filename size data, WriterCall.addFile filename size data ∈ calls →
    storedBytes mla.layout filename = data.bytes

/-! ## What `create` wrote -/

/-- When no name stops `create`, each name opens a file that reads to its end and is added
under that name, and the names added are the names given, in order. -/
theorem createCalls_none (dirSize : Location → Nat) (fs : FileSystem) (cwd : Location) :
    ∀ {files : List String} {calls : List WriterCall},
      createCalls dirSize fs cwd files = (calls, none) →
      calls.filterMap WriterCall.addedName = files ∧
      ∀ name ∈ files, ∃ file, fs.openPath cwd name.data = .ok file ∧
        (fs.readAt file).failure = none ∧
        .addFile name (fs.lengthAt dirSize file) (fs.readAt file) ∈ calls
  | [], calls, hnone => by
      cases hnone
      exact ⟨rfl, fun _ h => by cases h⟩
  | name :: rest, calls, hnone => by
      unfold createCalls addCalls at hnone
      cases hopen : fs.openPath cwd name.data with
      | error err => rw [hopen] at hnone; cases hnone
      | ok file =>
          rw [hopen] at hnone
          rcases hrest : createCalls dirSize fs cwd rest with ⟨more, failure⟩
          rw [hrest] at hnone
          cases hfail : (fs.readAt file).failure with
          | some err => simp [hfail, andThen] at hnone
          | none =>
              simp only [hfail, andThen, Prod.mk.injEq] at hnone
              obtain ⟨rfl, rfl⟩ := hnone
              obtain ⟨hnames, hadded⟩ := createCalls_none dirSize fs cwd hrest
              refine ⟨by simp [hnames, WriterCall.addedName], fun other hother => ?_⟩
              rcases List.mem_cons.1 hother with rfl | hother
              · exact ⟨file, hopen, hfail, by simp⟩
              · obtain ⟨file', hopen', hfail', hmem⟩ := hadded other hother
                exact ⟨file', hopen', hfail', List.mem_cons_of_mem _ hmem⟩

/-- A run of `create` that succeeds made the calls `createCalls` lists, none of which stopped
it, and then `finalize`. -/
theorem create_ok_calls {dirSize : Location → Nat} {files : List String} {os os' : Os}
    (hok : create dirSize (some files) os = .ok () os') :
    ∃ calls, createCalls dirSize os.fs os.cwd files = (calls, none) ∧
      os'.written = os.written ++ calls ++ [.finalize] := by
  obtain ⟨lines, hrun⟩ := createEntries_run dirSize files os
  simp only [create, Io.bind_apply, hrun] at hok
  rcases hcalls : createCalls dirSize os.fs os.cwd files with ⟨calls, _ | err⟩ <;>
    rw [hcalls] at hok
  · cases hok
    exact ⟨calls, rfl, rfl⟩
  · cases hok

/-! ## What `extract` writes -/

/-- When `extract` succeeds below a plain output directory, the destination that one selected
listed name alone leads to holds the bytes of its entry, on either path, provided the archive
body stores them. -/
theorem extractEntriesAt_unique_content {fs : FileSystem} {root : Location}
    (hplain : fs.PlainRoot root) (matcher : ExtractFileNameMatcher) (mla : ArchiveReader)
    {names : List String} {F : FileSystem}
    (hok : extractEntriesAt matcher root mla names fs = (.ok (), F)) {fname : String}
    {dest : Location} (hname : fname ∈ names) (hsel : matcher.matchFileName fname = true)
    (hdest : destination root fname = some dest)
    (hunique : ∀ other ∈ names, destination root other = some dest → other = fname)
    {subFile : ArchiveFile} (hfound : mla.found fname = some subFile)
    (hstored : storedBytes mla.layout fname = subFile.data.bytes) :
    F dest = some (.file subFile.data.bytes) := by
  have hfiltered : ∀ {matcher : ExtractFileNameMatcher}, matcher.matchFileName fname = true →
      extractFilesAt matcher root mla names fs = (.ok (), F) →
      F dest = some (.file subFile.data.bytes) := fun hsel hok =>
    extractFilesAt_content hplain names hok (lastEntryAt_unique hname hdest hunique hsel hfound)
  cases matcher with
  | anything =>
      rw [extractEntriesAt_linear_content hplain mla names hok hname hdest,
        linearBytesAt_unique hname hdest hunique, hstored]
  | files fileNames => exact hfiltered hsel hok
  | globPatterns patterns => exact hfiltered hsel hok

/-! ## The round trip -/

/-- `create_extract_round_trip`: when `create` with a fresh writer succeeds, and `extract` of
an archive that gives back what it was given returns from a plain start, with or without a
filter, it has extracted the files `create` read: at the destination of each selected name
that no other name given to `create` shares, it leaves the bytes of the file `create` opened
under that name. -/
theorem create_extract_round_trip {dirSize : Location → Nat} {osA osA' : Os}
    {files : List String} (hfresh : osA.written = [])
    (hcreate : create dirSize (some files) osA = .ok () osA')
    {mla : ArchiveReader} (hholds : mla.Holds osA'.written) {osB osB' : Os}
    {outputDir : List Char} (hstart : osB.fs.PlainOutputDir osB.cwd outputDir)
    (matcher : ExtractFileNameMatcher) (verbose : Bool)
    (hextract : extract matcher outputDir verbose mla osB = .ok () osB') :
    ∃ root, osB.fs.resolvePath osB.cwd (components outputDir) true = .ok root ∧
      ∀ name ∈ files, matcher.matchFileName name = true → ∀ dest,
        destination root name = some dest →
        (∀ other ∈ files, destination root other = some dest → other = name) →
        ∃ file, osA.fs.openPath osA.cwd name.data = .ok file ∧
          osB'.fs dest = some (.file (osA.fs.readAt file).bytes) := by
  obtain ⟨calls, hcalls, hwritten⟩ := create_ok_calls hcreate
  obtain ⟨hnames, hadded⟩ := createCalls_none dirSize osA.fs osA.cwd hcalls
  obtain ⟨names, hlisted, hlistPerm⟩ := hholds.listed
  rw [hwritten, hfresh] at hlistPerm
  simp only [List.nil_append, List.filterMap_append, hnames] at hlistPerm
  have hnamesPerm : names.Perm files := by simpa [WriterCall.addedName] using hlistPerm
  obtain ⟨root, made, hroot, hplain, hrun⟩ := extract_ok_entries hstart hlisted hextract
  refine ⟨root, hroot, fun name hname hsel dest hdest hunique => ?_⟩
  obtain ⟨file, hopen, -, hmem⟩ := hadded name hname
  have hwrote : WriterCall.addFile name (osA.fs.lengthAt dirSize file) (osA.fs.readAt file) ∈
      osA'.written := by
    rw [hwritten]
    simp [hmem]
  -- the extraction computes `extractEntriesAt` on the sorted names, whatever their listed order
  have hres := (extractEntries_plain (show ({ osB with fs := made } : Os).fs.PlainRoot root
    from hplain) matcher verbose mla (sortNames names)).of_ok hrun
  have hperm := (sortNames_perm names).trans hnamesPerm
  have hstored : storedBytes mla.layout name = (osA.fs.readAt file).bytes :=
    hholds.stored _ _ _ hwrote
  exact ⟨file, hopen, extractEntriesAt_unique_content hplain matcher mla hres
    (hperm.mem_iff.2 hname) hsel hdest (fun other hother => hunique other (hperm.mem_iff.1 hother))
    (hholds.found _ _ _ hwrote) hstored⟩

/-- A root directory that holds the file `a`, with the bytes `1, 2`. -/
def sourceTree : FileSystem := fun loc =>
  if loc = [] then some .dir else if loc = [['a']] then some (.file [1, 2]) else none

/-- The archive `create a` writes from `sourceTree`, read back. -/
def createdArchive : ArchiveReader where
  listFiles := .ok ["a"]
  getFile name := .ok (if name = "a" then some ⟨"a", 2, ⟨[1, 2], none⟩⟩ else none)
  layout := [.content "a" [1, 2]]

theorem createdArchive_holds :
    createdArchive.Holds [.addFile "a" 2 ⟨[1, 2], none⟩, .finalize] := by
  refine ⟨⟨_, rfl, .refl _⟩, fun filename size data hmem => ?_, fun filename size data hmem => ?_⟩ <;>
    simp at hmem <;> obtain ⟨rfl, rfl, rfl⟩ := hmem <;> rfl

/-- `create a` from `sourceTree`, then `extract` of what it wrote into the empty `/o`, gives
back the bytes of `a` at `/o/a`. -/
theorem create_extract_round_trip_single :
    ∃ osA' osB', (⟨sourceTree, [], [], [], []⟩ : Os).written = [] ∧
      create (fun _ => 4096) (some ["a"]) ⟨sourceTree, [], [], [], []⟩ = .ok () osA' ∧
      createdArchive.Holds osA'.written ∧ emptyRootTree.PlainOutputDir [] ['/', 'o'] ∧
      extract .anything ['/', 'o'] false createdArchive ⟨emptyRootTree, [], [], [], []⟩ =
        .ok () osB' ∧
      ∃ root, emptyRootTree.resolvePath [] (components ['/', 'o']) true = .ok root ∧
        ∀ name ∈ ["a"], ExtractFileNameMatcher.anything.matchFileName name = true → ∀ dest,
          destination root name = some dest →
          (∀ other ∈ ["a"], destination root other = some dest → other = name) →
          ∃ file, sourceTree.openPath [] name.data = .ok file ∧
            osB'.fs dest = some (.file (sourceTree.readAt file).bytes) :=
  ⟨_, _, rfl, rfl, createdArchive_holds, emptyRootTree_plainOutputDir, rfl,
    @create_extract_round_trip (fun _ => 4096) ⟨sourceTree, [], [], [], []⟩ _ ["a"] rfl rfl createdArchive
      createdArchive_holds ⟨emptyRootTree, [], [], [], []⟩ _ ['/', 'o'] emptyRootTree_plainOutputDir
      .anything false rfl⟩

/-! ## `convert`, then `list` -/

/-- Entries found under their own names, added in turn, add those names. -/
theorem addedNames_found {mla : ArchiveReader} : ∀ {names : List String},
    (∀ name ∈ names, ∃ subFile, mla.found name = some subFile ∧ subFile.filename = name) →
    ((names.filterMap mla.found).map ArchiveFile.addFileCall).filterMap WriterCall.addedName = names
  | [], _ => rfl
  | name :: rest, hentries => by
      obtain ⟨subFile, hfound, hname⟩ := hentries name (List.mem_cons_self _ _)
      have hrest := addedNames_found fun other hother => hentries other (List.mem_cons_of_mem _ hother)
      simp [hfound, hname, hrest, ArchiveFile.addFileCall, WriterCall.addedName]

/-- `convert_list_round_trip`: from a source archive whose every listed entry is found under
its name and reads to its end, `convert` with a fresh writer succeeds; an archive that gives
back what it was given, listing the names in any order, then lists, without `--verbose`, what
the source lists, and finds every entry of the source as the source does, with the same size
and bytes. -/
theorem convert_list_round_trip {mla : ArchiveReader} {files : List String}
    (hfiles : mla.listFiles = .ok files)
    (hentries : ∀ name ∈ files, ∃ subFile, mla.found name = some subFile ∧
      subFile.filename = name ∧ subFile.data.failure = none)
    {os : Os} (hfresh : os.written = []) :
    ∃ os', convert mla os = .ok () os' ∧ ∀ mla' : ArchiveReader, mla'.Holds os'.written →
      (∀ fileSize getHash (osL : Os),
        list 0 fileSize getHash mla' osL = list 0 fileSize getHash mla osL) ∧
      ∀ name ∈ files, mla'.found name = mla.found name := by
  have hperm := sortNames_perm files
  have hread : ((sortNames files).filterMap mla.found).all ArchiveFile.readsFully := by
    refine List.all_eq_true.2 fun subFile hmem => ?_
    obtain ⟨name, hname, hfound⟩ := List.mem_filterMap.1 hmem
    obtain ⟨found, hfound', -, hfail⟩ := hentries name (hperm.mem_iff.1 hname)
    rw [hfound', Option.some.injEq] at hfound
    simp [← hfound, ArchiveFile.readsFully, hfail]
  have hloop := convertFiles_all_read mla _ hread os
  refine ⟨_, by simp only [convert, hfiles, Io.bind_apply, hloop]; rfl,
    fun mla' hholds => ⟨?_, fun name hname => ?_⟩⟩
  · obtain ⟨names, hlisted, hlistPerm⟩ := hholds.listed
    simp only [finalize, record_apply, hfresh, List.nil_append, List.filterMap_append] at hlistPerm
    rw [addedNames_found fun name hname =>
      (hentries name (hperm.mem_iff.1 hname)).imp fun _ h => ⟨h.1, h.2.1⟩] at hlistPerm
    -- `list` sorts what it is given, so the order the archive lists the names in is lost
    have hsorted : sortNames names = sortNames files := by
      rw [sortNames_eq_of_perm (by simpa [WriterCall.addedName] using hlistPerm), sortNames_sortNames]
    intro fileSize getHash osL
    simp only [list, hlisted, hfiles, hsorted, listEntries_quiet]
  · obtain ⟨⟨name, size, ⟨bytes, failure⟩⟩, hfound, rfl, rfl⟩ := hentries name hname
    have hmem : WriterCall.addFile name size ⟨bytes, none⟩ ∈
        os.written ++ ((sortNames files).filterMap mla.found).map ArchiveFile.addFileCall ++
          [.finalize] := by
      rw [hfresh]
      refine List.mem_append_left _ (List.mem_append_right _
        (List.mem_map.2 ⟨⟨name, size, ⟨bytes, none⟩⟩, ?_, rfl⟩))
      exact List.mem_filterMap.2 ⟨name, hperm.mem_iff.2 hname, hfound⟩
    rw [hholds.found _ _ _ hmem, hfound]

/-- Converting the archive whose entries `a` and `./a` each read to their end, then listing
what `convert` wrote, prints what listing the source prints. -/
theorem convert_list_round_trip_shared :
    sharedArchive.listFiles = .ok ["a", "./a"] ∧
    (∀ name ∈ ["a", "./a"], ∃ subFile, sharedArchive.found name = some subFile ∧
      subFile.filename = name ∧ subFile.data.failure = none) ∧
    (⟨fun _ => none, [], [], [], []⟩ : Os).written = [] ∧
    ∃ os', convert sharedArchive ⟨fun _ => none, [], [], [], []⟩ = .ok () os' ∧
      ∀ mla' : ArchiveReader, mla'.Holds os'.written →
        (∀ fileSize getHash (osL : Os),
          list 0 fileSize getHash mla' osL = list 0 fileSize getHash sharedArchive osL) ∧
        ∀ name ∈ ["a", "./a"], mla'.found name = sharedArchive.found name := by
  have hentries : ∀ name ∈ ["a", "./a"], ∃ subFile, sharedArchive.found name = some subFile ∧
      subFile.filename = name ∧ subFile.data.failure = none := fun name _ =>
    ⟨_, rfl, rfl, rfl⟩
  exact ⟨rfl, hentries, rfl, convert_list_round_trip rfl hentries rfl⟩

end Mlar
