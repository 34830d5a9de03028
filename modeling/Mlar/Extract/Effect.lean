import Mlar.Extract.CreateFile

/-!
# What `extract` does to the tree

Below an output directory with no link, `extract` is a function of the filesystem: this
module states it as one, without paths, printing or the monad, and proves that the command
computes it (`extractEntries_plain`).

On the filtered path, `extractFileAt` writes one selected entry that the archive has and
that has a destination: `createAt` on the destination, then the entry's bytes, which
replace whatever the file held. On the linear path, `exportAt` creates the destination of
every entry and records it under the entry's name, and `appendBlocksAt` then appends the
bytes of each block to the destination recorded for its entry, in storage order.

Distinct entry names can have one sanitized destination: `a`, `./a`, `/a` and `a/` all
become `<root>/a`. The filtered loop truncates the destination before each copy, so the
last of them in name order wins; the linear path truncates every destination first and then
appends every block of every entry in storage order, so the destination holds their bytes one
after the other (`extract_paths_disagree_on_shared_destination`).
-/

namespace Mlar

open Path

/-! ## The model -/

/-- One iteration of the filtered loop below the output directory `root`. -/
def extractFileAt (matcher : ExtractFileNameMatcher) (root : Location) (mla : ArchiveReader)
    (fname : String) (fs : FileSystem) : Except Error Unit × FileSystem :=
  if matcher.matchFileName fname then
    match mla.found fname with
    | none => (.ok (), fs)
    | some subFile =>
        match destination root fname with
        | none => (.ok (), fs)
        | some dest =>
            match fs.createAt dest with
            | .error err => (.error (.ioError err), fs)
            | .ok created =>
                let written := created.set dest (.file subFile.data.bytes)
                match subFile.data.failure with
                | some err => (.error err, written)
                | none => (.ok (), written)
  else (.ok (), fs)

/-- The filtered loop below the output directory `root`: the first failure ends it. -/
def extractFilesAt (matcher : ExtractFileNameMatcher) (root : Location) (mla : ArchiveReader) :
    List String → FileSystem → Except Error Unit × FileSystem
  | [], fs => (.ok (), fs)
  | fname :: rest, fs =>
      match extractFileAt matcher root mla fname fs with
      | (.ok (), fs') => extractFilesAt matcher root mla rest fs'
      | (.error err, fs') => (.error err, fs')

/-- The first loop of the linear path below the output directory `root`: create the
destination of every entry and record it under the entry's name, a later record of a name
hiding an earlier one; the first failure ends it. -/
def exportAt (root : Location) :
    List (String × Location) → List String → FileSystem →
      Except Error (List (String × Location)) × FileSystem
  | exportMap, [], fs => (.ok exportMap, fs)
  | exportMap, fname :: rest, fs =>
      match destination root fname with
      | none => exportAt root exportMap rest fs
      | some dest =>
          match fs.createAt dest with
          | .error err => (.error (.ioError err), fs)
          | .ok created => exportAt root ((fname, dest) :: exportMap) rest created

/-- `linear_extract` over the recorded destinations: the bytes of each block are appended to
the destination of its entry; a damaged block or a failed write ends the pass. -/
def appendBlocksAt (exportMap : List (String × Location)) :
    List Block → FileSystem → Except Error Unit × FileSystem
  | [], fs => (.ok (), fs)
  | .damaged err :: _, fs => (.error err, fs)
  | .content name bytes :: rest, fs =>
      match exportMap.lookup name with
      | none => appendBlocksAt exportMap rest fs
      | some dest =>
          match fs.writeAt dest bytes with
          | .error err => (.error (.ioError err), fs)
          | .ok written => appendBlocksAt exportMap rest written

/-- What `extract` does to the tree once the output directory `root` is known and the entry
names are sorted. -/
def extractEntriesAt (matcher : ExtractFileNameMatcher) (root : Location) (mla : ArchiveReader)
    (names : List String) (fs : FileSystem) : Except Error Unit × FileSystem :=
  match matcher with
  | .anything =>
      match exportAt root [] names fs with
      | (.ok exportMap, fs') => appendBlocksAt exportMap mla.layout fs'
      | (.error err, fs') => (.error err, fs')
  | _ => extractFilesAt matcher root mla names fs

/-! ## The model keeps the output directory plain -/

theorem destination_eq_some {root : Location} {fname : String} {dest : Location}
    (hdest : destination root fname = some dest) :
    ∃ init last, entryNames fname = init ++ [last] ∧ dest = root ++ init ++ [last] := by
  unfold destination at hdest
  split_ifs at hdest with hdots hempty
  obtain ⟨init, last, hinit⟩ := List.eq_nil_or_concat (entryNames fname) |>.resolve_left hempty
  rw [List.concat_eq_append] at hinit
  cases hdest
  exact ⟨init, last, hinit, by rw [hinit, List.append_assoc]⟩

theorem destination_below_root {root : Location} {fname : String} {dest : Location}
    (hdest : destination root fname = some dest) : root <+: dest := by
  obtain ⟨init, last, -, rfl⟩ := destination_eq_some hdest
  rw [List.append_assoc]
  exact List.prefix_append _ _

theorem destination_ne_nil {root : Location} {fname : String} {dest : Location}
    (hdest : destination root fname = some dest) : dest ≠ [] := by
  obtain ⟨init, last, -, rfl⟩ := destination_eq_some hdest
  simp

/-- What extraction below the output directory `root` does to the tree, step after step:
the output directory stays plain, every node is kept, and nothing outside the output
directory changes. -/
structure Grows (root : Location) (fs fs' : FileSystem) : Prop where
  plain : fs'.PlainRoot root
  grows : fs.Extends fs'
  below : ∀ loc, ¬root <+: loc → fs' loc = fs loc

theorem Grows.refl {root : Location} {fs : FileSystem} (hplain : fs.PlainRoot root) :
    Grows root fs fs :=
  ⟨hplain, .refl _, fun _ _ => rfl⟩

theorem Grows.trans {root : Location} {fs fs' fs'' : FileSystem} (h : Grows root fs fs')
    (h' : Grows root fs' fs'') : Grows root fs fs'' :=
  ⟨h'.plain, h.grows.trans h'.grows, fun loc hloc => (h'.below loc hloc).trans (h.below loc hloc)⟩

section Plain

variable {fs : FileSystem} {root : Location} (hplain : fs.PlainRoot root)
include hplain

/-- A destination lies below the output directory on a way with no link, and is named by
plain names. -/
theorem FileSystem.PlainRoot.destination {fname : String} {dest : Location}
    (hdest : Mlar.destination root fname = some dest) :
    fs.NoLinksOn dest ∧ ∀ name ∈ dest, IsNormal name := by
  unfold Mlar.destination at hdest
  split_ifs at hdest
  cases hdest
  refine ⟨hplain.noLinksOn _, fun name hname => ?_⟩
  rcases List.mem_append.1 hname with h | h
  · exact hplain.names name h
  · exact entryNames_normal fname name h

/-- `createAt` on a destination grows the tree below the output directory, and leaves an
empty file there. -/
theorem FileSystem.PlainRoot.createAt {fname : String} {dest : Location} {created : FileSystem}
    (hdest : Mlar.destination root fname = some dest) (hok : fs.createAt dest = .ok created) :
    Grows root fs created ∧ created dest = some (.file []) := by
  obtain ⟨hlinks, hnames⟩ := hplain.destination hdest
  have hext := FileSystem.extends_createAt hplain.tree hlinks hok
  have hroot := destination_below_root hdest
  refine ⟨⟨hplain.of_extends hext (FileSystem.tree_createAt hplain.tree hlinks hnames hok), hext,
    fun loc hloc => ?_⟩, ?_⟩
  · rw [FileSystem.createAt_apply hplain.tree hok]
    split_ifs with hsame hmissing
    · exact absurd (hsame ▸ hroot) hloc
    · -- the directories made lie on the way to the destination, below the output directory
      have hpre := hmissing.1.trans (List.dropLast_prefix dest)
      rcases Nat.le_total loc.length root.length with hle | hle
      · exact absurd hmissing.2 (hplain.ne_none_of_prefix (List.prefix_of_prefix_length_le hpre hroot hle))
      · exact absurd (List.prefix_of_prefix_length_le hroot hpre hle) hloc
    · rfl
  · obtain ⟨-, -, -, rfl⟩ := FileSystem.createAt_eq_ok hplain.tree hok
    simp

/-- Writing a whole file below the output directory, where a file stands, grows the tree
below the output directory. -/
theorem FileSystem.PlainRoot.set_file {loc : Location} {old : List UInt8}
    (hfile : fs loc = some (.file old)) (hloc : root <+: loc) (data : List UInt8) :
    Grows root fs (fs.set loc (.file data)) := by
  have hext := FileSystem.extends_set_file (.inr ⟨old, hfile⟩) data
  exact ⟨hplain.of_extends hext (hplain.tree.set_file hfile data), hext,
    fun other hother => FileSystem.set_ne _ _ (fun h => hother (h ▸ hloc))⟩

theorem FileSystem.PlainRoot.extractFileAt (matcher : ExtractFileNameMatcher) (mla : ArchiveReader)
    (fname : String) : Grows root fs (Mlar.extractFileAt matcher root mla fname fs).2 := by
  unfold Mlar.extractFileAt
  by_cases hsel : matcher.matchFileName fname
  · simp only [hsel, if_true]
    cases mla.found fname with
    | none => exact .refl hplain
    | some subFile =>
        dsimp only
        cases hdest : Mlar.destination root fname with
        | none => exact .refl hplain
        | some dest =>
            dsimp only
            cases hok : fs.createAt dest with
            | error err => exact .refl hplain
            | ok created =>
                obtain ⟨hgrow, hfile⟩ := hplain.createAt hdest hok
                have hwrite := hgrow.plain.set_file hfile (destination_below_root hdest)
                  subFile.data.bytes
                dsimp only
                cases subFile.data.failure <;> exact hgrow.trans hwrite
  · simp only [hsel]
    exact .refl hplain

end Plain

theorem FileSystem.PlainRoot.extractFilesAt {fs : FileSystem} {root : Location}
    (hplain : fs.PlainRoot root) (matcher : ExtractFileNameMatcher) (mla : ArchiveReader)
    (names : List String) : Grows root fs (Mlar.extractFilesAt matcher root mla names fs).2 := by
  induction names generalizing fs with
  | nil => exact .refl hplain
  | cons fname rest ih =>
      have hgrow := hplain.extractFileAt matcher mla fname
      simp only [Mlar.extractFilesAt]
      split
      · rename_i fs' hstep
        rw [hstep] at hgrow
        exact hgrow.trans (ih hgrow.plain)
      · rename_i err fs' hstep
        rwa [hstep] at hgrow

/-- The writers `extract` hands to `linear_extract` for recorded destinations: each appends
to the path of its destination. -/
def writersOf (exportMap : List (String × Location)) : List (String × FileWriter) :=
  exportMap.map fun entry => (entry.1, ⟨entry.2.toPath⟩)

theorem lookup_writersOf (exportMap : List (String × Location)) (name : String) :
    (writersOf exportMap).lookup name = (exportMap.lookup name).map fun dest => ⟨dest.toPath⟩ := by
  induction exportMap with
  | nil => rfl
  | cons entry rest ih =>
      obtain ⟨key, dest⟩ := entry
      simp only [writersOf, List.map_cons, List.lookup_cons] at ih ⊢
      cases name == key
      · exact ih
      · rfl

theorem mem_of_lookup_eq_some {exportMap : List (String × Location)} {name : String}
    {dest : Location} (hlookup : exportMap.lookup name = some dest) : (name, dest) ∈ exportMap := by
  obtain ⟨before, after, rfl, -⟩ := List.lookup_eq_some_iff.1 hlookup
  simp

/-- Every recorded destination is the destination of its entry below `root`, and holds a
regular file. -/
def Recorded (root : Location) (fs : FileSystem) (exportMap : List (String × Location)) : Prop :=
  ∀ entry ∈ exportMap, destination root entry.1 = some entry.2 ∧ ∃ data, fs entry.2 = some (.file data)

theorem Recorded.of_extends {root : Location} {fs fs' : FileSystem}
    {exportMap : List (String × Location)} (hrec : Recorded root fs exportMap)
    (hext : fs.Extends fs') : Recorded root fs' exportMap :=
  fun entry hentry => ⟨(hrec entry hentry).1, hext.file _ _ (hrec entry hentry).2.choose_spec⟩

/-- The first loop of the linear path grows the tree below the output directory. -/
theorem FileSystem.PlainRoot.exportAt {fs : FileSystem} {root : Location}
    (hplain : fs.PlainRoot root) (exportMap : List (String × Location)) (names : List String) :
    Grows root fs (Mlar.exportAt root exportMap names fs).2 := by
  induction names generalizing exportMap fs with
  | nil => exact .refl hplain
  | cons fname rest ih =>
      unfold Mlar.exportAt
      cases hdest : Mlar.destination root fname with
      | none => exact ih hplain exportMap
      | some dest =>
          dsimp only
          cases hat : fs.createAt dest with
          | error err => exact .refl hplain
          | ok created =>
              have hgrow := (hplain.createAt hdest hat).1
              exact hgrow.trans (ih hgrow.plain ((fname, dest) :: exportMap))

/-- Every destination the first loop of the linear path has recorded holds an empty file
when it ends. -/
theorem exportAt_recorded {fs : FileSystem} {root : Location} (hplain : fs.PlainRoot root)
    {exportMap : List (String × Location)}
    (hrec : ∀ entry ∈ exportMap, destination root entry.1 = some entry.2 ∧ fs entry.2 = some (.file []))
    (names : List String) :
    ∀ exportMap', (exportAt root exportMap names fs).1 = .ok exportMap' →
      ∀ entry ∈ exportMap', destination root entry.1 = some entry.2 ∧
        (exportAt root exportMap names fs).2 entry.2 = some (.file []) := by
  intro exportMap' hok
  induction names generalizing exportMap fs with
  | nil => cases hok; exact hrec
  | cons fname rest ih =>
      unfold exportAt at hok ⊢
      cases hdest : destination root fname with
      | none => simp only [hdest] at hok ⊢; exact ih hplain hrec hok
      | some dest =>
          simp only [hdest] at hok ⊢
          cases hat : fs.createAt dest with
          | error err => simp [hat] at hok
          | ok created =>
              simp only [hat] at hok ⊢
              obtain ⟨hgrow, hfile⟩ := hplain.createAt hdest hat
              refine ih hgrow.plain (fun entry hentry => ?_) hok
              rcases List.mem_cons.1 hentry with rfl | hold
              · exact ⟨hdest, hfile⟩
              · obtain ⟨hname, hempty⟩ := hrec entry hold
                refine ⟨hname, ?_⟩
                rw [FileSystem.createAt_apply hplain.tree hat]
                split_ifs with hsame hmissing
                · rfl
                · rw [hempty] at hmissing
                  exact absurd hmissing.2 (by simp)
                · exact hempty

/-- The appending pass grows the tree below the output directory. -/
theorem FileSystem.PlainRoot.appendBlocksAt {fs : FileSystem} {root : Location}
    (hplain : fs.PlainRoot root) {exportMap : List (String × Location)}
    (hrec : Recorded root fs exportMap) (blocks : List Block) :
    Grows root fs (Mlar.appendBlocksAt exportMap blocks fs).2 := by
  induction blocks generalizing fs with
  | nil => exact .refl hplain
  | cons block rest ih =>
      cases block with
      | damaged err => exact .refl hplain
      | content name bytes =>
          unfold Mlar.appendBlocksAt
          cases hlookup : exportMap.lookup name with
          | none => exact ih hplain hrec
          | some dest =>
              obtain ⟨hdest, data, hdata⟩ := hrec _ (mem_of_lookup_eq_some hlookup)
              have hgrow := hplain.set_file hdata (destination_below_root hdest) (data ++ bytes)
              simp only [FileSystem.writeAt, hdata]
              exact hgrow.trans (ih hgrow.plain (hrec.of_extends hgrow.grows))

/-- `extract` grows the tree below the output directory, on either path. -/
theorem FileSystem.PlainRoot.extractEntriesAt {fs : FileSystem} {root : Location}
    (hplain : fs.PlainRoot root) (matcher : ExtractFileNameMatcher) (mla : ArchiveReader)
    (names : List String) : Grows root fs (Mlar.extractEntriesAt matcher root mla names fs).2 := by
  unfold Mlar.extractEntriesAt
  split
  · have hrec := exportAt_recorded hplain
      (fun entry (h : entry ∈ ([] : List (String × Location))) => by cases h) names
    have hgrow := hplain.exportAt [] names
    split
    · rename_i exportMap fs₁ hres
      rw [hres] at hgrow hrec
      have hrec₁ : Recorded root fs₁ exportMap := fun entry hentry =>
        ⟨(hrec exportMap rfl entry hentry).1, [], (hrec exportMap rfl entry hentry).2⟩
      exact hgrow.trans (hgrow.plain.appendBlocksAt hrec₁ mla.layout)
    · rename_i err fs₁ hres
      rwa [hres] at hgrow
  · exact hplain.extractFilesAt _ mla names

/-! ## The command computes the model -/

/-- Copying an entry into a file just emptied: the file holds the bytes the data yields, and
the copy returns the error that stopped the data, if any. -/
theorem copyToFile_empty {os : Os} {file : File} (hfile : os.fs file = some (.file []))
    (data : Stream) :
    copyToFile data file os =
      .ok (match data.failure with | some err => .error err | none => .ok ())
        { os with fs := os.fs.set file (.file data.bytes) } := by
  cases hfail : data.failure <;>
    simp [copyToFile, fileWrite, Io.change_apply, FileSystem.writeAt, hfile, hfail, Except.map]

section Refinement

variable {os : Os} {root : Location} (hplain : os.fs.PlainRoot root)
  (matcher : ExtractFileNameMatcher) (verbose : Bool) (mla : ArchiveReader)
include hplain

/-- One iteration of the filtered loop computes `extractFileAt`. -/
theorem extractFile_plain (fname : String) :
    Io.Yields (extractFile matcher root.toPath verbose mla fname os) os.cwd
      (extractFileAt matcher root mla fname os.fs) := by
  unfold extractFile extractFileAt
  by_cases hsel : matcher.matchFileName fname
  swap
  · simp only [hsel]
    exact ⟨os, rfl, rfl, rfl⟩
  simp only [hsel, if_true, ArchiveReader.found]
  cases hget : mla.getFile fname with
  | error err => simp [Io.Yields]
  | ok result =>
      cases result with
      | none => simp [Io.Yields]
      | some subFile =>
          obtain ⟨lines, hcreate⟩ := createFile_plain hplain fname
          dsimp only
          simp only [Io.bind_apply, hcreate]
          cases hdest : destination root fname with
          | none => simp [Io.Yields]
          | some dest =>
              dsimp only
              cases hat : os.fs.createAt dest with
              | error err => simp [Io.Yields, Except.map]
              | ok created =>
                  have hfile := (hplain.createAt hdest hat).2
                  cases verbose <;> cases hfail : subFile.data.failure <;>
                    simp [copyToFile_empty, hfile, hfail, Io.Yields]

/-- The filtered loop computes `extractFilesAt`. -/
theorem extractFiles_plain (names : List String) :
    Io.Yields (extractFiles matcher root.toPath verbose mla names os) os.cwd
      (extractFilesAt matcher root mla names os.fs) := by
  induction names generalizing os with
  | nil => exact ⟨os, rfl, rfl, rfl⟩
  | cons fname rest ih =>
      obtain ⟨os₁, hfs, hcwd, hstep⟩ := extractFile_plain hplain matcher verbose mla fname
      have hplain₁ := (hplain.extractFileAt matcher mla fname).plain
      simp only [extractFiles, extractFilesAt, Io.bind_apply, hstep]
      rcases hres : extractFileAt matcher root mla fname os.fs with ⟨_ | u, fs₁⟩
      · rw [hres] at hfs
        exact ⟨os₁, hfs, hcwd, rfl⟩
      · cases u
        rw [hres] at hfs hplain₁
        rw [← hfs] at hplain₁
        obtain ⟨os₂, hfs₂, hcwd₂, hrest⟩ := ih hplain₁
        rw [hfs] at hfs₂ hrest
        exact ⟨os₂, hfs₂, hcwd₂.trans hcwd, hrest⟩

/-- The first loop of the linear path computes `exportAt`, with a writer for each recorded
destination. -/
theorem exportWriters_plain (exportMap : List (String × Location)) (names : List String) :
    Io.Yields (exportWriters root.toPath (writersOf exportMap) names os) os.cwd
      ((exportAt root exportMap names os.fs).1.map writersOf,
        (exportAt root exportMap names os.fs).2) := by
  induction names generalizing exportMap os with
  | nil => exact ⟨os, rfl, rfl, rfl⟩
  | cons fname rest ih =>
      obtain ⟨lines, hcreate⟩ := createFile_plain hplain fname
      simp only [exportWriters, Io.bind_apply, hcreate]
      unfold exportAt
      cases hdest : destination root fname with
      | none =>
          exact ih (show ({ os with stderr := os.stderr ++ lines } : Os).fs.PlainRoot root
            from hplain) exportMap
      | some dest =>
          dsimp only
          cases hat : os.fs.createAt dest with
          | error err => simp [Io.Yields, Except.map]
          | ok created =>
              exact ih (show ({ os with fs := created, stderr := os.stderr ++ lines } : Os).fs.PlainRoot
                root from (hplain.createAt hdest hat).1.plain) ((fname, dest) :: exportMap)

/-- `linear_extract` with the writers of recorded destinations computes `appendBlocksAt`. -/
theorem linearExtractBlocks_plain {exportMap : List (String × Location)}
    (hrec : Recorded root os.fs exportMap) (blocks : List Block) :
    Io.Yields (linearExtractBlocks FileWriter.write (writersOf exportMap) blocks os) os.cwd
      (appendBlocksAt exportMap blocks os.fs) := by
  induction blocks generalizing os with
  | nil => exact ⟨os, rfl, rfl, rfl⟩
  | cons block rest ih =>
      cases block with
      | damaged err => simp [linearExtractBlocks, appendBlocksAt, Io.Yields]
      | content name bytes =>
          simp only [linearExtractBlocks, appendBlocksAt, lookup_writersOf]
          cases hlookup : exportMap.lookup name with
          | none => exact ih hplain hrec
          | some dest =>
              obtain ⟨hdest, data, hdata⟩ := hrec _ (mem_of_lookup_eq_some hlookup)
              obtain ⟨hlinks, hnames⟩ := hplain.destination hdest
              have happend := os.fs.appendWrite_absolute hplain.tree os.cwd hlinks hdata bytes
              have hgrow := hplain.set_file hdata (destination_below_root hdest) (data ++ bytes)
              simp only [Option.map_some', FileWriter.write, appendWrite, Io.bind_apply,
                Location.ending_toPath hnames (destination_ne_nil hdest), if_true,
                Io.change_apply, Location.components_toPath hnames, happend, Except.map,
                FileSystem.writeAt, hdata]
              exact ih (show ({ os with fs := os.fs.set dest (.file (data ++ bytes)) } : Os).fs.PlainRoot
                root from hgrow.plain) (hrec.of_extends hgrow.grows)

/-- The linear path computes `exportAt` followed by `appendBlocksAt` over the body of the
archive. -/
theorem linearPath_plain (names : List String) :
    Io.Yields ((exportWriters root.toPath [] names >>= linearExtract FileWriter.write mla) os)
      os.cwd
      (match exportAt root [] names os.fs with
        | (.ok exportMap, fs') => appendBlocksAt exportMap mla.layout fs'
        | (.error err, fs') => (.error err, fs')) := by
  obtain ⟨os₁, hfs, hcwd, hexport⟩ := exportWriters_plain hplain [] names
  change exportWriters root.toPath [] names os = _ at hexport
  have hplain₁ := (hplain.exportAt [] names).plain
  have hrec := exportAt_recorded hplain
    (fun entry (h : entry ∈ ([] : List (String × Location))) => by cases h) names
  rw [Io.bind_apply, hexport]
  rcases hres : exportAt root [] names os.fs with ⟨err | exportMap, fs₁⟩ <;>
    rw [hres] at hfs hplain₁ hrec
  · exact ⟨os₁, hfs, hcwd, rfl⟩
  · rw [← hfs] at hplain₁
    have hrec₁ : Recorded root os₁.fs exportMap := fun entry hentry => by
      obtain ⟨hdest, hempty⟩ := hrec exportMap rfl entry hentry
      exact ⟨hdest, [], by rw [hfs]; exact hempty⟩
    obtain ⟨os₂, hfs₂, hcwd₂, hblocks⟩ := linearExtractBlocks_plain hplain₁ hrec₁ mla.layout
    rw [hfs] at hfs₂ hblocks
    exact ⟨os₂, hfs₂, hcwd₂.trans hcwd, hblocks⟩

/-- `extractEntries_plain`: below a plain output directory, what `extract` does once the
output directory is canonical and the names are sorted is `extractEntriesAt`, on either
path. -/
theorem extractEntries_plain (names : List String) :
    Io.Yields (extractEntries matcher root.toPath verbose mla names os) os.cwd
      (extractEntriesAt matcher root mla names os.fs) := by
  cases matcher with
  | anything =>
      cases verbose
      · exact linearPath_plain hplain mla names
      · exact linearPath_plain (show ({ os with stdout := os.stdout ++
          ["Extracting the whole archive using a linear extraction"] } : Os).fs.PlainRoot root
          from hplain) mla names
  | files names' => exact extractFiles_plain hplain _ verbose mla names
  | globPatterns patterns => exact extractFiles_plain hplain _ verbose mla names

end Refinement

/-! ## Entries that share a destination -/

/-- The output root `/o`, empty. -/
def emptyRootTree : FileSystem := fun loc =>
  if loc = [] ∨ loc = [['o']] then some .dir else none

/-- The output root `/o` of `emptyRootTree` has no link below it. -/
theorem emptyRootTree_plainRoot : emptyRootTree.PlainRoot [['o']] := by
  refine ⟨⟨by simp [emptyRootTree], fun dir name hname => ?_, fun loc hloc name hmem => ?_⟩,
    by simp [emptyRootTree], fun loc target => ?_⟩
  · simp [emptyRootTree] at hname ⊢
    have hnil : dir = [] := by simpa using congrArg List.length hname
    exact fun hne => absurd hnil hne
  · simp [emptyRootTree] at hloc
    by_cases hnil : loc = []
    · simp [hnil] at hmem
    · rw [hloc hnil, List.mem_singleton] at hmem
      subst hmem
      decide
  · simp only [emptyRootTree]
    split_ifs <;> simp

/-- An archive with the entries `a` (the byte `1`) and `./a` (the byte `2`), stored in that
order. -/
def sharedArchive : ArchiveReader where
  listFiles := .ok ["a", "./a"]
  getFile name := .ok (some ⟨name, 1, ⟨if name = "a" then [1] else [2], none⟩⟩)
  layout := [.content "a" [1], .content "./a" [2]]

/-- Both names go to `/o/a`: the linear path leaves there the bytes of both entries. -/
theorem linear_extract_concatenates_shared_destination :
    getExtractedPath ['/', 'o'] "a" = some ['/', 'o', '/', 'a'] ∧
    getExtractedPath ['/', 'o'] "./a" = some ['/', 'o', '/', 'a'] ∧
    ∃ os', extract .anything ['/', 'o'] false sharedArchive ⟨emptyRootTree, [], [], [], []⟩ =
        .ok () os' ∧ os'.fs [['o'], ['a']] = some (.file [1, 2]) :=
  ⟨by decide, by decide, _, rfl, by decide⟩

/-- On the same archive the two paths disagree: the linear path leaves `[1, 2]` in `/o/a`,
the filtered loop with a matcher that selects every name leaves `[1]`. -/
theorem extract_paths_disagree_on_shared_destination :
    (∃ os', extract .anything ['/', 'o'] false sharedArchive ⟨emptyRootTree, [], [], [], []⟩ =
        .ok () os' ∧ os'.fs [['o'], ['a']] = some (.file [1, 2])) ∧
    (∃ os', extract (.files []) ['/', 'o'] false sharedArchive
        ⟨emptyRootTree, [], [], [], []⟩ = .ok () os' ∧
      os'.fs [['o'], ['a']] = some (.file [1])) :=
  ⟨⟨_, rfl, by decide⟩, ⟨_, rfl, by decide⟩⟩

end Mlar
