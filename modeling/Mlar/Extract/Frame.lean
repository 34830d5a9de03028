import Mlar.Extract.Command

/-!
# What `extract` touches

Below an output directory with no link at or below it, `extract` makes or changes nothing but
what its entries call for: a location whose node differs after the run is the output
directory itself, or lies on the way from it to the destination of an entry that the index
lists and the matcher selects, that destination included
(`extract_touches_only_destinations`). No other file or directory is made, emptied or written,
whether the command succeeds or fails; and nothing is removed: directories stay directories,
files stay files, and no link is made or removed (`extract_keeps_every_node`).

Each step says what it may change as `ChangesOnly S fs fs'`: `create_file` (`createAt`)
changes only locations on the way to its destination, a write only the file it writes, and
`create_dir` only the directory it makes; the loops collect the destinations of the names
they handle.
-/

namespace Mlar

open Path

namespace FileSystem

/-- `fs'` differs from `fs` only at locations of `S`. -/
def ChangesOnly (S : Location → Prop) (fs fs' : FileSystem) : Prop :=
  ∀ loc, fs' loc ≠ fs loc → S loc

variable {S T : Location → Prop} {fs fs' fs'' : FileSystem}

theorem ChangesOnly.refl (S : Location → Prop) (fs : FileSystem) : ChangesOnly S fs fs :=
  fun _ hne => absurd rfl hne

theorem ChangesOnly.trans (h : ChangesOnly S fs fs') (h' : ChangesOnly S fs' fs'') :
    ChangesOnly S fs fs'' := fun loc hne => by
  by_cases hmid : fs' loc = fs loc
  · exact h' loc (by rwa [hmid])
  · exact h loc hmid

theorem ChangesOnly.mono (h : ChangesOnly S fs fs') (hST : ∀ loc, S loc → T loc) :
    ChangesOnly T fs fs' :=
  fun loc hne => hST loc (h loc hne)

/-- Replacing one node changes that location only. -/
theorem changesOnly_set (loc : Location) (node : Node) :
    ChangesOnly (· <+: loc) fs (fs.set loc node) := fun other hne => by
  by_cases hother : other = loc
  · exact hother ▸ List.prefix_refl _
  · exact absurd (set_ne fs node hother) hne

/-- A write changes the file it writes only. -/
theorem changesOnly_writeAt {loc : Location} {bytes : List UInt8}
    (hok : fs.writeAt loc bytes = .ok fs') : ChangesOnly (· <+: loc) fs fs' := by
  unfold writeAt at hok
  split at hok <;> cases hok
  exact changesOnly_set loc _

/-- `create_file` changes only locations on the way to its destination: the directories it
makes and the destination itself. -/
theorem changesOnly_createAt (htree : fs.Tree) {dest : Location}
    (hok : fs.createAt dest = .ok fs') : ChangesOnly (· <+: dest) fs fs' := fun loc hne => by
  rw [createAt_apply htree hok] at hne
  split_ifs at hne with hdest hmissing
  · exact hdest ▸ List.prefix_refl _
  · exact hmissing.1.trans dest.dropLast_prefix
  · exact absurd rfl hne

end FileSystem

open FileSystem

/-- The locations on the way from the output directory `root` to the destination of a name
of `names` that the matcher selects, that destination included. -/
def OnTheWay (matcher : ExtractFileNameMatcher) (root : Location) (names : List String)
    (loc : Location) : Prop :=
  ∃ name ∈ names, matcher.matchFileName name = true ∧
    ∃ dest, destination root name = some dest ∧ loc <+: dest

theorem OnTheWay.mono {matcher : ExtractFileNameMatcher} {root : Location}
    {names names' : List String} (hsub : names ⊆ names') {loc : Location}
    (h : OnTheWay matcher root names loc) : OnTheWay matcher root names' loc :=
  let ⟨name, hmem, hsel, hdest⟩ := h
  ⟨name, hsub hmem, hsel, hdest⟩

/-! ## The steps and the loops -/

section Loops

variable (matcher : ExtractFileNameMatcher) {root : Location} (mla : ArchiveReader)

/-- One iteration of the filtered loop changes only locations on the way to the destination
of its name. -/
theorem extractFileAt_changesOnly {fs : FileSystem} (htree : fs.Tree) (fname : String) :
    ChangesOnly (OnTheWay matcher root [fname]) fs (extractFileAt matcher root mla fname fs).2 := by
  unfold extractFileAt
  split_ifs with hsel
  swap
  · exact .refl _ fs
  cases mla.found fname with
  | none => exact .refl _ fs
  | some subFile =>
      cases hdest : destination root fname with
      | none => exact .refl _ fs
      | some dest =>
          dsimp only
          cases hat : fs.createAt dest with
          | error err => exact .refl _ fs
          | ok created =>
              have hchange : ChangesOnly (· <+: dest) fs
                  (created.set dest (.file subFile.data.bytes)) :=
                (changesOnly_createAt htree hat).trans (changesOnly_set dest _)
              have hon : ∀ loc, loc <+: dest → OnTheWay matcher root [fname] loc :=
                fun loc hloc => ⟨fname, List.mem_singleton_self _, hsel, dest, hdest, hloc⟩
              cases subFile.data.failure <;> exact hchange.mono hon

/-- The filtered loop changes only locations on the way to the destinations of the names it
selects. -/
theorem extractFilesAt_changesOnly (names : List String) :
    ∀ {fs : FileSystem}, fs.PlainRoot root →
      ChangesOnly (OnTheWay matcher root names) fs (extractFilesAt matcher root mla names fs).2 := by
  induction names with
  | nil => exact fun {fs} _ => .refl _ fs
  | cons fname rest ih =>
      intro fs hplain
      have hstep : ChangesOnly (OnTheWay matcher root (fname :: rest)) fs
          (extractFileAt matcher root mla fname fs).2 :=
        (extractFileAt_changesOnly matcher mla hplain.tree fname).mono
          fun _ => OnTheWay.mono (List.singleton_sublist.2 (List.mem_cons_self _ _)).subset
      have hplain' := (hplain.extractFileAt matcher mla fname).plain
      unfold extractFilesAt
      rcases hres : extractFileAt matcher root mla fname fs with ⟨err | u, F⟩ <;>
        rw [hres] at hstep hplain' <;> dsimp only
      · exact hstep
      · exact hstep.trans ((ih hplain').mono fun _ =>
          OnTheWay.mono (List.subset_cons_self _ _))

/-- The first loop of the linear path changes only locations on the way to the destinations
of the names it handles. -/
theorem exportAt_changesOnly (names : List String) :
    ∀ {fs : FileSystem} (exportMap : List (String × Location)), fs.PlainRoot root →
      ChangesOnly (OnTheWay .anything root names) fs (exportAt root exportMap names fs).2 := by
  induction names with
  | nil => exact fun {fs} _ _ => .refl _ fs
  | cons fname rest ih =>
      intro fs exportMap hplain
      have hrest : ∀ {fs'}, fs'.PlainRoot root → ∀ exportMap',
          ChangesOnly (OnTheWay .anything root (fname :: rest)) fs'
            (exportAt root exportMap' rest fs').2 := fun hplain' exportMap' =>
        (ih exportMap' hplain').mono fun _ => OnTheWay.mono (List.subset_cons_self _ _)
      unfold exportAt
      cases hdest : destination root fname with
      | none => exact hrest hplain exportMap
      | some dest =>
          dsimp only
          cases hat : fs.createAt dest with
          | error err => exact .refl _ fs
          | ok created =>
              refine ((changesOnly_createAt hplain.tree hat).mono fun loc hloc => ?_).trans
                (hrest (hplain.createAt hdest hat).1.plain _)
              exact ⟨fname, List.mem_cons_self _ _, rfl, dest, hdest, hloc⟩

/-- Every destination the first loop of the linear path records is the destination of one
of its names. -/
theorem exportAt_entries (names : List String) :
    ∀ {fs : FileSystem} {exportMap exportMap' : List (String × Location)},
      (exportAt root exportMap names fs).1 = .ok exportMap' → ∀ entry ∈ exportMap',
        entry ∈ exportMap ∨ entry.1 ∈ names ∧ destination root entry.1 = some entry.2 := by
  induction names with
  | nil => intro fs exportMap exportMap' hok entry hentry; cases hok; exact .inl hentry
  | cons fname rest ih =>
      intro fs exportMap exportMap' hok entry hentry
      unfold exportAt at hok
      cases hdest : destination root fname with
      | none =>
          rw [hdest] at hok
          exact (ih hok entry hentry).imp_right fun h => ⟨List.mem_cons_of_mem _ h.1, h.2⟩
      | some dest =>
          rw [hdest] at hok
          dsimp only at hok
          cases hat : fs.createAt dest with
          | error err => rw [hat] at hok; cases hok
          | ok created =>
              rw [hat] at hok
              rcases ih hok entry hentry with hold | ⟨hmem, hname⟩
              · rcases List.mem_cons.1 hold with rfl | hold
                · exact .inr ⟨List.mem_cons_self _ _, hdest⟩
                · exact .inl hold
              · exact .inr ⟨List.mem_cons_of_mem _ hmem, hname⟩

/-- The appending pass writes only the recorded destinations. -/
theorem appendBlocksAt_changesOnly (exportMap : List (String × Location)) (blocks : List Block) :
    ∀ {fs : FileSystem}, ChangesOnly (fun loc => ∃ entry ∈ exportMap, loc <+: entry.2) fs
      (appendBlocksAt exportMap blocks fs).2 := by
  induction blocks with
  | nil => exact fun {fs} => .refl _ fs
  | cons block rest ih =>
      intro fs
      cases block with
      | damaged err => exact .refl _ fs
      | content name bytes =>
          unfold appendBlocksAt
          cases hlookup : exportMap.lookup name with
          | none => exact ih
          | some dest =>
              dsimp only
              cases hwrite : fs.writeAt dest bytes with
              | error err => exact .refl _ fs
              | ok written =>
                  refine ((changesOnly_writeAt hwrite).mono fun loc hloc => ?_).trans ih
                  exact ⟨(name, dest), mem_of_lookup_eq_some hlookup, hloc⟩

/-- Below the output directory, once the names are sorted, either path of `extract` changes
only locations on the way to the destinations of the names the matcher selects. -/
theorem extractEntriesAt_changesOnly {fs : FileSystem} (hplain : fs.PlainRoot root)
    (names : List String) :
    ChangesOnly (OnTheWay matcher root names) fs (extractEntriesAt matcher root mla names fs).2 := by
  cases matcher with
  | files fileNames => exact extractFilesAt_changesOnly _ mla names hplain
  | globPatterns patterns => exact extractFilesAt_changesOnly _ mla names hplain
  | anything =>
      have hexport : ChangesOnly (OnTheWay .anything root names) fs (exportAt root [] names fs).2 :=
        exportAt_changesOnly names [] hplain
      unfold extractEntriesAt
      rcases hres : exportAt root [] names fs with ⟨err | exportMap, F⟩ <;>
        rw [hres] at hexport <;> dsimp only
      · exact hexport
      · refine hexport.trans ((appendBlocksAt_changesOnly exportMap mla.layout).mono ?_)
        rintro loc ⟨entry, hentry, hloc⟩
        rcases exportAt_entries names (by rw [hres]) entry hentry with hnil | ⟨hmem, hdest⟩
        · cases hnil
        · exact ⟨entry.1, hmem, rfl, entry.2, hdest, hloc⟩

end Loops

/-! ## The command -/

/-- From a plain start, the whole of `extract` on the tree makes or changes nothing but the
output directory and the locations on the way to the destinations of the listed names the
matcher selects. -/
theorem extractAt_changesOnly {fs : FileSystem} {cwd : Location}
    {outputDir : List Char} (hstart : fs.PlainOutputDir cwd outputDir)
    (matcher : ExtractFileNameMatcher) (mla : ArchiveReader) {loc : Location}
    (hchanged : (extractAt matcher outputDir mla cwd fs).2 loc ≠ fs loc) :
    ∃ root, fs.resolvePath cwd (components outputDir) true = .ok root ∧
      (loc = root ∨ ∃ files, mla.listFiles = .ok files ∧ OnTheWay matcher root files loc) := by
  rcases hstart.prepareAt with ⟨err, hprep⟩ | ⟨root, made, hprep, hres, hgrow⟩
  · rw [extractAt, hprep] at hchanged
    exact absurd rfl hchanged
  refine ⟨root, hres, ?_⟩
  -- the start makes at most the output directory itself
  have hmade : ChangesOnly (· = root) fs made := by
    rcases prepareAt_cases fs cwd outputDir with
      ⟨err, hprep'⟩ | ⟨root', -, -, hprep'⟩ | ⟨root', -, -, -, hprep'⟩ <;>
      rw [hprep] at hprep' <;> cases hprep'
    · exact .refl _ fs
    · exact fun loc hne => by
        by_cases hloc : loc = root
        · exact hloc
        · exact absurd (set_ne fs .dir hloc) hne
  rw [extractAt, hprep] at hchanged
  dsimp only at hchanged
  cases hfiles : mla.listFiles with
  | error err =>
      rw [hfiles] at hchanged
      exact .inl (hmade loc hchanged)
  | ok files =>
      rw [hfiles] at hchanged
      have hentries := extractEntriesAt_changesOnly matcher mla hgrow.plain (sortNames files)
      have hrun : ChangesOnly (fun loc => loc = root ∨ OnTheWay matcher root files loc) fs
          (extractEntriesAt matcher root mla (sortNames files) made).2 :=
        (hmade.mono fun _ => .inl).trans (hentries.mono fun _ hon =>
          .inr (OnTheWay.mono (fun _ => (sortNames_perm files).mem_iff.1) hon))
      exact (hrun loc hchanged).imp_right fun hon => ⟨files, rfl, hon⟩

/-- `extract_touches_only_destinations`: with no link at or below where the output directory
leads, a location whose node `extract` changes, whether it succeeds or fails, lies at or below
the output directory, and is the output directory itself or lies on the way to the destination
of an entry that the index lists and the matcher selects, that destination included. -/
theorem extract_touches_only_destinations {os : Os} {outputDir : List Char}
    (hstart : os.fs.PlainOutputDir os.cwd outputDir) (matcher : ExtractFileNameMatcher)
    (verbose : Bool) (mla : ArchiveReader) {loc : Location}
    (hchanged : (Io.final (extract matcher outputDir verbose mla os)).fs loc ≠ os.fs loc) :
    ∃ root, os.fs.resolvePath os.cwd (components outputDir) true = .ok root ∧ root <+: loc ∧
      (loc = root ∨ ∃ files, mla.listFiles = .ok files ∧ ∃ name ∈ files,
        matcher.matchFileName name = true ∧
        ∃ dest, destination root name = some dest ∧ loc <+: dest) := by
  rw [(extract_plain hstart matcher verbose mla).final.1] at hchanged
  obtain ⟨root, hres, hbelow⟩ := hstart.extractAt_below matcher mla hchanged
  obtain ⟨root', hres', hon⟩ := extractAt_changesOnly hstart matcher mla hchanged
  rw [hres] at hres'
  cases hres'
  exact ⟨root, hres, hbelow, hon⟩

/-- Extracting into the empty output directory `/o` the archive whose two entries share
`/o/a` changes `/o/a`: the destination of the entry `a`, which the index lists. -/
theorem extract_touches_only_destinations_shared :
    emptyRootTree.PlainOutputDir [] ['/', 'o'] ∧
    (Io.final (extract .anything ['/', 'o'] false sharedArchive
        ⟨emptyRootTree, [], [], [], []⟩)).fs [['o'], ['a']] ≠ emptyRootTree [['o'], ['a']] ∧
    ∃ root, emptyRootTree.resolvePath [] (components ['/', 'o']) true = .ok root ∧
      root <+: [['o'], ['a']] ∧
      ([['o'], ['a']] = root ∨ ∃ files, sharedArchive.listFiles = .ok files ∧ ∃ name ∈ files,
        ExtractFileNameMatcher.anything.matchFileName name = true ∧
        ∃ dest, destination root name = some dest ∧ [['o'], ['a']] <+: dest) := by
  have hchanged : (Io.final (extract .anything ['/', 'o'] false sharedArchive
      ⟨emptyRootTree, [], [], [], []⟩)).fs [['o'], ['a']] ≠ emptyRootTree [['o'], ['a']] := by
    decide
  exact ⟨emptyRootTree_plainOutputDir, hchanged,
    @extract_touches_only_destinations ⟨emptyRootTree, [], [], [], []⟩ _
      emptyRootTree_plainOutputDir .anything false sharedArchive _ hchanged⟩

/-- From a plain start, the whole of `extract` on the tree keeps every node. -/
theorem extractAt_extends {fs : FileSystem} {cwd : Location} {outputDir : List Char}
    (hstart : fs.PlainOutputDir cwd outputDir) (matcher : ExtractFileNameMatcher)
    (mla : ArchiveReader) : fs.Extends (extractAt matcher outputDir mla cwd fs).2 := by
  unfold extractAt
  rcases hstart.prepareAt with ⟨err, hprep⟩ | ⟨root, made, hprep, -, hgrow⟩ <;> rw [hprep]
  · exact .refl fs
  · dsimp only
    cases mla.listFiles with
    | error err => exact hgrow.grows
    | ok files => exact (hgrow.trans (hgrow.plain.extractEntriesAt matcher mla (sortNames files))).grows

/-- `extract_keeps_every_node`: with no link at or below where the output directory leads,
`extract`, whether it succeeds or fails, removes nothing: every directory stays a directory,
every regular file stays a regular file (only its bytes may change), and no symbolic link is
made or removed. -/
theorem extract_keeps_every_node {os : Os} {outputDir : List Char}
    (hstart : os.fs.PlainOutputDir os.cwd outputDir) (matcher : ExtractFileNameMatcher)
    (verbose : Bool) (mla : ArchiveReader) :
    os.fs.Extends (Io.final (extract matcher outputDir verbose mla os)).fs := by
  rw [(extract_plain hstart matcher verbose mla).final.1]
  exact extractAt_extends hstart matcher mla

/-- Extracting the archive whose two entries share `/o/a` into the empty `/o` keeps `/` and
`/o`. -/
theorem extract_keeps_every_node_shared :
    emptyRootTree.PlainOutputDir [] ['/', 'o'] ∧
    emptyRootTree.Extends (Io.final (extract .anything ['/', 'o'] false sharedArchive
      ⟨emptyRootTree, [], [], [], []⟩)).fs :=
  ⟨emptyRootTree_plainOutputDir, @extract_keeps_every_node ⟨emptyRootTree, [], [], [], []⟩ _
    emptyRootTree_plainOutputDir .anything false sharedArchive⟩

end Mlar
