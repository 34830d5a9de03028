import Mlar.Extract.Failures

/-!
# What each destination holds

On the filtered path every selected entry empties its destination before its bytes are
copied there, so when the loop succeeds a destination holds the bytes of the last entry, in
name order, that leads there (`lastEntryAt`). On the linear path every destination is
emptied once, before any byte is written, and each block is then appended to the
destination of its entry, so a destination holds the bytes of every block of every entry
that leads there, in storage order (`linearBytesAt`). Distinct names with one destination
are where the two paths part: at a destination that one listed name alone leads to, both
paths leave the bytes the archive body stores for that name (`extractEntries_paths_agree`).
-/

namespace Mlar

open Path

/-! ## The filtered path -/

/-- The entry whose bytes the filtered loop leaves at `dest`: the last name, in loop order,
that the matcher selects, whose destination is `dest`, and that the archive has. -/
def lastEntryAt (matcher : ExtractFileNameMatcher) (root : Location) (mla : ArchiveReader)
    (names : List String) (dest : Location) : Option ArchiveFile :=
  (names.filterMap fun fname =>
    if matcher.matchFileName fname = true ∧ destination root fname = some dest then
      mla.found fname
    else none).getLast?

section Filtered

variable {matcher : ExtractFileNameMatcher} {root : Location} {mla : ArchiveReader}

/-- A step of the filtered loop that succeeds either skips a name that is not selected, that
the archive does not have or that has no destination, or empties the destination of a
selected entry and copies all its bytes there. -/
theorem extractFileAt_ok {fname : String} {fs F : FileSystem}
    (hok : extractFileAt matcher root mla fname fs = (.ok (), F)) :
    F = fs ∧ (matcher.matchFileName fname = false ∨ mla.found fname = none ∨
      destination root fname = none) ∨
    ∃ subFile dest created, matcher.matchFileName fname = true ∧
      mla.found fname = some subFile ∧ destination root fname = some dest ∧
      fs.createAt dest = .ok created ∧ subFile.data.failure = none ∧
      F = created.set dest (.file subFile.data.bytes) := by
  unfold extractFileAt at hok
  split_ifs at hok with hsel
  · cases hfound : mla.found fname with
    | none =>
        simp only [hfound, Prod.mk.injEq] at hok
        exact .inl ⟨hok.2.symm, .inr (.inl rfl)⟩
    | some subFile =>
        cases hdest : destination root fname with
        | none =>
            simp only [hfound, hdest, Prod.mk.injEq] at hok
            exact .inl ⟨hok.2.symm, .inr (.inr rfl)⟩
        | some dest =>
            cases hcreate : fs.createAt dest with
            | error err => simp [hfound, hdest, hcreate] at hok
            | ok created =>
                cases hfail : subFile.data.failure with
                | some err => simp [hfound, hdest, hcreate, hfail] at hok
                | none =>
                    simp only [hfound, hdest, hcreate, hfail, Prod.mk.injEq] at hok
                    exact .inr ⟨subFile, dest, created, hsel, rfl, rfl, hcreate, hfail, hok.2.symm⟩
  · simp only [Prod.mk.injEq] at hok
    exact .inl ⟨hok.2.symm, .inl (by simpa using hsel)⟩

theorem lastEntryAt_concat (names : List String) (fname : String) (dest : Location) :
    lastEntryAt matcher root mla (names ++ [fname]) dest =
      if matcher.matchFileName fname = true ∧ destination root fname = some dest then
        (mla.found fname).or (lastEntryAt matcher root mla names dest)
      else lastEntryAt matcher root mla names dest := by
  unfold lastEntryAt
  rw [List.filterMap_append, List.getLast?_append]
  simp only [List.filterMap_cons, List.filterMap_nil]
  split_ifs
  · cases mla.found fname <;> rfl
  · rfl

/-- `extractFilesAt_content`: when the filtered loop succeeds below a plain output directory,
each destination holds the bytes of the last selected entry that leads there. -/
theorem extractFilesAt_content {fs : FileSystem} (hplain : fs.PlainRoot root)
    (names : List String) {F : FileSystem}
    (hok : extractFilesAt matcher root mla names fs = (.ok (), F)) {dest : Location}
    {subFile : ArchiveFile} (hlast : lastEntryAt matcher root mla names dest = some subFile) :
    F dest = some (.file subFile.data.bytes) := by
  induction names using List.reverseRecOn generalizing F subFile with
  | nil => simp [lastEntryAt] at hlast
  | append_singleton init fname ih =>
      rw [extractFilesAt_append] at hok
      rcases hinit : extractFilesAt matcher root mla init fs with ⟨err | u, F₀⟩ <;>
        rw [hinit] at hok <;> dsimp only at hok
      · cases hok
      have hstep : extractFileAt matcher root mla fname F₀ = (.ok (), F) := by
        rwa [extractFilesAt_singleton] at hok
      have htree : F₀.Tree := by
        simpa [hinit] using (hplain.extractFilesAt matcher mla init).plain.tree
      rw [lastEntryAt_concat] at hlast
      by_cases hw : matcher.matchFileName fname = true ∧ destination root fname = some dest
      · rw [if_pos hw] at hlast
        cases hfound : mla.found fname with
        | none =>
            rw [hfound, Option.none_or] at hlast
            rw [extractFileAt_not_found matcher root mla hfound] at hstep
            cases hstep
            exact ih hinit hlast
        | some found =>
            rw [hfound, Option.or_some, Option.some.injEq] at hlast
            subst hlast
            -- the last entry that leads to `dest` empties it and writes its bytes there
            rcases extractFileAt_ok hstep with ⟨-, hskip⟩ | ⟨subFile, dest', created, -, hsub,
              hdest', -, -, rfl⟩
            · simp [hw.1, hw.2, hfound] at hskip
            · rw [hfound, Option.some.injEq] at hsub
              rw [hw.2, Option.some.injEq] at hdest'
              subst hsub hdest'
              simp
      · rw [if_neg hw] at hlast
        have hbefore := ih hinit hlast
        -- any other step leaves the file at `dest` alone
        rcases extractFileAt_ok hstep with ⟨rfl, -⟩ | ⟨subFile', dest', created, hsel, -, hdest',
          hcreate, -, rfl⟩
        · exact hbefore
        · have hne : dest ≠ dest' := fun h => hw ⟨hsel, h ▸ hdest'⟩
          rw [FileSystem.set_ne _ _ hne, FileSystem.createAt_apply htree hcreate, if_neg hne,
            hbefore]
          simp

end Filtered

/-- `extractEntries_filtered_content`: below a plain output directory, when the filtered path
succeeds, each destination holds the bytes of the last selected entry, in name order, that
leads there. -/
theorem extractEntries_filtered_content {os : Os} {root : Location}
    (hplain : os.fs.PlainRoot root) {matcher : ExtractFileNameMatcher}
    (hfiltered : matcher ≠ .anything) (verbose : Bool) (mla : ArchiveReader)
    (names : List String)
    (hok : Io.outcome (extractEntries matcher root.toPath verbose mla names os) = .ok ())
    {dest : Location} {subFile : ArchiveFile}
    (hlast : lastEntryAt matcher root mla names dest = some subFile) :
    (Io.final (extractEntries matcher root.toPath verbose mla names os)).fs dest =
      some (.file subFile.data.bytes) := by
  have hrun := extractEntries_plain hplain matcher verbose mla names
  rw [extractEntriesAt_filtered hfiltered] at hrun
  rw [hrun.outcome] at hok
  rw [hrun.final.1]
  rcases hres : extractFilesAt matcher root mla names os.fs with ⟨err | u, F⟩ <;>
    rw [hres] at hok
  · cases hok
  · exact extractFilesAt_content hplain names hres hlast

/-- The names `./a` and `a`, in name order, both lead to `/o/a`; the filtered loop leaves there
the byte of `a`. -/
theorem extractEntries_filtered_content_shared :
    emptyRootTree.PlainRoot [['o']] ∧ (ExtractFileNameMatcher.files []) ≠ .anything ∧
    Io.outcome (extractEntries (.files []) (Location.toPath [['o']]) false sharedArchive
      ["./a", "a"] ⟨emptyRootTree, [], [], [], []⟩) = .ok () ∧
    lastEntryAt (.files []) [['o']] sharedArchive ["./a", "a"] [['o'], ['a']] =
      some ⟨"a", 1, ⟨[1], none⟩⟩ ∧
    (Io.final (extractEntries (.files []) (Location.toPath [['o']]) false sharedArchive
      ["./a", "a"] ⟨emptyRootTree, [], [], [], []⟩)).fs [['o'], ['a']] = some (.file [1]) :=
  ⟨emptyRootTree_plainRoot, (fun h => by cases h), rfl, rfl,
    @extractEntries_filtered_content ⟨emptyRootTree, [], [], [], []⟩ _ emptyRootTree_plainRoot
      (.files []) (fun h => by cases h) false sharedArchive ["./a", "a"] rfl [['o'], ['a']]
      ⟨"a", 1, ⟨[1], none⟩⟩ rfl⟩

/-! ## The linear path -/

/-- The destination the linear path records for a name: its destination, if it is listed. -/
def listedDestination (root : Location) (names : List String) (name : String) :
    Option Location :=
  if name ∈ names then destination root name else none

/-- The bytes the appending pass adds at `dest`: those of every block, in storage order,
whose entry `owner` sends to `dest`. -/
def linearBytesAt (owner : String → Option Location) (blocks : List Block) (dest : Location) :
    List UInt8 :=
  blocks.flatMap fun
    | .content name bytes => if owner name = some dest then bytes else []
    | .damaged _ => []

/-- The map the first loop of the linear path builds sends each listed name to its
destination, and any other name where the map it started from did. -/
theorem exportAt_lookup (root : Location) :
    ∀ (names : List String) (exportMap : List (String × Location)) (fs : FileSystem)
      {exportMap' : List (String × Location)},
      (exportAt root exportMap names fs).1 = .ok exportMap' → ∀ name,
        exportMap'.lookup name = (listedDestination root names name).or (exportMap.lookup name)
  | [], exportMap, fs, _, hok, name => by
      cases hok
      simp [listedDestination]
  | fname :: rest, exportMap, fs, exportMap', hok, name => by
      unfold exportAt at hok
      cases hdest : destination root fname with
      | none =>
          rw [hdest] at hok
          rw [exportAt_lookup root rest exportMap fs hok name]
          by_cases hname : name = fname
          · subst hname
            simp [listedDestination, hdest]
          · simp [listedDestination, hname]
      | some dest =>
          rw [hdest] at hok
          dsimp only at hok
          cases hcreate : fs.createAt dest with
          | error err =>
              rw [hcreate] at hok
              cases hok
          | ok created =>
              rw [hcreate] at hok
              rw [exportAt_lookup root rest _ created hok name]
              by_cases hname : name = fname
              · subst hname
                have hlisted : ∀ names, name ∈ names → listedDestination root names name = some dest :=
                  fun names hmem => by simp [listedDestination, hmem, hdest]
                rw [hlisted _ (List.mem_cons_self name rest), Option.or_some]
                by_cases hrest : name ∈ rest
                · rw [hlisted _ hrest, Option.or_some]
                · simp [listedDestination, hrest, List.lookup_cons]
              · simp [listedDestination, hname, List.lookup_cons, beq_false_of_ne hname]

/-- `writeAt` succeeds on a regular file, and appends there. -/
theorem writeAt_eq_ok {fs written : FileSystem} {loc : Location} {bytes : List UInt8}
    (hok : fs.writeAt loc bytes = .ok written) :
    ∃ data, fs loc = some (.file data) ∧ written = fs.set loc (.file (data ++ bytes)) := by
  unfold FileSystem.writeAt at hok
  split at hok
  · cases hok
    exact ⟨_, ‹_›, rfl⟩
  · cases hok
  · cases hok

/-- When the appending pass succeeds, a file holds what it held and then the bytes of every
block whose entry the map sends there. -/
theorem appendBlocksAt_content {exportMap : List (String × Location)} :
    ∀ (blocks : List Block) {fs F : FileSystem}, appendBlocksAt exportMap blocks fs = (.ok (), F) →
      ∀ {dest : Location} {data : List UInt8}, fs dest = some (.file data) →
        F dest = some (.file (data ++ linearBytesAt exportMap.lookup blocks dest))
  | [], fs, F, hok, dest, data, hdata => by
      cases hok
      simpa [linearBytesAt] using hdata
  | .damaged err :: rest, fs, F, hok, dest, data, hdata => by
      cases hok
  | .content name bytes :: rest, fs, F, hok, dest, data, hdata => by
      simp only [appendBlocksAt] at hok
      cases hlookup : exportMap.lookup name with
      | none =>
          rw [hlookup] at hok
          rw [appendBlocksAt_content rest hok hdata]
          simp [linearBytesAt, hlookup]
      | some dest' =>
          rw [hlookup] at hok
          dsimp only at hok
          cases hwrite : fs.writeAt dest' bytes with
          | error err =>
              rw [hwrite] at hok
              cases hok
          | ok written =>
              rw [hwrite] at hok
              obtain ⟨data', hdata', rfl⟩ := writeAt_eq_ok hwrite
              by_cases hsame : dest = dest'
              · -- the block is appended at `dest`
                subst hsame
                rw [hdata, Option.some.injEq, Node.file.injEq] at hdata'
                subst hdata'
                rw [appendBlocksAt_content rest hok (FileSystem.set_same _ _ _)]
                simp [linearBytesAt, hlookup]
              · rw [appendBlocksAt_content rest hok (by rw [FileSystem.set_ne _ _ hsame]; exact hdata)]
                simp [linearBytesAt, hlookup, Ne.symm hsame]


/-- `extractEntriesAt_linear_content`: when the linear path succeeds below a plain output
directory, the destination of a listed entry holds the bytes of every block, in storage
order, whose entry is listed and leads to the same destination. -/
theorem extractEntriesAt_linear_content {fs : FileSystem} {root : Location}
    (hplain : fs.PlainRoot root) (mla : ArchiveReader) (names : List String) {F : FileSystem}
    (hok : extractEntriesAt .anything root mla names fs = (.ok (), F)) {fname : String}
    {dest : Location} (hname : fname ∈ names) (hdest : destination root fname = some dest) :
    F dest = some (.file (linearBytesAt (listedDestination root names) mla.layout dest)) := by
  unfold extractEntriesAt at hok
  rcases hres : exportAt root [] names fs with ⟨err | exportMap, fs₁⟩ <;>
    rw [hres] at hok <;> dsimp only at hok
  · cases hok
  have hlookup : exportMap.lookup = listedDestination root names := funext fun name => by
    rw [exportAt_lookup root names [] fs (by rw [hres]) name]
    simp
  -- the first loop left an empty file at the destination
  have hempty := exportAt_recorded hplain
    (fun entry (h : entry ∈ ([] : List (String × Location))) => by cases h) names exportMap
    (by rw [hres]) (fname, dest)
    (mem_of_lookup_eq_some ((congrFun hlookup fname).trans (by simp [listedDestination, hname, hdest])))
  rw [hres] at hempty
  have hbytes := appendBlocksAt_content mla.layout hok (show fs₁ dest = some (.file []) from hempty.2)
  rwa [hlookup, List.nil_append] at hbytes

/-- `extractEntries_linear_content`: below a plain output directory, when the linear path
succeeds, the destination of a listed entry holds the bytes of every block, in storage
order, of every listed entry that leads there. -/
theorem extractEntries_linear_content {os : Os} {root : Location} (hplain : os.fs.PlainRoot root)
    (verbose : Bool) (mla : ArchiveReader) (names : List String)
    (hok : Io.outcome (extractEntries .anything root.toPath verbose mla names os) = .ok ())
    {fname : String} {dest : Location} (hname : fname ∈ names)
    (hdest : destination root fname = some dest) :
    (Io.final (extractEntries .anything root.toPath verbose mla names os)).fs dest =
      some (.file (linearBytesAt (listedDestination root names) mla.layout dest)) := by
  have hrun := extractEntries_plain hplain .anything verbose mla names
  rw [hrun.outcome] at hok
  rw [hrun.final.1]
  rcases hres : extractEntriesAt .anything root mla names os.fs with ⟨err | u, F⟩ <;>
    rw [hres] at hok
  · cases hok
  · exact extractEntriesAt_linear_content hplain mla names hres hname hdest

/-- The names `./a` and `a` both lead to `/o/a`; the linear path leaves there the bytes of
both entries' blocks. -/
theorem extractEntries_linear_content_shared :
    emptyRootTree.PlainRoot [['o']] ∧
    Io.outcome (extractEntries .anything (Location.toPath [['o']]) false sharedArchive
      ["./a", "a"] ⟨emptyRootTree, [], [], [], []⟩) = .ok () ∧
    "a" ∈ ["./a", "a"] ∧ destination [['o']] "a" = some [['o'], ['a']] ∧
    (Io.final (extractEntries .anything (Location.toPath [['o']]) false sharedArchive
      ["./a", "a"] ⟨emptyRootTree, [], [], [], []⟩)).fs [['o'], ['a']] =
      some (.file (linearBytesAt (listedDestination [['o']] ["./a", "a"]) sharedArchive.layout
        [['o'], ['a']])) :=
  ⟨emptyRootTree_plainRoot, rfl, .tail _ (.head _), rfl,
    @extractEntries_linear_content ⟨emptyRootTree, [], [], [], []⟩ _ emptyRootTree_plainRoot false
      sharedArchive ["./a", "a"] rfl "a" [['o'], ['a']] (.tail _ (.head _)) rfl⟩

/-! ## Where the two paths agree -/

/-- The bytes the archive body stores for the entry `name`, in storage order. -/
def storedBytes (blocks : List Block) (name : String) : List UInt8 :=
  blocks.flatMap fun
    | .content other bytes => if other = name then bytes else []
    | .damaged _ => []

section Unique

variable {root : Location} {names : List String} {fname : String} {dest : Location}
  (hname : fname ∈ names) (hdest : destination root fname = some dest)
  (hunique : ∀ other ∈ names, destination root other = some dest → other = fname)
include hname hdest hunique

/-- When `fname` is the only listed name that leads to `dest`, the linear path appends there
the stored bytes of `fname` alone. -/
theorem linearBytesAt_unique (blocks : List Block) :
    linearBytesAt (listedDestination root names) blocks dest = storedBytes blocks fname := by
  have howner : ∀ other, listedDestination root names other = some dest ↔ other = fname := by
    intro other
    constructor
    · intro hother
      unfold listedDestination at hother
      split_ifs at hother with hmem
      exact hunique other hmem hother
    · rintro rfl
      simp [listedDestination, hname, hdest]
  unfold linearBytesAt storedBytes
  congr 1
  funext block
  cases block with
  | content other bytes => simp only [howner]
  | damaged err => rfl

/-- When `fname` is the only listed name that leads to `dest`, and the matcher selects it,
the filtered loop leaves there the entry the archive has for `fname`. -/
theorem lastEntryAt_unique {matcher : ExtractFileNameMatcher} {mla : ArchiveReader}
    (hsel : matcher.matchFileName fname = true) {subFile : ArchiveFile}
    (hfound : mla.found fname = some subFile) :
    lastEntryAt matcher root mla names dest = some subFile := by
  induction names using List.reverseRecOn with
  | nil => cases hname
  | append_singleton init other ih =>
      rw [lastEntryAt_concat]
      by_cases hother : other = fname
      · subst hother
        simp [hsel, hdest, hfound]
      · have hinit : fname ∈ init := by
          rcases List.mem_append.1 hname with h | h
          · exact h
          · exact absurd (List.mem_singleton.1 h).symm hother
        rw [if_neg fun hw => hother (hunique other (by simp) hw.2)]
        exact ih hinit (fun o ho => hunique o (List.mem_append_left _ ho))

end Unique

/-- `extractEntries_paths_agree`: below a plain output directory, when both paths succeed,
they leave the same bytes at the destination of a selected entry that no other listed name
shares, provided the archive body stores the entry's data. -/
theorem extractEntries_paths_agree {os : Os} {root : Location} (hplain : os.fs.PlainRoot root)
    {matcher : ExtractFileNameMatcher} (hfiltered : matcher ≠ .anything) (verbose : Bool)
    (mla : ArchiveReader) (names : List String)
    (hlinearOk : Io.outcome (extractEntries .anything root.toPath verbose mla names os) = .ok ())
    (hfilteredOk : Io.outcome (extractEntries matcher root.toPath verbose mla names os) = .ok ())
    {fname : String} {dest : Location} (hname : fname ∈ names)
    (hsel : matcher.matchFileName fname = true) (hdest : destination root fname = some dest)
    (hunique : ∀ other ∈ names, destination root other = some dest → other = fname)
    {subFile : ArchiveFile} (hfound : mla.found fname = some subFile)
    (hstored : subFile.data.bytes = storedBytes mla.layout fname) :
    (Io.final (extractEntries .anything root.toPath verbose mla names os)).fs dest =
      (Io.final (extractEntries matcher root.toPath verbose mla names os)).fs dest := by
  have hlinear := extractEntries_plain hplain .anything verbose mla names
  have hfilter := extractEntries_plain hplain matcher verbose mla names
  rw [extractEntriesAt_filtered hfiltered] at hfilter
  rw [hlinear.outcome] at hlinearOk
  rw [hfilter.outcome] at hfilteredOk
  rw [hlinear.final.1, hfilter.final.1]
  rcases hres : extractEntriesAt .anything root mla names os.fs with ⟨err | u, F⟩ <;>
    rw [hres] at hlinearOk
  · cases hlinearOk
  rcases hres' : extractFilesAt matcher root mla names os.fs with ⟨err | u', F'⟩ <;>
    rw [hres'] at hfilteredOk
  · cases hfilteredOk
  dsimp only
  rw [extractEntriesAt_linear_content hplain mla names hres hname hdest,
    linearBytesAt_unique hname hdest hunique, ← hstored,
    extractFilesAt_content hplain names hres' (lastEntryAt_unique hname hdest hunique hsel hfound)]

/-- The entries `c` and `zz` lead to distinct destinations below `/o`; both paths leave the
same bytes at `/o/c`. -/
theorem extractEntries_paths_agree_distinct :
    emptyRootTree.PlainRoot [['o']] ∧ (ExtractFileNameMatcher.files []) ≠ .anything ∧
    Io.outcome (extractEntries .anything (Location.toPath [['o']]) false
      (byteArchive ["c", "zz"]) ["c", "zz"] ⟨emptyRootTree, [], [], [], []⟩) = .ok () ∧
    Io.outcome (extractEntries (.files []) (Location.toPath [['o']]) false
      (byteArchive ["c", "zz"]) ["c", "zz"] ⟨emptyRootTree, [], [], [], []⟩) = .ok () ∧
    "c" ∈ ["c", "zz"] ∧ (ExtractFileNameMatcher.files []).matchFileName "c" = true ∧
    destination [['o']] "c" = some [['o'], ['c']] ∧
    (∀ other ∈ ["c", "zz"], destination [['o']] other = some [['o'], ['c']] → other = "c") ∧
    (byteArchive ["c", "zz"]).found "c" = some ⟨"c", 1, ⟨[7], none⟩⟩ ∧
    [7] = storedBytes (byteArchive ["c", "zz"]).layout "c" ∧
    (Io.final (extractEntries .anything (Location.toPath [['o']]) false
      (byteArchive ["c", "zz"]) ["c", "zz"] ⟨emptyRootTree, [], [], [], []⟩)).fs [['o'], ['c']] =
      (Io.final (extractEntries (.files []) (Location.toPath [['o']]) false
        (byteArchive ["c", "zz"]) ["c", "zz"] ⟨emptyRootTree, [], [], [], []⟩)).fs [['o'], ['c']] := by
  have hunique : ∀ other ∈ ["c", "zz"], destination [['o']] other = some [['o'], ['c']] →
      other = "c" := by decide
  exact ⟨emptyRootTree_plainRoot, (fun h => by cases h), rfl, rfl, .head _, rfl, rfl, hunique, rfl,
    rfl, @extractEntries_paths_agree ⟨emptyRootTree, [], [], [], []⟩ _ emptyRootTree_plainRoot
      (.files []) (fun h => by cases h) false (byteArchive ["c", "zz"]) ["c", "zz"] rfl rfl "c"
      [['o'], ['c']] (.head _) rfl rfl hunique ⟨"c", 1, ⟨[7], none⟩⟩ rfl rfl⟩

end Mlar
