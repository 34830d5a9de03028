import Mlar.Extract.Command

/-!
# Extracting twice

Run a second time on the tree the first run left, `extract` does nothing new: it returns
what it returned the first time and leaves the same tree (`extract_idempotent`). Below the
output directory this is `extractEntriesAt_twice`; the second run's start then finds the
output directory the first run made or found, and only canonicalizes it.

The proof follows the two runs side by side. `Replays F s t` relates the first run's
filesystem `s` and the second run's `t` at the same point of the loop, `F` being where the
first run ended: `t` has the nodes of `F` and agrees with `F` wherever `s` already did. The
second run's `create_file` then finds every directory made and every destination a file,
so it only empties the destination as the first run did, and every write that follows is
the same. Where the first run stopped with an error it stood at `F` itself, so the second
run, which has the same nodes, stops there with the same error.
-/

namespace Mlar

open Path

namespace FileSystem

/-- Two filesystems with the same nodes, up to the bytes of their files. -/
def SameShape (fs fs' : FileSystem) : Prop :=
  fs.Extends fs' ∧ fs'.Extends fs

variable {fs fs' fs'' : FileSystem}

theorem SameShape.refl (fs : FileSystem) : fs.SameShape fs :=
  ⟨.refl _, .refl _⟩

theorem SameShape.symm (h : fs.SameShape fs') : fs'.SameShape fs :=
  ⟨h.2, h.1⟩

theorem SameShape.trans (h : fs.SameShape fs') (h' : fs'.SameShape fs'') : fs.SameShape fs'' :=
  ⟨h.1.trans h'.1, h'.2.trans h.2⟩

/-- A location holds a node in one filesystem exactly when it holds one in a filesystem of
the same shape. -/
theorem SameShape.none_iff (h : fs.SameShape fs') (loc : Location) :
    fs loc = none ↔ fs' loc = none :=
  not_iff_not.1 ⟨h.1.ne_none, h.2.ne_none⟩

theorem SameShape.isFileAt (h : fs.SameShape fs') (loc : Location) :
    fs.isFileAt loc = fs'.isFileAt loc := by
  have hside : ∀ {a b : FileSystem}, a.SameShape b → a.isFileAt loc = true →
      b.isFileAt loc = true := by
    intro a b hab hfile
    obtain ⟨data, hdata⟩ := isFileAt_iff.1 hfile
    exact isFileAt_iff.2 (hab.1.file _ data hdata)
  rcases hfile : fs.isFileAt loc
  · exact (Bool.eq_false_iff.2 fun h' => by simp [hside h.symm h'] at hfile).symm
  · exact (hside h hfile).symm

theorem SameShape.dir_iff (h : fs.SameShape fs') (loc : Location) :
    fs loc = some .dir ↔ fs' loc = some .dir :=
  ⟨h.1.dir loc, h.2.dir loc⟩

theorem SameShape.fileAbove_iff (h : fs.SameShape fs') (loc : Location) :
    fs.FileAbove loc ↔ fs'.FileAbove loc := by
  simp only [FileAbove, h.isFileAt]

theorem SameShape.tree (h : fs.SameShape fs') (htree : fs.Tree) : fs'.Tree where
  root := h.1.dir _ htree.root
  parent dir name hnode := h.1.dir _ (htree.parent dir name (by rwa [Ne, h.none_iff]))
  names loc hloc := htree.names loc (by rwa [Ne, h.none_iff])

/-- Where `create_file` fails, it fails alike in a filesystem of the same shape. -/
theorem SameShape.createAt_error (h : fs.SameShape fs') {dest : Location} {err : ErrorKind}
    (herr : fs.createAt dest = .error err) : fs'.createAt dest = .error err := by
  unfold createAt at herr ⊢
  simp only [← h.fileAbove_iff, ← h.dir_iff]
  split_ifs at herr ⊢ <;> exact herr

/-- Replacing the bytes of a file keeps the shape. -/
theorem sameShape_set_file {loc : Location} {data : List UInt8}
    (hfile : fs loc = some (.file data)) (data' : List UInt8) :
    fs.SameShape (fs.set loc (.file data')) := by
  refine ⟨extends_set_file (.inr ⟨data, hfile⟩) data', fun other h => ?_,
    fun other old h => ?_, fun other target => ?_⟩ <;>
    by_cases hother : other = loc <;> simp_all

/-! ## Two runs side by side -/

/-- Where the second run stands against the first at the same point: `s` is the first
run's filesystem there and `t` the second's, `F` being where the first run ended. `t` has
the nodes of `F`, and agrees with `F` wherever `s` already did. -/
structure Replays (F s t : FileSystem) : Prop where
  shape : t.SameShape F
  agree : ∀ loc, s loc = F loc → t loc = F loc

namespace Replays

variable {F s t : FileSystem}

/-- The second run starts where the first ended. -/
theorem start (F s : FileSystem) : Replays F s F :=
  ⟨.refl F, fun _ _ => rfl⟩

/-- Once the first run stands at its end, the second stands there too. -/
theorem final (h : Replays F F t) : t = F :=
  funext fun loc => h.agree loc rfl

/-- Directories the first run makes are already in the second run's tree. -/
theorem ensureDirs (h : Replays F s t) (loc : Location) : Replays F (s.ensureDirs loc) t := by
  refine ⟨h.shape, fun other hother => ?_⟩
  unfold FileSystem.ensureDirs at hother
  split_ifs at hother
  · rw [← hother]
    exact h.shape.2.dir _ hother.symm
  · exact h.agree other hother

/-- Both runs write the same bytes to a file. -/
theorem set_file (h : Replays F s t) {loc : Location} {old : List UInt8}
    (hfile : t loc = some (.file old)) (data : List UInt8) :
    Replays F (s.set loc (.file data)) (t.set loc (.file data)) := by
  refine ⟨(sameShape_set_file hfile data).symm.trans h.shape, fun other hother => ?_⟩
  by_cases hsame : other = loc
  · subst hsame
    simpa using hother
  · rw [set_ne _ _ hsame] at hother ⊢
    exact h.agree other hother

/-- Where the first run's `create_file` succeeds, and what it made is still there when it
ends, the second run's only empties the destination. -/
theorem createAt (h : Replays F s t) (htree : s.Tree) (htreeF : F.Tree) {dest : Location}
    {s' : FileSystem} (hok : s.createAt dest = .ok s') (hF : s'.Extends F) :
    t.createAt dest = .ok (t.set dest (.file [])) ∧ Replays F s' (t.set dest (.file [])) := by
  obtain ⟨-, -, hne, rfl⟩ := createAt_eq_ok htree hok
  have htreeT := h.shape.symm.tree htreeF
  obtain ⟨dataF, hdataF⟩ := hF.file _ _ (set_same _ _ _)
  obtain ⟨data, hdata⟩ := h.shape.2.file _ _ hdataF
  have hexists : t dest ≠ none := by simp [hdata]
  refine ⟨?_, (h.ensureDirs _).set_file hdata []⟩
  have hparent : t dest.dropLast ≠ none := by
    obtain ⟨parent, name, hsplit⟩ := List.eq_nil_or_concat dest |>.resolve_left hne
    rw [List.concat_eq_append] at hsplit
    subst hsplit
    simp [htreeT.parent parent name hexists]
  unfold FileSystem.createAt
  rw [if_neg (htreeT.not_fileAbove hexists), if_neg (by simp [hdata]),
    ensureDirs_of_exists htreeT hparent]

/-- Where the first run's `create_file` fails and the run ends there, the second run's fails
alike. -/
theorem createAt_error (h : Replays F F t) {dest : Location} {err : ErrorKind}
    (herr : F.createAt dest = .error err) : t.createAt dest = .error err :=
  h.shape.symm.createAt_error herr

end Replays

end FileSystem

/-! ## The loops, replayed -/

section Replay

open FileSystem

variable {F s t : FileSystem} {root : Location}

/-- One iteration of the filtered loop, replayed: it returns what the first run's returned,
and the runs stay related, provided what the first made is still there at its end and it
ends here when the iteration fails. -/
theorem extractFileAt_replays (hplain : s.PlainRoot root) (htreeF : F.Tree) (h : F.Replays s t)
    (matcher : ExtractFileNameMatcher) (mla : ArchiveReader) (fname : String)
    (hF : (extractFileAt matcher root mla fname s).2.Extends F)
    (hstop : ∀ err, (extractFileAt matcher root mla fname s).1 = .error err →
      (extractFileAt matcher root mla fname s).2 = F) :
    ∃ t', extractFileAt matcher root mla fname t = ((extractFileAt matcher root mla fname s).1, t') ∧
      F.Replays (extractFileAt matcher root mla fname s).2 t' := by
  unfold extractFileAt at hF hstop ⊢
  by_cases hsel : matcher.matchFileName fname
  swap
  · simp only [hsel] at hF hstop ⊢
    exact ⟨t, rfl, h⟩
  simp only [hsel, if_true] at hF hstop ⊢
  revert hF hstop
  cases mla.found fname with
  | none => exact fun _ _ => ⟨t, rfl, h⟩
  | some subFile =>
      dsimp only
      cases hdest : destination root fname with
      | none => exact fun _ _ => ⟨t, rfl, h⟩
      | some dest =>
          dsimp only
          cases hat : s.createAt dest with
          | error err =>
              intro _ hstop
              obtain rfl := hstop _ rfl
              exact ⟨t, by simp only [h.createAt_error hat], h⟩
          | ok created =>
              have hfile := (hplain.createAt hdest hat).2
              have hwritten := extends_set_file (.inr ⟨[], hfile⟩) subFile.data.bytes
              have key : (created.set dest (.file subFile.data.bytes)).Extends F →
                  t.createAt dest = .ok (t.set dest (.file [])) ∧
                    F.Replays (created.set dest (.file subFile.data.bytes))
                      ((t.set dest (.file [])).set dest (.file subFile.data.bytes)) := fun hF =>
                let ⟨htat, h'⟩ := h.createAt hplain.tree htreeF hat (hwritten.trans hF)
                ⟨htat, h'.set_file (set_same _ _ _) _⟩
              cases subFile.data.failure <;> dsimp only <;> intro hF _ <;>
                exact ⟨_, by rw [(key hF).1], (key hF).2⟩

/-- The filtered loop, replayed from a related point to its end, ends as the first run
did. -/
theorem extractFilesAt_replays (hplain : s.PlainRoot root) (htreeF : F.Tree)
    (h : F.Replays s t) (matcher : ExtractFileNameMatcher) (mla : ArchiveReader)
    (names : List String) (hF : (extractFilesAt matcher root mla names s).2 = F) :
    extractFilesAt matcher root mla names t = extractFilesAt matcher root mla names s := by
  induction names generalizing s t with
  | nil =>
      simp only [extractFilesAt] at hF ⊢
      subst hF
      rw [h.final]
  | cons fname rest ih =>
      have hplain₁ := (hplain.extractFileAt matcher mla fname).plain
      simp only [extractFilesAt] at hF ⊢
      rcases hres : extractFileAt matcher root mla fname s with ⟨err | u, s₁⟩ <;>
        rw [hres] at hF hplain₁
      · obtain ⟨t₁, ht, h₁⟩ := extractFileAt_replays hplain htreeF h matcher mla fname
          (by rw [hres]; exact hF ▸ .refl _) (fun _ _ => by rw [hres]; exact hF)
        rw [hres] at ht h₁
        dsimp only at hF
        subst hF
        rw [ht, h₁.final]
      · cases u
        have hext := (hplain₁.extractFilesAt matcher mla rest).grows
        rw [hF] at hext
        obtain ⟨t₁, ht, h₁⟩ := extractFileAt_replays hplain htreeF h matcher mla fname
          (by rw [hres]; exact hext) (fun _ herr => by rw [hres] at herr; cases herr)
        rw [hres] at ht h₁
        rw [ht]
        exact ih hplain₁ h₁ hF

/-- The first loop of the linear path, replayed: it records the same destinations and
returns what the first run's returned, and the runs stay related. -/
theorem exportAt_replays (hplain : s.PlainRoot root) (htreeF : F.Tree) (h : F.Replays s t)
    (exportMap : List (String × Location)) (names : List String)
    (hF : (exportAt root exportMap names s).2.Extends F)
    (hstop : ∀ err, (exportAt root exportMap names s).1 = .error err →
      (exportAt root exportMap names s).2 = F) :
    ∃ t', exportAt root exportMap names t = ((exportAt root exportMap names s).1, t') ∧
      F.Replays (exportAt root exportMap names s).2 t' := by
  induction names generalizing exportMap s t with
  | nil => exact ⟨t, rfl, h⟩
  | cons fname rest ih =>
      unfold exportAt at hF hstop ⊢
      cases hdest : destination root fname with
      | none =>
          simp only [hdest] at hF hstop ⊢
          exact ih hplain h exportMap hF hstop
      | some dest =>
          simp only [hdest] at hF hstop ⊢
          cases hat : s.createAt dest with
          | error err =>
              simp only [hat] at hstop ⊢
              obtain rfl := hstop _ rfl
              exact ⟨t, by rw [h.createAt_error hat], h⟩
          | ok created =>
              simp only [hat] at hF hstop ⊢
              have hplain' := (hplain.createAt hdest hat).1.plain
              obtain ⟨htat, h'⟩ := h.createAt hplain.tree htreeF hat
                ((hplain'.exportAt ((fname, dest) :: exportMap) rest).2.trans hF)
              rw [htat]
              exact ih hplain' h' _ hF hstop

/-- The appending pass, replayed from a related point where both runs hold the same bytes at
every recorded destination, ends as the first run did. -/
theorem appendBlocksAt_replays {exportMap : List (String × Location)}
    (hrec : Recorded root s exportMap) (hsame : ∀ entry ∈ exportMap, t entry.2 = s entry.2)
    (h : F.Replays s t) (blocks : List Block) (hF : (appendBlocksAt exportMap blocks s).2 = F) :
    appendBlocksAt exportMap blocks t = appendBlocksAt exportMap blocks s := by
  induction blocks generalizing s t with
  | nil =>
      simp only [appendBlocksAt] at hF ⊢
      subst hF
      rw [h.final]
  | cons block rest ih =>
      cases block with
      | damaged err =>
          simp only [appendBlocksAt] at hF ⊢
          subst hF
          rw [h.final]
      | content name bytes =>
          simp only [appendBlocksAt] at hF ⊢
          cases hlookup : exportMap.lookup name with
          | none =>
              simp only [hlookup] at hF ⊢
              exact ih hrec hsame h hF
          | some dest =>
              have hmem := mem_of_lookup_eq_some hlookup
              obtain ⟨-, data, hdata⟩ := hrec _ hmem
              have htdata : t dest = some (.file data) := (hsame _ hmem).trans hdata
              simp only [hlookup, writeAt, hdata, htdata] at hF ⊢
              refine ih (hrec.of_extends (extends_set_file (.inr ⟨data, hdata⟩) _))
                (fun entry hentry => ?_) (h.set_file htdata _) hF
              by_cases hat : entry.2 = dest
              · simp [hat]
              · simp only [set_ne _ _ hat]
                exact hsame entry hentry

end Replay

/-- `extractEntriesAt_twice`: below a plain output directory, extracting again on the tree an
extraction left ends as the first extraction did and changes nothing, on either path. -/
theorem extractEntriesAt_twice {fs : FileSystem} {root : Location} (hplain : fs.PlainRoot root)
    (matcher : ExtractFileNameMatcher) (mla : ArchiveReader) (names : List String) :
    extractEntriesAt matcher root mla names (extractEntriesAt matcher root mla names fs).2 =
      extractEntriesAt matcher root mla names fs := by
  have hplainF := (hplain.extractEntriesAt matcher mla names).plain
  generalize hF : (extractEntriesAt matcher root mla names fs).2 = F at hplainF ⊢
  have hstart := FileSystem.Replays.start F fs
  cases matcher with
  | files names' => exact extractFilesAt_replays hplain hplainF.tree hstart _ mla names hF
  | globPatterns patterns => exact extractFilesAt_replays hplain hplainF.tree hstart _ mla names hF
  | anything =>
      unfold extractEntriesAt at hF ⊢
      have hnil : ∀ entry ∈ ([] : List (String × Location)),
          destination root entry.1 = some entry.2 ∧ fs entry.2 = some (.file []) :=
        fun _ h => by cases h
      have hrec := exportAt_recorded hplain hnil names
      have hrecF := exportAt_recorded hplainF
        (fun entry (h : entry ∈ ([] : List (String × Location))) => by cases h) names
      have hplain₁ := (hplain.exportAt [] names).plain
      rcases hres : exportAt root [] names fs with ⟨err | exportMap, fs₁⟩ <;>
        rw [hres] at hF hrec hplain₁ <;> dsimp only at hF ⊢
      · subst hF
        obtain ⟨t₁, ht, h₁⟩ := exportAt_replays hplain hplainF.tree hstart [] names
          (by rw [hres]; exact .refl _) (fun _ _ => by rw [hres])
        rw [hres] at ht h₁
        rw [ht, h₁.final]
      · have hrec₁ : Recorded root fs₁ exportMap := fun entry hentry =>
          ⟨(hrec exportMap rfl entry hentry).1, [], (hrec exportMap rfl entry hentry).2⟩
        obtain ⟨t₁, ht, h₁⟩ := exportAt_replays hplain hplainF.tree hstart [] names
          (by rw [hres, ← hF]; exact (hplain₁.appendBlocksAt hrec₁ mla.layout).grows)
          (fun _ herr => by rw [hres] at herr; cases herr)
        rw [hres] at ht h₁
        rw [ht] at hrecF ⊢
        -- both runs hold an empty file at every recorded destination
        refine appendBlocksAt_replays hrec₁ (fun entry hentry => ?_) h₁ mla.layout hF
        exact (hrecF exportMap rfl entry hentry).2.trans (hrec exportMap rfl entry hentry).2.symm

/-- Run again on the tree a first run left, the whole command ends as the first run did. -/
theorem extractAt_twice {fs : FileSystem} {cwd : Location} {outputDir : List Char}
    (hstart : fs.PlainOutputDir cwd outputDir) (matcher : ExtractFileNameMatcher)
    (mla : ArchiveReader) :
    extractAt matcher outputDir mla cwd (extractAt matcher outputDir mla cwd fs).2 =
      extractAt matcher outputDir mla cwd fs := by
  rcases hstart.prepareAt with ⟨err, hprep⟩ | ⟨root, made, hprep, hroot, hgrow⟩
  · simp only [extractAt, hprep]
  have hplain := hgrow.plain
  have hres := resolvePath_mono hgrow.grows hroot
  -- the second run finds the output directory the first one made, and only canonicalizes it
  have hcheck := prepareAt_checkEnding hprep
  have hagain : ∀ F, made.Extends F → prepareAt F cwd outputDir = (.ok root, F) :=
    fun F hext => prepareAt_of_exists (resolvePath_mono hext hres) (checkEnding_mono hext hcheck)
      (hext.ne_none hplain.present)
  cases hfiles : mla.listFiles with
  | error err => simp only [extractAt, hprep, hfiles, hagain made (.refl _)]
  | ok files =>
      have hext := (hplain.extractEntriesAt matcher mla (sortNames files)).grows
      simp only [extractAt, hprep, hfiles] at hext ⊢
      rw [hagain _ hext]
      exact extractEntriesAt_twice hplain matcher mla _

end Mlar
