import Mlar.Fs.Resolve

/-!
# Paths with no link on the way

Where no symbolic link stands on the way down to a location, resolving its absolute path is
a plain walk down its names, `walkDown`, and in a tree the walk is decided by what stands
above the location: it fails on the first regular file, stops short on the first missing
directory, and otherwise reaches the location (`walkDown_eq`).

On such paths `create_dir_all` makes exactly the missing directories (`createDirAll_absolute`),
and what `create_file` does to its destination is `createAt`: it fails when a regular file
stands where a directory is needed or when the destination is a directory, and otherwise
makes the missing directories above the destination and an empty file there.
-/

namespace Mlar

open Path

namespace FileSystem

/-- No link stands at `loc` or on the way down to it. -/
def NoLinksOn (fs : FileSystem) (loc : Location) : Prop :=
  ∀ pre, pre <+: loc → ∀ target, fs pre ≠ some (.symlink target)

/-- No link stands at `root` or anywhere below it. -/
def NoLinksBelow (fs : FileSystem) (root : Location) : Prop :=
  ∀ loc target, fs (root ++ loc) ≠ some (.symlink target)

/-- A regular file is at `loc`. -/
def isFileAt (fs : FileSystem) (loc : Location) : Bool :=
  match fs loc with
  | some (.file _) => true
  | _ => false

/-- Every location above `loc` is a directory. -/
def DirsAbove (fs : FileSystem) (loc : Location) : Prop :=
  ∀ k < loc.length, fs (loc.take k) = some .dir

/-- A regular file stands above `loc`, where a directory is needed. -/
def FileAbove (fs : FileSystem) (loc : Location) : Prop :=
  ∃ k < loc.length, fs.isFileAt (loc.take k) = true

instance (fs : FileSystem) (loc : Location) : Decidable (fs.DirsAbove loc) :=
  @Nat.decidableBallLT loc.length (fun k _ => fs (loc.take k) = some .dir) _

instance (fs : FileSystem) (loc : Location) : Decidable (fs.FileAbove loc) :=
  @Nat.decidableExistsLT (fun k => fs.isFileAt (loc.take k) = true) _ loc.length

/-- The walk down `names` from `dir` where no link stands on the way: every name but the
last must be a directory, and the last may be anything. -/
def walkDown (fs : FileSystem) : Location → List (List Char) → Except ErrorKind Location
  | dir, [] => .ok dir
  | dir, [name] => .ok (dir ++ [name])
  | dir, name :: next :: rest =>
      match fs (dir ++ [name]) with
      | some .dir => walkDown fs (dir ++ [name]) (next :: rest)
      | some (.file _) => .error .notADirectory
      | _ => .error .notFound

/-- `fs` with a directory made at every missing location on the way down to `loc`, `loc`
included. -/
def ensureDirs (fs : FileSystem) (loc : Location) : FileSystem :=
  fun other => if other <+: loc ∧ fs other = none then some .dir else fs other

/-- What `create_file` does to its destination `dest` when no link stands on the way: it
fails when a regular file stands where a directory is needed or when the destination is a
directory, and otherwise makes the missing directories above `dest` and an empty file at
`dest`, replacing the file there if there is one. -/
def createAt (fs : FileSystem) (dest : Location) : Except ErrorKind FileSystem :=
  if fs.FileAbove dest then .error .notADirectory
  else if fs dest = some .dir then .error .isADirectory
  else .ok ((fs.ensureDirs dest.dropLast).set dest (.file []))

/-! ## What stands above a location -/

variable {fs : FileSystem}

theorem isFileAt_iff {loc : Location} : fs.isFileAt loc = true ↔ ∃ data, fs loc = some (.file data) := by
  unfold isFileAt
  split <;> simp_all

@[simp]
theorem fileAbove_nil : ¬fs.FileAbove [] := by
  simp [FileAbove]

@[simp]
theorem dirsAbove_nil : fs.DirsAbove [] := by
  simp [DirsAbove]

theorem fileAbove_concat {loc : Location} {name : List Char} :
    fs.FileAbove (loc ++ [name]) ↔ fs.FileAbove loc ∨ fs.isFileAt loc = true := by
  constructor
  · rintro ⟨k, hk, hfile⟩
    rcases Nat.lt_or_ge k loc.length with hlt | hge
    · exact .inl ⟨k, hlt, by rwa [List.take_append_of_le_length hlt.le] at hfile⟩
    · have hk' : k = loc.length := by simp at hk; omega
      subst hk'
      exact .inr (by simpa using hfile)
  · rintro (⟨k, hk, hfile⟩ | hfile)
    · exact ⟨k, by simp; omega, by rwa [List.take_append_of_le_length hk.le]⟩
    · exact ⟨loc.length, by simp, by simpa using hfile⟩

theorem dirsAbove_concat {loc : Location} {name : List Char} :
    fs.DirsAbove (loc ++ [name]) ↔ fs.DirsAbove loc ∧ fs loc = some .dir := by
  constructor
  · intro hdirs
    refine ⟨fun k hk => ?_, by simpa using hdirs loc.length (by simp)⟩
    simpa [List.take_append_of_le_length hk.le] using hdirs k (by simp; omega)
  · rintro ⟨hdirs, hloc⟩ k hk
    rcases Nat.lt_or_ge k loc.length with hlt | hge
    · rw [List.take_append_of_le_length hlt.le]
      exact hdirs k hlt
    · have hk' : k = loc.length := by simp at hk; omega
      subst hk'
      simpa using hloc

/-- Above a node of a tree there are only directories. -/
theorem Tree.dirsAbove (htree : fs.Tree) {loc : Location} (hloc : fs loc ≠ none) :
    fs.DirsAbove loc :=
  fun _ hk => htree.dir_take hloc hk

theorem Tree.not_fileAbove (htree : fs.Tree) {loc : Location} (hloc : fs loc ≠ none) :
    ¬fs.FileAbove loc := by
  rintro ⟨k, hk, hfile⟩
  simp [isFileAt, htree.dir_take hloc hk] at hfile

/-! ## The walk -/

/-- Walking down a name after a walk: a walk to `loc ++ [name]` goes through `loc`. -/
theorem walkDown_concat (dir : Location) {names : List (List Char)} (hnames : names ≠ [])
    (name : List Char) :
    fs.walkDown dir (names ++ [name]) =
      match fs.walkDown dir names with
      | .ok loc =>
          match fs loc with
          | some .dir => .ok (loc ++ [name])
          | some (.file _) => .error .notADirectory
          | _ => .error .notFound
      | .error err => .error err := by
  induction names generalizing dir with
  | nil => exact absurd rfl hnames
  | cons first rest ih =>
      cases rest with
      | nil =>
          simp only [List.singleton_append, walkDown]
      | cons second rest =>
          simp only [List.cons_append, walkDown]
          split
          · simpa using ih (dir ++ [first]) (by simp)
          · rfl
          · rfl

/-- `walkDown_eq`: in a tree, the walk to a location fails on the first regular file above
it, stops short on the first missing directory above it, and otherwise reaches it. -/
theorem walkDown_eq (htree : fs.Tree) (loc : Location) :
    fs.walkDown [] loc =
      if fs.FileAbove loc then .error .notADirectory
      else if fs.DirsAbove loc then .ok loc
      else .error .notFound := by
  induction loc using List.reverseRecOn with
  | nil => simp [walkDown]
  | append_singleton parent name ih =>
      rcases List.eq_nil_or_concat parent with rfl | ⟨grand, last, rfl⟩
      · have hfile : ¬fs.FileAbove [name] := fun ⟨k, hk, hfile⟩ => by
          simp [show k = 0 by simpa using hk, isFileAt, htree.root] at hfile
        have hdirs : fs.DirsAbove [name] := fun k hk => by
          simp [show k = 0 by simpa using hk, htree.root]
        simp [walkDown, hfile, hdirs]
      rw [List.concat_eq_append] at ih ⊢
      rw [walkDown_concat [] (by simp), ih]
      simp only [@fileAbove_concat fs (grand ++ [last]) name, @dirsAbove_concat fs (grand ++ [last]) name]
      by_cases hfile : fs.FileAbove (grand ++ [last])
      · simp [hfile]
      by_cases hdirs : fs.DirsAbove (grand ++ [last])
      · cases hnode : fs (grand ++ [last]) with
        | none => simp [hfile, hdirs, hnode, isFileAt]
        | some node => cases node <;> simp [hfile, hdirs, hnode, isFileAt]
      · have hnone : fs (grand ++ [last]) = none := by
          by_contra hsome
          exact hdirs (htree.dirsAbove hsome)
        simp [hfile, hdirs, hnone, isFileAt]

/-- A location of a tree that exists is reached. -/
theorem walkDown_of_exists (htree : fs.Tree) {loc : Location} (hloc : fs loc ≠ none) :
    fs.walkDown [] loc = .ok loc := by
  rw [walkDown_eq htree, if_neg (htree.not_fileAbove hloc), if_pos (htree.dirsAbove hloc)]

/-- Where no link stands on the way, resolution is the walk down the names. -/
theorem lookupStep_walkDown (follow : Location → List Component → Except ErrorKind Location)
    (last : Bool) (dir : Location) (names : List (List Char))
    (hlinks : ∀ pre, pre <+: names → ∀ target, fs (dir ++ pre) ≠ some (.symlink target)) :
    lookupStep fs follow last dir (names.map .normal) = fs.walkDown dir names := by
  induction names generalizing dir with
  | nil => rfl
  | cons name rest ih =>
      have hlink : ∀ target, fs (dir ++ [name]) ≠ some (.symlink target) :=
        hlinks [name] (List.prefix_append [name] rest)
      have hrest : ∀ pre, pre <+: rest → ∀ target,
          fs ((dir ++ [name]) ++ pre) ≠ some (.symlink target) := fun pre hpre => by
        simpa using hlinks (name :: pre) (List.cons_prefix_cons.2 ⟨rfl, hpre⟩)
      cases rest with
      | nil =>
          cases hnode : fs (dir ++ [name]) with
          | none => simp [lookupStep, walkDown, hnode]
          | some node =>
              cases node with
              | symlink target => exact absurd hnode (hlink target)
              | _ => simp [lookupStep, walkDown, hnode]
      | cons next rest =>
          cases hnode : fs (dir ++ [name]) with
          | none => simp [lookupStep, walkDown, hnode]
          | some node =>
              cases node with
              | dir => simpa [lookupStep, walkDown, hnode] using ih _ hrest
              | file data => simp [lookupStep, walkDown, hnode]
              | symlink target => exact absurd hnode (hlink target)

/-- `resolvePath_absolute`: an absolute path with no link on the way resolves by the walk
down its names. -/
theorem resolvePath_absolute (cwd : Location) {loc : Location} (hlinks : fs.NoLinksOn loc)
    (last : Bool) :
    fs.resolvePath cwd (.rootDir :: loc.map .normal) last = fs.walkDown [] loc := by
  show lookupStep fs (resolve fs last 39) last cwd (.rootDir :: loc.map .normal) = _
  exact lookupStep_walkDown _ last [] loc fun pre hpre => by simpa using hlinks pre hpre

/-! ## The calls on absolute paths with no link on the way -/

section Calls

variable (htree : fs.Tree) (cwd : Location) {loc : Location} (hlinks : fs.NoLinksOn loc)
include htree hlinks

/-- `stat` finds the node at the location, if there is one. -/
theorem stat_absolute (node : Node) :
    fs.stat cwd (.rootDir :: loc.map .normal) = .ok node ↔ fs loc = some node := by
  unfold stat
  rw [resolvePath_absolute cwd hlinks]
  constructor
  · intro hstat
    rw [walkDown_eq htree] at hstat
    split_ifs at hstat
    simp_all
    split at hstat <;> simp_all
  · intro hnode
    rw [walkDown_of_exists htree (by simp [hnode])]
    simp [hnode]

theorem pathExists_absolute :
    fs.pathExists cwd (.rootDir :: loc.map .normal) = (fs loc).isSome := by
  unfold pathExists
  cases hnode : fs loc with
  | none =>
      split
      · rename_i node hstat
        simp [(stat_absolute htree cwd hlinks node).1 hstat] at hnode
      · rfl
  | some node => simp [(stat_absolute htree cwd hlinks node).2 hnode]

theorem isDir_absolute :
    fs.isDir cwd (.rootDir :: loc.map .normal) = decide (fs loc = some .dir) := by
  unfold isDir
  split
  · rename_i hstat
    simp [(stat_absolute htree cwd hlinks _).1 hstat]
  · rename_i hother
    cases hstat : fs.stat cwd (.rootDir :: loc.map .normal) with
    | error err =>
        cases hdir : fs loc with
        | none => rfl
        | some node =>
            simp [(stat_absolute htree cwd hlinks node).2 hdir] at hstat
    | ok node =>
        have hnode := (stat_absolute htree cwd hlinks node).1 hstat
        cases node <;> simp_all

theorem canonicalize_absolute (hloc : fs loc ≠ none) :
    fs.canonicalize cwd (.rootDir :: loc.map .normal) = .ok loc := by
  unfold canonicalize
  rw [resolvePath_absolute cwd hlinks, walkDown_of_exists htree hloc]
  obtain ⟨node, hnode⟩ := Option.ne_none_iff_exists'.1 hloc
  simp [hnode]

theorem mkdir_absolute :
    fs.mkdir cwd (.rootDir :: loc.map .normal) =
      if fs.FileAbove loc then .error .notADirectory
      else if fs.DirsAbove loc then
        if fs loc = none then .ok (fs.set loc .dir) else .error .alreadyExists
      else .error .notFound := by
  unfold mkdir
  rw [resolvePath_absolute cwd hlinks, walkDown_eq htree]
  split_ifs <;> simp_all
  split <;> simp_all

/-- `File::create` on an absolute path with no link on the way. -/
theorem openCreate_absolute :
    fs.openCreate cwd (.rootDir :: loc.map .normal) =
      if fs.FileAbove loc then .error .notADirectory
      else if fs.DirsAbove loc then
        if fs loc = some .dir then .error .isADirectory else .ok (loc, fs.set loc (.file []))
      else .error .notFound := by
  have hlink : ∀ target, fs loc ≠ some (.symlink target) := hlinks loc List.prefix_rfl
  unfold openCreate
  rw [resolvePath_absolute cwd hlinks, walkDown_eq htree]
  split_ifs <;> simp_all

/-- An append to an existing file with no link on the way adds the bytes at its end. -/
theorem appendWrite_absolute {data : List UInt8} (hfile : fs loc = some (.file data))
    (bytes : List UInt8) :
    fs.appendWrite cwd (.rootDir :: loc.map .normal) bytes =
      .ok (fs.set loc (.file (data ++ bytes))) := by
  unfold appendWrite
  rw [resolvePath_absolute cwd hlinks, walkDown_of_exists htree (by simp [hfile])]
  simp [writeAt, hfile]

end Calls

/-! ## Making the missing directories -/

theorem extends_ensureDirs (loc : Location) : fs.Extends (fs.ensureDirs loc) := by
  refine ⟨fun other h => ?_, fun other data h => ⟨data, by simp [ensureDirs, h]⟩,
    fun other target => ?_⟩
  · simp [ensureDirs, h]
  · unfold ensureDirs
    split_ifs with h <;> simp_all

theorem ensureDirs_nil (htree : fs.Tree) : fs.ensureDirs [] = fs := by
  funext other
  unfold ensureDirs
  split_ifs with h
  · obtain ⟨hpre, hnone⟩ := h
    rw [List.prefix_nil.1 hpre, htree.root] at hnone
    cases hnone
  · rfl

theorem not_concat_prefix (loc : Location) (name : List Char) : ¬(loc ++ [name] <+: loc) :=
  fun h => by
    have hlen := h.length_le
    simp only [List.length_append, List.length_singleton] at hlen
    omega

theorem ensureDirs_concat (loc : Location) (name : List Char) :
    fs.ensureDirs (loc ++ [name]) =
      if fs (loc ++ [name]) = none then (fs.ensureDirs loc).set (loc ++ [name]) .dir
      else fs.ensureDirs loc := by
  funext other
  by_cases hother : other = loc ++ [name]
  · subst hother
    split_ifs with hnone
    · simp [ensureDirs, hnone]
    · simp [ensureDirs, hnone, not_concat_prefix]
  · have hiff : other <+: loc ++ [name] ↔ other <+: loc := by
      simp [List.prefix_concat_iff, hother]
    split_ifs <;> simp [ensureDirs, hiff, set_ne _ _ hother]

/-- Nothing is made on the way to a node of a tree. -/
theorem ensureDirs_of_exists (htree : fs.Tree) {loc : Location} (hloc : fs loc ≠ none) :
    fs.ensureDirs loc = fs := by
  funext other
  unfold ensureDirs
  split_ifs with h
  · obtain ⟨hpre, hnone⟩ := h
    rw [List.prefix_iff_eq_take] at hpre
    rcases Nat.lt_or_ge other.length loc.length with hlt | hge
    · rw [hpre] at hnone
      simp [htree.dir_take hloc hlt] at hnone
    · rw [hpre, List.take_of_length_le hge] at hnone
      exact absurd hnone hloc
  · rfl

/-- Making the missing directories above no file and no link keeps the tree. -/
theorem tree_ensureDirs (htree : fs.Tree) {loc : Location} (hnames : ∀ name ∈ loc, IsNormal name)
    (hlinks : fs.NoLinksOn loc) (hfile : ¬fs.FileAbove loc) : (fs.ensureDirs loc).Tree := by
  induction loc using List.reverseRecOn with
  | nil => rwa [ensureDirs_nil htree]
  | append_singleton parent name ih =>
      have hparentNames : ∀ name ∈ parent, IsNormal name := fun n h => hnames n (by simp [h])
      have hparentLinks : fs.NoLinksOn parent := fun pre hpre =>
        hlinks pre (hpre.trans (List.prefix_append _ _))
      rw [fileAbove_concat, not_or] at hfile
      have htree' := ih hparentNames hparentLinks hfile.1
      rw [ensureDirs_concat]
      split_ifs with hnone
      · have hdir : fs.ensureDirs parent parent = some .dir := by
          have hlink := hparentLinks parent List.prefix_rfl
          cases hnode : fs parent with
          | none => simp [ensureDirs, hnode]
          | some node =>
              cases node <;> simp_all [ensureDirs, isFileAt]
        exact htree'.set_new hdir (by simp [ensureDirs, not_concat_prefix, hnone])
          (hnames name (by simp)) .dir
      · exact htree'

/-- The location itself is a directory once the missing directories are made, unless a
file or a link stands there. -/
theorem ensureDirs_self {loc : Location} (hfile : fs.isFileAt loc = false)
    (hlink : ∀ target, fs loc ≠ some (.symlink target)) :
    fs.ensureDirs loc loc = some .dir := by
  cases hnode : fs loc with
  | none => simp [ensureDirs, hnode]
  | some node => cases node <;> simp_all [ensureDirs, isFileAt]

/-- Making the same directories twice makes them once. -/
@[simp] theorem ensureDirs_ensureDirs (loc : Location) :
    (fs.ensureDirs loc).ensureDirs loc = fs.ensureDirs loc := by
  funext other
  unfold ensureDirs
  by_cases hpre : other <+: loc <;> by_cases hnone : fs other = none <;> simp [hpre, hnone]

/-- Once the directories down to `loc` are made, a location just below it has only
directories above it and keeps its old node. -/
theorem ensureDirs_below (htree : fs.Tree) {loc : Location} (hnames : ∀ name ∈ loc, IsNormal name)
    (hlinks : fs.NoLinksOn loc) (hfile : ¬fs.FileAbove loc) (hnotFile : fs.isFileAt loc = false)
    (name : List Char) :
    (fs.ensureDirs loc).DirsAbove (loc ++ [name]) ∧
      ¬(fs.ensureDirs loc).FileAbove (loc ++ [name]) ∧
      fs.ensureDirs loc (loc ++ [name]) = fs (loc ++ [name]) := by
  have htree' := tree_ensureDirs htree hnames hlinks hfile
  have hself := ensureDirs_self hnotFile (hlinks loc List.prefix_rfl)
  have hmade : fs.ensureDirs loc loc ≠ none := by simp [hself]
  refine ⟨dirsAbove_concat.2 ⟨htree'.dirsAbove hmade, hself⟩, ?_, ?_⟩
  · rw [fileAbove_concat]
    simp [htree'.not_fileAbove hmade, isFileAt, hself]
  · simp [ensureDirs, not_concat_prefix]

theorem Extends.noLinksOn {fs' : FileSystem} (hext : fs.Extends fs') {loc : Location}
    (hlinks : fs.NoLinksOn loc) : fs'.NoLinksOn loc :=
  fun pre hpre target h => hlinks pre hpre target ((hext.symlink pre target).1 h)

theorem Extends.noLinksBelow {fs' : FileSystem} (hext : fs.Extends fs') {root : Location}
    (hlinks : fs.NoLinksBelow root) : fs'.NoLinksBelow root :=
  fun loc target h => hlinks loc target ((hext.symlink _ target).1 h)

/-- `createDirAll_absolute`: `create_dir_all` on an absolute path with no link on the way
fails when a regular file stands above or at the location, and otherwise makes exactly the
missing directories. -/
theorem createDirAll_absolute (htree : fs.Tree) (cwd : Location) {loc : Location}
    (hnames : ∀ name ∈ loc, IsNormal name) (hlinks : fs.NoLinksOn loc) :
    fs.createDirAll cwd (.rootDir :: loc.map .normal) =
      if fs.FileAbove loc then .error .notADirectory
      else if fs.isFileAt loc then .error .alreadyExists
      else .ok (fs.ensureDirs loc) := by
  unfold createDirAll
  induction loc using List.reverseRecOn with
  | nil =>
      have hmkdir := mkdir_absolute htree cwd hlinks
      have hdir := isDir_absolute htree cwd hlinks
      simp only [List.map_nil] at hmkdir hdir
      simp [createDirAllRev, hmkdir, hdir, htree.root, isFileAt, ensureDirs_nil htree]
  | append_singleton parent name ih =>
      have hparentNames : ∀ name ∈ parent, IsNormal name := fun n h => hnames n (by simp [h])
      have hparentLinks : fs.NoLinksOn parent := fun pre hpre =>
        hlinks pre (hpre.trans (List.prefix_append _ _))
      have hrev : (Component.rootDir :: (parent ++ [name]).map .normal).reverse =
          .normal name :: (.rootDir :: parent.map .normal).reverse := by simp
      have hcomps : (Component.normal name :: (.rootDir :: parent.map .normal).reverse).reverse =
          .rootDir :: (parent ++ [name]).map .normal := by simp
      rw [hrev, createDirAllRev, hcomps, mkdir_absolute htree cwd hlinks,
        isDir_absolute htree cwd hlinks]
      by_cases hfile : fs.FileAbove (parent ++ [name])
      · have hnone : fs (parent ++ [name]) = none := by
          by_contra hsome
          exact htree.not_fileAbove hsome hfile
        simp [hfile, hnone]
      by_cases hdirs : fs.DirsAbove (parent ++ [name])
      · have hparent : fs.ensureDirs parent = fs :=
          ensureDirs_of_exists htree (by simp [(dirsAbove_concat.1 hdirs).2])
        have hlink := hlinks _ List.prefix_rfl
        cases hnode : fs (parent ++ [name]) with
        | none => simp [hfile, hdirs, hnode, isFileAt, ensureDirs_concat, hparent]
        | some node =>
            have hexists : fs (parent ++ [name]) ≠ none := by simp [hnode]
            cases node with
            | dir => simp [hfile, hdirs, hnode, isFileAt, ensureDirs_of_exists htree hexists]
            | file data => simp [hfile, hdirs, hnode, isFileAt]
            | symlink target => exact absurd hnode (hlink target)
      · have hnone : fs (parent ++ [name]) = none := by
          by_contra hsome
          exact hdirs (htree.dirsAbove hsome)
        have hparentFile : ¬fs.FileAbove parent ∧ fs.isFileAt parent = false := by
          simpa [fileAbove_concat, not_or] using hfile
        obtain ⟨hdirs', hfile', hsame⟩ :=
          ensureDirs_below htree hparentNames hparentLinks hparentFile.1 hparentFile.2 name
        rw [ih hparentNames hparentLinks]
        simp only [hfile, hdirs, hparentFile.1, hparentFile.2, if_false, Bool.false_eq_true]
        rw [mkdir_absolute (tree_ensureDirs htree hparentNames hparentLinks hparentFile.1) cwd
          ((extends_ensureDirs parent).noLinksOn hlinks)]
        simp [hfile', hdirs', hsame, hnone, isFileAt, ensureDirs_concat]

/-! ## `create_file` on its destination -/

/-- The destination keeps its node while the directories above it are made. -/
theorem ensureDirs_dropLast_self {dest : Location} (hne : dest ≠ []) :
    fs.ensureDirs dest.dropLast dest = fs dest := by
  have hlast := List.dropLast_append_getLast hne
  have hlong : ¬(dest <+: dest.dropLast) := fun h => by
    have := not_concat_prefix dest.dropLast (dest.getLast hne)
    rw [hlast] at this
    exact this h
  simp [ensureDirs, hlong]

section CreateAt

variable (htree : fs.Tree) {dest : Location} (hlinks : fs.NoLinksOn dest)
include htree

theorem createAt_eq_ok {fs' : FileSystem} (hok : fs.createAt dest = .ok fs') :
    ¬fs.FileAbove dest ∧ fs dest ≠ some .dir ∧ dest ≠ [] ∧
      fs' = (fs.ensureDirs dest.dropLast).set dest (.file []) := by
  unfold createAt at hok
  split_ifs at hok with hfile hdir
  cases hok
  refine ⟨hfile, hdir, ?_, rfl⟩
  rintro rfl
  exact hdir htree.root

/-- Below a missing directory with no file above it, `create_file` makes the missing
directories and then the destination. -/
theorem createAt_of_missing {dir : Location} {name : List Char} (hnone : fs dir = none)
    (hfile : ¬fs.FileAbove dir) :
    fs.createAt (dir ++ [name]) = .ok ((fs.ensureDirs dir).set (dir ++ [name]) (.file [])) := by
  have hnew : fs (dir ++ [name]) = none := by
    by_contra hsome
    simp [htree.parent dir name hsome] at hnone
  unfold createAt
  rw [List.dropLast_concat, hnew]
  simp [fileAbove_concat, hfile, isFileAt, hnone]

/-- Making the missing directories above a missing destination first changes nothing of
what `create_file` then does there. -/
theorem createAt_ensureDirs {dir : Location} {name : List Char}
    (hnames : ∀ n ∈ dir, IsNormal n) (hlinks : fs.NoLinksOn dir) (hnone : fs dir = none)
    (hfile : ¬fs.FileAbove dir) :
    (fs.ensureDirs dir).createAt (dir ++ [name]) = fs.createAt (dir ++ [name]) := by
  obtain ⟨-, hfile', hsame⟩ :=
    ensureDirs_below htree hnames hlinks hfile (by simp [isFileAt, hnone]) name
  unfold createAt
  rw [List.dropLast_concat, ensureDirs_ensureDirs, hsame]
  simp [hfile', fileAbove_concat, hfile, isFileAt, hnone]

/-- What `createAt` leaves at each location: an empty file at the destination, a new
directory at each missing location above it, and the old node everywhere else. -/
theorem createAt_apply {fs' : FileSystem} (hok : fs.createAt dest = .ok fs') (loc : Location) :
    fs' loc =
      if loc = dest then some (.file [])
      else if loc <+: dest.dropLast ∧ fs loc = none then some .dir
      else fs loc := by
  obtain ⟨-, -, -, rfl⟩ := createAt_eq_ok htree hok
  rw [set_apply]
  rfl

include hlinks

/-- `create_file` only adds directories and empties or makes its destination file. -/
theorem extends_createAt {fs' : FileSystem} (hok : fs.createAt dest = .ok fs') :
    fs.Extends fs' := by
  obtain ⟨-, hdir, hne, rfl⟩ := createAt_eq_ok htree hok
  have hlink := hlinks dest List.prefix_rfl
  refine (extends_ensureDirs _).trans (extends_set_file ?_ _)
  rw [ensureDirs_dropLast_self hne]
  cases hnode : fs dest with
  | none => exact .inl rfl
  | some node => cases node <;> simp_all

/-- `create_file` keeps the tree. -/
theorem tree_createAt (hnames : ∀ name ∈ dest, IsNormal name) {fs' : FileSystem}
    (hok : fs.createAt dest = .ok fs') : fs'.Tree := by
  obtain ⟨hfile, hdir, hne, rfl⟩ := createAt_eq_ok htree hok
  obtain ⟨parent, name, hsplit⟩ := List.eq_nil_or_concat dest |>.resolve_left hne
  rw [List.concat_eq_append] at hsplit
  subst hsplit
  rw [fileAbove_concat, not_or] at hfile
  have hparentLinks : fs.NoLinksOn parent := fun pre hpre =>
    hlinks pre (hpre.trans (List.prefix_append _ _))
  have htree' := tree_ensureDirs htree (fun n h => hnames n (by simp [h])) hparentLinks hfile.1
  have hself := ensureDirs_self (by simpa using hfile.2) (hparentLinks parent List.prefix_rfl)
  rw [List.dropLast_concat]
  have hdest : fs.ensureDirs parent (parent ++ [name]) = fs (parent ++ [name]) := by
    simp [ensureDirs, not_concat_prefix]
  have hlink := hlinks _ List.prefix_rfl
  cases hnode : fs (parent ++ [name]) with
  | none => exact htree'.set_new hself (by rw [hdest, hnode]) (hnames name (by simp)) _
  | some node =>
      cases node with
      | dir => exact absurd hnode hdir
      | file data => exact htree'.set_file (by rw [hdest, hnode]) _
      | symlink target => exact absurd hnode (hlink target)

end CreateAt

/-! ## An output directory with no link below it -/

/-- An output directory below which no link can be followed: the filesystem is a tree, the
output directory exists, and no link stands at it or below it. -/
structure PlainRoot (fs : FileSystem) (root : Location) : Prop where
  tree : fs.Tree
  present : fs root ≠ none
  noLinks : fs.NoLinksBelow root

theorem PlainRoot.names {root : Location} (hplain : fs.PlainRoot root) :
    ∀ name ∈ root, IsNormal name :=
  hplain.tree.names root hplain.present

/-- Every location above a plain output directory, and the directory itself, holds a node. -/
theorem PlainRoot.ne_none_of_prefix {root loc : Location} (hplain : fs.PlainRoot root)
    (hpre : loc <+: root) : fs loc ≠ none := by
  rcases Nat.lt_or_ge loc.length root.length with hlt | hge
  · rw [List.prefix_iff_eq_take.1 hpre, hplain.tree.dir_take hplain.present hlt]
    simp
  · rw [hpre.eq_of_length_le hge]
    exact hplain.present

/-- No link stands on the way down to any location below a plain output directory. -/
theorem PlainRoot.noLinksOn {root : Location} (hplain : fs.PlainRoot root) (more : Location) :
    fs.NoLinksOn (root ++ more) := by
  intro pre hpre target hlink
  rcases Nat.lt_or_ge pre.length root.length with hlt | hge
  · have hdir := hplain.tree.dir_take hplain.present hlt
    rw [List.prefix_iff_eq_take.1
      (List.prefix_of_prefix_length_le hpre (List.prefix_append root more) hlt.le)] at hlink
    simp [hdir] at hlink
  · obtain ⟨rest, rfl⟩ := List.prefix_of_prefix_length_le (List.prefix_append root more) hpre hge
    exact hplain.noLinks rest target hlink

/-- A tree that extends a plain output directory keeps it plain. -/
theorem PlainRoot.of_extends {fs' : FileSystem} {root : Location} (hplain : fs.PlainRoot root)
    (hext : fs.Extends fs') (htree : fs'.Tree) : fs'.PlainRoot root :=
  ⟨htree, hext.ne_none hplain.present, hext.noLinksBelow hplain.noLinks⟩

end FileSystem

end Mlar
