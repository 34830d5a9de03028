import Mlar.Path.Components

/-!
# Filesystem trees and path resolution

The filesystem the extraction writes into: a node (directory, regular file or symbolic
link) at each location, a location being the list of names from the root directory down.
Path resolution follows the kernel's component walk: `..` moves to the physical parent,
a symbolic link in the middle of a path is always followed, and the last component is
followed only on request (`stat` and `open` follow it, `mkdir` does not). At most
`maxSymlinks` links are expanded in one resolution.

`lookupStep` is one pass over the components with the symbolic-link case left to a
continuation, and `resolve` ties the knot on the link budget, so both are structural.
-/

namespace Mlar

open Path

/-- Where a node sits: the names from the root directory down to it. -/
abbrev Location := List (List Char)

/-- A filesystem node: a directory, a regular file with its bytes, or a symbolic link with
the path it points to. -/
inductive Node where
  | dir
  | file (data : List UInt8)
  | symlink (target : List Char)
  deriving DecidableEq, Repr

/-- A filesystem: the node at each location, if there is one. Each location has its own
node, so the model has no hard links: no two names of one file, where a write through one name
would change what the other reads. -/
abbrev FileSystem := Location → Option Node

/-- `std::io::ErrorKind`, as far as the modelled calls produce it. -/
inductive ErrorKind where
  | notFound
  | alreadyExists
  | notADirectory
  | isADirectory
  | filesystemLoop
  | other
  deriving DecidableEq, Repr

/-- `MAXSYMLINKS`: a resolution that expands more links fails with `ELOOP`. -/
def maxSymlinks : Nat := 40

namespace FileSystem

/-- Replace the node at one location. -/
def set (fs : FileSystem) (loc : Location) (node : Node) : FileSystem :=
  Function.update fs loc (some node)

@[simp]
theorem set_same (fs : FileSystem) (loc : Location) (node : Node) :
    fs.set loc node loc = some node := by
  simp [set]

theorem set_apply (fs : FileSystem) (loc : Location) (node : Node) (other : Location) :
    fs.set loc node other = if other = loc then some node else fs other := by
  simp [set, Function.update_apply]

@[simp]
theorem set_ne (fs : FileSystem) {loc other : Location} (node : Node) (hne : other ≠ loc) :
    fs.set loc node other = fs other := by
  simp [set, hne]

theorem set_of_eq {fs : FileSystem} {loc : Location} {node : Node} (h : fs loc = some node) :
    fs.set loc node = fs := by
  rw [set, ← h]
  exact Function.update_eq_self loc fs

theorem set_set (fs : FileSystem) (loc : Location) (node node' : Node) :
    (fs.set loc node).set loc node' = fs.set loc node' :=
  Function.update_idem _ _ _

/-- A filesystem is a tree: the root is a directory, every node sits in a directory, and
every node is named by plain names, as a directory entry never holds a `/` and is never `.`
or `..`. -/
structure Tree (fs : FileSystem) : Prop where
  root : fs [] = some .dir
  parent : ∀ dir name, fs (dir ++ [name]) ≠ none → fs dir = some .dir
  names : ∀ loc, fs loc ≠ none → ∀ name ∈ loc, IsNormal name

/-- Every location above a node of a tree is a directory. -/
theorem Tree.dir_take {fs : FileSystem} (htree : fs.Tree) {loc : Location} (hloc : fs loc ≠ none)
    {k : Nat} (hk : k < loc.length) : fs (loc.take k) = some .dir := by
  induction loc using List.reverseRecOn with
  | nil => simp at hk
  | append_singleton dir name ih =>
      have hdir := htree.parent dir name hloc
      rcases Nat.lt_or_ge k dir.length with hlt | hge
      · rw [List.take_append_of_le_length hlt.le]
        exact ih (by simp [hdir]) hlt
      · have hk' : k = dir.length := by simp at hk; omega
        subst hk'
        simpa using hdir

/-- A new directory or file in an existing directory keeps the tree. -/
theorem Tree.set_new {fs : FileSystem} (htree : fs.Tree) {dir : Location} {name : List Char}
    (hdir : fs dir = some .dir) (hnew : fs (dir ++ [name]) = none) (hname : IsNormal name)
    (node : Node) : (fs.set (dir ++ [name]) node).Tree := by
  have hne : dir ≠ dir ++ [name] := by simp
  refine ⟨?_, fun parent child hchild => ?_, fun loc hloc => ?_⟩
  · rw [set_ne _ _ (by simp)]
    exact htree.root
  · by_cases hloc : parent ++ [child] = dir ++ [name]
    · obtain ⟨rfl, -⟩ := List.append_inj' hloc rfl
      rw [set_ne _ _ hne]
      exact hdir
    · rw [set_ne _ _ hloc] at hchild
      have hparent := htree.parent parent child hchild
      by_cases hsame : parent = dir ++ [name]
      · subst hsame
        rw [hnew] at hparent
        cases hparent
      · rwa [set_ne _ _ hsame]
  · by_cases hnew : loc = dir ++ [name]
    · subst hnew
      have hdirNames := htree.names dir (by simp [hdir])
      simpa [or_imp, forall_and, hname] using hdirNames
    · exact htree.names loc (by rwa [set_ne _ _ hnew] at hloc)

/-- Rewriting an existing file keeps the tree. -/
theorem Tree.set_file {fs : FileSystem} (htree : fs.Tree) {loc : Location} {old : List UInt8}
    (hfile : fs loc = some (.file old)) (data : List UInt8) : (fs.set loc (.file data)).Tree := by
  have hexists : ∀ other, fs.set loc (.file data) other ≠ none → fs other ≠ none := by
    intro other hother
    by_cases hloc : other = loc
    · simp [hloc, hfile]
    · rwa [set_ne _ _ hloc] at hother
  refine ⟨?_, fun parent child hchild => ?_, fun other hother => htree.names other (hexists _ hother)⟩
  · rw [set_ne _ _ (by rintro rfl; simp [htree.root] at hfile)]
    exact htree.root
  · have hparent := htree.parent parent child (hexists _ hchild)
    rwa [set_ne _ _ (by rintro rfl; simp [hfile] at hparent)]

end FileSystem

/-! ## Path resolution -/

/-- One pass of path resolution from the directory `dir`. A symbolic link that must be
followed hands its target, then the rest of the path, to `follow`, which resolves them from
the link's directory. The last component is followed only when `last` is set, and a last
component that is missing or not a directory still resolves to its own location. -/
def lookupStep (fs : FileSystem) (follow : Location → List Component → Except ErrorKind Location)
    (last : Bool) : Location → List Component → Except ErrorKind Location
  | dir, [] => .ok dir
  | _, .rootDir :: rest => lookupStep fs follow last [] rest
  | dir, .curDir :: rest => lookupStep fs follow last dir rest
  | dir, .parentDir :: rest => lookupStep fs follow last dir.dropLast rest
  | dir, .normal name :: rest =>
      match fs (dir ++ [name]) with
      | some (.symlink target) =>
          if rest = [] ∧ last = false then .ok (dir ++ [name])
          else follow dir (components target ++ rest)
      | some .dir => lookupStep fs follow last (dir ++ [name]) rest
      | some (.file _) => if rest = [] then .ok (dir ++ [name]) else .error .notADirectory
      | none => if rest = [] then .ok (dir ++ [name]) else .error .notFound

/-- Path resolution expanding at most `links` symbolic links. -/
def resolve (fs : FileSystem) (last : Bool) : Nat → Location → List Component →
    Except ErrorKind Location
  | 0 => lookupStep fs (fun _ _ => .error .filesystemLoop) last
  | links + 1 => lookupStep fs (resolve fs last links) last

end Mlar
