import Mlar.Fs.Calls
import Mlar.Path.Sanitize

/-!
# Resolution in a growing filesystem

The calls of an extraction only ever add directories and files and rewrite the bytes of
files: no node disappears or changes kind, and no link appears. `FileSystem.Extends` names
that relation; every change the extraction makes extends its input. The main result,
`resolve_mono`, says a path that resolves keeps resolving to the same location in every
extension, whatever links it crosses.
-/

namespace Mlar

open Path

namespace FileSystem

/-- `fs'` keeps every node of `fs`: directories stay directories, files stay files (their
bytes may change), and the links of `fs'` are exactly those of `fs`. -/
structure Extends (fs fs' : FileSystem) : Prop where
  dir : ∀ loc, fs loc = some .dir → fs' loc = some .dir
  file : ∀ loc data, fs loc = some (.file data) → ∃ data', fs' loc = some (.file data')
  symlink : ∀ loc target, fs' loc = some (.symlink target) ↔ fs loc = some (.symlink target)

theorem Extends.refl (fs : FileSystem) : fs.Extends fs :=
  ⟨fun _ h => h, fun _ data h => ⟨data, h⟩, fun _ _ => Iff.rfl⟩

theorem Extends.trans {fs fs' fs'' : FileSystem} (h : fs.Extends fs') (h' : fs'.Extends fs'') :
    fs.Extends fs'' := by
  refine ⟨fun loc hdir => h'.dir loc (h.dir loc hdir), fun loc data hfile => ?_,
    fun loc target => (h'.symlink loc target).trans (h.symlink loc target)⟩
  obtain ⟨data', hdata'⟩ := h.file loc data hfile
  exact h'.file loc data' hdata'

/-- A location that holds a node in `fs` holds one in `fs'`. -/
theorem Extends.ne_none {fs fs' : FileSystem} (h : fs.Extends fs') {loc : Location}
    (hloc : fs loc ≠ none) : fs' loc ≠ none := by
  obtain ⟨node, hnode⟩ := Option.ne_none_iff_exists'.1 hloc
  cases node with
  | dir => simp [h.dir _ hnode]
  | file data =>
      obtain ⟨data', hdata'⟩ := h.file _ data hnode
      simp [hdata']
  | symlink target => simp [(h.symlink _ target).2 hnode]

/-- Making a directory where there was nothing extends the filesystem. -/
theorem extends_set_dir {fs : FileSystem} {loc : Location} (hnew : fs loc = none) :
    fs.Extends (fs.set loc .dir) := by
  refine ⟨fun other h => ?_, fun other data h => ?_, fun other target => ?_⟩ <;>
    by_cases hloc : other = loc <;> simp_all

/-- Making or emptying a file where there was nothing or a file extends the filesystem. -/
theorem extends_set_file {fs : FileSystem} {loc : Location}
    (hold : fs loc = none ∨ ∃ data, fs loc = some (.file data)) (data' : List UInt8) :
    fs.Extends (fs.set loc (.file data')) := by
  refine ⟨fun other h => ?_, fun other data h => ?_, fun other target => ?_⟩ <;>
    by_cases hloc : other = loc <;> rcases hold with hold | ⟨_, hold⟩ <;> simp_all

end FileSystem

/-! ## Resolution only grows -/

/-- A name that is neither a directory nor a link ends a resolution: it is the last name. -/
theorem lookupStep_leaf {fs : FileSystem}
    {follow : Location → List Component → Except ErrorKind Location} {last : Bool}
    {dir : Location} {name : List Char} {rest : List Component} {loc : Location}
    (hleaf : fs (dir ++ [name]) = none ∨ ∃ data, fs (dir ++ [name]) = some (.file data))
    (hok : lookupStep fs follow last dir (.normal name :: rest) = .ok loc) :
    rest = [] ∧ loc = dir ++ [name] := by
  simp only [lookupStep] at hok
  rcases hleaf with hnode | ⟨data, hnode⟩ <;> simp only [hnode] at hok <;>
    split at hok <;> cases hok <;> exact ⟨‹_›, rfl⟩

section Mono

variable {fs fs' : FileSystem}

/-- A missing or non-link last component resolves to its own location in every extension. -/
theorem lookupStep_last_mono (hext : fs.Extends fs') {dir : Location} {name : List Char}
    (hlink : ∀ target, fs (dir ++ [name]) ≠ some (.symlink target))
    (follow' : Location → List Component → Except ErrorKind Location) (last : Bool) :
    lookupStep fs' follow' last dir [.normal name] = .ok (dir ++ [name]) := by
  have hlink' : ∀ target, fs' (dir ++ [name]) ≠ some (.symlink target) :=
    fun target h => hlink target ((hext.symlink _ target).1 h)
  simp only [lookupStep]
  split <;> simp_all

/-- A resolution that succeeds succeeds the same way in every extension, provided the links
it follows do. -/
theorem lookupStep_mono (hext : fs.Extends fs')
    {follow follow' : Location → List Component → Except ErrorKind Location}
    (hfollow : ∀ dir comps loc, follow dir comps = .ok loc → follow' dir comps = .ok loc)
    (last : Bool) (dir : Location) (comps : List Component) {loc : Location}
    (hok : lookupStep fs follow last dir comps = .ok loc) :
    lookupStep fs' follow' last dir comps = .ok loc := by
  induction comps generalizing dir with
  | nil => simpa [lookupStep] using hok
  | cons comp rest ih =>
      cases comp with
      | rootDir => exact ih [] (by simpa [lookupStep] using hok)
      | curDir => exact ih dir (by simpa [lookupStep] using hok)
      | parentDir => exact ih dir.dropLast (by simpa [lookupStep] using hok)
      | normal name =>
          cases hnode : fs (dir ++ [name]) with
          | none =>
              obtain ⟨rfl, rfl⟩ := lookupStep_leaf (.inl hnode) hok
              exact lookupStep_last_mono hext (by simp [hnode]) follow' last
          | some node =>
              cases node with
              | dir =>
                  simp only [lookupStep, hnode] at hok
                  simpa [lookupStep, hext.dir _ hnode] using ih _ hok
              | file data =>
                  obtain ⟨rfl, rfl⟩ := lookupStep_leaf (.inr ⟨data, hnode⟩) hok
                  exact lookupStep_last_mono hext (by simp [hnode]) follow' last
              | symlink target =>
                  simp only [lookupStep, hnode] at hok
                  simp only [lookupStep, (hext.symlink _ target).2 hnode]
                  split at hok
                  · rwa [if_pos ‹_›]
                  · rw [if_neg ‹_›]
                    exact hfollow _ _ _ hok

/-- `resolve_mono`: a path that resolves resolves to the same location in every extension,
whatever links it crosses. -/
theorem resolve_mono (hext : fs.Extends fs') (last : Bool) :
    ∀ (links : Nat) (dir : Location) (comps : List Component) {loc : Location},
      resolve fs last links dir comps = .ok loc → resolve fs' last links dir comps = .ok loc
  | 0, dir, comps, _, hok => lookupStep_mono hext (fun _ _ _ h => by simp at h) last dir comps hok
  | links + 1, dir, comps, _, hok =>
      lookupStep_mono hext (fun _ _ _ h => resolve_mono hext last links _ _ h) last dir comps hok

theorem resolvePath_mono (hext : fs.Extends fs') {cwd : Location} {comps : List Component}
    {last : Bool} {loc : Location} (hok : fs.resolvePath cwd comps last = .ok loc) :
    fs'.resolvePath cwd comps last = .ok loc := by
  unfold FileSystem.resolvePath at hok ⊢
  split at hok
  · simp at hok
  · simp only [if_neg ‹_›]
    exact resolve_mono hext last _ _ _ hok

/-- A path that leads to a directory keeps leading to it. -/
theorem stat_dir_mono (hext : fs.Extends fs') {cwd : Location} {comps : List Component}
    (hok : fs.stat cwd comps = .ok .dir) : fs'.stat cwd comps = .ok .dir := by
  unfold FileSystem.stat at hok ⊢
  cases hres : fs.resolvePath cwd comps true with
  | error err => simp [hres] at hok
  | ok loc =>
      rw [hres] at hok
      rw [resolvePath_mono hext hres]
      cases hnode : fs loc with
      | none => simp [hnode] at hok
      | some node =>
          simp only [hnode, Except.ok.injEq] at hok
          subst hok
          simp [hext.dir _ hnode]

/-- A raw path that passes the kernel's check of its ending keeps passing it. -/
theorem checkEnding_mono (hext : fs.Extends fs') {cwd : Location} {path : List Char}
    (hok : fs.checkEnding cwd path = .ok ()) : fs'.checkEnding cwd path = .ok () := by
  unfold FileSystem.checkEnding at hok ⊢
  split_ifs at hok ⊢
  · rfl
  · unfold FileSystem.dirAt at hok ⊢
    cases hstat : fs.stat cwd (components path) with
    | error err => simp [hstat] at hok
    | ok node =>
        cases node <;> simp only [hstat, reduceCtorEq] at hok
        simp [stat_dir_mono hext hstat]

end Mono

/-! ## Where a resolution ends -/

/-- A resolution that stops at a location that is not a link stops there also when asked
to follow a last link. -/
theorem lookupStep_follow_last {fs : FileSystem}
    {follow follow' : Location → List Component → Except ErrorKind Location}
    (hfollow : ∀ dir comps loc, follow dir comps = .ok loc → (∀ target, fs loc ≠ some (.symlink target)) →
      follow' dir comps = .ok loc)
    (dir : Location) (comps : List Component) {loc : Location}
    (hok : lookupStep fs follow false dir comps = .ok loc)
    (hlink : ∀ target, fs loc ≠ some (.symlink target)) :
    lookupStep fs follow' true dir comps = .ok loc := by
  induction comps generalizing dir with
  | nil => simpa [lookupStep] using hok
  | cons comp rest ih =>
      cases comp with
      | rootDir => exact ih [] (by simpa [lookupStep] using hok)
      | curDir => exact ih dir (by simpa [lookupStep] using hok)
      | parentDir => exact ih dir.dropLast (by simpa [lookupStep] using hok)
      | normal name =>
          simp only [lookupStep] at hok ⊢
          cases hnode : fs (dir ++ [name]) with
          | none => simpa [hnode] using hok
          | some node =>
              cases node with
              | dir => simpa [hnode] using ih _ (by simpa [hnode] using hok)
              | file data => simpa [hnode] using hok
              | symlink target =>
                  simp only [hnode] at hok
                  split at hok
                  · cases hok
                    exact absurd hnode (hlink target)
                  · simpa using hfollow _ _ _ hok hlink

/-- `resolve_follow_last`: `mkdir` and `stat` resolve a path to the same location when that
location is not a link. -/
theorem resolve_follow_last {fs : FileSystem} :
    ∀ (links : Nat) (dir : Location) (comps : List Component) {loc : Location},
      resolve fs false links dir comps = .ok loc → (∀ target, fs loc ≠ some (.symlink target)) →
      resolve fs true links dir comps = .ok loc
  | 0, dir, comps, _, hok, hlink =>
      lookupStep_follow_last (fun _ _ _ h => by simp at h) dir comps hok hlink
  | links + 1, dir, comps, _, hok, hlink =>
      lookupStep_follow_last (fun _ _ _ h hl => resolve_follow_last links _ _ h hl) dir comps
        hok hlink

theorem resolvePath_follow_last {fs : FileSystem} {cwd : Location} {comps : List Component}
    {loc : Location} (hok : fs.resolvePath cwd comps false = .ok loc)
    (hlink : ∀ target, fs loc ≠ some (.symlink target)) :
    fs.resolvePath cwd comps true = .ok loc := by
  unfold FileSystem.resolvePath at hok ⊢
  split at hok
  · cases hok
  · rw [if_neg ‹_›]
    exact resolve_follow_last _ _ _ hok hlink

/-- Where a resolution in a tree can end: at a directory, or at a plain name inside one. -/
def FileSystem.Landing (fs : FileSystem) (loc : Location) : Prop :=
  fs loc = some .dir ∨ ∃ dir name, loc = dir ++ [name] ∧ fs dir = some .dir ∧ IsNormal name

/-- The names a list of components walks through. -/
def PlainNames (comps : List Component) : Prop :=
  ∀ name, .normal name ∈ comps → IsNormal name

theorem plainNames_components (path : List Char) : PlainNames (components path) :=
  fun _ hname => isNormal_of_mem_components hname

section Landing

variable {fs : FileSystem} (htree : fs.Tree)
include htree

/-- The parent of a directory is a directory. -/
theorem FileSystem.Tree.dir_dropLast {dir : Location} (hdir : fs dir = some .dir) :
    fs dir.dropLast = some .dir := by
  rcases List.eq_nil_or_concat dir with rfl | ⟨parent, name, rfl⟩
  · exact hdir
  · rw [List.concat_eq_append] at hdir ⊢
    simpa using htree.parent parent name (by simp [hdir])

/-- A walk in a tree from a directory ends at a directory or at a plain name inside one,
provided the links it follows do. -/
theorem lookupStep_landing {follow : Location → List Component → Except ErrorKind Location}
    (hfollow : ∀ dir comps loc, fs dir = some .dir → PlainNames comps →
      follow dir comps = .ok loc → fs.Landing loc)
    (last : Bool) (dir : Location) (comps : List Component) {loc : Location}
    (hdir : fs dir = some .dir) (hcomps : PlainNames comps)
    (hok : lookupStep fs follow last dir comps = .ok loc) : fs.Landing loc := by
  induction comps generalizing dir with
  | nil =>
      simp only [lookupStep, Except.ok.injEq] at hok
      exact .inl (hok ▸ hdir)
  | cons comp rest ih =>
      have hrest : PlainNames rest := fun name h => hcomps name (List.mem_cons_of_mem _ h)
      cases comp with
      | rootDir => exact ih [] htree.root hrest (by simpa [lookupStep] using hok)
      | curDir => exact ih dir hdir hrest (by simpa [lookupStep] using hok)
      | parentDir =>
          exact ih _ (htree.dir_dropLast hdir) hrest (by simpa [lookupStep] using hok)
      | normal name =>
          have hname := hcomps name (List.mem_cons_self _ _)
          have hinside : fs.Landing (dir ++ [name]) := .inr ⟨dir, name, rfl, hdir, hname⟩
          cases hnode : fs (dir ++ [name]) with
          | none =>
              obtain ⟨-, rfl⟩ := lookupStep_leaf (.inl hnode) hok
              exact hinside
          | some node =>
              cases node with
              | dir => exact ih _ hnode hrest (by simpa [lookupStep, hnode] using hok)
              | file data =>
                  obtain ⟨-, rfl⟩ := lookupStep_leaf (.inr ⟨data, hnode⟩) hok
                  exact hinside
              | symlink target =>
                  simp only [lookupStep, hnode] at hok
                  split at hok
                  · cases hok
                    exact hinside
                  · refine hfollow dir _ loc hdir (fun other hother => ?_) hok
                    rcases List.mem_append.1 hother with h | h
                    · exact plainNames_components target other h
                    · exact hrest other h

/-- `resolve_landing`: a resolution in a tree from a directory ends at a directory or at a
plain name inside one. -/
theorem resolve_landing (last : Bool) :
    ∀ (links : Nat) (dir : Location) (comps : List Component) {loc : Location},
      fs dir = some .dir → PlainNames comps → resolve fs last links dir comps = .ok loc →
      fs.Landing loc
  | 0, dir, comps, _, hdir, hcomps, hok =>
      lookupStep_landing htree (fun _ _ _ _ _ h => by simp at h) last dir comps hdir hcomps hok
  | links + 1, dir, comps, _, hdir, hcomps, hok =>
      lookupStep_landing htree (fun _ _ _ hd hc h => resolve_landing last links _ _ hd hc h)
        last dir comps hdir hcomps hok

theorem resolvePath_landing {cwd : Location} {comps : List Component} {last : Bool}
    {loc : Location} (hcwd : fs cwd = some .dir) (hcomps : PlainNames comps)
    (hok : fs.resolvePath cwd comps last = .ok loc) : fs.Landing loc := by
  unfold FileSystem.resolvePath at hok
  split at hok
  · cases hok
  · exact resolve_landing htree last _ _ _ hcwd hcomps hok

end Landing

end Mlar
