/-
# `Cognos.Memory.IndexScope` — which files the indexer takes in

The test of the allowed roots compares the components of the path as it is spelled; the file
is then opened through every `..` and every link on the way.

    contained_iff    when a file that is taken in lies under an allowed root
-/
import Mathlib
import Cognos.Memory.Indexer

namespace Memory

namespace Indexer

open PathWalk

variable {Time : Type} (K : Codecs Time) (idx : Indexer)

/-- If anything of the path's file gets into the store, the file lies under an allowed root. -/
def Contained (w : Surroundings) (path : String) : Prop :=
  (idx.indexFile K w path).2 ≠ [] →
    ∃ root ∈ idx.allowedRoots, ∃ dir, resolve w.lay w.links w.cwd root = some dir ∧
      ∃ place, resolve w.lay w.links w.cwd path = some place ∧ dir <+: place

/-- The walk of the path comes to an allowed root's directory, and from then on follows no
absolute link and takes no `..` there. -/
def StaysInside (w : Surroundings) (path : String) : Prop :=
  ∃ root ∈ idx.allowedRoots, ∃ dir, resolve w.lay w.links w.cwd root = some dir ∧
    ∃ ms, moves w.lay w.links w.cwd path = some ms ∧ Settles dir ms

/-- A file is taken in from under an allowed root exactly when it is not taken in at all, or its
path stays inside. -/
theorem contained_iff (w : Surroundings) (path : String) :
    idx.Contained K w path ↔ ¬ idx.Indexable w path ∨ idx.StaysInside w path := by
  unfold Contained StaysInside
  rw [indexFile_adds, imp_iff_not_or]
  simp only [resolve_prefix_iff]

/-! ## Two ways out -/

/-- A home with a key in it, and a link to the keys in the directory that is to be indexed. -/
def home : Layout := fun place =>
  [(["home"], Node.dir), (["home", "user"], .dir), (["home", "user", "docs"], .dir),
    (["home", "user", "docs", "keys"], .link "../.ssh"), (["home", "user", ".ssh"], .dir),
    (["home", "user", ".ssh", "id_ed25519"], .file [75, 69, 89])].lookup place

def surroundings : Surroundings where
  lay := home
  links := 40
  cwd := []
  now := "2026-01-01T00:00:00+00:00"
  metadata := true
  read := true
  appended := some 1000000

def docsOnly : Indexer := ⟨⟨"hash-v0", fun _ => []⟩, ["/home/user/docs"]⟩

theorem resolve_docs : resolve home 40 [] "/home/user/docs" = some ["home", "user", "docs"] := by
  decide +kernel

/-- A path that leads to the key from the indexed directory. -/
def LeadsOut (path : String) : Prop :=
  docsOnly.inScope path = true ∧
    resolve home 40 [] path = some ["home", "user", ".ssh", "id_ed25519"]

theorem not_contained_of_leadsOut {path : String} (h : LeadsOut path) :
    ¬ docsOnly.Contained Codecs.sample surroundings path := by
  obtain ⟨hscope, hplace⟩ := h
  intro hcontained
  have hnode : (resolve surroundings.lay surroundings.links surroundings.cwd path).bind
      surroundings.lay = some (.file [75, 69, 89]) := by
    have hwalk : resolve surroundings.lay surroundings.links surroundings.cwd path =
        some ["home", "user", ".ssh", "id_ed25519"] := hplace
    rw [hwalk]
    rfl
  have hcontent : contentAt surroundings path = some [75, 69, 89] := by
    rw [contentAt, hnode]
  have hadds := (indexFile_adds Codecs.sample docsOnly).mpr
    (⟨hscope, ⟨rfl, rfl, Option.some_ne_none _, by decide⟩, _, hcontent, by decide, by decide⟩ :
      docsOnly.Indexable surroundings path)
  obtain ⟨root, hroot, dir, hdir, place, hplace', hprefix⟩ := hcontained hadds
  obtain rfl := List.mem_singleton.mp hroot
  obtain rfl := Option.some.inj (resolve_docs.symm.trans hdir)
  obtain rfl := Option.some.inj (hplace.symm.trans hplace')
  exact absurd hprefix (by decide)

/-- The key is indexed: through a `..`, and through a link. -/
theorem not_contained_home :
    ¬ docsOnly.Contained Codecs.sample surroundings "/home/user/docs/../.ssh/id_ed25519" ∧
      ¬ docsOnly.Contained Codecs.sample surroundings "/home/user/docs/keys/id_ed25519" := by
  constructor
  · exact not_contained_of_leadsOut ⟨by decide +kernel, by decide +kernel⟩
  · exact not_contained_of_leadsOut ⟨by decide +kernel, by decide +kernel⟩

end Indexer

end Memory
