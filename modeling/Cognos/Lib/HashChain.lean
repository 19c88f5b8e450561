/-
# `Cognos.Lib.HashChain` — records linked by their hashes

A record has a body and carries a hash.  In a chain the hash of each record is the link
of the hash before it with its own body, the first one linked to a hash that stands for
nothing (`genesis`).

    linked_append     a chain goes on where the one before it stops
    eq_of_head_eq     two chains with one last hash have the same records, as long as no
                      two links they use collide
-/
import Mathlib.Data.List.Induction

/-- How the records of a chain are linked. -/
structure HashChain (Record Body Hash : Type) where
  body : Record → Body
  hash : Record → Hash
  link : Hash → Body → Hash
  genesis : Hash

namespace HashChain

variable {Record Body Hash : Type} (C : HashChain Record Body Hash)

/-- The hash of the last record, or the hash the chain starts from. -/
def head : Hash → List Record → Hash
  | h, [] => h
  | _, r :: rs => head (C.hash r) rs

/-- Each record carries the link of the hash before it with its body. -/
def Linked : Hash → List Record → Prop
  | _, [] => True
  | h, r :: rs => C.hash r = C.link h (C.body r) ∧ Linked (C.hash r) rs

/-- What is linked along the way. -/
def links : Hash → List Record → List (Hash × Body)
  | _, [] => []
  | h, r :: rs => (h, C.body r) :: links (C.hash r) rs

/-! ## Chains in two parts -/

@[simp] theorem head_append (h : Hash) (rs ss : List Record) :
    C.head h (rs ++ ss) = C.head (C.head h rs) ss := by
  induction rs generalizing h with
  | nil => rfl
  | cons r rs ih => exact ih (C.hash r)

theorem linked_append (h : Hash) (rs ss : List Record) :
    C.Linked h (rs ++ ss) ↔ C.Linked h rs ∧ C.Linked (C.head h rs) ss := by
  induction rs generalizing h with
  | nil => exact ⟨fun hs => ⟨trivial, hs⟩, fun hs => hs.2⟩
  | cons r rs ih =>
      constructor
      · rintro ⟨hr, hrest⟩
        obtain ⟨hrs, hss⟩ := (ih (C.hash r)).mp hrest
        exact ⟨⟨hr, hrs⟩, hss⟩
      · rintro ⟨⟨hr, hrs⟩, hss⟩
        exact ⟨hr, (ih (C.hash r)).mpr ⟨hrs, hss⟩⟩

theorem links_append (h : Hash) (rs ss : List Record) :
    C.links h (rs ++ ss) = C.links h rs ++ C.links (C.head h rs) ss := by
  induction rs generalizing h with
  | nil => rfl
  | cons r rs ih => exact congrArg ((h, C.body r) :: ·) (ih (C.hash r))

theorem linked_concat {h : Hash} {rs : List Record} {r : Record} :
    C.Linked h (rs ++ [r]) ↔ C.Linked h rs ∧ C.hash r = C.link (C.head h rs) (C.body r) := by
  rw [linked_append]
  exact ⟨fun ⟨hrs, hr, _⟩ => ⟨hrs, hr⟩, fun ⟨hrs, hr⟩ => ⟨hrs, hr, trivial⟩⟩

/-- The last hash of a chain that is linked is the start, or one of its links. -/
theorem head_mem {h : Hash} {rs : List Record} (hrs : C.Linked h rs) :
    C.head h rs = h ∨ ∃ p ∈ C.links h rs, C.head h rs = C.link p.1 p.2 := by
  rcases List.eq_nil_or_concat rs with rfl | ⟨rs, r, rfl⟩
  · exact Or.inl rfl
  · rw [List.concat_eq_append] at hrs ⊢
    obtain ⟨-, hr⟩ := C.linked_concat.mp hrs
    refine Or.inr ⟨(C.head h rs, C.body r), ?_, ?_⟩
    · rw [links_append]
      exact List.mem_append_right _ (List.mem_singleton_self _)
    · rw [head_append]
      exact hr

/-! ## Records that link alike -/

section map

variable {g : Record → Record} (hbody : ∀ r, C.body (g r) = C.body r)
  (hhash : ∀ r, C.hash (g r) = C.hash r)
include hhash

theorem head_map (h : Hash) (rs : List Record) : C.head h (rs.map g) = C.head h rs := by
  induction rs generalizing h with
  | nil => rfl
  | cons r rs ih =>
      show C.head (C.hash (g r)) (rs.map g) = C.head (C.hash r) rs
      rw [hhash, ih]

include hbody

theorem links_map (h : Hash) (rs : List Record) : C.links h (rs.map g) = C.links h rs := by
  induction rs generalizing h with
  | nil => rfl
  | cons r rs ih =>
      show (h, C.body (g r)) :: C.links (C.hash (g r)) (rs.map g) = _
      rw [hbody, hhash, ih]
      rfl

theorem linked_map {h : Hash} {rs : List Record} (hrs : C.Linked h rs) :
    C.Linked h (rs.map g) := by
  induction rs generalizing h with
  | nil => trivial
  | cons r rs ih =>
      refine ⟨?_, ?_⟩
      · rw [hbody, hhash]
        exact hrs.1
      · show C.Linked (C.hash (g r)) (rs.map g)
        rw [hhash]
        exact ih hrs.2

end map

/-! ## One last hash, one chain -/

/-- Records that agree in body and hash are the same on the two sides. -/
def Determined (rs ss : List Record) : Prop :=
  ∀ r ∈ rs, ∀ s ∈ ss, C.body r = C.body s → C.hash r = C.hash s → r = s

/-- No two links that the two chains use collide, none gives the genesis hash. -/
structure Collisionless (rs ss : List Record) : Prop where
  pair : ∀ p ∈ C.links C.genesis rs, ∀ q ∈ C.links C.genesis ss,
    C.link p.1 p.2 = C.link q.1 q.2 → p = q
  left : ∀ p ∈ C.links C.genesis rs, C.link p.1 p.2 ≠ C.genesis
  right : ∀ q ∈ C.links C.genesis ss, C.link q.1 q.2 ≠ C.genesis

theorem Collisionless.of_append {rs rs' ss ss' : List Record}
    (h : C.Collisionless (rs ++ rs') (ss ++ ss')) : C.Collisionless rs ss := by
  have hl : ∀ p ∈ C.links C.genesis rs, p ∈ C.links C.genesis (rs ++ rs') := by
    intro p hp
    rw [links_append]
    exact List.mem_append_left _ hp
  have hr : ∀ p ∈ C.links C.genesis ss, p ∈ C.links C.genesis (ss ++ ss') := by
    intro p hp
    rw [links_append]
    exact List.mem_append_left _ hp
  exact ⟨fun p hp q hq => h.pair p (hl p hp) q (hr q hq), fun p hp => h.left p (hl p hp),
    fun q hq => h.right q (hr q hq)⟩

/-- From the last hash back to the first. -/
theorem eq_of_head_eq {rs ss : List Record} (hdet : C.Determined rs ss)
    (hrs : C.Linked C.genesis rs) (hss : C.Linked C.genesis ss) (hfree : C.Collisionless rs ss)
    (hhead : C.head C.genesis rs = C.head C.genesis ss) : rs = ss := by
  induction rs using List.reverseRecOn generalizing ss with
  | nil =>
      rcases C.head_mem hss with hnil | ⟨q, hq, heq⟩
      · rcases List.eq_nil_or_concat ss with rfl | ⟨ss, s, rfl⟩
        · rfl
        · rw [List.concat_eq_append] at hss hfree hnil
          have hs := (C.linked_concat.mp hss).2
          have hmem : (C.head C.genesis ss, C.body s) ∈ C.links C.genesis (ss ++ [s]) := by
            rw [links_append]
            exact List.mem_append_right _ (List.mem_singleton_self _)
          rw [head_append] at hnil
          exact absurd (hs.symm.trans hnil) (hfree.right _ hmem)
      · exact absurd (heq.symm.trans hhead.symm) (hfree.right q hq)
  | append_singleton rs r ih =>
      obtain ⟨hrs', hr⟩ := C.linked_concat.mp hrs
      have hmemr : (C.head C.genesis rs, C.body r) ∈ C.links C.genesis (rs ++ [r]) := by
        rw [links_append]
        exact List.mem_append_right _ (List.mem_singleton_self _)
      rw [head_append] at hhead
      rcases List.eq_nil_or_concat ss with rfl | ⟨ss, s, rfl⟩
      · exact absurd (hr.symm.trans hhead) (hfree.left _ hmemr)
      · rw [List.concat_eq_append] at hdet hss hfree hhead ⊢
        obtain ⟨hss', hs⟩ := C.linked_concat.mp hss
        have hmems : (C.head C.genesis ss, C.body s) ∈ C.links C.genesis (ss ++ [s]) := by
          rw [links_append]
          exact List.mem_append_right _ (List.mem_singleton_self _)
        rw [head_append] at hhead
        have hhash : C.hash r = C.hash s := hhead
        -- the last links agree, so the hashes before them and the bodies do
        have hpair := hfree.pair _ hmemr _ hmems (hr.symm.trans (hhash.trans hs))
        obtain ⟨hbefore, hbody⟩ := Prod.mk.inj hpair
        have hlast : r = s := hdet r (by simp) s (by simp) hbody hhash
        have hdet' : C.Determined rs ss := fun r' hr' s' hs' =>
          hdet r' (List.mem_append_left _ hr') s' (List.mem_append_left _ hs')
        rw [ih hdet' hrs' hss' hfree.of_append hbefore, hlast]

end HashChain
