/-
# `Cognos.Cluster.Quorum` — who counts, and how many are enough

`quorum.rs`: the members of a cluster, each live or failed, and a threshold for a set of
respondents.  A supermajority's fraction is taken as an exact rational.

    partition_after           live and failed keep the members between them
    meet_iff                  two quorums of one configuration always meet exactly when the
                              threshold is more than half of the members
    lt_two_mul_quorumSize     which policies have such a threshold

A reconfiguration starts anew: nothing is said about quorums before and after it.
-/
import Mathlib
import Cognos.Lib.Run

namespace Cluster

/-- Cluster-unique identifier for a node. -/
abbrev NodeId := String

/-- Policy used to compute the quorum threshold for a cluster. -/
inductive QuorumKind
  | majority
  | supermajority (frac : ℚ)
  | all
  deriving DecidableEq

structure QuorumTracker where
  members : Finset NodeId
  live : Finset NodeId
  failed : Finset NodeId
  quorumKind : QuorumKind
  epoch : UInt64

namespace QuorumTracker

/-! ## Operations -/

/-- A new tracker; its policy is `majority` until it is set. -/
def new (members : Finset NodeId) : QuorumTracker := ⟨members, members, ∅, .majority, 0⟩

/-- A new tracker whose policy is set. -/
def withKind (members : Finset NodeId) (kind : QuorumKind) : QuorumTracker :=
  { new members with quorumKind := kind }

/-- The number of respondents required of a membership of this size. -/
def threshold (kind : QuorumKind) (n : Nat) : Nat :=
  match kind with
  | .majority => n / 2 + 1
  | .supermajority frac => ⌈n * max 0 (min 1 frac)⌉₊
  | .all => n

def quorumSize (s : QuorumTracker) : Nat := threshold s.quorumKind s.members.card

/-- The live among the respondents are enough. -/
def hasQuorum (s : QuorumTracker) (respondents : Finset NodeId) : Bool :=
  decide (s.quorumSize ≤ (respondents ∩ s.live).card)

def markAlive (s : QuorumTracker) (node : NodeId) : QuorumTracker :=
  if node ∈ s.failed then
    { s with failed := s.failed.erase node, live := insert node s.live }
  else s

def markFailed (s : QuorumTracker) (node : NodeId) : QuorumTracker :=
  if node ∈ s.live then
    { s with live := s.live.erase node, failed := insert node s.failed }
  else s

def reconfigure (s : QuorumTracker) (newMembers : Finset NodeId) : QuorumTracker :=
  { s with members := newMembers, live := newMembers, failed := ∅, epoch := s.epoch + 1 }

/-- A node is found alive, or failed. -/
inductive Mark
  | alive (node : NodeId)
  | failed (node : NodeId)

def mark (s : QuorumTracker) : Mark → QuorumTracker
  | .alive node => s.markAlive node
  | .failed node => s.markFailed node

inductive Op
  | mark (m : Mark)
  | reconfigure (newMembers : Finset NodeId)

def step (s : QuorumTracker) : Op → QuorumTracker
  | .mark m => s.mark m
  | .reconfigure newMembers => s.reconfigure newMembers

/-! ## Live and failed -/

/-- Every member is either live or failed, and nobody else is. -/
structure Partition (s : QuorumTracker) : Prop where
  union : s.live ∪ s.failed = s.members
  disjoint : Disjoint s.live s.failed

/-- At first, and after a reconfiguration, everybody is live. -/
theorem partition_of_live {s : QuorumTracker} (hlive : s.live = s.members)
    (hfailed : s.failed = ∅) : Partition s := by
  constructor
  · rw [hlive, hfailed, Finset.union_empty]
  · rw [hfailed]
    exact Finset.disjoint_empty_right s.live

/-- A node that changes sides. -/
theorem move_partition {a b m : Finset NodeId} {node : NodeId} (hunion : a ∪ b = m)
    (hdisjoint : Disjoint a b) (hnode : node ∈ b) :
    insert node a ∪ b.erase node = m ∧ Disjoint (insert node a) (b.erase node) := by
  constructor
  · rw [Finset.insert_union, ← Finset.union_insert, Finset.insert_erase hnode, hunion]
  · rw [Finset.disjoint_insert_left]
    exact ⟨Finset.notMem_erase node b, hdisjoint.mono_right (Finset.erase_subset node b)⟩

theorem partition_mark {s : QuorumTracker} (h : Partition s) (m : Mark) :
    Partition (s.mark m) := by
  cases m with
  | alive node =>
      show Partition (s.markAlive node)
      unfold markAlive
      split_ifs with hnode
      · obtain ⟨hunion, hdisjoint⟩ := move_partition h.union h.disjoint hnode
        exact ⟨hunion, hdisjoint⟩
      · exact h
  | failed node =>
      show Partition (s.markFailed node)
      unfold markFailed
      split_ifs with hnode
      · have hswap : s.failed ∪ s.live = s.members := by rw [Finset.union_comm, h.union]
        obtain ⟨hunion, hdisjoint⟩ := move_partition hswap h.disjoint.symm hnode
        refine ⟨?_, hdisjoint.symm⟩
        show s.live.erase node ∪ insert node s.failed = s.members
        rw [Finset.union_comm, hunion]
      · exact h

theorem partition_step {s : QuorumTracker} (h : Partition s) (op : Op) :
    Partition (s.step op) := by
  cases op with
  | mark m => exact partition_mark h m
  | reconfigure newMembers => exact partition_of_live rfl rfl

theorem partition_after (members : Finset NodeId) (kind : QuorumKind) (ops : List Op) :
    Partition (Run.after step (withKind members kind) ops) := by
  have hstart : Partition (withKind members kind) := partition_of_live rfl rfl
  exact Run.invariant_of_step step (I := Partition) (fun _ op h => partition_step h op) hstart ops

/-! ## One configuration -/

/-- Marks change neither who is a member nor the policy. -/
theorem mark_same (s : QuorumTracker) (m : Mark) :
    (s.mark m).members = s.members ∧ (s.mark m).quorumKind = s.quorumKind := by
  cases m with
  | alive node =>
      show (s.markAlive node).members = _ ∧ (s.markAlive node).quorumKind = _
      unfold markAlive
      split_ifs
      · exact ⟨rfl, rfl⟩
      · exact ⟨rfl, rfl⟩
  | failed node =>
      show (s.markFailed node).members = _ ∧ (s.markFailed node).quorumKind = _
      unfold markFailed
      split_ifs
      · exact ⟨rfl, rfl⟩
      · exact ⟨rfl, rfl⟩

/-- The state is of the same configuration as `c`. -/
structure Of (c s : QuorumTracker) : Prop where
  members : s.members = c.members
  kind : s.quorumKind = c.quorumKind
  partition : Partition s

theorem of_marks {c s : QuorumTracker} (h : Of c s) (marks : List Mark) :
    Of c (Run.after mark s marks) := by
  refine Run.invariant_of_step mark (I := Of c) (fun s m h => ?_) h marks
  obtain ⟨hmembers, hkind⟩ := mark_same s m
  exact ⟨hmembers.trans h.members, hkind.trans h.kind, partition_mark h.partition m⟩

/-- A quorum has enough members of the configuration. -/
theorem le_card_of_hasQuorum {c s : QuorumTracker} (h : Of c s) {respondents : Finset NodeId}
    (hquorum : s.hasQuorum respondents = true) :
    c.quorumSize ≤ (respondents ∩ c.members).card := by
  have hsize : s.quorumSize = c.quorumSize := by
    rw [quorumSize, quorumSize, h.members, h.kind]
  rw [← hsize]
  refine (of_decide_eq_true hquorum).trans (Finset.card_le_card ?_)
  refine Finset.inter_subset_inter_left ?_
  rw [← h.members, ← h.partition.union]
  exact Finset.subset_union_left

/-- Every failed member can be found alive again. -/
theorem exists_revived {s : QuorumTracker} (h : Partition s) :
    ∃ marks, (Run.after mark s marks).live = s.members := by
  induction hn : s.failed.card generalizing s with
  | zero =>
      refine ⟨[], ?_⟩
      show s.live = s.members
      rw [← h.union, Finset.card_eq_zero.mp hn, Finset.union_empty]
  | succ n ih =>
      have hfailed : 0 < s.failed.card := by
        rw [hn]
        exact Nat.succ_pos n
      obtain ⟨node, hnode⟩ := Finset.card_pos.mp hfailed
      have hstep : s.mark (.alive node) =
          { s with failed := s.failed.erase node, live := insert node s.live } := if_pos hnode
      have hcard : (s.mark (.alive node)).failed.card = n := by
        rw [hstep, Finset.card_erase_of_mem hnode, hn]
        rfl
      obtain ⟨marks, hmarks⟩ := ih (partition_mark h (.alive node)) hcard
      refine ⟨.alive node :: marks, ?_⟩
      rw [Run.after_cons, hmarks, (mark_same s (.alive node)).1]

/-- Any two quorums of the configuration, with any marks before and between them, share a
member. -/
def Meet (c : QuorumTracker) : Prop :=
  ∀ marks later first second, (Run.after mark c marks).hasQuorum first = true →
    (Run.after mark (Run.after mark c marks) later).hasQuorum second = true →
      ∃ node ∈ c.members, node ∈ first ∧ node ∈ second

theorem meet_of_lt {c : QuorumTracker} (h : Partition c)
    (hlt : c.members.card < 2 * c.quorumSize) : Meet c := by
  intro marks later first second hfirst hsecond
  have hof : Of c (Run.after mark c marks) := of_marks ⟨rfl, rfl, h⟩ marks
  have hle := le_card_of_hasQuorum hof hfirst
  have hle' := le_card_of_hasQuorum (of_marks hof later) hsecond
  obtain ⟨node, hnode⟩ := Finset.inter_nonempty_of_card_lt_card_add_card
    (@Finset.inter_subset_right _ _ first _) (@Finset.inter_subset_right _ _ second _)
    (show c.members.card < (first ∩ c.members).card + (second ∩ c.members).card by omega)
  obtain ⟨hin, hin'⟩ := Finset.mem_inter.mp hnode
  obtain ⟨hnodeFirst, hmember⟩ := Finset.mem_inter.mp hin
  exact ⟨node, hmember, hnodeFirst, (Finset.mem_inter.mp hin').1⟩

/-- Where half of the members is enough, there are two quorums with nobody in common. -/
theorem not_meet_of_le {c : QuorumTracker} (h : Partition c)
    (hle : 2 * c.quorumSize ≤ c.members.card) : ¬ Meet c := by
  intro hmeet
  obtain ⟨marks, hlive⟩ := exists_revived h
  have hof : Of c (Run.after mark c marks) := of_marks ⟨rfl, rfl, h⟩ marks
  obtain ⟨first, hfirst, hcard⟩ := Finset.exists_subset_card_eq
    (show c.quorumSize ≤ c.members.card by omega)
  have hrest : c.quorumSize ≤ (c.members \ first).card := by
    rw [Finset.card_sdiff_of_subset hfirst]
    omega
  obtain ⟨second, hsecond, hcard'⟩ := Finset.exists_subset_card_eq hrest
  have hquorum : ∀ respondents ⊆ c.members, respondents.card = c.quorumSize →
      (Run.after mark c marks).hasQuorum respondents = true := by
    intro respondents hsubset hsize
    refine decide_eq_true ?_
    rw [hlive, Finset.inter_eq_left.mpr hsubset, hsize, quorumSize, quorumSize, hof.members,
      hof.kind]
  obtain ⟨node, -, hnode, hnode'⟩ := hmeet marks [] first second (hquorum first hfirst hcard)
    (hquorum second (hsecond.trans Finset.sdiff_subset) hcard')
  exact (Finset.mem_sdiff.mp (hsecond hnode')).2 hnode

/-! ## Thresholds -/

/-- The policies that ask for more than half of the members. -/
theorem lt_two_mul_quorumSize {s : QuorumTracker}
    (h : s.quorumKind = .majority ∨ s.members.Nonempty ∧
      (s.quorumKind = .all ∨ ∃ frac, s.quorumKind = .supermajority frac ∧ 1 / 2 < frac)) :
    s.members.card < 2 * s.quorumSize := by
  unfold quorumSize
  rcases h with hkind | ⟨hmembers, hkind | ⟨frac, hkind, hfrac⟩⟩
  · rw [hkind]
    show _ < 2 * (_ / 2 + 1)
    omega
  · rw [hkind]
    show _ < 2 * s.members.card
    have hpos := Finset.card_pos.mpr hmembers
    omega
  · rw [hkind]
    show _ < 2 * ⌈(s.members.card : ℚ) * max 0 (min 1 frac)⌉₊
    have hpos : (0 : ℚ) < s.members.card := Nat.cast_pos.mpr (Finset.card_pos.mpr hmembers)
    have hclamp : 1 / 2 < max 0 (min 1 frac) :=
      lt_max_of_lt_right (lt_min (by norm_num) hfrac)
    have hceil := Nat.le_ceil ((s.members.card : ℚ) * max 0 (min 1 frac))
    have hhalf : (s.members.card : ℚ) * (1 / 2) < s.members.card * max 0 (min 1 frac) :=
      mul_lt_mul_of_pos_left hclamp hpos
    have hlt : (s.members.card : ℚ) < 2 * ⌈(s.members.card : ℚ) * max 0 (min 1 frac)⌉₊ := by
      linarith
    exact_mod_cast hlt

/-- In every state that is reached, live and failed are the two parts of the members; and any
two quorums of its configuration share a member exactly when the threshold is more than half of
the members, as it is for a majority, and for a supermajority of more than half or for all of at
least one member. -/
theorem quorums_meet (members : Finset NodeId) (kind : QuorumKind) (ops : List Op) :
    let s := Run.after step (withKind members kind) ops
    Partition s ∧ (Meet s ↔ s.members.card < 2 * s.quorumSize) ∧
      (s.quorumKind = .majority ∨ s.members.Nonempty ∧
        (s.quorumKind = .all ∨ ∃ frac, s.quorumKind = .supermajority frac ∧ 1 / 2 < frac) →
          Meet s) := by
  intro s
  have hpartition : Partition s := partition_after members kind ops
  refine ⟨hpartition, ⟨fun hmeet => ?_, meet_of_lt hpartition⟩, fun hkind => ?_⟩
  · by_contra hle
    exact not_meet_of_le hpartition (not_lt.mp hle) hmeet
  · exact meet_of_lt hpartition (lt_two_mul_quorumSize hkind)

/-- One half of two members is a quorum, and so is the other; and of no members all is none. -/
theorem not_meet_half :
    ¬ Meet (withKind {"a", "b"} (.supermajority (1 / 2))) ∧ ¬ Meet (withKind ∅ .all) := by
  constructor
  · intro hmeet
    have hsize : (withKind {"a", "b"} (.supermajority (1 / 2))).quorumSize = 1 := by
      show ⌈((2 : ℕ) : ℚ) * max 0 (min 1 (1 / 2))⌉₊ = 1
      norm_num
    obtain ⟨node, -, hfirst, hsecond⟩ := hmeet [] [] {"a"} {"b"}
      (decide_eq_true (hsize.le.trans (by decide))) (decide_eq_true (hsize.le.trans (by decide)))
    obtain rfl := Finset.mem_singleton.mp hfirst
    revert hsecond
    decide
  · intro hmeet
    obtain ⟨node, hnode, -⟩ := hmeet [] [] ∅ ∅ rfl rfl
    exact Finset.notMem_empty node hnode

end QuorumTracker

end Cluster
