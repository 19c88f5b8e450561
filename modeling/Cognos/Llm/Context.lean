/-
# `Cognos.Llm.Context` — a conversation in a bounded window

`LlmContext` of `llama_cpp/context.rs`: tokens are appended, the oldest are shifted out, and
all are dropped by a reset, while the state of the KV cache is kept beside them.

    resident_run            in any run the tokens are those appended since the last reset without
                            the ones shifted out, and the state of the cache counts them
    prefix_of_lastShift_eq  while `last_shift` stays, tokens keep their places
-/
import Mathlib
import Cognos.Lib.Run

namespace Llm

/-- `llama_token` -/
abbrev Token := Int32

inductive ContextError
  | full
  | invalidTokens
deriving DecidableEq

/-- Snapshot of the KV cache of a context. -/
structure KvCacheState where
  slotsUsed : UInt32
  slotsTotal : UInt32
  head : UInt32
  lastShift : UInt64

structure LlmContext where
  id : String
  modelId : String
  kvCache : KvCacheState
  tokens : List Token
  maxTokens : UInt32

/-- `saturating_add` -/
def saturatingAdd (a b : UInt32) : UInt32 := UInt32.ofNat (min (a.toNat + b.toNat) (2 ^ 32 - 1))

namespace LlmContext

def new (id modelId : String) (maxTokens : UInt32) : LlmContext where
  id := id
  modelId := modelId
  kvCache := ⟨0, maxTokens, 0, 0⟩
  tokens := []
  maxTokens := maxTokens

/-- Append a batch of tokens. -/
def append (c : LlmContext) (tokens : List Token) : Except ContextError Unit × LlmContext :=
  if tokens = [] then (.error .invalidTokens, c)
  else if c.maxTokens.toNat < c.tokens.length + tokens.length then (.error .full, c)
  else
    let tokens := c.tokens ++ tokens
    (.ok (), { c with
      tokens := tokens
      kvCache := { c.kvCache with slotsUsed := UInt32.ofNat tokens.length } })

/-- Drop the oldest `n` tokens. -/
def shift (c : LlmContext) (n : Nat) : LlmContext :=
  if n = 0 then c
  else
    let dropN := min n c.tokens.length
    let tokens := c.tokens.drop dropN
    { c with
      tokens := tokens
      kvCache := { c.kvCache with
        head := saturatingAdd c.kvCache.head (UInt32.ofNat dropN)
        slotsUsed := UInt32.ofNat tokens.length
        lastShift := c.kvCache.lastShift + 1 } }

/-- Drop all tokens. -/
def reset (c : LlmContext) : LlmContext :=
  { c with
    tokens := []
    kvCache := { c.kvCache with
      slotsUsed := 0
      head := 0
      lastShift := c.kvCache.lastShift + 1 } }

/-- What is done with a context. -/
inductive Op
  | append (tokens : List Token)
  | shift (n : Nat)
  | reset

def step (c : LlmContext) : Op → LlmContext
  | .append tokens => (c.append tokens).2
  | .shift n => c.shift n
  | .reset => c.reset

/-! ## The conversation -/

/-- What has been said since the last reset, how much of it was shifted out, and how often
something was. -/
structure Conversation where
  said : List Token
  gone : Nat
  shifts : Nat

/-- The conversation after a step, in a window of `most` tokens: a batch is taken where it
fits. -/
def Conversation.step (most : Nat) (v : Conversation) : Op → Conversation
  | .append tokens =>
      if v.said.length - v.gone + tokens.length ≤ most then { v with said := v.said ++ tokens }
      else v
  | .shift 0 => v
  | .shift n => { v with gone := min (v.gone + n) v.said.length, shifts := v.shifts + 1 }
  | .reset => ⟨[], 0, v.shifts + 1⟩

/-- The context holds what is left of the conversation. -/
structure Holds (most : UInt32) (c : LlmContext) (v : Conversation) : Prop where
  gone_le : v.gone ≤ v.said.length
  fits : v.said.length - v.gone ≤ most.toNat
  tokens : c.tokens = v.said.drop v.gone
  maxTokens : c.maxTokens = most
  slotsUsed : c.kvCache.slotsUsed.toNat = c.tokens.length
  slotsTotal : c.kvCache.slotsTotal = most
  head : c.kvCache.head.toNat = min v.gone (2 ^ 32 - 1)
  lastShift : c.kvCache.lastShift.toNat = v.shifts % 2 ^ 64

theorem holds_new (id modelId : String) (most : UInt32) :
    Holds most (new id modelId most) ⟨[], 0, 0⟩ where
  gone_le := by simp
  fits := by simp
  tokens := rfl
  maxTokens := rfl
  slotsUsed := rfl
  slotsTotal := rfl
  head := rfl
  lastShift := rfl

theorem Holds.length {most : UInt32} {c : LlmContext} {v : Conversation} (h : Holds most c v) :
    c.tokens.length = v.said.length - v.gone := by
  rw [h.tokens, List.length_drop]

/-- Slots are counted in 32 bits, which the window has. -/
theorem toNat_slots {most : UInt32} {n : Nat} (h : n ≤ most.toNat) :
    (UInt32.ofNat n).toNat = n := by
  have := most.toNat_lt
  rw [UInt32.toNat_ofNat', Nat.mod_eq_of_lt (by omega)]

theorem holds_append {most : UInt32} {c : LlmContext} {v : Conversation} (h : Holds most c v)
    (tokens : List Token) :
    Holds most (c.append tokens).2 (v.step most.toNat (.append tokens)) := by
  have hlen := h.length
  rw [append, Conversation.step, ← hlen]
  by_cases hempty : tokens = []
  · subst hempty
    simp only [if_true, List.append_nil, ite_self]
    exact h
  · have hmax : c.maxTokens.toNat = most.toNat := by rw [h.maxTokens]
    rw [if_neg hempty, hmax]
    by_cases hfits : c.tokens.length + tokens.length ≤ most.toNat
    · rw [if_neg (by omega), if_pos hfits]
      have hgone : v.gone ≤ (v.said ++ tokens).length := by
        rw [List.length_append]
        exact Nat.le_add_right_of_le h.gone_le
      refine ⟨hgone, ?_, ?_, h.maxTokens, ?_, h.slotsTotal, h.head, h.lastShift⟩
      · rw [List.length_append, Nat.sub_add_comm h.gone_le, ← hlen]
        exact hfits
      · rw [List.drop_append_of_le_length h.gone_le, ← h.tokens]
      · exact toNat_slots (by rw [List.length_append]; exact hfits)
    · rw [if_pos (by omega), if_neg hfits]
      exact h

theorem toNat_saturatingAdd (a b : UInt32) :
    (saturatingAdd a b).toNat = min (a.toNat + b.toNat) (2 ^ 32 - 1) := by
  rw [saturatingAdd, UInt32.toNat_ofNat', Nat.mod_eq_of_lt (by omega)]

theorem holds_shift {most : UInt32} {c : LlmContext} {v : Conversation} (h : Holds most c v)
    (n : Nat) : Holds most (c.shift n) (v.step most.toNat (.shift n)) := by
  cases n with
  | zero => exact h
  | succ n =>
      have hlen := h.length
      have hfits := h.fits
      have hgone := h.gone_le
      -- the tokens that go are those of the window the conversation has left
      have hdrop : v.gone + min (n + 1) c.tokens.length = min (v.gone + (n + 1)) v.said.length := by
        omega
      have hcut : (UInt32.ofNat (min (n + 1) c.tokens.length)).toNat =
          min (n + 1) c.tokens.length :=
        toNat_slots (show min (n + 1) c.tokens.length ≤ most.toNat by omega)
      have hconv : v.step most.toNat (.shift (n + 1)) =
          { v with gone := min (v.gone + (n + 1)) v.said.length, shifts := v.shifts + 1 } := rfl
      rw [shift, if_neg (Nat.succ_ne_zero n), hconv, ← hdrop]
      refine ⟨by dsimp only; omega, by dsimp only; omega, ?_, h.maxTokens, ?_, h.slotsTotal, ?_, ?_⟩
      · show c.tokens.drop (min (n + 1) c.tokens.length) = _
        rw [h.tokens, List.drop_drop, ← h.tokens]
      · have hleft : (c.tokens.drop (min (n + 1) c.tokens.length)).length ≤ most.toNat := by
          rw [List.length_drop]
          omega
        exact toNat_slots hleft
      · show (saturatingAdd c.kvCache.head _).toNat = _
        rw [toNat_saturatingAdd, hcut, h.head]
        dsimp only
        omega
      · show (c.kvCache.lastShift + 1).toNat = (v.shifts + 1) % 2 ^ 64
        rw [UInt64.toNat_add, h.lastShift, UInt64.toNat_one, Nat.mod_add_mod]

theorem holds_reset {most : UInt32} {c : LlmContext} {v : Conversation} (h : Holds most c v) :
    Holds most c.reset (v.step most.toNat .reset) where
  gone_le := Nat.le_refl 0
  fits := Nat.zero_le _
  tokens := rfl
  maxTokens := h.maxTokens
  slotsUsed := rfl
  slotsTotal := h.slotsTotal
  head := rfl
  lastShift := by
    show (c.kvCache.lastShift + 1).toNat = (v.shifts + 1) % 2 ^ 64
    rw [UInt64.toNat_add, h.lastShift, UInt64.toNat_one, Nat.mod_add_mod]

/-- One step keeps the context what is left of the conversation. -/
theorem holds_step {most : UInt32} {c : LlmContext} {v : Conversation} (op : Op)
    (h : Holds most c v) : Holds most (c.step op) (v.step most.toNat op) := by
  cases op with
  | append tokens => exact holds_append h tokens
  | shift n => exact holds_shift h n
  | reset => exact holds_reset h

/-- In any run, the context holds what is left of the conversation. -/
theorem resident_run (id modelId : String) (most : UInt32) (ops : List Op) :
    Holds most (Run.after step (new id modelId most) ops)
      (Run.after (Conversation.step most.toNat) ⟨[], 0, 0⟩ ops) :=
  Run.related step (fun _ _ op h => holds_step op h) (holds_new id modelId most) ops

/-! ## Shifts -/

/-- The steps that drop tokens. -/
def Op.shifts : Op → Bool
  | .append _ => false
  | .shift n => n ≠ 0
  | .reset => true

theorem shifts_run (most : Nat) (v : Conversation) (ops : List Op) :
    (Run.after (Conversation.step most) v ops).shifts = v.shifts + ops.countP Op.shifts := by
  induction ops generalizing v with
  | nil => rfl
  | cons op ops ih =>
      rw [Run.after_cons, ih, List.countP_cons]
      rcases op with tokens | (_ | n) | _
      · rw [Conversation.step]
        split <;> simp [Op.shifts]
      · simp [Conversation.step, Op.shifts]
      · simp [Conversation.step, Op.shifts]
        omega
      · simp [Conversation.step, Op.shifts]
        omega

/-- Without them, the conversation only goes on. -/
theorem said_run (most : Nat) (v : Conversation) {ops : List Op}
    (h : ∀ op ∈ ops, op.shifts = false) :
    v.said <+: (Run.after (Conversation.step most) v ops).said ∧
      (Run.after (Conversation.step most) v ops).gone = v.gone := by
  induction ops generalizing v with
  | nil => exact ⟨List.prefix_rfl, rfl⟩
  | cons op ops ih =>
      obtain ⟨hop, hrest⟩ := List.forall_mem_cons.mp h
      obtain ⟨hsaid, hgone⟩ := ih (v.step most op) hrest
      rw [Run.after_cons, hgone]
      rcases op with tokens | (_ | n) | _
      · rw [Conversation.step] at hsaid ⊢
        split at hsaid
        · next hfits =>
            rw [if_pos hfits]
            exact ⟨(List.prefix_append v.said tokens).trans hsaid, rfl⟩
        · next hfits =>
            rw [if_neg hfits]
            exact ⟨hsaid, rfl⟩
      · exact ⟨hsaid, rfl⟩
      · cases hop
      · cases hop

/-- Where `last_shift` is what it was, and fewer than 2^64 shifts came between, the tokens are
those that were there, in their places, and then newer ones. -/
theorem prefix_of_lastShift_eq (id modelId : String) (most : UInt32) (past ops : List Op)
    (hcount : ops.countP Op.shifts < 2 ^ 64)
    (hsame : (Run.after step (new id modelId most) (past ++ ops)).kvCache.lastShift =
      (Run.after step (new id modelId most) past).kvCache.lastShift) :
    (Run.after step (new id modelId most) past).tokens <+:
        (Run.after step (new id modelId most) (past ++ ops)).tokens ∧
      (Run.after step (new id modelId most) (past ++ ops)).kvCache.head =
        (Run.after step (new id modelId most) past).kvCache.head := by
  have hpast := resident_run id modelId most past
  have hall := resident_run id modelId most (past ++ ops)
  have hshifts := congrArg UInt64.toNat hsame
  rw [hall.lastShift, hpast.lastShift, Run.after_append, shifts_run] at hshifts
  have hnone : ops.countP Op.shifts = 0 := by omega
  have hsplit := Run.after_append (Conversation.step most.toNat) ⟨[], 0, 0⟩ past ops
  have hquiet : ∀ op ∈ ops, op.shifts = false := by
    intro op hop
    simpa using List.countP_eq_zero.mp hnone op hop
  obtain ⟨hsaid, hgone⟩ := said_run most.toNat
    (Run.after (Conversation.step most.toNat) ⟨[], 0, 0⟩ past) hquiet
  rw [← hsplit] at hsaid hgone
  constructor
  · rw [hall.tokens, hpast.tokens, hgone]
    exact hsaid.drop _
  · apply UInt32.toNat_inj.mp
    rw [hall.head, hpast.head, hgone]

theorem prefix_of_lastShift_eq_append :
    [1, 2] <+: (Run.after step (new "s" "m" 8) [.append [1, 2], .append [3]]).tokens :=
  (prefix_of_lastShift_eq "s" "m" 8 [.append [1, 2]] [.append [3]] (by decide) (by decide)).1

end LlmContext

end Llm
