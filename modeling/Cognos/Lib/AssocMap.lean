/-
# `Cognos.Lib.AssocMap` — keeping some entries of a map

`retain` of Rust's maps, on association lists with distinct keys, and a change of every value.
-/
import Mathlib.Data.List.AList

namespace AList

variable {α β γ : Type}

/-- The entries that pass a test. -/
def retain (p : α → β → Bool) (m : AList fun _ : α => β) : AList fun _ : α => β where
  entries := m.entries.filter fun e => p e.1 e.2
  nodupKeys := m.nodupKeys.sublist List.filter_sublist

theorem retain_retain (p q : α → β → Bool) (m : AList fun _ : α => β) :
    (m.retain p).retain q = m.retain fun a b => p a b && q a b := by
  apply AList.ext
  show ((m.entries.filter _).filter _) = m.entries.filter _
  rw [List.filter_filter]
  simp only [Bool.and_comm]

theorem retain_eq_self {p : α → β → Bool} {m : AList fun _ : α => β} (h : ∀ a b, p a b = true) :
    m.retain p = m := by
  apply AList.ext
  show m.entries.filter _ = m.entries
  exact List.filter_eq_self.mpr fun e _ => h e.1 e.2

/-- The keys with other values. -/
def mapValues (f : β → γ) (m : AList fun _ : α => β) : AList fun _ : α => γ where
  entries := m.entries.map (.map id fun _ => f)
  nodupKeys := m.nodupKeys.map₂ (fun _ => f) _

variable [DecidableEq α]

@[simp] theorem lookup_mapValues (f : β → γ) (m : AList fun _ : α => β) (a : α) :
    (m.mapValues f).lookup a = (m.lookup a).map f :=
  List.dlookup_map₂ a

theorem mem_lookup_retain {p : α → β → Bool} {m : AList fun _ : α => β} {a : α} {b : β} :
    b ∈ (m.retain p).lookup a ↔ b ∈ m.lookup a ∧ p a b = true := by
  show b ∈ List.dlookup a (m.retain p).entries ↔ b ∈ List.dlookup a m.entries ∧ _
  rw [List.mem_dlookup_iff (m.retain p).nodupKeys, List.mem_dlookup_iff m.nodupKeys, retain,
    List.mem_filter]

@[simp] theorem lookup_retain {p : α → β → Bool} {m : AList fun _ : α => β} (a : α) :
    (m.retain p).lookup a = (m.lookup a).filter (p a) := by
  apply Option.ext
  intro b
  rw [Option.filter_eq_some_iff]
  exact mem_lookup_retain

end AList
