/-
# `Cognos.Hal.AuditReread` — an entry hashed again

What `build_entry` hashes is the JSON text of the entry without its hash.  What `verify`
hashes is made from the line in the file: read, its hash taken out, and written again.  The
two texts are one, unless the score is not a number: it is written as `null`, read as no
score at all, and left out when the entry is written again.

    reread_finite      a score that is a number, or none
    reread_infinite    any other score
    reread_iff         which entries are hashed alike on both sides
-/
import Mathlib
import Cognos.Hal.AuditTamper

namespace Hal

variable {Time : Type}

namespace AuditEntry

variable (K : Codecs Time)

/-- The text `verify` hashes for a line: the entry read from it, its hash cleared, written. -/
def reread (line : String) : Option String := (readLine K line).map (body K)

/-- A line is read again as the text without the hash. -/
theorem reread_finite {e : AuditEntry Time} (h : e.FiniteScore) :
    reread K (e.line K) = some (e.body K) := by
  rw [reread, readLine_line K h, Option.map_some]

theorem exists_infinite {e : AuditEntry Time} (h : ¬ e.FiniteScore) :
    ∃ x, e.halScore = some x ∧ ¬ x.isFinite = true := by
  by_contra hnone
  refine h fun x hx => ?_
  by_contra hinf
  exact hnone ⟨x, hx, hinf⟩

/-- A score that is not finite is read as none. -/
theorem readLine_infinite {e : AuditEntry Time} {x : Float32} (hx : e.halScore = some x)
    (hinf : ¬ x.isFinite = true) :
    readLine K (e.line K) = some { e with halScore := none } := by
  have hnull : e.halScore.map K.f32 = some .null := by
    rw [hx, Option.map_some, Codecs.f32, if_neg hinf]
  have hnone : Json.optional K.readF32? (some .null) = some none := rfl
  have hread := read_scored K (e := e) hnone
  have hline : e.line K = (Json.record (e.scored K (some .null))).print := by
    rw [line, json, ← hnull, scored_self]
  rw [readLine, hline, Json.parseText_print, Option.bind_some, hread]

/-- And the text without it is another one. -/
theorem reread_infinite {e : AuditEntry Time} (h : ¬ e.FiniteScore) :
    reread K (e.line K) ≠ some (e.body K) := by
  obtain ⟨x, hx, hinf⟩ := exists_infinite h
  rw [reread, readLine_infinite K hx hinf, Option.map_some]
  intro heq
  have hmap := score_eq_of_line_eq K (Option.some.inj heq)
  have hsome : e.withoutHash.halScore.map K.f32 = some (K.f32 x) := by
    show e.halScore.map K.f32 = _
    rw [hx, Option.map_some]
  rw [hsome] at hmap
  cases hmap

end AuditEntry

namespace AuditLog

variable (E : LogEnv Time)

/-- Whatever is appended, and to whichever log: the line of the entry is read again as the text
that was hashed exactly when the score is a number, or there is none. -/
theorem reread_iff (l : AuditLog Time) (a : Appended Time) :
    AuditEntry.reread E.codecs ((buildEntry E a l).1.line E.codecs) =
        some ((entry a).line E.codecs) ↔
      ∀ x ∈ a.halScore, x.isFinite = true := by
  have hbody : (buildEntry E a l).1.body E.codecs = (entry a).line E.codecs := rfl
  have hscore : (buildEntry E a l).1.FiniteScore ↔ ∀ x ∈ a.halScore, x.isFinite = true := Iff.rfl
  rw [← hbody, ← hscore]
  constructor
  · intro hreread
    by_contra hinf
    exact AuditEntry.reread_infinite E.codecs hinf hreread
  · intro hfin
    exact AuditEntry.reread_finite E.codecs hfin

/-- An infinite score is hashed as `null`, and left out when it is hashed again. -/
theorem not_reread : ¬ ∀ (l : AuditLog { s : String // Json.escapedLen s ≤ 40 })
    (a : Appended { s : String // Json.escapedLen s ≤ 40 }),
    AuditEntry.reread infiniteEnv.codecs ((buildEntry infiniteEnv a l).1.line infiniteEnv.codecs) =
      some ((entry a).line infiniteEnv.codecs) := by
  intro h
  have hinf : ¬ (buildEntry infiniteEnv openFileInfinite
      (openAt infiniteEnv .fresh 0)).1.FiniteScore := by
    intro hfin
    exact absurd (hfin (1 / 0) rfl) (by decide)
  exact AuditEntry.reread_infinite infiniteEnv.codecs hinf
    (h (openAt infiniteEnv .fresh 0) openFileInfinite)

end AuditLog

end Hal
