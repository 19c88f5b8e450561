/-
# `Cognos.Lib.Frame` — length-prefixed frames on a byte stream

A frame is its length as four bytes, high byte first, and then its bytes.  A stream is
what arrives before it ends or times out; the two are the same to a reader that wants
more.  A reader has a limit on the length it takes (`read`); a writer may have one
(`write`) or none (`send`).

    read_send          what is within the limit comes back, and the rest after it
    read_send_oversize what is beyond the limit is refused by its length
    readAll_writeAll   frames written in a row are read in that row
-/
import Mathlib
import Cognos.Lib.Text

namespace Frame

/-! ## The length -/

/-- `(n as u32).to_be_bytes()`. -/
def beBytes (n : Nat) : List UInt8 :=
  [UInt8.ofNat (n / 2 ^ 24), UInt8.ofNat (n / 2 ^ 16), UInt8.ofNat (n / 2 ^ 8), UInt8.ofNat n]

/-- `u32::from_be_bytes(bs) as usize`. -/
def fromBe (bs : List UInt8) : Nat := bs.foldl (fun n b => n * 256 + b.toNat) 0

theorem fromBe_beBytes (n : Nat) : fromBe (beBytes n) = n % 2 ^ 32 := by
  simp only [fromBe, beBytes, List.foldl_cons, List.foldl_nil, UInt8.toNat_ofNat']
  omega

/-! ## Reading and writing -/

/-- `read_exact` of `n` bytes: the bytes and what is left of the stream. -/
def readExact (n : Nat) (bs : List UInt8) : Option (List UInt8 × List UInt8) :=
  if n ≤ bs.length then some (bs.take n, bs.drop n) else none

@[simp] theorem readExact_append (xs rest : List UInt8) :
    readExact xs.length (xs ++ rest) = some (xs, rest) := by
  simp [readExact]

/-- A frame without a limit on its payload. -/
def send (payload : List UInt8) : List UInt8 := beBytes payload.length ++ payload

inductive ReadError
  /-- The stream ended, or nothing came in time. -/
  | closed
  /-- The announced length is beyond the limit. -/
  | oversize (length : Nat)
  deriving DecidableEq, Repr

/-- Read one frame of at most `limit` bytes. -/
def read (limit : Nat) (bs : List UInt8) : Except ReadError (List UInt8 × List UInt8) :=
  match readExact 4 bs with
  | none => .error .closed
  | some (header, bs) =>
      let length := fromBe header
      if limit < length then .error (.oversize length)
      else
        match readExact length bs with
        | none => .error .closed
        | some r => .ok r

/-- Write one frame of at most `limit` bytes: the stream with the frame on it. -/
def write (limit : Nat) (stream payload : List UInt8) : Option (List UInt8) :=
  if limit < payload.length then none else some (stream ++ send payload)

theorem readExact_length (n : Nat) (rest : List UInt8) :
    readExact 4 (beBytes n ++ rest) = some (beBytes n, rest) :=
  readExact_append (beBytes n) rest

/-- A frame within the limit is read, and the stream goes on behind it. -/
theorem read_send {limit : Nat} {payload : List UInt8} (hl : payload.length ≤ limit)
    (h32 : limit < 2 ^ 32) (rest : List UInt8) :
    read limit (send payload ++ rest) = .ok (payload, rest) := by
  have hlen : fromBe (beBytes payload.length) = payload.length := by
    rw [fromBe_beBytes]
    exact Nat.mod_eq_of_lt (by omega)
  unfold read send
  rw [List.append_assoc, readExact_length]
  show (if limit < fromBe (beBytes payload.length) then _ else _) = _
  rw [hlen, if_neg (Nat.not_lt.mpr hl), readExact_append]

/-- A frame beyond the limit is refused. -/
theorem read_send_oversize {limit : Nat} {payload : List UInt8} (hl : limit < payload.length)
    (h32 : payload.length < 2 ^ 32) (rest : List UInt8) :
    read limit (send payload ++ rest) = .error (.oversize payload.length) := by
  have hlen : fromBe (beBytes payload.length) = payload.length := by
    rw [fromBe_beBytes]
    exact Nat.mod_eq_of_lt h32
  unfold read send
  rw [List.append_assoc, readExact_length]
  show (if limit < fromBe (beBytes payload.length) then _ else _) = _
  rw [hlen, if_pos hl]

/-- What is read is within the limit. -/
theorem length_of_read {limit : Nat} {bs payload rest : List UInt8}
    (h : read limit bs = .ok (payload, rest)) : payload.length ≤ limit := by
  unfold read at h
  split at h
  · cases h
  · next header bs' _ =>
      simp only at h
      split at h
      · cases h
      · next hle =>
          unfold readExact at h
          split at h
          · cases h
          · next r hr =>
              split at hr
              · cases hr
                cases h
                rw [List.length_take]
                omega
              · cases hr

/-! ## Frames in a row -/

/-- Write payload after payload; one that is refused leaves the stream as it was. -/
def writeAll (limit : Nat) : List UInt8 → List (List UInt8) → List UInt8
  | stream, [] => stream
  | stream, p :: ps => writeAll limit ((write limit stream p).getD stream) ps

/-- Read `n` frames. -/
def readAll (limit : Nat) : Nat → List UInt8 → Except ReadError (List (List UInt8) × List UInt8)
  | 0, bs => .ok ([], bs)
  | n + 1, bs =>
      match read limit bs with
      | .error e => .error e
      | .ok (p, bs) =>
          match readAll limit n bs with
          | .error e => .error e
          | .ok (ps, rest) => .ok (p :: ps, rest)

/-- The payloads a writer with this limit accepts. -/
def accepted (limit : Nat) (ps : List (List UInt8)) : List (List UInt8) :=
  ps.filter fun p => p.length ≤ limit

theorem writeAll_eq (limit : Nat) (ps : List (List UInt8)) :
    ∀ stream, writeAll limit stream ps = stream ++ (accepted limit ps).flatMap send := by
  induction ps with
  | nil => intro stream; simp [writeAll, accepted]
  | cons p ps ih =>
      intro stream
      show writeAll limit ((write limit stream p).getD stream) ps = _
      rw [ih]
      by_cases hp : p.length ≤ limit
      · simp [write, accepted, hp, Nat.not_lt.mpr hp]
      · simp [write, accepted, hp, Nat.not_le.mp hp]

theorem readAll_send {limit : Nat} (h32 : limit < 2 ^ 32) (ps : List (List UInt8))
    (hps : ∀ p ∈ ps, p.length ≤ limit) (rest : List UInt8) :
    readAll limit ps.length (ps.flatMap send ++ rest) = .ok (ps, rest) := by
  induction ps with
  | nil => rfl
  | cons p ps ih =>
      have hp : p.length ≤ limit := hps p List.mem_cons_self
      have hrest := ih fun q hq => hps q (List.mem_cons_of_mem _ hq)
      rw [List.flatMap_cons, List.append_assoc, List.length_cons, readAll,
        read_send hp h32]
      simp only [hrest]

/-- The frames a writer accepted come back, all of them, unchanged and in order. -/
theorem readAll_writeAll {limit : Nat} (h32 : limit < 2 ^ 32) (ps : List (List UInt8))
    (rest : List UInt8) :
    readAll limit (accepted limit ps).length (writeAll limit [] ps ++ rest)
      = .ok (accepted limit ps, rest) := by
  have hle : ∀ p ∈ accepted limit ps, p.length ≤ limit := by
    intro p hp
    simpa using (List.mem_filter.mp hp).2
  rw [writeAll_eq, List.nil_append]
  exact readAll_send h32 _ hle rest

end Frame
