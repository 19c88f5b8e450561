/-
# `Cognos.Lib.BufWriter` — a buffered writer over calls that may fail

Rust's `BufWriter<File>`.  A write of the file takes some of the bytes it is given, is
interrupted, or fails; one that takes none counts as failed.  What the writer cannot pass
on it keeps in its buffer, for whichever write comes next.  The results of the writes are
a list, read from the front; once it is used up, every write takes all it is given.

    written_drain_append   no byte is made up, none is skipped
    writeLines_goesOn      as long as no write fails, every line passes through in order
    flushBuf_goesOn        and a flush leaves nothing behind
    refused_writeLine      while every write fails, nothing is passed on
-/
import Mathlib.Data.List.Basic
import Cognos.Lib.Text

/-- What a write of a file comes to. -/
inductive WriteResult
  | wrote (n : Nat)
  | interrupted
  | failed
  deriving DecidableEq

namespace WriteResult

/-- The write is no error: some bytes are taken, or it is tried again. -/
def GoesOn : WriteResult → Prop
  | wrote n => 0 < n
  | interrupted => True
  | failed => False

instance (r : WriteResult) : Decidable r.GoesOn := by
  cases r <;> unfold GoesOn <;> infer_instance

end WriteResult

/-- What a loop of writes leaves. -/
structure Drained where
  written : List UInt8
  left : List UInt8
  results : List WriteResult

/-- The loop of `write_all` and of `flush_buf`: write, until all is written or a write fails. -/
def drain : List WriteResult → List UInt8 → Drained
  | [], data => ⟨data, [], []⟩
  | results, [] => ⟨[], [], results⟩
  | .interrupted :: results, data => drain results data
  | .failed :: results, data => ⟨[], data, results⟩
  | .wrote 0 :: results, data => ⟨[], data, results⟩
  | .wrote (n + 1) :: results, data =>
      let rest := drain results (data.drop (n + 1))
      { rest with written := data.take (n + 1) ++ rest.written }

/-- Every byte is written or left, in order. -/
theorem written_drain_append (results : List WriteResult) (data : List UInt8) :
    (drain results data).written ++ (drain results data).left = data := by
  fun_induction drain results data with
  | case1 data => exact List.append_nil data
  | case2 results => rfl
  | case3 results data _ ih => exact ih
  | case4 results data => rfl
  | case5 results data => rfl
  | case6 n results data _ rest ih =>
      show data.take (n + 1) ++ rest.written ++ rest.left = data
      rw [List.append_assoc, ih, List.take_append_drop]

/-- Without a failure nothing is left. -/
theorem left_drain {results : List WriteResult} (h : ∀ r ∈ results, r.GoesOn)
    (data : List UInt8) : (drain results data).left = [] := by
  fun_induction drain results data with
  | case1 data => rfl
  | case2 results => rfl
  | case3 results data _ ih => exact ih fun r hr => h r (List.mem_cons_of_mem _ hr)
  | case4 results data => exact absurd (h _ List.mem_cons_self) id
  | case5 results data => exact absurd (h _ List.mem_cons_self) (Nat.lt_irrefl 0)
  | case6 n results data _ rest ih => exact ih fun r hr => h r (List.mem_cons_of_mem _ hr)

theorem written_drain {results : List WriteResult} (h : ∀ r ∈ results, r.GoesOn)
    (data : List UInt8) : (drain results data).written = data := by
  have hall := written_drain_append results data
  rw [left_drain h, List.append_nil] at hall
  exact hall

/-- The results that are left are among those there were. -/
theorem mem_of_mem_results_drain {results : List WriteResult} {data : List UInt8}
    {r : WriteResult} (h : r ∈ (drain results data).results) : r ∈ results := by
  fun_induction drain results data with
  | case1 data => exact h
  | case2 results => exact h
  | case3 results data _ ih => exact List.mem_cons_of_mem _ (ih h)
  | case4 results data => exact List.mem_cons_of_mem _ h
  | case5 results data => exact List.mem_cons_of_mem _ h
  | case6 n results data _ rest ih => exact List.mem_cons_of_mem _ (ih h)

/-- A writer: what it holds back, what it passed on, and what its next writes come to. -/
structure BufWriter where
  buffer : List UInt8
  written : List UInt8
  results : List WriteResult

namespace BufWriter

/-- `DEFAULT_BUF_SIZE`. -/
def capacity : Nat := 8192

/-- `flush_buf`, and whether it went well; `flush` is this, and so is dropping the writer. -/
def flushBuf (w : BufWriter) : Bool × BufWriter :=
  let d := drain w.results w.buffer
  (d.left.isEmpty, ⟨d.left, w.written ++ d.written, d.results⟩)

/-- The bytes go straight to the file. -/
def passOn (data : List UInt8) (w : BufWriter) : Bool × BufWriter :=
  let d := drain w.results data
  (d.left.isEmpty, { w with written := w.written ++ d.written, results := d.results })

/-- The bytes go behind those held back. -/
def keep (data : List UInt8) (w : BufWriter) : BufWriter := { w with buffer := w.buffer ++ data }

/-- `write_all_cold`. -/
def writeAllCold (data : List UInt8) (w : BufWriter) : Bool × BufWriter :=
  let (ok, w) := if capacity - w.buffer.length < data.length then w.flushBuf else (true, w)
  if ok then
    if capacity ≤ data.length then w.passOn data else (true, w.keep data)
  else (false, w)

/-- `write_all`. -/
def writeAll (data : List UInt8) (w : BufWriter) : Bool × BufWriter :=
  if data.length < capacity - w.buffer.length then (true, w.keep data) else w.writeAllCold data

/-- `writeln!`: the text, and unless that fails the end of the line. -/
def writeLine (w : BufWriter) (s : String) : BufWriter :=
  let (ok, w) := w.writeAll (Text.bytes s)
  if ok then (w.writeAll (Text.bytes "\n")).2 else w

def writeLines (ls : List String) (w : BufWriter) : BufWriter := ls.foldl writeLine w

/-! ## When no write fails -/

/-- No write will fail. -/
def GoesOn (w : BufWriter) : Prop := ∀ r ∈ w.results, r.GoesOn

/-- All that went into the writer, from a point on. -/
def stream (w : BufWriter) : List UInt8 := w.written ++ w.buffer

/-- A call went well and passed these bytes through the writer. -/
structure Passes (data : List UInt8) (w w' : BufWriter) : Prop where
  goesOn : w'.GoesOn
  stream : w'.stream = w.stream ++ data

variable {w : BufWriter}

theorem flushBuf_goesOn (h : w.GoesOn) :
    w.flushBuf.1 = true ∧ w.flushBuf.2.buffer = [] ∧ w.Passes [] w.flushBuf.2 := by
  have hleft : (drain w.results w.buffer).left = [] := left_drain h w.buffer
  refine ⟨?_, hleft, fun r hr => h r (mem_of_mem_results_drain hr), ?_⟩
  · show (drain w.results w.buffer).left.isEmpty = true
    rw [hleft]
    rfl
  · show w.written ++ (drain w.results w.buffer).written ++ (drain w.results w.buffer).left = _
    rw [List.append_assoc, written_drain_append, List.append_nil]
    rfl

theorem passOn_goesOn (h : w.GoesOn) (hbuf : w.buffer = []) (data : List UInt8) :
    (w.passOn data).1 = true ∧ w.Passes data (w.passOn data).2 := by
  have hleft : (drain w.results data).left = [] := left_drain h data
  refine ⟨?_, fun r hr => h r (mem_of_mem_results_drain hr), ?_⟩
  · show (drain w.results data).left.isEmpty = true
    rw [hleft]
    rfl
  · show w.written ++ (drain w.results data).written ++ w.buffer = w.written ++ w.buffer ++ data
    rw [written_drain h, hbuf, List.append_nil, List.append_nil]

theorem keep_passes (h : w.GoesOn) (data : List UInt8) : w.Passes data (w.keep data) :=
  ⟨h, (List.append_assoc _ _ _).symm⟩

theorem Passes.trans {w' w'' : BufWriter} {data data' : List UInt8} (h : w.Passes data w')
    (h' : w'.Passes data' w'') : w.Passes (data ++ data') w'' :=
  ⟨h'.goesOn, by rw [h'.stream, h.stream, List.append_assoc]⟩

theorem writeAllCold_goesOn (h : w.GoesOn) (data : List UInt8) :
    (w.writeAllCold data).1 = true ∧ w.Passes data (w.writeAllCold data).2 := by
  rw [writeAllCold]
  by_cases hroom : capacity - w.buffer.length < data.length
  · obtain ⟨hok, hbuf, hpass⟩ := flushBuf_goesOn h
    rw [if_pos hroom]
    show (if w.flushBuf.1 = true then _ else _ : Bool × BufWriter).1 = true ∧
      w.Passes data (if w.flushBuf.1 = true then _ else _ : Bool × BufWriter).2
    rw [if_pos hok]
    by_cases hlong : capacity ≤ data.length
    · rw [if_pos hlong]
      obtain ⟨hok', hpass'⟩ := passOn_goesOn hpass.goesOn hbuf data
      exact ⟨hok', hpass.trans hpass'⟩
    · rw [if_neg hlong]
      exact ⟨rfl, hpass.trans (keep_passes hpass.goesOn data)⟩
  · rw [if_neg hroom]
    show (if true = true then _ else _ : Bool × BufWriter).1 = true ∧
      w.Passes data (if true = true then _ else _ : Bool × BufWriter).2
    rw [if_pos rfl]
    by_cases hlong : capacity ≤ data.length
    · -- a full buffer leaves no room, so there is nothing in it
      have hcap : 0 < capacity := by decide
      have hbuf : w.buffer = [] := List.length_eq_zero_iff.mp (by omega)
      rw [if_pos hlong]
      exact passOn_goesOn h hbuf data
    · rw [if_neg hlong]
      exact ⟨rfl, keep_passes h data⟩

theorem writeAll_goesOn (h : w.GoesOn) (data : List UInt8) :
    (w.writeAll data).1 = true ∧ w.Passes data (w.writeAll data).2 := by
  rw [writeAll]
  by_cases hroom : data.length < capacity - w.buffer.length
  · rw [if_pos hroom]
    exact ⟨rfl, keep_passes h data⟩
  · rw [if_neg hroom]
    exact writeAllCold_goesOn h data

theorem writeLine_goesOn (h : w.GoesOn) (s : String) :
    w.Passes (Text.bytes (s ++ "\n")) (w.writeLine s) := by
  obtain ⟨hok, hpass⟩ := writeAll_goesOn h (Text.bytes s)
  rw [writeLine]
  show w.Passes _ (if (w.writeAll (Text.bytes s)).1 = true then _ else _)
  rw [if_pos hok, Text.bytes_append]
  exact hpass.trans (writeAll_goesOn hpass.goesOn (Text.bytes "\n")).2

theorem writeLines_goesOn (h : w.GoesOn) (ls : List String) :
    w.Passes (Text.unlines ls) (w.writeLines ls) := by
  induction ls generalizing w with
  | nil => exact ⟨h, (List.append_nil _).symm⟩
  | cons s ls ih =>
      have hline := writeLine_goesOn h s
      exact hline.trans (ih hline.goesOn)

/-- Lines written and flushed: all of them are passed on, behind what was held back. -/
theorem flushBuf_writeLines (h : w.GoesOn) (ls : List String) :
    (w.writeLines ls).flushBuf.2.buffer = [] ∧
      (w.writeLines ls).flushBuf.2.written = w.stream ++ Text.unlines ls := by
  have hlines := writeLines_goesOn h ls
  obtain ⟨-, hbuf, hflush⟩ := flushBuf_goesOn hlines.goesOn
  have hstream := hflush.stream
  rw [hlines.stream, BufWriter.stream, hbuf, List.append_nil, List.append_nil] at hstream
  exact ⟨hbuf, hstream⟩

/-! ## When every write fails -/

/-- Nothing was passed on, and at least `n` more writes will fail. -/
structure Refused (n : Nat) (w : BufWriter) : Prop where
  written : w.written = []
  results : ∃ m, w.results = List.replicate (n + m) .failed

theorem refused_drain {n : Nat} (h : w.Refused (n + 1)) (data : List UInt8) :
    (drain w.results data).written = [] ∧
      ∃ m, (drain w.results data).results = List.replicate (n + m) .failed := by
  obtain ⟨m, hm⟩ := h.results
  have hcons : List.replicate (n + 1 + m) WriteResult.failed
      = .failed :: List.replicate (n + m) .failed := by
    rw [Nat.add_right_comm, List.replicate_succ]
  rw [hm, hcons]
  cases data with
  | nil => exact ⟨rfl, m + 1, hcons.symm.trans (by rw [Nat.add_right_comm, Nat.add_assoc])⟩
  | cons b data => exact ⟨rfl, m, rfl⟩

theorem refused_flushBuf {n : Nat} (h : w.Refused (n + 1)) : w.flushBuf.2.Refused n := by
  obtain ⟨hwritten, hresults⟩ := refused_drain h w.buffer
  refine ⟨?_, hresults⟩
  show w.written ++ (drain w.results w.buffer).written = []
  rw [h.written, hwritten, List.append_nil]

theorem refused_passOn {n : Nat} (h : w.Refused (n + 1)) (data : List UInt8) :
    (w.passOn data).2.Refused n := by
  obtain ⟨hwritten, hresults⟩ := refused_drain h data
  refine ⟨?_, hresults⟩
  show w.written ++ (drain w.results data).written = []
  rw [h.written, hwritten, List.append_nil]

theorem Refused.mono {n m : Nat} (h : w.Refused n) (hm : m ≤ n) : w.Refused m := by
  obtain ⟨k, hk⟩ := h.results
  refine ⟨h.written, n - m + k, hk.trans ?_⟩
  rw [← Nat.add_assoc, Nat.add_sub_cancel' hm]

theorem refused_keep {n : Nat} (h : w.Refused n) (data : List UInt8) :
    (w.keep data).Refused n :=
  ⟨h.written, h.results⟩

theorem refused_writeAll {n : Nat} (h : w.Refused (n + 2)) (data : List UInt8) :
    (w.writeAll data).2.Refused n := by
  have hflush : w.flushBuf.2.Refused (n + 1) := refused_flushBuf h
  rw [BufWriter.writeAll]
  by_cases hroom : data.length < capacity - w.buffer.length
  · rw [if_pos hroom]
    exact refused_keep (h.mono (Nat.le_add_right n 2)) data
  rw [if_neg hroom, writeAllCold]
  by_cases hfull : capacity - w.buffer.length < data.length
  · rw [if_pos hfull]
    show (if w.flushBuf.1 = true then _ else _ : Bool × BufWriter).2.Refused n
    split
    · split
      · exact refused_passOn hflush data
      · exact refused_keep (hflush.mono (Nat.le_succ n)) data
    · exact hflush.mono (Nat.le_succ n)
  · rw [if_neg hfull]
    show (if true = true then _ else _ : Bool × BufWriter).2.Refused n
    rw [if_pos rfl]
    split
    · exact refused_passOn (h.mono (Nat.le_succ (n + 1))) data
    · exact refused_keep (h.mono (Nat.le_add_right n 2)) data

theorem refused_writeLine {n : Nat} (h : w.Refused (n + 4)) (s : String) :
    (w.writeLine s).Refused n := by
  have htext : (w.writeAll (Text.bytes s)).2.Refused (n + 2) :=
    refused_writeAll h (Text.bytes s)
  rw [BufWriter.writeLine]
  show (if (w.writeAll (Text.bytes s)).1 = true then _ else _ : BufWriter).Refused n
  split
  · exact refused_writeAll htext (Text.bytes "\n")
  · exact htext.mono (Nat.le_add_right n 2)

end BufWriter
