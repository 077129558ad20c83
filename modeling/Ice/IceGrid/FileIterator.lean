import Ice.IceGrid.FileReading
import Ice.Lib.Transition

/-!
# Following a log

An administrator reads a log through a `FileIteratorI`, which keeps the offset behind the last call,
while the server goes on writing. Whatever the order of calls and writes, nothing of the log is lost
or returned twice.
-/

namespace Ice.IceGrid

open FileCache (FileNotAvailable ReadResult joined)
open Lib (Any Reach)

structure FileIteratorI where
  offset : Nat
  messageSizeMax : Int

/-- The constructor; there is room for the header. -/
def FileIteratorI.new (offset : Nat) (messageSizeMax : Int) : FileIteratorI :=
  ⟨offset, messageSizeMax - 256⟩

/-- `FileIteratorI::read`; the reader has a limit of its own. -/
def FileIteratorI.read (readerMax : Int) (file : Option (List UInt8)) (size : Int)
    (it : FileIteratorI) : Except FileNotAvailable (ReadResult × FileIteratorI) :=
  (FileCache.read readerMax file it.offset
    (if it.messageSizeMax < size then it.messageSizeMax else size)).map
      fun r => (r, { it with offset := r.newOffset })

/-- A log with an iterator, and what the calls have returned -/
structure LogView where
  content : List UInt8
  iterator : FileIteratorI
  returned : List UInt8 := []

inductive LogAction
  | write (bytes : List UInt8)
  | read (size : Int)

/-- A call that throws leaves the iterator as it is. -/
def LogView.step (readerMax : Int) (s : LogView) : LogAction → Option LogView
  | .write bytes => some { s with content := s.content ++ bytes }
  | .read size =>
    match s.iterator.read readerMax (some s.content) size with
    | .error _ => some s
    | .ok (r, iterator) => some ⟨s.content, iterator, s.returned ++ joined r.lines⟩

/-- What was returned, and what is behind the offset, are what was written behind the start. -/
structure Following (log : List UInt8) (start : Nat) (s : LogView) : Prop where
  kept : log <+: s.content
  limit : s.iterator.messageSizeMax < 2 ^ 31
  inside : s.iterator.offset ≤ s.content.length
  returned : s.returned ++ s.content.drop s.iterator.offset = s.content.drop start

variable {readerMax : Int} {s s' : LogView} {start : Nat} {log : List UInt8} {action : LogAction}

theorem Following.read {size : Int} {r : ReadResult} {it : FileIteratorI}
    (h : Following log start s)
    (hread : s.iterator.read readerMax (some s.content) size = .ok (r, it)) :
    Following log start ⟨s.content, it, s.returned ++ joined r.lines⟩ ∧
      (r.endOfFile = true → s.returned ++ joined r.lines = s.content.drop start) := by
  unfold FileIteratorI.read at hread
  generalize hsize : (if s.iterator.messageSizeMax < size then _ else size) = least at hread
  have hint : least < 2 ^ 31 := by
    have hlimit := h.limit
    split at hsize <;> omega
  cases hok : FileCache.read readerMax (some s.content) s.iterator.offset least with
  | error e =>
    rw [hok] at hread
    cases hread
  | ok r =>
    rw [hok] at hread
    cases hread
    obtain ⟨hdrop, hinside, hend, -⟩ := FileCache.read_spec hint hok
    have hreturned : s.returned ++ joined r.lines ++ s.content.drop r.newOffset =
        s.content.drop start := by
      rw [List.append_assoc, ← hdrop]
      exact h.returned
    refine ⟨⟨h.kept, h.limit, hinside, hreturned⟩, fun hflag => ?_⟩
    rwa [hend hflag, List.append_nil] at hreturned

theorem Following.step (hstart : start ≤ log.length) (h : Following log start s)
    (hs : s.step readerMax action = some s') : Following log start s' := by
  cases action with
  | write bytes =>
    cases hs
    have hlength := h.kept.length_le
    refine ⟨h.kept.trans (List.prefix_append _ _), h.limit, ?_, ?_⟩
    · rw [List.length_append]
      exact Nat.le_add_right_of_le h.inside
    · rw [List.drop_append_of_le_length h.inside, ← List.append_assoc, h.returned,
        List.drop_append_of_le_length (by omega)]
  | read size =>
    rw [LogView.step] at hs
    split at hs
    · cases hs
      exact h
    · rename_i hread
      cases hs
      exact (h.read hread).1

/-- The calls have returned what was written from the start to the offset; with a call that reports
the end of the file, that is all that was written. -/
theorem returned_of_reach {messageSizeMax : Int} (hmax : messageSizeMax < 2 ^ 31)
    (hstart : start ≤ log.length)
    (h : Reach (LogView.step readerMax) Any ⟨log, .new start messageSizeMax, []⟩ s) :
    log <+: s.content ∧
      s.returned ++ s.content.drop s.iterator.offset = s.content.drop start ∧
      ∀ size r it, s.iterator.read readerMax (some s.content) size = .ok (r, it) →
        r.endOfFile = true → s.returned ++ joined r.lines = s.content.drop start := by
  have hfollowing : Following log start s := by
    apply h.invariant
    · exact ⟨List.prefix_rfl, Int.lt_trans (Int.sub_lt_self _ (by decide)) hmax, hstart, rfl⟩
    · exact fun _ _ _ hs _ => hs.step hstart
  exact ⟨hfollowing.kept, hfollowing.returned, fun _ _ _ hread => (hfollowing.read hread).2⟩

/-- A letter is written after the call that returned the rest of the first line. -/
theorem returned_sample : ∃ s : LogView, s.content = [97, 98, 10, 99] ∧ s.returned = [98, 10] ∧
    s.content.drop s.iterator.offset = [99] ∧ ∀ size r it,
      s.iterator.read 1000 (some s.content) size = .ok (r, it) → r.endOfFile = true →
        [98, 10] ++ joined r.lines = [98, 10, 99] := by
  have hrun : (Lib.run (LogView.step 1000) ⟨[97, 98, 10], .new 1 2000, []⟩
      [.read 1000, .write [99]]).any
      (fun s => s.content = [97, 98, 10, 99] ∧ s.returned = [98, 10]) = true := by decide +kernel
  obtain ⟨s, h, hs⟩ := Reach.exists_of_run hrun
  obtain ⟨hcontent, hreturned⟩ := of_decide_eq_true hs
  obtain ⟨-, hrest, hall⟩ := returned_of_reach (by decide) (by decide) h
  rw [hreturned, hcontent] at hrest hall
  refine ⟨s, hcontent, hreturned, ?_, ?_⟩
  · rw [hcontent]
    exact List.append_cancel_left hrest
  · rw [hcontent]
    exact hall

end Ice.IceGrid
