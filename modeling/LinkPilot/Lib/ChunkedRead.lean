import Mathlib.Data.List.Basic

/-!
# Exact reads from a chunked stream

A stream arrives in chunks of any size, none of them empty, and ends: it is closed, or reading it
fails.  `readExact` fills a buffer of a given size read by read, each read giving as much of the
next chunk as fits.

Principal results:

* `readExact_ok` — with enough items to come, the buffer holds the next ones and the others are
  left.
* `readExact_error` — with fewer, the read fails with what ends the stream.

So what an exact read gives does not depend on the chunks.
-/

set_option autoImplicit false

namespace ChunkedRead

variable {α ε : Type}

/-- What one read can give: at least one item. -/
structure Chunk (α : Type) where
  items : List α
  ne_nil : items ≠ []

/-- The items that are still to come. -/
def pending (chunks : List (Chunk α)) : List α := chunks.flatMap Chunk.items

@[simp] theorem pending_nil : pending ([] : List (Chunk α)) = [] := rfl

@[simp] theorem pending_cons (c : Chunk α) (cs : List (Chunk α)) :
    pending (c :: cs) = c.items ++ pending cs := rfl

/-- Why a buffer was not filled. -/
inductive ReadError (ε : Type) where
  | unexpectedEof
  | other (e : ε)
  deriving DecidableEq, Repr

/-- What a read finds behind the last chunk; `fault` is the error of a stream that is not closed. -/
def ending (fault : Option ε) : ReadError ε :=
  fault.elim .unexpectedEof .other

/-- Fill a buffer of `n` items; the buffer, and the chunks that are left. -/
def readExact (fault : Option ε) : Nat → List (Chunk α) →
    Except (ReadError ε) (List α × List (Chunk α))
  | 0, chunks => .ok ([], chunks)
  | _ + 1, [] => .error (ending fault)
  | n + 1, c :: cs =>
    if h : n + 1 < c.items.length then
      .ok (c.items.take (n + 1), ⟨c.items.drop (n + 1), by simp [h]⟩ :: cs)
    else
      -- the chunk is used up, and the loop goes on with the rest of the buffer
      match readExact fault (n + 1 - c.items.length) cs with
      | .ok (got, rest) => .ok (c.items ++ got, rest)
      | .error e => .error e

theorem readExact_ok (fault : Option ε) :
    ∀ {n : Nat} {chunks : List (Chunk α)}, n ≤ (pending chunks).length →
      ∃ rest, readExact fault n chunks = .ok ((pending chunks).take n, rest) ∧
        pending rest = (pending chunks).drop n
  | 0, chunks, _ => ⟨chunks, by simp [readExact], by simp⟩
  | n + 1, [], h => by simp at h
  | n + 1, c :: cs, h => by
    unfold readExact
    by_cases hlt : n + 1 < c.items.length
    · refine ⟨⟨c.items.drop (n + 1), by simp [hlt]⟩ :: cs, ?_, ?_⟩
      · simp [hlt, List.take_append_of_le_length (Nat.le_of_lt hlt)]
      · simp [List.drop_append_of_le_length (Nat.le_of_lt hlt)]
    · have hrest : n + 1 - c.items.length ≤ (pending cs).length := by
        simp at h
        omega
      obtain ⟨rest, hread, hpending⟩ := readExact_ok fault hrest
      have htake : c.items.take (n + 1) = c.items := List.take_of_length_le (by omega)
      have hdrop : c.items.drop (n + 1) = [] := List.drop_eq_nil_of_le (by omega)
      refine ⟨rest, ?_, ?_⟩
      · simp [hlt, hread, List.take_append, htake]
      · simp [hpending, List.drop_append, hdrop]

theorem readExact_error (fault : Option ε) :
    ∀ {n : Nat} {chunks : List (Chunk α)}, (pending chunks).length < n →
      readExact fault n chunks = .error (ending fault)
  | 0, _, h => by simp at h
  | _ + 1, [], _ => by simp [readExact]
  | n + 1, c :: cs, h => by
    simp at h
    have hlt : ¬ n + 1 < c.items.length := by omega
    have hrest := readExact_error fault (show (pending cs).length < n + 1 - c.items.length by omega)
    simp [readExact, hlt, hrest]

end ChunkedRead
