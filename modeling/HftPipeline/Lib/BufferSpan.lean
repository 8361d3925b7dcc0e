import Mathlib

/-!
# Spans of a buffer

A span is an offset and a size. Taking a part of a span does not check that the part lies within
it, so whether what is read belongs to the buffer, or to the front of it that was written last,
is a property of the span.
-/
namespace BufferSpan

structure Span where
  offset : Nat
  size : Nat
  deriving DecidableEq, Repr

namespace Span

variable {α : Type} {s : Span} {n offset count : Nat}

/-- All of a buffer of `n` items. -/
def whole (n : Nat) : Span := ⟨0, n⟩

def subspan (s : Span) (offset count : Nat) : Span := ⟨s.offset + offset, count⟩

/-- The span ends within the first `n` items. -/
def Within (s : Span) (n : Nat) : Prop := s.offset + s.size ≤ n

instance : Decidable (s.Within n) := inferInstanceAs (Decidable (_ ≤ _))

def items (s : Span) (buffer : List α) : List α := (buffer.drop s.offset).take s.size

theorem whole_within {m : Nat} : (whole n).Within m ↔ n ≤ m := by
  rw [Within, whole, Nat.zero_add]

theorem subspan_whole_within {m : Nat} : ((whole n).subspan offset count).Within m ↔ offset + count ≤ m := by
  rw [Within, subspan, whole, Nat.zero_add]

/-- A part of a part is a part of the whole, at the sum of the offsets. -/
theorem subspan_subspan (s : Span) (first second size count : Nat) :
    (s.subspan first size).subspan second count = s.subspan (first + second) count := by
  simp only [subspan, Nat.add_assoc]

/-- A span within the front of a buffer shows nothing of the rest. -/
theorem items_append {front : List α} (h : s.Within front.length) (rest : List α) :
    s.items (front ++ rest) = s.items front := by
  have hle : s.offset + s.size ≤ front.length := h
  rw [items, items, List.drop_append_of_le_length (by omega), List.take_append_of_le_length]
  rw [List.length_drop]
  omega

end Span

end BufferSpan
