import Mathlib

/-!
# Doubly linked queues over a link table

A queue threaded through two link functions `prev` and `next` with one value
`null` for "no neighbour". `Linked null prev next p xs` says that the cells `xs`
follow each other from front to back and that `p` is what stands before them.
The two operations are appending a cell at the back and unlinking a cell
anywhere; both are stated for any link functions that agree with the old ones
up to the links the operation writes.
-/
namespace LinkedQueue

variable {ι : Type} [DecidableEq ι] {null : ι} {prev next prev' next' : ι → ι}

def Linked (null : ι) (prev next : ι → ι) : ι → List ι → Prop
  | _, [] => True
  | p, x :: xs => prev x = p ∧ next x = xs.headD null ∧ Linked null prev next x xs

section

omit [DecidableEq ι]

@[simp] theorem linked_nil (p : ι) : Linked null prev next p [] := trivial

@[simp] theorem linked_cons (p x : ι) (xs : List ι) :
    Linked null prev next p (x :: xs) ↔
      prev x = p ∧ next x = xs.headD null ∧ Linked null prev next x xs := Iff.rfl

/-- Only the links of the queue's own cells matter. -/
theorem Linked.congr {p : ι} {xs : List ι} (h : Linked null prev next p xs)
    (hprev : ∀ x ∈ xs, prev' x = prev x) (hnext : ∀ x ∈ xs, next' x = next x) :
    Linked null prev' next' p xs := by
  induction xs generalizing p with
  | nil => trivial
  | cons x xs ih =>
    obtain ⟨hp, hn, ht⟩ := h
    refine ⟨?_, ?_, ih ht ?_ ?_⟩
    · rw [hprev x (by simp), hp]
    · rw [hnext x (by simp), hn]
    · intro y hy; exact hprev y (by simp [hy])
    · intro y hy; exact hnext y (by simp [hy])

/-- The neighbours of a cell inside the queue. -/
theorem Linked.at_mid {p x : ι} {front back : List ι}
    (h : Linked null prev next p (front ++ x :: back)) :
    prev x = front.getLastD p ∧ next x = back.headD null := by
  induction front generalizing p with
  | nil => exact ⟨h.1, h.2.1⟩
  | cons y front ih =>
    rw [List.getLastD_cons]
    exact ih h.2.2

/-- A cell that stands before a nonempty queue is not the last cell of it. -/
theorem ne_getLastD {x : ι} {xs : List ι} (hx : x ∉ xs) (hne : xs ≠ []) (d : ι) :
    x ≠ xs.getLastD d := by
  intro he
  apply hx
  rw [he, List.getLastD_eq_getLast?, List.getLast?_eq_getLast_of_ne_nil hne]
  exact List.getLast_mem hne

end

/-- Appending `new` writes the `next` link of the last cell and both links of `new`. -/
theorem Linked.snoc {p new : ι} {xs : List ι} (h : Linked null prev next p xs)
    (hnodup : xs.Nodup) (hprev : ∀ x ∈ xs, prev' x = prev x)
    (hnext : ∀ x ∈ xs, next' x = if x = xs.getLastD p then new else next x)
    (hnewPrev : prev' new = xs.getLastD p) (hnewNext : next' new = null) :
    Linked null prev' next' p (xs ++ [new]) := by
  induction xs generalizing p with
  | nil => simpa using ⟨hnewPrev, hnewNext⟩
  | cons x xs ih =>
    obtain ⟨hp, hn, ht⟩ := h
    obtain ⟨hx, hnodup⟩ := List.nodup_cons.mp hnodup
    simp only [List.getLastD_cons] at hnext hnewPrev
    refine ⟨?_, ?_, ih ht hnodup ?_ ?_ hnewPrev⟩
    · rw [hprev x (by simp), hp]
    · rw [hnext x (by simp)]
      cases xs with
      | nil => simp
      | cons y ys =>
        rw [if_neg (ne_getLastD hx (by simp) x), hn]
        rfl
    · intro y hy; exact hprev y (by simp [hy])
    · intro y hy; exact hnext y (by simp [hy])

/-- Unlinking `x` joins its two neighbours; what stands before the queue and
`null` are not cells of it. -/
theorem Linked.unlink {p x : ι} {front back : List ι}
    (h : Linked null prev next p (front ++ x :: back))
    (hnodup : (front ++ x :: back).Nodup) (hp : p ∉ front ++ x :: back)
    (hnull : null ∉ front ++ x :: back)
    (hprev : ∀ y ∈ front ++ back, prev' y = if y = next x then prev x else prev y)
    (hnext : ∀ y ∈ front ++ back, next' y = if y = prev x then next x else next y) :
    Linked null prev' next' p (front ++ back) := by
  induction front generalizing p with
  | nil =>
    obtain ⟨hpx, hnx, ht⟩ := h
    simp only [List.nil_append, List.mem_cons, not_or] at hprev hnext hp hnull ⊢
    have hx : x ∉ back := (List.nodup_cons.mp hnodup).1
    cases back with
    | nil => trivial
    | cons y ys =>
      obtain ⟨hpy, hny, hty⟩ := ht
      have hy : y ∉ ys := (List.nodup_cons.mp (List.nodup_cons.mp hnodup).2).1
      simp only [List.headD_cons] at hnx
      have hnotp : ∀ z ∈ y :: ys, z ≠ prev x := by
        intro z hz he
        exact hp.2 (by rw [← hpx, ← he]; exact hz)
      refine ⟨?_, ?_, hty.congr ?_ ?_⟩
      · rw [hprev y (by simp), if_pos hnx.symm, hpx]
      · rw [hnext y (by simp), if_neg (hnotp y (by simp)), hny]
      · intro z hz
        have hne : z ≠ next x := by
          intro he
          exact hy (by rw [← hnx, ← he]; exact hz)
        rw [hprev z (by simp [hz]), if_neg hne]
      · intro z hz
        rw [hnext z (by simp [hz]), if_neg (hnotp z (by simp [hz]))]
  | cons y front ih =>
    obtain ⟨hpy, hny, ht⟩ := h
    rw [List.cons_append] at hnodup
    obtain ⟨hy, hnodup⟩ := List.nodup_cons.mp hnodup
    have hmid := Linked.at_mid ht
    simp only [List.cons_append, List.mem_cons, not_or, List.mem_append] at hprev hnext hp hnull hy ⊢
    have hyNext : y ≠ next x := by
      rw [hmid.2]
      cases back with
      | nil => exact Ne.symm hnull.1
      | cons z back => intro he; exact hy.2.2 (by simp [he])
    refine ⟨?_, ?_, ih ht hnodup (by simp [hy]) (by simp [hnull]) ?_ ?_⟩
    · rw [hprev y (by simp), if_neg hyNext, hpy]
    · rw [hnext y (by simp), hmid.1]
      cases front with
      | nil => simp [hmid.2]
      | cons z front =>
        rw [if_neg (ne_getLastD hy.1 (by simp) y), hny]
        rfl
    · intro z hz
      exact hprev z (Or.inr (List.mem_append.mp hz))
    · intro z hz
      exact hnext z (Or.inr (List.mem_append.mp hz))

/-- The cells met when `link` is followed from `i` until `null`, at most `n` of them. -/
def walk (null : ι) (link : ι → ι) : Nat → ι → List ι
  | 0, _ => []
  | n + 1, i => if i = null then [] else i :: walk null link n (link i)

/-- Following `next` from the front meets every cell in order and then `null`. -/
theorem Linked.walk_next {p : ι} {xs : List ι} (h : Linked null prev next p xs) (hnull : null ∉ xs)
    {n : Nat} (hn : xs.length ≤ n) : walk null next n (xs.headD null) = xs := by
  induction xs generalizing p n with
  | nil => cases n <;> simp [walk]
  | cons x xs ih =>
    obtain ⟨-, hnext, ht⟩ := h
    obtain ⟨hx, hnull⟩ := not_or.mp (fun hm => hnull (List.mem_cons.mpr hm))
    obtain ⟨n, rfl⟩ := Nat.exists_eq_succ_of_ne_zero (Nat.ne_of_gt (Nat.zero_lt_of_lt hn))
    rw [List.headD_cons, walk, if_neg (Ne.symm hx), hnext, ih ht hnull (Nat.le_of_succ_le_succ hn)]

/-- Following `prev` from the back meets every cell in reverse and then what stands before. -/
theorem Linked.walk_prev {p : ι} {xs : List ι} (h : Linked null prev next p xs) (hnull : null ∉ xs)
    (n : Nat) :
    walk null prev (xs.length + n) (xs.getLastD p) = xs.reverse ++ walk null prev n p := by
  induction xs generalizing p n with
  | nil => simp
  | cons x xs ih =>
    obtain ⟨hprev, -, ht⟩ := h
    obtain ⟨hx, hnull⟩ := not_or.mp (fun hm => hnull (List.mem_cons.mpr hm))
    have hlen : (x :: xs).length + n = xs.length + (n + 1) := by simp only [List.length_cons]; omega
    rw [List.getLastD_cons, hlen, ih ht hnull, walk, if_neg (Ne.symm hx), hprev]
    simp

end LinkedQueue
