import HftPipeline.Wire

/-!
# Sending and receiving ranges

`send_range` and `recv_range` on a stream socket. What the kernel does is an input: the
chunks in which the bytes arrive and what `recv` returns after them, and how many bytes
each `send` takes and why the next one fails.
-/
namespace HftPipeline

/-- The values of `errno` that the callers tell apart. -/
inductive Errno where
  | wouldBlock | connReset | pipe | other
  deriving DecidableEq, Repr

inductive ReceiveStatus where
  | success
  | connectionClosed
  | error (errno : Errno)
  deriving DecidableEq, Repr

/-- What `recv` returns when no chunk is left. -/
inductive RecvEnd where
  | closed
  | failed (errno : Errno)
  deriving DecidableEq, Repr

def RecvEnd.status : RecvEnd → ReceiveStatus
  | .closed => .connectionClosed
  | .failed errno => .error errno

/-- What `recv_range` leaves behind. -/
structure ReceivedRange where
  status : ReceiveStatus
  buffer : List UInt8
  start : Nat
  chunks : List (List UInt8)
  deriving DecidableEq, Repr

/-- A call of `recv` takes at most one chunk, and leaves what it has no room for. -/
def recvRange (after : RecvEnd) : List (List UInt8) → List UInt8 → Nat → Nat → ReceivedRange
  | [], buffer, start, stop =>
    if start < stop then ⟨after.status, buffer, start, []⟩ else ⟨.success, buffer, start, []⟩
  | chunk :: chunks, buffer, start, stop =>
    if start < stop then
      if chunk = [] then ⟨.connectionClosed, buffer, start, chunks⟩
      else if chunk.length ≤ stop - start then
        recvRange after chunks (overwrite buffer start chunk) (start + chunk.length) stop
      else
        ⟨.success, overwrite buffer start (chunk.take (stop - start)), stop,
          chunk.drop (stop - start) :: chunks⟩
    else ⟨.success, buffer, start, chunk :: chunks⟩

/-- What `send_range` leaves behind: why it failed, if it did, the bytes it handed to the
kernel, and what later calls of `send` will do. -/
structure SentRange where
  error : Option Errno
  start : Nat
  bytes : List UInt8
  sends : List Nat
  deriving DecidableEq, Repr

def sendRange (after : Errno) (buffer : List UInt8) : List Nat → Nat → Nat → SentRange
  | [], start, stop => if start < stop then ⟨some after, start, [], []⟩ else ⟨none, start, [], []⟩
  | accepted :: sends, start, stop =>
    if start < stop then
      if accepted = 0 then ⟨some .pipe, start, [], sends⟩
      else
        let bytesSent := min accepted (stop - start)
        let sent := sendRange after buffer sends (start + bytesSent) stop
        { sent with bytes := field buffer start bytesSent ++ sent.bytes }
    else ⟨none, start, [], accepted :: sends⟩

/-! ## Writing to a buffer -/

theorem length_overwrite {buffer : List UInt8} {offset : Nat} {bytes : List UInt8}
    (h : offset + bytes.length ≤ buffer.length) : (overwrite buffer offset bytes).length = buffer.length := by
  simp only [overwrite, List.length_append, List.length_take, List.length_drop]
  omega

theorem overwrite_nil (buffer : List UInt8) (offset : Nat) : overwrite buffer offset [] = buffer := by
  rw [overwrite, List.append_nil, List.length_nil, Nat.add_zero, List.take_append_drop]

/-- Two writes next to each other are one. -/
theorem overwrite_overwrite {buffer first second : List UInt8} {offset : Nat} (h : offset ≤ buffer.length) :
    overwrite (overwrite buffer offset first) (offset + first.length) second =
      overwrite buffer offset (first ++ second) := by
  have hfront : (buffer.take offset ++ first).length = offset + first.length := by
    rw [List.length_append, List.length_take, Nat.min_eq_left h]
  have htake : (buffer.take offset ++ first ++ buffer.drop (offset + first.length)).take
      (offset + first.length) = buffer.take offset ++ first := List.take_left' hfront
  have hdrop : (buffer.take offset ++ first ++ buffer.drop (offset + first.length)).drop
      (offset + first.length + second.length) = buffer.drop (offset + (first.length + second.length)) := by
    rw [← hfront, List.drop_append, List.drop_of_length_le (by omega), List.nil_append, hfront,
      Nat.add_sub_cancel_left, List.drop_drop]
    congr 1
    omega
  rw [overwrite, overwrite, overwrite, htake, hdrop, List.length_append]
  simp only [List.append_assoc]

/-! ## What the ranges hold -/

/-- Chunks as a stream socket delivers them. -/
def Arrived (chunks : List (List UInt8)) : Prop := ∀ chunk ∈ chunks, chunk ≠ []

theorem Arrived.tail {chunk : List UInt8} {chunks : List (List UInt8)} (h : Arrived (chunk :: chunks)) :
    Arrived chunks := fun c hc => h c (List.mem_cons_of_mem chunk hc)

variable {chunks : List (List UInt8)} {buffer : List UInt8} {start stop : Nat}

theorem recvRange_done (after : RecvEnd) (hdone : ¬start < stop) :
    recvRange after chunks buffer start stop = ⟨.success, buffer, start, chunks⟩ := by
  cases chunks with
  | nil => rw [recvRange, if_neg hdone]
  | cons chunk chunks => rw [recvRange, if_neg hdone]

theorem recvRange_bounds (after : RecvEnd) (chunks : List (List UInt8)) (hstart : start ≤ stop)
    (hstop : stop ≤ buffer.length) :
    (recvRange after chunks buffer start stop).buffer.length = buffer.length ∧
      (recvRange after chunks buffer start stop).start ≤ stop := by
  induction chunks generalizing buffer start with
  | nil =>
    rw [recvRange]
    split <;> exact ⟨rfl, hstart⟩
  | cons chunk chunks ih =>
    rw [recvRange]
    split
    · split
      · exact ⟨rfl, hstart⟩
      · split
        · rename_i hle
          have hlength := length_overwrite (show start + chunk.length ≤ buffer.length by omega)
          have hih := ih (show start + chunk.length ≤ stop by omega)
            (show stop ≤ (overwrite buffer start chunk).length by omega)
          rw [hlength] at hih
          exact hih
        · have htake : (chunk.take (stop - start)).length = stop - start := List.length_take_of_le (by omega)
          exact ⟨length_overwrite (by omega), Nat.le_refl _⟩
    · exact ⟨rfl, hstart⟩

/-- When enough bytes arrive, they fill the range, however they were cut. -/
theorem recvRange_enough (after : RecvEnd) (harrived : Arrived chunks) (hstart : start ≤ stop)
    (hstop : stop ≤ buffer.length)
    (henough : stop - start ≤ chunks.flatten.length) :
    ∃ chunks', recvRange after chunks buffer start stop =
        ⟨.success, overwrite buffer start (chunks.flatten.take (stop - start)), stop, chunks'⟩ ∧
      Arrived chunks' ∧ chunks'.flatten = chunks.flatten.drop (stop - start) := by
  induction chunks generalizing buffer start with
  | nil =>
    have hdone : start = stop := by
      rw [List.flatten_nil, List.length_nil] at henough
      omega
    refine ⟨[], ?_, harrived, ?_⟩
    · rw [recvRange_done after (by omega), List.flatten_nil, List.take_nil, overwrite_nil, hdone]
    · rw [List.flatten_nil, List.drop_nil]
  | cons chunk chunks ih =>
    rw [List.flatten_cons, List.length_append] at henough
    by_cases hmore : start < stop
    · have hne : chunk ≠ [] := harrived chunk List.mem_cons_self
      rw [recvRange, if_pos hmore, if_neg hne, List.flatten_cons]
      split
      · rename_i hle
        have hlength := length_overwrite (show start + chunk.length ≤ buffer.length by omega)
        obtain ⟨chunks', hrange, harrived', hrest⟩ := ih harrived.tail
          (show start + chunk.length ≤ stop by omega)
          (show stop ≤ (overwrite buffer start chunk).length by omega) (by omega)
        refine ⟨chunks', ?_, harrived', ?_⟩
        · rw [hrange, overwrite_overwrite (by omega), List.take_append,
            List.take_of_length_le hle, Nat.sub_add_eq]
        · rw [hrest, List.drop_append, List.drop_of_length_le hle, List.nil_append, Nat.sub_add_eq]
      · rename_i hlong
        have htake : (chunk ++ chunks.flatten).take (stop - start) = chunk.take (stop - start) :=
          List.take_append_of_le_length (by omega)
        refine ⟨chunk.drop (stop - start) :: chunks, by rw [htake], ?_, ?_⟩
        · intro c hc
          rcases List.mem_cons.mp hc with rfl | hc
          · intro hnil
            have := List.drop_eq_nil_iff.mp hnil
            omega
          · exact harrived c (List.mem_cons_of_mem chunk hc)
        · rw [List.flatten_cons, List.drop_append_of_le_length (by omega)]
    · have hdone : stop - start = 0 := by omega
      refine ⟨chunk :: chunks, ?_, harrived, by rw [hdone, List.drop_zero]⟩
      rw [recvRange_done after hmore, hdone, List.take_zero, overwrite_nil, show start = stop by omega]

/-- When too few arrive, the range is filled as far as they go. -/
theorem recvRange_short (after : RecvEnd) (harrived : Arrived chunks) (hstop : stop ≤ buffer.length)
    (hshort : chunks.flatten.length < stop - start) :
    recvRange after chunks buffer start stop =
      ⟨after.status, overwrite buffer start chunks.flatten, start + chunks.flatten.length, []⟩ := by
  induction chunks generalizing buffer start with
  | nil =>
    rw [List.flatten_nil, List.length_nil] at hshort
    rw [recvRange, if_pos (by omega), List.flatten_nil, overwrite_nil, List.length_nil, Nat.add_zero]
  | cons chunk chunks ih =>
    rw [List.flatten_cons, List.length_append] at hshort
    have hne : chunk ≠ [] := harrived chunk List.mem_cons_self
    have hlength := length_overwrite (show start + chunk.length ≤ buffer.length by omega)
    have hrange := ih harrived.tail (show stop ≤ (overwrite buffer start chunk).length by omega)
      (show chunks.flatten.length < stop - (start + chunk.length) by omega)
    rw [recvRange, if_pos (by omega), if_neg hne, if_pos (by omega), hrange, overwrite_overwrite (by omega),
      List.flatten_cons, List.length_append, Nat.add_assoc]

/-- What is handed to the kernel is the range up to where `start` has got, and all of it if
nothing fails. -/
theorem sendRange_spec (errno : Errno) (buffer : List UInt8) (sends : List Nat) {start stop : Nat}
    (h : start ≤ stop) :
    (sendRange errno buffer sends start stop).bytes =
        field buffer start ((sendRange errno buffer sends start stop).start - start) ∧
      start ≤ (sendRange errno buffer sends start stop).start ∧
      (sendRange errno buffer sends start stop).start ≤ stop ∧
      ((sendRange errno buffer sends start stop).error = none →
        (sendRange errno buffer sends start stop).start = stop) := by
  have hquiet : ∀ start, ([] : List UInt8) = field buffer start (start - start) := fun start => by
    rw [Nat.sub_self, field, List.take_zero]
  induction sends generalizing start with
  | nil =>
    rw [sendRange]
    split
    · exact ⟨hquiet start, Nat.le_refl _, h, fun hnone => by cases hnone⟩
    · rename_i hdone
      exact ⟨hquiet start, Nat.le_refl _, h, fun _ => Nat.le_antisymm h (Nat.le_of_not_lt hdone)⟩
  | cons accepted sends ih =>
    rw [sendRange]
    split
    · split
      · exact ⟨hquiet start, Nat.le_refl _, h, fun hnone => by cases hnone⟩
      · obtain ⟨hbytes, hge, hle, hall⟩ := ih (show start + min accepted (stop - start) ≤ stop by omega)
        refine ⟨?_, Nat.le_trans (Nat.le_add_right _ _) hge, hle, hall⟩
        show field buffer start _ ++ _ = field buffer start
          ((sendRange errno buffer sends (start + min accepted (stop - start)) stop).start - start)
        rw [hbytes, field_add]
        congr 1
        omega
    · rename_i hdone
      exact ⟨hquiet start, Nat.le_refl _, h, fun _ => Nat.le_antisymm h (Nat.le_of_not_lt hdone)⟩

end HftPipeline
