import HftPipeline.Clob
import HftPipeline.Wire

/-!
# A replica of the book

Whoever executes the published events from an empty book arrives at the state
of the exchange. Every way out of a request, with or without a stop, either has
published an event and executed it or has done neither.
-/
namespace HftPipeline

section

variable [StdHash Price] [StdHash ID]

namespace Clob

/-- The book is what the published events make of an empty one. -/
def Synced (c : Clob) : Prop := (BookState.init : BookState).executeAll c.published = some c.state

theorem synced_init : (init : Clob).Synced := rfl

theorem Synced.publish {c : Clob} (h : c.Synced) {event : MarketEvent} {state : BookState} {u : BookUpdate}
    (hexec : c.state.execute event = some (state, u)) : (c.publish event state).Synced := by
  simp only [Synced, BookState.executeAll, Clob.publish, List.foldlM_append] at h ⊢
  simp [h, hexec]

theorem Synced.executeTrade {c c' : Clob} (h : c.Synced) {order order' : Order} {token token' : StopToken}
    {traded : Bool} (htrade : c.executeTrade order token = some (traded, c', order', token')) :
    c'.Synced := by
  rcases executeTrade_cases htrade with ⟨-, rfl, -⟩ | ⟨-, best, state, u, -, -, hexec, rfl, -⟩
  · exact h
  · exact h.publish hexec

/-- However many trades the loop makes, the log and the book stay in step. -/
theorem Synced.matchLoop {fuel : Nat} {c c' : Clob} (h : c.Synced) {order order' : Order}
    {token token' : StopToken} (hloop : c.matchLoop fuel order token = some (c', order', token')) :
    c'.Synced := by
  induction fuel generalizing c order token with
  | zero => simp [Clob.matchLoop] at hloop
  | succ fuel ih =>
    rw [Clob.matchLoop] at hloop
    split at hloop
    · cases hloop
      exact h
    · obtain ⟨⟨traded, c₁, order₁, token₁⟩, htrade, hloop⟩ := Option.bind_eq_some_iff.mp hloop
      cases traded with
      | true => exact ih (h.executeTrade htrade) hloop
      | false =>
        cases hloop
        exact h.executeTrade htrade

theorem Synced.addOrder {c c' : Clob} (h : c.Synced) {order : Order} {token : StopToken}
    (hadd : c.addOrder order token = some c') : c'.Synced := by
  rw [Clob.addOrder] at hadd
  split at hadd
  · obtain ⟨⟨state, u⟩, hexec, hadd⟩ := Option.bind_eq_some_iff.mp hadd
    cases hadd
    exact h.publish hexec
  · cases hadd
    exact h

theorem Synced.placeOrder {fuel : Nat} {side : Side} {c c' : Clob} (h : c.Synced) {request : OrderRequest}
    {token : StopToken} {id : ID} (hplace : placeOrder fuel side c request token = some (id, c')) :
    c'.Synced := by
  rw [Clob.placeOrder] at hplace
  split at hplace
  · cases hplace
    exact h
  · obtain ⟨⟨c₁, order, token₁⟩, hloop, hplace⟩ := Option.bind_eq_some_iff.mp hplace
    have h₁ := h.matchLoop hloop
    simp only at hplace
    split at hplace
    · cases hplace
      exact h₁
    · split at hplace
      · cases hplace
        exact h₁
      · obtain ⟨c₂, hadd, hplace⟩ := Option.bind_eq_some_iff.mp hplace
        cases hplace
        exact Synced.addOrder (show Synced { c₁ with nextOrderId := c₁.nextOrderId + 1 } from h₁) hadd

theorem Synced.cancelOrder {c c' : Clob} (h : c.Synced) {request : OrderRequest} {token : StopToken}
    {result : Except Error Unit} (hcancel : c.cancelOrder request token = some (result, c')) : c'.Synced := by
  rw [Clob.cancelOrder] at hcancel
  split at hcancel
  · cases hcancel
    exact h
  · split at hcancel
    · obtain ⟨⟨state, u⟩, hexec, hcancel⟩ := Option.bind_eq_some_iff.mp hcancel
      cases hcancel
      exact h.publish hexec
    · cases hcancel
      exact h

theorem Synced.updateOrder {c c' : Clob} (h : c.Synced) {request : OrderRequest} {token : StopToken}
    {result : Except Error Unit} (hupdate : c.updateOrder request token = some (result, c')) : c'.Synced := by
  rw [Clob.updateOrder] at hupdate
  split at hupdate
  · cases hupdate
    exact h
  · split at hupdate
    · obtain ⟨⟨state, u⟩, hexec, hupdate⟩ := Option.bind_eq_some_iff.mp hupdate
      cases hupdate
      exact h.publish hexec
    · cases hupdate
      exact h

theorem Synced.submit {fuel : Nat} {c c' : Clob} (h : c.Synced) {request : OrderRequest} {token : StopToken}
    {result : Except Error ID} (hsubmit : c.submit fuel request token = some (result, c')) : c'.Synced := by
  rw [Clob.submit] at hsubmit
  split at hsubmit <;> obtain ⟨⟨x, c₁⟩, hcall, hpair⟩ := Option.map_eq_some_iff.mp hsubmit <;> cases hpair
  · exact h.placeOrder hcall
  · exact h.placeOrder hcall
  · exact h.cancelOrder hcall
  · exact h.updateOrder hcall

theorem Synced.submitAll {fuel : Nat} {calls : List (OrderRequest × StopToken)} {c c' : Clob} (h : c.Synced)
    {results : List (Except Error ID)} (hrun : c.submitAll fuel calls = some (results, c')) : c'.Synced := by
  induction calls generalizing c results with
  | nil => cases hrun; exact h
  | cons call calls ih =>
    obtain ⟨result, c₁, rest, hsubmit, hrest, -⟩ := submitAll_cons hrun
    exact ih (h.submit hsubmit) hrest

/-- A run that completes has completed up to every call boundary. -/
theorem submitAll_take {fuel : Nat} {calls : List (OrderRequest × StopToken)} {c : Clob}
    (hrun : (c.submitAll fuel calls).isSome) (n : Nat) :
    ∃ results c', c.submitAll fuel (calls.take n) = some (results, c') := by
  induction calls generalizing c n with
  | nil => exact ⟨[], c, by simp [Clob.submitAll]⟩
  | cons call calls ih =>
    cases n with
    | zero => exact ⟨[], c, rfl⟩
    | succ n =>
      obtain ⟨⟨results, c'⟩, hrun⟩ := Option.isSome_iff_exists.mp hrun
      obtain ⟨result, c₁, rest, hsubmit, hrest, -⟩ := submitAll_cons hrun
      obtain ⟨results', c₂, hbefore⟩ := ih (Option.isSome_iff_exists.mpr ⟨_, hrest⟩) n
      refine ⟨result :: results', c₂, ?_⟩
      rw [List.take_succ_cons, Clob.submitAll, hsubmit]
      simp [hbefore]

end Clob

/-! ## Through the wire -/

/-- Reads the event out of a message. -/
def EncodedMessage.event? (m : EncodedMessage) : Option MarketEvent :=
  m.getPayloadRef.bind BinaryProtocol.decode

omit [StdHash Price] [StdHash ID] in
/-- The messages of a list of events carry consecutive numbers and decode to the events. -/
theorem Sequencer.generateAll_spec (s : Sequencer) (memory : List (MarketEvent × List UInt8))
    (hmemory : ∀ m ∈ memory, m.2.length = EncodedMessage.maxWireSize) :
    ∃ messages s', s.generateAll memory = some (messages, s') ∧
      messages.map (·.header.sequenceNumber) =
        (List.range memory.length).map (fun k => s.sequencerCounter + UInt64.ofNat k) ∧
      messages.mapM EncodedMessage.event? = some (memory.map Prod.fst) ∧
      ∀ m ∈ messages, m.header.sequenceNumber ≠ 0 → m.getPayloadRef = some m.payload := by
  induction memory generalizing s with
  | nil => exact ⟨[], s, rfl, rfl, rfl, by simp⟩
  | cons head memory ih =>
    obtain ⟨event, buffer⟩ := head
    obtain ⟨messages, s', hall, hnumbers, hevents, hpayload⟩ :=
      ih ⟨s.sequencerCounter + 1⟩ fun m hm => hmemory m (by simp [hm])
    have hmessage := s.generateMessage_eq event (hmemory (event, buffer) (by simp))
    have hread := getPayloadRef_eq s.nextHeader event (buffer.drop 28) rfl
    let message : EncodedMessage :=
      ⟨s.nextHeader, s.nextHeader.serialize ++ (BinaryProtocol.encode event ++ buffer.drop 28)⟩
    refine ⟨message :: messages, s', by rw [generateAll, hmessage]; simp [hall, message], ?_, ?_, ?_⟩
    · simp only [List.map_cons, List.length_cons, List.range_succ_eq_map, List.map_map, hnumbers]
      refine congrArg₂ _ (by simp [message, nextHeader]) (List.map_congr_left fun k _ => ?_)
      simp only [Function.comp_apply, Nat.succ_eq_add_one, UInt64.ofNat_add]
      rw [UInt64.add_assoc, UInt64.add_comm 1]
      rfl
    · simp [message, EncodedMessage.event?, hread, BinaryProtocol.decode_encode, hevents]
    · intro m hm hne
      rcases List.mem_cons.mp hm with rfl | hm
      · have hle : message.header.payloadLength.toNat ≤ maxMessageBytes :=
          show BinaryProtocol.bufferSize ≤ maxMessageBytes by decide
        rw [EncodedMessage.payload, if_neg hne, EncodedMessage.getPayloadRef, if_pos hle]
      · exact hpayload m hm hne

/-- At every call boundary of a run that completes, whatever the stop tokens do: the
published events, numbered, encoded, decoded and executed from an empty book, give
the state of the exchange. -/
theorem replica_agrees (fuel : Nat) (calls : List (OrderRequest × StopToken))
    (hrun : ((Clob.init : Clob).submitAll fuel calls).isSome) (n : Nat) :
    ∃ results c, (Clob.init : Clob).submitAll fuel (calls.take n) = some (results, c) ∧
      ∀ memory : List (MarketEvent × List UInt8), memory.map Prod.fst = c.published →
        (∀ m ∈ memory, m.2.length = EncodedMessage.maxWireSize) →
        ∃ messages s' events, Sequencer.init.generateAll memory = some (messages, s') ∧
          messages.map (·.header.sequenceNumber) =
            (List.range c.published.length).map (fun k => firstSequenceId + UInt64.ofNat k) ∧
          (∀ m ∈ messages, m.header.sequenceNumber ≠ 0 → m.getPayloadRef = some m.payload) ∧
          messages.mapM EncodedMessage.event? = some events ∧
          (BookState.init : BookState).executeAll events = some c.state := by
  obtain ⟨results, c, hbefore⟩ := Clob.submitAll_take hrun n
  refine ⟨results, c, hbefore, ?_⟩
  intro memory hmemory hsizes
  obtain ⟨messages, s', hall, hnumbers, hevents, hpayload⟩ :=
    Sequencer.generateAll_spec Sequencer.init memory hsizes
  refine ⟨messages, s', c.published, hall, ?_, hpayload, hmemory ▸ hevents,
    Clob.synced_init.submitAll hbefore⟩
  rw [hnumbers, ← hmemory, List.length_map]
  rfl

end

section

attribute [local instance] priceHash idHash

/-- Two buys, a sell that a stop interrupts after one trade, an update and a cancel. -/
def stoppedRun : List (OrderRequest × StopToken) :=
  [(⟨0, 100, 10, .buy⟩, none), (⟨0, 100, 5, .buy⟩, none), (⟨0, 99, 12, .sell⟩, some 2),
    (⟨2, 0, 9, .update⟩, none), (⟨2, 0, 0, .cancel⟩, none)]

theorem replica_agrees_stoppedRun :
    ((Clob.init : Clob).submitAll 4 stoppedRun).isSome ∧
      ∃ results c messages s' events, (Clob.init : Clob).submitAll 4 (stoppedRun.take 4) = some (results, c) ∧
        Sequencer.init.generateAll (c.published.map fun event =>
          (event, List.replicate EncodedMessage.maxWireSize 0)) = some (messages, s') ∧
        messages.mapM EncodedMessage.event? = some events ∧
        (BookState.init : BookState).executeAll events = some c.state := by
  have hrun : ((Clob.init : Clob).submitAll 4 stoppedRun).isSome := by decide +kernel
  obtain ⟨results, c, hbefore, hreplica⟩ := replica_agrees 4 stoppedRun hrun 4
  obtain ⟨messages, s', events, hall, -, -, hevents, hstate⟩ :=
    hreplica (c.published.map fun event => (event, List.replicate EncodedMessage.maxWireSize 0))
      (by simp [Function.comp_def]) (by simp)
  exact ⟨hrun, results, c, messages, s', events, hbefore, hall, hevents, hstate⟩

end

end HftPipeline
