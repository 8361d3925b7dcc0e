import HftPipeline.Delivery

/-!
# Progress

A thread of the exchange or of the handler waits, has stopped, or works: each of its steps uses up
some of the work that is left. Requests never go back to lower packets, and only what is cached is
received.
-/
namespace HftPipeline

/-! ## The work that is left -/

/-- How many packets are still asked for. -/
def RetransmitRequest.missing (request : RetransmitRequest) : Nat :=
  request.lastPacket.toNat - request.firstPacket.toNat

def RetransmitRequest.work (request : RetransmitRequest) : Nat := 2 * request.missing + 2

def ListenerPc.work : ListenerPc → Nat
  | .claiming => 2
  | .receiving => 1
  | .stopped => 0

/-- A packet takes at most four steps. A request that is not yet pushed is still to be handled. -/
def HandlerPc.work (packets : Nat) : HandlerPc → Nat
  | .waiting => 4 * packets
  | .pushing request => 4 * packets - 1 + request.work
  | .writing => 4 * packets - 2
  | .consuming _ => 4 * packets - 3
  | .stopped => 4 * packets - 4

def ClientPc.work : ClientPc → Nat
  | .waiting | .stopped => 0
  | .sending request => 2 * request.missing + 1
  | .receiving request => 2 * request.missing
  | .writing request _ => 2 * request.missing - 1

def PublisherPc.work : PublisherPc → Nat
  | .waiting => 0
  | .publishing _ => 1

/-- An upper bound of the steps to come: for the events to sequence and to broadcast, the packets
and requests on their way, the numbers that may still turn out to be missing and the items that
may still be published. -/
def System.work (feed : Feed) (s : System) : Nat :=
  2 * (feed.events.length - s.retransmitCache.length) + (s.retransmitCache.length - s.broadcast) +
    s.listener.work + s.handler.work s.udpPacketBuffer.length +
    (s.retransmitRequestBuffer.map RetransmitRequest.work).sum + s.client.work +
    2 * (feed.events.length - s.mostRecent) + 2 * (feed.events.length + 1 - s.reorderBuffer.readerIndex) +
    s.publisher.work

theorem System.nextPacket_work (request : RetransmitRequest) :
    (System.nextPacket request).work ≤ 2 * request.missing := by
  rw [System.nextPacket]
  split
  · exact le_refl _
  · exact Nat.zero_le _

/-- Only the reader moves its index. -/
theorem ReorderBuffer.tryWriteTo_readerIndex {T : Type} {bits : Nat} (b : ReorderBuffer T bits) (data : T)
    (index : Nat) : (b.tryWriteTo data index).2.readerIndex = b.readerIndex := by
  by_cases hahead : limit bits b.readerIndex ≤ index
  · rw [tryWriteTo_ahead data hahead]
  · by_cases hold : index < b.readerIndex
    · rw [tryWriteTo_old data hahead hold]
    · by_cases hempty : (b.buffer (slotOf bits index)).status = .empty
      · rw [tryWriteTo_free data hahead hold hempty, setStatus_readerIndex, setData_readerIndex,
          setStatus_readerIndex]
      · simp [tryWriteTo, validateAndClaimSlot, tryClaimSlot, hahead, hold, hempty]

/-- A write that is not too far ahead leaves its item with the reader or finds one there. -/
theorem ReorderBuffer.tryWriteTo_inside {T : Type} {bits : Nat} (b : ReorderBuffer T bits) (data : T) {index : Nat}
    (hinside : ¬ limit bits b.readerIndex ≤ index) :
    (b.tryWriteTo data index).1 = .success ∨ (b.tryWriteTo data index).1 = .alreadyWritten := by
  by_cases hold : index < b.readerIndex
  · rw [tryWriteTo_old data hinside hold]
    exact Or.inr rfl
  · by_cases hempty : (b.buffer (slotOf bits index)).status = .empty
    · rw [tryWriteTo_free data hinside hold hempty]
      exact Or.inl rfl
    · right
      simp [tryWriteTo, validateAndClaimSlot, tryClaimSlot, hinside, hold, hempty]

theorem writeMarketData_readerIndex {b b' : MarketReorderBuffer} {event : List UInt8} {packetId : UInt64}
    {result : Except HandlerError Unit}
    (h : writeMarketDataToReorderBuffer b event packetId = some (result, b')) :
    b'.readerIndex = b.readerIndex := by
  rw [writeMarketDataToReorderBuffer] at h
  split at h
  · rcases hwrite : b.tryWriteTo (event.take BinaryProtocol.bufferSize) packetId.toNat with ⟨status, b₁⟩
    have hreader : b₁.readerIndex = b.readerIndex := by
      rw [← b.tryWriteTo_readerIndex (event.take BinaryProtocol.bufferSize) packetId.toNat, hwrite]
    rw [hwrite] at h
    cases status <;>
    · cases h
      exact hreader
  · cases h

theorem writeMarketData_inside {b b' : MarketReorderBuffer} {event : List UInt8} {packetId : UInt64}
    {result : Except HandlerError Unit} (hinside : ¬ ReorderBuffer.limit 15 b.readerIndex ≤ packetId.toNat)
    (h : writeMarketDataToReorderBuffer b event packetId = some (result, b')) : result = .ok () := by
  rw [writeMarketDataToReorderBuffer] at h
  split at h
  · have hstatus := b.tryWriteTo_inside (event.take BinaryProtocol.bufferSize) hinside
    rcases hwrite : b.tryWriteTo (event.take BinaryProtocol.bufferSize) packetId.toNat with ⟨status, b₁⟩
    rw [hwrite] at h hstatus
    cases status with
    | success | alreadyWritten =>
      cases h
      rfl
    | likelySlowReader | likelySlowWriter => simp at hstatus
  · cases h

namespace System

variable {s s' : System} {feed : Feed}

/-! ## The exchange and the listener -/

theorem exchange_progress (feed : Feed) (s : System) :
    feed.events.length ≤ s.retransmitCache.length ∨
      ∀ s', s.exchangeStep feed = some s' → s'.work feed < s.work feed := by
  apply (Nat.lt_or_ge s.retransmitCache.length feed.events.length).symm.imp_right
  intro hless s' hstep
  rw [exchangeStep, List.getElem?_eq_getElem hless] at hstep
  obtain ⟨⟨message, sequencer⟩, -, hs'⟩ := Option.bind_eq_some_iff.mp hstep
  cases hs'
  simp only [work, mostRecent, List.length_append, List.length_singleton]
  omega

theorem broadcast_progress (feed : Feed) (hless : s.broadcast < s.retransmitCache.length) :
    ({ s with broadcast := min (s.broadcast + 1) s.retransmitCache.length } : System).work feed < s.work feed := by
  simp only [work, mostRecent]
  omega

theorem listener_progress (feed : Feed) (s : System) :
    s.listener ≠ .claiming ∨ s.listenerStep.work feed < s.work feed := by
  cases hpc : s.listener with
  | receiving | stopped => exact Or.inl (by simp)
  | claiming =>
    right
    simp only [listenerStep, hpc]
    split
    · simp only [work, mostRecent, report, hpc, ListenerPc.work]
      omega
    · simp only [work, mostRecent, hpc, ListenerPc.work]
      omega

/-! ## The threads of the handler -/

/-- The handler waits for a packet, has stopped or works. -/
theorem Invariant.handler_progress (h : s.Invariant feed) :
    (s.handler = .waiting ∧ s.udpPacketBuffer = []) ∨ s.handler = .stopped ∨
      ∀ s', s.handlerStep = some s' → s'.work feed < s.work feed := by
  cases hpc : s.handler with
  | waiting =>
    cases hslots : s.udpPacketBuffer with
    | nil => exact Or.inl ⟨rfl, rfl⟩
    | cons slot slots =>
      refine Or.inr (Or.inr ?_)
      intro s' hstep
      obtain ⟨number, -, hcarries⟩ := h.packets slot (by rw [hslots]; exact List.mem_cons_self)
      have hpacket := hcarries.decode slot
      obtain ⟨item, hitem⟩ := hcarries.item
      have hle := hitem.bounds.2.1
      have hnumber : slot.decodeHeaderFromBuffer.header.sequenceNumber.toNat = number.toNat := by
        rw [hpacket.1, hcarries.toNat]
      have hfits := h.handler
      rw [hpc] at hfits
      rcases hasGap_cases s.gapDetector slot.decodeHeaderFromBuffer.header hfits with
        ⟨request, hgap, hlt, hfirst, hlast⟩ | ⟨g, hgap, -, hrecent⟩
      · simp only [System.handlerStep, hpc, hslots, hgap, Option.some.injEq] at hstep
        subst hstep
        simp only [work, mostRecent, hpc, hslots, HandlerPc.work, RetransmitRequest.work,
          RetransmitRequest.missing, List.length_cons, hfirst, hlast, hnumber]
        omega
      · simp only [System.handlerStep, hpc, hslots, hgap, Option.some.injEq] at hstep
        subst hstep
        simp only [work, mostRecent, hpc, hslots, HandlerPc.work, List.length_cons, hrecent]
        omega
  | pushing request =>
    refine Or.inr (Or.inr ?_)
    intro s' hstep
    have hat := h.handler
    rw [hpc] at hat
    obtain ⟨-, packet, slots, hslots, -⟩ := hat
    rw [System.handlerStep, hpc] at hstep
    simp only at hstep
    split at hstep
    · cases hstep
      simp only [work, mostRecent, System.report, hpc, hslots, HandlerPc.work, List.length_cons]
      omega
    · cases hstep
      simp only [work, mostRecent, hpc, hslots, HandlerPc.work, List.length_cons, List.map_append, List.map_cons,
        List.map_nil, List.sum_append, List.sum_cons, List.sum_nil]
      omega
  | writing =>
    refine Or.inr (Or.inr ?_)
    intro s' hstep
    have hat := h.handler
    rw [hpc] at hat
    obtain ⟨_, ⟨packet, slots, hslots, hpacket⟩, -⟩ := hat
    obtain ⟨item, -, hpayload⟩ := hpacket.payload
    simp only [System.handlerStep, hpc, hslots, List.head?_cons, hpayload, Option.bind_eq_bind,
      Option.bind_some] at hstep
    obtain ⟨⟨result, b⟩, hwrite, hs'⟩ := Option.bind_eq_some_iff.mp hstep
    cases hs'
    simp only [work, mostRecent, hpc, hslots, HandlerPc.work, List.length_cons,
      writeMarketData_readerIndex hwrite]
    omega
  | consuming result =>
    refine Or.inr (Or.inr ?_)
    intro s' hstep
    have hat := h.handler
    rw [hpc] at hat
    obtain ⟨_, ⟨packet, slots, hslots, -⟩, -⟩ := hat
    cases result with
    | error error =>
      simp only [System.handlerStep, hpc, hslots, List.tail_cons, Option.some.injEq] at hstep
      subst hstep
      simp only [work, mostRecent, System.report, hpc, hslots, HandlerPc.work, List.length_cons]
      omega
    | ok _ =>
      simp only [System.handlerStep, hpc, hslots, List.tail_cons, Option.some.injEq] at hstep
      subst hstep
      simp only [work, mostRecent, hpc, hslots, HandlerPc.work, List.length_cons]
      omega
  | stopped => exact Or.inr (Or.inl rfl)

/-- The client waits for a request, has stopped or works. -/
theorem Invariant.client_progress (h : s.Invariant feed) :
    (s.client = .waiting ∧ s.retransmitRequestBuffer = []) ∨ s.client = .stopped ∨
      ∀ memory s', s.clientStep memory = some s' → s'.work feed < s.work feed := by
  cases hpc : s.client with
  | waiting =>
    cases hrequests : s.retransmitRequestBuffer with
    | nil => exact Or.inl ⟨rfl, rfl⟩
    | cons request requests =>
      refine Or.inr (Or.inr ?_)
      intro memory s' hstep
      simp only [System.clientStep, hpc, hrequests, Option.some.injEq] at hstep
      subst hstep
      simp only [work, mostRecent, hpc, hrequests, ClientPc.work, RetransmitRequest.work, List.map_cons,
        List.sum_cons]
      omega
  | sending request =>
    refine Or.inr (Or.inr ?_)
    intro memory s' hstep
    simp only [System.clientStep, hpc, Option.some.injEq] at hstep
    subst hstep
    have hnext := nextPacket_work request
    have hwork : s.client.work = 2 * request.missing + 1 := by rw [hpc, ClientPc.work]
    simp only [work, mostRecent, hwork]
    omega
  | receiving request =>
    refine Or.inr (Or.inr ?_)
    intro memory s' hstep
    have hat := h.client
    rw [hpc] at hat
    have hmissing : 0 < request.missing := Nat.sub_pos_of_lt hat
    cases hcached : s.cached request.firstPacket with
    | none =>
      simp only [System.clientStep, hpc, hcached, Option.some.injEq] at hstep
      subst hstep
      simp only [work, mostRecent, System.report, hpc, ClientPc.work]
      omega
    | some message =>
      simp only [System.clientStep, hpc, hcached] at hstep
      obtain ⟨received, -, hstep⟩ := Option.bind_eq_some_iff.mp hstep
      cases received with
      | error error =>
        cases hstep
        simp only [work, mostRecent, System.report, hpc, ClientPc.work]
        omega
      | ok newMessage =>
        cases hstep
        simp only [work, mostRecent, hpc, ClientPc.work]
        omega
  | writing request newMessage =>
    refine Or.inr (Or.inr ?_)
    intro memory s' hstep
    have hat := h.client
    rw [hpc] at hat
    have hlt : request.firstPacket.toNat < request.lastPacket.toNat := hat.1
    simp only [System.clientStep, hpc] at hstep
    obtain ⟨payload, -, hstep⟩ := Option.bind_eq_some_iff.mp hstep
    split at hstep
    · obtain ⟨⟨result, b⟩, hwrite, hstep⟩ := Option.bind_eq_some_iff.mp hstep
      cases result with
      | error error =>
        cases hstep
        simp only [work, mostRecent, System.report, hpc, ClientPc.work, RetransmitRequest.missing,
          writeMarketData_readerIndex hwrite]
        omega
      | ok _ =>
        cases hstep
        have hnext := nextPacket_work { request with firstPacket := request.firstPacket + 1 }
        have hsucc : (request.firstPacket + 1).toNat = request.firstPacket.toNat + 1 := by
          rw [UInt64.toNat_add]
          exact Nat.mod_eq_of_lt (by have := request.lastPacket.toNat_lt; simp only [UInt64.toNat_one]; omega)
        have hwork : s.client.work = 2 * (request.lastPacket.toNat - request.firstPacket.toNat) - 1 := by
          rw [hpc, ClientPc.work, RetransmitRequest.missing]
        simp only [RetransmitRequest.missing, hsucc] at hnext
        simp only [work, mostRecent, hwork, writeMarketData_readerIndex hwrite]
        omega
    · cases hstep
  | stopped => exact Or.inr (Or.inl rfl)

/-- The publisher waits for an item that has not been written, or works. -/
theorem Invariant.publisher_progress (h : s.Invariant feed) :
    (s.publisher = .waiting ∧ s.reorderBuffer.tryConsumeNext.1 = none) ∨
      ∀ s', s.publisherStep = some s' → s'.work feed < s.work feed := by
  cases hpc : s.publisher with
  | waiting =>
    rcases hconsume : s.reorderBuffer.tryConsumeNext with ⟨item, b⟩
    rcases h.buffer.tryConsumeNext hconsume with ⟨rfl, -, -⟩ | ⟨item, rfl, ⟨hitem, -⟩, -, hreader, -, -⟩
    · exact Or.inl ⟨rfl, rfl⟩
    · right
      intro s' hstep
      have hle := hitem.bounds.2.1
      simp only [System.publisherStep, hpc, hconsume, Option.some.injEq] at hstep
      subst hstep
      simp only [work, mostRecent, hpc, PublisherPc.work, hreader]
      omega
  | publishing item =>
    right
    intro s' hstep
    simp only [System.publisherStep, hpc] at hstep
    obtain ⟨event, -, hs'⟩ := Option.bind_eq_some_iff.mp hstep
    cases hs'
    simp only [work, mostRecent, hpc, PublisherPc.work]
    omega

/-! ## What is asked for -/

/-- No request is for a packet below `least`, and the next will not be. -/
structure AsksFrom (least : Nat) (s : System) : Prop where
  recent : least ≤ s.mostRecent + 1
  requests : ∀ request, s.Requested request → least ≤ request.firstPacket.toNat
  pushing : ∀ request, s.handler = .pushing request → least ≤ request.firstPacket.toNat

variable {least : Nat}

theorem init_asksFrom (memory : Nat → List UInt8) : (init memory).AsksFrom 1 where
  recent := Nat.le_add_left 1 _
  requests := by simp [Requested, init, ClientPc.request]
  pushing := by simp [init]

theorem AsksFrom.of_same (h : s.AsksFrom least) (hdetector : s'.gapDetector = s.gapDetector)
    (hhandler : s'.handler = s.handler) (hrequests : s'.retransmitRequestBuffer = s.retransmitRequestBuffer)
    (hclient : s'.client = s.client) : s'.AsksFrom least := by
  refine ⟨?_, ?_, ?_⟩
  · rw [mostRecent, hdetector]
    exact h.recent
  · intro request hrequest
    rw [Requested, hrequests, hclient] at hrequest
    exact h.requests request hrequest
  · rw [hhandler]
    exact h.pushing

theorem AsksFrom.handlerStep (h : s.AsksFrom least) (hinv : s.Invariant feed) (hstep : s.handlerStep = some s') :
    s'.AsksFrom least := by
  have hrecent := h.recent
  cases hpc : s.handler with
  | waiting =>
    cases hslots : s.udpPacketBuffer with
    | nil =>
      simp only [System.handlerStep, hpc, hslots, Option.some.injEq] at hstep
      exact hstep ▸ h
    | cons slot slots =>
      have hfits := hinv.handler
      rw [hpc] at hfits
      have hdetector : s.gapDetector.mostRecentPacketId.toNat = s.mostRecent := rfl
      rcases hasGap_cases s.gapDetector slot.decodeHeaderFromBuffer.header hfits with
        ⟨request, hgap, hlt, hfirst, -⟩ | ⟨g, hgap, -, hmax⟩
      · simp only [System.handlerStep, hpc, hslots, hgap, Option.some.injEq] at hstep
        subst hstep
        refine ⟨?_, h.requests, ?_⟩
        · simp only [mostRecent]
          omega
        · intro r hr
          cases hr
          omega
      · simp only [System.handlerStep, hpc, hslots, hgap, Option.some.injEq] at hstep
        subst hstep
        refine ⟨?_, h.requests, by simp⟩
        simp only [mostRecent, hmax]
        omega
  | pushing request =>
    rw [System.handlerStep, hpc] at hstep
    simp only at hstep
    split at hstep
    · cases hstep
      exact ⟨hrecent, h.requests, by simp⟩
    · cases hstep
      refine ⟨hrecent, ?_, by simp⟩
      rintro r (hmem | hclient)
      · rcases List.mem_append.mp hmem with hold | hnew
        · exact h.requests r (Or.inl hold)
        · rw [List.mem_singleton.mp hnew]
          exact h.pushing request hpc
      · exact h.requests r (Or.inr hclient)
  | writing =>
    simp only [System.handlerStep, hpc] at hstep
    obtain ⟨packet, -, hstep⟩ := Option.bind_eq_some_iff.mp hstep
    obtain ⟨payload, -, hstep⟩ := Option.bind_eq_some_iff.mp hstep
    obtain ⟨⟨result, b⟩, -, hs'⟩ := Option.bind_eq_some_iff.mp hstep
    cases hs'
    exact ⟨hrecent, h.requests, by simp⟩
  | consuming result =>
    cases result with
    | error error =>
      simp only [System.handlerStep, hpc, Option.some.injEq] at hstep
      subst hstep
      exact ⟨hrecent, h.requests, by simp⟩
    | ok _ =>
      simp only [System.handlerStep, hpc, Option.some.injEq] at hstep
      subst hstep
      exact ⟨hrecent, h.requests, by simp⟩
  | stopped =>
    simp only [System.handlerStep, hpc, Option.some.injEq] at hstep
    exact hstep ▸ h

/-- The client goes to `pc`, where it asks for no packet below those it asked for. -/
theorem AsksFrom.clientAt (h : s.AsksFrom least) {pc : ClientPc}
    (hpc : ∀ r, pc.request = some r → least ≤ r.firstPacket.toNat) (b : MarketReorderBuffer)
    (errors : List HandlerError) (received : List UInt64) :
    ({ s with client := pc, reorderBuffer := b, errors := errors, received := received } : System).AsksFrom least := by
  refine ⟨h.recent, ?_, h.pushing⟩
  rintro r (hmem | hclient)
  · exact h.requests r (Or.inl hmem)
  · exact hpc r hclient

theorem AsksFrom.clientStep (h : s.AsksFrom least) (hinv : s.Invariant feed) {memory : EncodedMessage}
    (hstep : s.clientStep memory = some s') : s'.AsksFrom least := by
  have hnone : ∀ r, (ClientPc.stopped).request = some r → least ≤ r.firstPacket.toNat := by
    intro r hr
    cases hr
  have hclient : ∀ r, s.client.request = some r → least ≤ r.firstPacket.toNat :=
    fun r hr => h.requests r (Or.inr hr)
  cases hpc : s.client with
  | waiting =>
    cases hrequests : s.retransmitRequestBuffer with
    | nil =>
      simp only [System.clientStep, hpc, hrequests, Option.some.injEq] at hstep
      exact hstep ▸ h
    | cons request requests =>
      simp only [System.clientStep, hpc, hrequests, Option.some.injEq] at hstep
      subst hstep
      refine ⟨h.recent, ?_, h.pushing⟩
      rintro r (hmem | hclient)
      · exact h.requests r (Or.inl (by rw [hrequests]; exact List.mem_cons_of_mem _ hmem))
      · cases hclient
        exact h.requests request (Or.inl (by rw [hrequests]; exact List.mem_cons_self))
  | sending request =>
    rw [hpc] at hclient
    simp only [System.clientStep, hpc, Option.some.injEq] at hstep
    subst hstep
    refine h.clientAt ?_ _ _ _
    intro r hr
    rw [nextPacket_request hr]
    exact hclient request rfl
  | receiving request =>
    rw [hpc] at hclient
    cases hcached : s.cached request.firstPacket with
    | none =>
      simp only [System.clientStep, hpc, hcached, Option.some.injEq] at hstep
      subst hstep
      exact h.clientAt hnone _ _ _
    | some message =>
      simp only [System.clientStep, hpc, hcached] at hstep
      obtain ⟨received, hreceived, hstep⟩ := Option.bind_eq_some_iff.mp hstep
      cases received with
      | error error =>
        cases hstep
        exact h.clientAt hnone _ _ _
      | ok newMessage =>
        cases hstep
        refine h.clientAt ?_ _ _ _
        intro r hr
        exact hclient r hr
  | writing request newMessage =>
    rw [hpc] at hclient
    have hfirst := hclient request rfl
    have hlt := hinv.client
    rw [hpc] at hlt
    have hlt : request.firstPacket.toNat < request.lastPacket.toNat := hlt.1
    simp only [System.clientStep, hpc] at hstep
    obtain ⟨payload, -, hstep⟩ := Option.bind_eq_some_iff.mp hstep
    split at hstep
    · obtain ⟨⟨result, b⟩, -, hstep⟩ := Option.bind_eq_some_iff.mp hstep
      cases result with
      | error error =>
        cases hstep
        exact h.clientAt hnone _ _ _
      | ok _ =>
        cases hstep
        refine h.clientAt ?_ _ _ _
        intro r hr
        rw [nextPacket_request hr, UInt64.toNat_add]
        have hsize := request.lastPacket.toNat_lt
        simp only [UInt64.toNat_one]
        omega
    · cases hstep
  | stopped =>
    simp only [System.clientStep, hpc, Option.some.injEq] at hstep
    exact hstep ▸ h

theorem AsksFrom.publisherStep (h : s.AsksFrom least) (hstep : s.publisherStep = some s') : s'.AsksFrom least := by
  simp only [System.publisherStep] at hstep
  split at hstep
  · split at hstep
    · cases hstep
      exact h
    · cases hstep
      exact h.of_same rfl rfl rfl rfl
  · obtain ⟨event, -, hs'⟩ := Option.bind_eq_some_iff.mp hstep
    cases hs'
    exact h.of_same rfl rfl rfl rfl

/-! ## What was received is cached -/

/-- Only cached messages are broadcast and received, and no request asks for packet zero. -/
structure Served (s : System) : Prop where
  broadcast : s.broadcast ≤ s.retransmitCache.length
  received : ∀ number ∈ s.received, number.toNat ≤ s.retransmitCache.length
  asks : s.AsksFrom 1

theorem init_served (memory : Nat → List UInt8) : (init memory).Served where
  broadcast := le_refl _
  received := by simp [init]
  asks := init_asksFrom memory

theorem Served.exchangeStep (h : s.Served) (hstep : s.exchangeStep feed = some s') : s'.Served := by
  rw [System.exchangeStep] at hstep
  cases hevent : feed.events[s.retransmitCache.length]? with
  | none =>
    rw [hevent] at hstep
    cases hstep
    exact h
  | some event =>
    rw [hevent] at hstep
    obtain ⟨⟨message, sequencer⟩, -, hs'⟩ := Option.bind_eq_some_iff.mp hstep
    cases hs'
    have hlength : s.retransmitCache.length ≤ (s.retransmitCache ++ [message]).length := by
      rw [List.length_append]
      exact Nat.le_add_right _ _
    exact ⟨h.broadcast.trans hlength, fun number hmem => (h.received number hmem).trans hlength,
      h.asks.of_same rfl rfl rfl rfl⟩

theorem Served.arrive (h : s.Served) (hinv : s.Invariant feed) (message : Nat) (slot : EncodedMessage) :
    (s.arrive message slot).Served := by
  rw [System.arrive]
  split
  · split
    · split
      · rename_i m hm
        have hpacket := hinv.cache message m hm
        refine ⟨h.broadcast, ?_, h.asks.of_same rfl rfl rfl rfl⟩
        intro number hmem
        rcases List.mem_append.mp hmem with hold | hnew
        · exact h.received number hold
        · rw [List.mem_singleton.mp hnew, hpacket.1, hpacket.2.toNat]
          exact (List.getElem?_eq_some_iff.mp hm).1
      · exact h
    · exact h
  · exact h
  · exact h

/-- What the handler leaves to the others. -/
theorem handlerStep_frame (hstep : s.handlerStep = some s') : s'.retransmitCache = s.retransmitCache ∧
    s'.broadcast = s.broadcast ∧ s'.received = s.received := by
  rw [handlerStep] at hstep
  split at hstep
  · split at hstep <;> cases hstep <;> exact ⟨rfl, rfl, rfl⟩
  · split at hstep <;> cases hstep <;> exact ⟨rfl, rfl, rfl⟩
  · obtain ⟨packet, -, hstep⟩ := Option.bind_eq_some_iff.mp hstep
    obtain ⟨payload, -, hstep⟩ := Option.bind_eq_some_iff.mp hstep
    obtain ⟨⟨result, b⟩, -, hs'⟩ := Option.bind_eq_some_iff.mp hstep
    cases hs'
    exact ⟨rfl, rfl, rfl⟩
  · split at hstep <;> cases hstep <;> exact ⟨rfl, rfl, rfl⟩
  · cases hstep
    exact ⟨rfl, rfl, rfl⟩

theorem publisherStep_frame (hstep : s.publisherStep = some s') : s'.retransmitCache = s.retransmitCache ∧
    s'.broadcast = s.broadcast ∧ s'.received = s.received := by
  simp only [publisherStep] at hstep
  split at hstep
  · split at hstep <;> cases hstep <;> exact ⟨rfl, rfl, rfl⟩
  · obtain ⟨event, -, hs'⟩ := Option.bind_eq_some_iff.mp hstep
    cases hs'
    exact ⟨rfl, rfl, rfl⟩

/-- The client receives cached packets. -/
theorem clientStep_frame (hasks : s.AsksFrom 1) (hinv : s.Invariant feed) {memory : EncodedMessage}
    (hstep : s.clientStep memory = some s') : s'.retransmitCache = s.retransmitCache ∧
      s'.broadcast = s.broadcast ∧
      (s'.received = s.received ∨
        ∃ number, s'.received = s.received ++ [number] ∧ number.toNat ≤ s.retransmitCache.length) := by
  rw [clientStep] at hstep
  split at hstep
  · split at hstep <;> cases hstep <;> exact ⟨rfl, rfl, Or.inl rfl⟩
  · cases hstep
    exact ⟨rfl, rfl, Or.inl rfl⟩
  · rename_i request hpc
    split at hstep
    · cases hstep
      exact ⟨rfl, rfl, Or.inl rfl⟩
    · rename_i message hcached
      obtain ⟨received, hreceived, hstep⟩ := Option.bind_eq_some_iff.mp hstep
      cases received with
      | error error =>
        cases hstep
        exact ⟨rfl, rfl, Or.inl rfl⟩
      | ok newMessage =>
        cases hstep
        refine ⟨rfl, rfl, Or.inr ⟨_, rfl, ?_⟩⟩
        have hfirst := hasks.requests request (Or.inr (by rw [hpc]; rfl))
        rw [cached] at hcached
        split at hcached
        · cases hcached
        · have hpacket := hinv.cache _ _ hcached
          rw [Nat.sub_add_cancel hfirst] at hpacket
          obtain ⟨newMessage', hnew, hnumber⟩ := hpacket.receiveStream memory
          rw [hreceived] at hnew
          cases hnew
          rw [hnumber.1, hnumber.2.toNat]
          have hlt := (List.getElem?_eq_some_iff.mp hcached).1
          omega
  · obtain ⟨payload, -, hstep⟩ := Option.bind_eq_some_iff.mp hstep
    split at hstep
    · obtain ⟨⟨result, b⟩, -, hstep⟩ := Option.bind_eq_some_iff.mp hstep
      cases result with
      | error error =>
        cases hstep
        exact ⟨rfl, rfl, Or.inl rfl⟩
      | ok _ =>
        cases hstep
        exact ⟨rfl, rfl, Or.inl rfl⟩
    · cases hstep
  · cases hstep
    exact ⟨rfl, rfl, Or.inl rfl⟩

theorem Served.of_frame (h : s.Served) (hframe : s'.retransmitCache = s.retransmitCache ∧
    s'.broadcast = s.broadcast ∧ s'.received = s.received) (hasks : s'.AsksFrom 1) : s'.Served := by
  obtain ⟨hcache, hbroadcast, hreceived⟩ := hframe
  refine ⟨?_, ?_, hasks⟩
  · rw [hbroadcast, hcache]
    exact h.broadcast
  · rw [hreceived, hcache]
    exact h.received

theorem Served.clientStep (h : s.Served) (hinv : s.Invariant feed) {memory : EncodedMessage}
    (hstep : s.clientStep memory = some s') : s'.Served := by
  have hasks := h.asks.clientStep hinv hstep
  obtain ⟨hcache, hbroadcast, hsame | ⟨number, hnew, hle⟩⟩ := clientStep_frame h.asks hinv hstep
  · exact h.of_frame ⟨hcache, hbroadcast, hsame⟩ hasks
  · refine ⟨?_, ?_, hasks⟩
    · rw [hbroadcast, hcache]
      exact h.broadcast
    · rw [hnew, hcache]
      intro n hmem
      rcases List.mem_append.mp hmem with hold | hlast
      · exact h.received n hold
      · rw [List.mem_singleton.mp hlast]
        exact hle

theorem Served.step (h : s.Served) (hinv : s.Invariant feed) {pick : Pick} (hstep : s.step feed pick = some s') :
    s'.Served := by
  cases pick with
  | sequence => exact h.exchangeStep hstep
  | broadcast =>
    cases hstep
    exact ⟨min_le_right _ _, h.received, h.asks.of_same rfl rfl rfl rfl⟩
  | listener =>
    cases hstep
    rw [System.listenerStep]
    split
    · split
      · exact h.of_frame ⟨rfl, rfl, rfl⟩ (h.asks.of_same rfl rfl rfl rfl)
      · exact h.of_frame ⟨rfl, rfl, rfl⟩ (h.asks.of_same rfl rfl rfl rfl)
    · exact h
    · exact h
  | arrive message slot =>
    cases hstep
    exact h.arrive hinv message slot
  | listenerError =>
    rw [System.step] at hstep
    split at hstep
    · cases hstep
      exact h.of_frame ⟨rfl, rfl, rfl⟩ (h.asks.of_same rfl rfl rfl rfl)
    · cases hstep
      exact h
    · cases hstep
      exact h
  | handler => exact h.of_frame (handlerStep_frame hstep) (h.asks.handlerStep hinv hstep)
  | client memory => exact h.clientStep hinv hstep
  | clientError error =>
    cases hstep
    have hnone : ∀ r, (ClientPc.stopped).request = some r → 1 ≤ r.firstPacket.toNat := by
      intro r hr
      cases hr
    rw [System.clientError]
    split
    · exact h.of_frame ⟨rfl, rfl, rfl⟩ (h.asks.clientAt hnone _ _ _)
    · exact h.of_frame ⟨rfl, rfl, rfl⟩ (h.asks.clientAt hnone _ _ _)
    · exact h
    · exact h
    · exact h
  | publisher => exact h.of_frame (publisherStep_frame hstep) (h.asks.publisherStep hstep)

/-! ## What is published -/

/-- Only the publisher publishes. -/
theorem step_publisher {pick : Pick} (hpick : pick ≠ .publisher) (hstep : s.step feed pick = some s') :
    s'.publisher = s.publisher ∧ s'.published = s.published := by
  cases pick with
  | sequence =>
    simp only [step, exchangeStep] at hstep
    split at hstep
    · cases hstep
      exact ⟨rfl, rfl⟩
    · obtain ⟨⟨message, sequencer⟩, -, hreturn⟩ := Option.bind_eq_some_iff.mp hstep
      cases hreturn
      exact ⟨rfl, rfl⟩
  | broadcast =>
    cases hstep
    exact ⟨rfl, rfl⟩
  | listener =>
    cases hstep
    rw [listenerStep]
    split
    · split <;> exact ⟨rfl, rfl⟩
    · exact ⟨rfl, rfl⟩
    · exact ⟨rfl, rfl⟩
  | arrive message slot =>
    cases hstep
    rw [arrive]
    split
    · split
      · split <;> exact ⟨rfl, rfl⟩
      · exact ⟨rfl, rfl⟩
    · exact ⟨rfl, rfl⟩
    · exact ⟨rfl, rfl⟩
  | listenerError =>
    rw [step] at hstep
    split at hstep <;> cases hstep <;> exact ⟨rfl, rfl⟩
  | handler =>
    simp only [step, handlerStep] at hstep
    split at hstep
    · split at hstep <;> cases hstep <;> exact ⟨rfl, rfl⟩
    · split at hstep <;> cases hstep <;> exact ⟨rfl, rfl⟩
    · obtain ⟨newPacket, -, hstep⟩ := Option.bind_eq_some_iff.mp hstep
      obtain ⟨payload, -, hstep⟩ := Option.bind_eq_some_iff.mp hstep
      obtain ⟨⟨result, b⟩, -, hreturn⟩ := Option.bind_eq_some_iff.mp hstep
      cases hreturn
      exact ⟨rfl, rfl⟩
    · split at hstep <;> cases hstep <;> exact ⟨rfl, rfl⟩
    · cases hstep
      exact ⟨rfl, rfl⟩
  | client memory =>
    simp only [step, clientStep] at hstep
    split at hstep
    · split at hstep <;> cases hstep <;> exact ⟨rfl, rfl⟩
    · cases hstep
      exact ⟨rfl, rfl⟩
    · split at hstep
      · cases hstep
        exact ⟨rfl, rfl⟩
      · obtain ⟨received, -, hstep⟩ := Option.bind_eq_some_iff.mp hstep
        split at hstep <;> cases hstep <;> exact ⟨rfl, rfl⟩
    · obtain ⟨payload, -, hstep⟩ := Option.bind_eq_some_iff.mp hstep
      split at hstep
      · obtain ⟨⟨result, b⟩, -, hstep⟩ := Option.bind_eq_some_iff.mp hstep
        simp only at hstep
        split at hstep <;> cases hstep <;> exact ⟨rfl, rfl⟩
      · cases hstep
    · cases hstep
      exact ⟨rfl, rfl⟩
  | clientError error =>
    cases hstep
    rw [clientError]
    split <;> exact ⟨rfl, rfl⟩
  | publisher => exact absurd rfl hpick

/-- A step publishes one event at most. -/
theorem publisherStep_published (hstep : s.publisherStep = some s') :
    s'.published = s.published ∨ ∃ event, s'.published = s.published ++ [event] := by
  simp only [publisherStep] at hstep
  split at hstep
  · split at hstep <;> cases hstep <;> exact Or.inl rfl
  · obtain ⟨event, -, hs'⟩ := Option.bind_eq_some_iff.mp hstep
    cases hs'
    exact Or.inr ⟨event, rfl⟩

theorem step_published {pick : Pick} (hstep : s.step feed pick = some s') :
    s.published.length ≤ s'.published.length ∧ s'.published.length ≤ s.published.length + 1 := by
  by_cases hpick : pick = .publisher
  · subst hpick
    rcases publisherStep_published hstep with hsame | ⟨event, hpublished⟩
    · rw [hsame]
      omega
    · rw [hpublished, List.length_append, List.length_singleton]
      omega
  · rw [(step_publisher hpick hstep).2]
    omega

end System

end HftPipeline
