import HftPipeline.Lib.FairRun
import HftPipeline.Lib.Stuttering
import HftPipeline.Progress
import HftPipeline.CachedBroadcast

/-!
# Recovery

What `Delivery` says of a system in which nothing is on its way, the system comes to by itself:
each step of a thread uses up work, so once no more packets arrive a fair schedule brings it to
rest. Then an error has been reported or every packet up to the highest one received is
published. The publisher waits while the market event buffer is full, and the engine consumes
what is in it.
-/
namespace HftPipeline

/-- The threads of the exchange and of the handler. -/
inductive SystemThread where
  | sequencer | broadcaster | listener | handler | client | publisher
  deriving DecidableEq, Repr

/-- Whose step it is. Arrivals and failures are the network's. -/
def Pick.thread : Pick → Option SystemThread
  | .sequence => some .sequencer
  | .broadcast => some .broadcaster
  | .listener => some .listener
  | .handler => some .handler
  | .client _ => some .client
  | .publisher => some .publisher
  | .arrive _ _ | .listenerError | .clientError _ => none

/-- No packet arrives. -/
def Pick.Silent : Pick → Prop
  | .arrive _ _ => False
  | .sequence | .broadcast | .listener | .listenerError | .handler | .client _ | .clientError _
  | .publisher => True

namespace System

variable {s s' : System} {feed : Feed}

/-! ## The retransmit cache overwrites old packets -/

/-- `try_get_item` finds a newer message in the slot of the packet. -/
def TooOld (s : System) (packet : UInt64) : Prop :=
  packet.toNat + 2 ^ retransmitCacheBits ≤ s.retransmitCache.length

instance (s : System) (packet : UInt64) : Decidable (s.TooOld packet) := inferInstanceAs (Decidable (_ ≤ _))

/-- A step where the server reports an error if it is asked for a packet that is too old. -/
def keptStep (feed : Feed) (s : System) (pick : Pick) : Option System :=
  match pick, s.client with
  | .client _, .receiving request =>
    if s.TooOld request.firstPacket then some (s.clientError .retransmitServer) else s.step feed pick
  | _, _ => s.step feed pick

/-- Such an error is one that the client may have at any time. -/
theorem keptStep_step (feed : Feed) (s : System) (pick : Pick) :
    s.keptStep feed pick = s.step feed pick ∨ ∃ request, pick.thread = some .client ∧
      s.client = .receiving request ∧ s.keptStep feed pick = s.step feed (.clientError .retransmitServer) := by
  unfold keptStep
  split
  · rename_i request hpc
    split
    · exact Or.inr ⟨request, rfl, hpc, rfl⟩
    · exact Or.inl rfl
  · exact Or.inl rfl

theorem sequencer_idle (h : feed.events.length ≤ s.retransmitCache.length) : s.exchangeStep feed = some s := by
  rw [System.exchangeStep, List.getElem?_eq_none h]

theorem listener_idle (h : s.listener ≠ .claiming) : s.listenerStep = s := by
  rw [System.listenerStep]
  split
  · contradiction
  · rfl
  · rfl

theorem handler_idle (h : (s.handler = .waiting ∧ s.udpPacketBuffer = []) ∨ s.handler = .stopped) :
    s.handlerStep = some s := by
  rcases h with ⟨hpc, hslots⟩ | hpc
  · simp only [System.handlerStep, hpc, hslots]
  · simp only [System.handlerStep, hpc]

theorem client_idle (h : (s.client = .waiting ∧ s.retransmitRequestBuffer = []) ∨ s.client = .stopped)
    (memory : EncodedMessage) : s.clientStep memory = some s := by
  rcases h with ⟨hpc, hrequests⟩ | hpc
  · simp only [System.clientStep, hpc, hrequests]
  · simp only [System.clientStep, hpc]

theorem publisher_idle (h : s.publisher = .waiting) (hnone : s.reorderBuffer.tryConsumeNext.1 = none) :
    s.publisherStep = some s := by
  rcases hconsume : s.reorderBuffer.tryConsumeNext with ⟨item, b⟩
  rw [hconsume] at hnone
  subst hnone
  simp only [System.publisherStep, h, hconsume]

/-- A thread is idle, or every step of it uses up work. -/
theorem Invariant.works (h : s.Invariant feed) (hserved : s.Served) (t : SystemThread) :
    FairRun.Idle (System.step feed) Pick.thread s t ∨
      ∀ pick s', pick.thread = some t → s.step feed pick = some s' → s'.work feed < s.work feed := by
  cases t with
  | sequencer =>
    apply (exchange_progress feed s).imp
    · intro hdone pick hpick
      cases pick <;> cases hpick
      exact sequencer_idle hdone
    · intro hless pick s' hpick hstep
      cases pick <;> cases hpick
      exact hless s' hstep
  | broadcaster =>
    apply (Nat.lt_or_ge s.broadcast s.retransmitCache.length).symm.imp
    · intro hdone pick hpick
      cases pick <;> cases hpick
      rw [System.step, Nat.min_eq_right (Nat.le_succ_of_le hdone), le_antisymm hdone hserved.broadcast]
    · intro hless pick s' hpick hstep
      cases pick <;> cases hpick
      cases hstep
      exact broadcast_progress feed hless
  | listener =>
    apply (listener_progress feed s).imp
    · intro hdone pick hpick
      cases pick <;> cases hpick
      rw [System.step, listener_idle hdone]
    · intro hless pick s' hpick hstep
      cases pick <;> cases hpick
      cases hstep
      exact hless
  | handler =>
    apply (or_assoc.mpr h.handler_progress).imp
    · intro hdone pick hpick
      cases pick <;> cases hpick
      exact handler_idle hdone
    · intro hless pick s' hpick hstep
      cases pick <;> cases hpick
      exact hless s' hstep
  | client =>
    apply (or_assoc.mpr h.client_progress).imp
    · intro hdone pick hpick
      cases pick <;> cases hpick
      exact client_idle hdone _
    · intro hless pick s' hpick hstep
      cases pick <;> cases hpick
      exact hless _ s' hstep
  | publisher =>
    apply h.publisher_progress.imp
    · intro hdone pick hpick
      cases pick <;> cases hpick
      exact publisher_idle hdone.1 hdone.2
    · intro hless pick s' hpick hstep
      cases pick <;> cases hpick
      exact hless s' hstep

/-- An error of the network stops a thread or changes nothing. -/
theorem Invariant.error_work (h : s.Invariant feed) {pick : Pick} (hthread : pick.thread = none) (hsilent : pick.Silent)
    (hstep : s.step feed pick = some s') : s' = s ∨ s'.work feed < s.work feed := by
  cases pick <;> cases hthread
  · exact hsilent.elim
  · simp only [System.step] at hstep
    split at hstep
    · rename_i hpc
      cases hstep
      right
      simp only [work, mostRecent, System.report, hpc, ListenerPc.work]
      omega
    · exact Or.inl (Option.some.inj hstep).symm
    · exact Or.inl (Option.some.inj hstep).symm
  · simp only [System.step, System.clientError] at hstep
    split at hstep
    · rename_i request hpc
      cases hstep
      right
      simp only [work, mostRecent, System.report, hpc, ClientPc.work]
      omega
    · rename_i request hpc
      cases hstep
      right
      have hat := h.client
      rw [hpc] at hat
      have hmissing : 0 < request.missing := Nat.sub_pos_of_lt hat
      simp only [work, mostRecent, System.report, hpc, ClientPc.work]
      omega
    · exact Or.inl (Option.some.inj hstep).symm
    · exact Or.inl (Option.some.inj hstep).symm
    · exact Or.inl (Option.some.inj hstep).symm

/-- Every step changes nothing or uses up work, if it is not the arrival of a packet. -/
theorem usesUp (feed : Feed) :
    FairRun.UsesUp (System.step feed) Pick.thread (fun s => s.Invariant feed ∧ s.Served) Pick.Silent
      (System.work feed) := by
  refine ⟨?_, ?_, fun s t hinv => hinv.1.works hinv.2 t⟩
  · rintro s pick ⟨h, hserved⟩
    obtain ⟨s', hstep, h'⟩ := h.step pick
    exact ⟨s', hstep, h', hserved.step h hstep⟩
  · rintro s pick s' ⟨h, hserved⟩ hsilent hstep
    cases hthread : pick.thread with
    | some t =>
      rcases h.works hserved t with hidle | hless
      · rw [hidle pick hthread] at hstep
        exact Or.inl (Option.some.inj hstep).symm
      · exact Or.inr (hless pick s' hthread hstep)
    | none => exact h.error_work hthread hsilent hstep

theorem Invariant.receiving_error (h : s.Invariant feed) {request : RetransmitRequest}
    (hpc : s.client = .receiving request) (error : HandlerError) : (s.clientError error).work feed < s.work feed := by
  have hat := h.client
  rw [hpc] at hat
  have hmissing : 0 < request.missing := Nat.sub_pos_of_lt hat
  simp only [System.clientError, hpc, work, mostRecent, System.report, ClientPc.work]
  omega

/-- The same of the steps where old packets are overwritten. -/
theorem kept_usesUp (feed : Feed) :
    FairRun.UsesUp (System.keptStep feed) Pick.thread (fun s => s.Invariant feed ∧ s.Served) Pick.Silent
      (System.work feed) := by
  refine ⟨?_, ?_, ?_⟩
  · rintro s pick ⟨h, hserved⟩
    rcases keptStep_step feed s pick with hsame | ⟨-, -, -, herror⟩
    · rw [hsame]
      exact (usesUp feed).total s pick ⟨h, hserved⟩
    · rw [herror]
      exact (usesUp feed).total s _ ⟨h, hserved⟩
  · rintro s pick s' ⟨h, hserved⟩ hsilent hstep
    rcases keptStep_step feed s pick with hsame | ⟨request, -, hpc, herror⟩
    · rw [hsame] at hstep
      exact (usesUp feed).change s pick s' ⟨h, hserved⟩ hsilent hstep
    · rw [herror] at hstep
      cases hstep
      exact Or.inr (h.receiving_error hpc _)
  · rintro s t ⟨h, hserved⟩
    rcases h.works hserved t with hidle | hworks
    · left
      intro pick hthread
      rcases keptStep_step feed s pick with hsame | ⟨request, hclient, hpc, -⟩
      · rw [hsame]
        exact hidle pick hthread
      · obtain rfl : t = .client := Option.some.inj (hthread.symm.trans hclient)
        rcases h.client_progress with ⟨hwaiting, -⟩ | hstopped | hless
        · rw [hpc] at hwaiting
          cases hwaiting
        · rw [hpc] at hstopped
          cases hstopped
        · exact absurd (hless ⟨⟨0, 0⟩, []⟩ s (hidle (.client _) rfl)) (lt_irrefl _)
    · right
      intro pick s' hthread hstep
      rcases keptStep_step feed s pick with hsame | ⟨request, -, hpc, herror⟩
      · rw [hsame] at hstep
        exact hworks pick s' hthread hstep
      · rw [herror] at hstep
        cases hstep
        exact h.receiving_error hpc _

theorem Invariant.idle_of_kept (h : s.Invariant feed) {t : SystemThread}
    (hidle : FairRun.Idle (System.keptStep feed) Pick.thread s t) :
    FairRun.Idle (System.step feed) Pick.thread s t := by
  intro pick hthread
  have hsame := hidle pick hthread
  rcases keptStep_step feed s pick with hstep | ⟨request, -, hpc, herror⟩
  · rw [← hstep]
    exact hsame
  · rw [herror] at hsame
    have hless := h.receiving_error hpc .retransmitServer
    rw [show s.clientError _ = s from Option.some.inj hsame] at hless
    exact absurd hless (lt_irrefl _)

/-- No thread has met an error, no packet that is asked for has been overwritten, and none received is
too far ahead of the publisher. -/
structure Recovering (feed : Feed) (target least : Nat) (s : System) : Prop where
  invariant : s.Invariant feed
  served : s.Served
  asks : s.AsksFrom least
  kept : s.retransmitCache.length < least + 2 ^ retransmitCacheBits
  errors : s.errors = []
  written : ∀ error, s.handler ≠ .consuming (.error error)
  highest : s.highestReceived = target
  ahead : target < s.reorderBuffer.readerIndex + (2 ^ 15 - 1)

variable {target least : Nat}

theorem Invariant.mostRecent_le (h : s.Invariant feed) : s.mostRecent ≤ s.highestReceived := by
  rcases h.recent with hzero | ⟨number, hmem, heq⟩
  · rw [hzero]
    exact Nat.zero_le _
  · exact le_foldr_max (List.mem_map.mpr ⟨number, hmem, heq⟩)

/-- A number that is not higher leaves the highest one as it is. -/
theorem foldr_max_concat {numbers : List UInt64} {number : UInt64}
    (hle : number.toNat ≤ (numbers.map UInt64.toNat).foldr max 0) :
    ((numbers ++ [number]).map UInt64.toNat).foldr max 0 = (numbers.map UInt64.toNat).foldr max 0 := by
  apply le_antisymm
  · apply foldr_max_le
    intro i hi
    rw [List.map_append] at hi
    rcases List.mem_append.mp hi with hold | hnew
    · exact le_foldr_max hold
    · rw [List.mem_singleton.mp hnew]
      exact hle
  · apply foldr_max_le
    intro i hi
    apply le_foldr_max
    rw [List.map_append]
    exact List.mem_append_left _ hi

/-- A write of a packet received is not too far ahead. -/
theorem Recovering.write_ok (h : s.Recovering feed target least) (hfits : feed.events.length + 2 ^ 15 < 2 ^ 64)
    {event : List UInt8} {packetId : UInt64} (hle : packetId.toNat ≤ s.mostRecent)
    {result : Except HandlerError Unit} {b : MarketReorderBuffer}
    (hwrite : writeMarketDataToReorderBuffer s.reorderBuffer event packetId = some (result, b)) :
    result = .ok () := by
  have hposition := h.invariant.position.2.2.2
  have hrecent := h.invariant.mostRecent_le
  have hahead := h.ahead
  have hlimit : ReorderBuffer.limit 15 s.reorderBuffer.readerIndex =
      s.reorderBuffer.readerIndex + (2 ^ 15 - 1) := Nat.mod_eq_of_lt (by omega)
  have hhighest := h.highest
  apply writeMarketData_inside ?_ hwrite
  rw [hlimit, Nat.not_le]
  omega

/-- A step of the handler meets no error if the client has taken every request. -/
theorem Recovering.handlerStep (h : s.Recovering feed target least) (hfits : feed.events.length + 2 ^ 15 < 2 ^ 64)
    (hrequests : s.retransmitRequestBuffer = []) (hstep : s.handlerStep = some s')
    (hinv : s'.Invariant feed) : s'.Recovering feed target least := by
  have hframe := handlerStep_frame hstep
  have hserved := h.served.of_frame hframe (h.served.asks.handlerStep h.invariant hstep)
  have hasks := h.asks.handlerStep h.invariant hstep
  have hkept : s'.retransmitCache.length < least + 2 ^ retransmitCacheBits := hframe.1 ▸ h.kept
  cases hpc : s.handler with
  | waiting =>
    cases hslots : s.udpPacketBuffer with
    | nil =>
      simp only [System.handlerStep, hpc, hslots, Option.some.injEq] at hstep
      exact hstep ▸ h
    | cons slot slots =>
      simp only [System.handlerStep, hpc, hslots, Option.some.injEq] at hstep
      subst hstep
      refine ⟨hinv, hserved, hasks, hkept, h.errors, ?_, h.highest, h.ahead⟩
      intro error
      simp only
      split
      · simp
      · simp
  | pushing request =>
    simp only [System.handlerStep, hpc, hrequests, List.length_nil, List.nil_append] at hstep
    cases hstep
    exact ⟨hinv, hserved, hasks, hkept, h.errors, by simp, h.highest, h.ahead⟩
  | writing =>
    have hat := h.invariant.handler
    rw [hpc] at hat
    obtain ⟨number, ⟨packet, slots, hslots, hpacket⟩, hle, -⟩ := hat
    obtain ⟨item, -, hpayload⟩ := hpacket.payload
    simp only [System.handlerStep, hpc, hslots, List.head?_cons, hpayload, Option.bind_eq_bind,
      Option.bind_some] at hstep
    obtain ⟨⟨result, b⟩, hwrite, hs'⟩ := Option.bind_eq_some_iff.mp hstep
    have hok := h.write_ok hfits (by rw [hpacket.1, hpacket.2.toNat]; exact hle) hwrite
    have hreader := writeMarketData_readerIndex hwrite
    cases hs'
    subst hok
    exact ⟨hinv, hserved, hasks, hkept, h.errors, by simp, h.highest, by rw [hreader]; exact h.ahead⟩
  | consuming result =>
    cases result with
    | error error => exact absurd hpc (h.written error)
    | ok _ =>
      simp only [System.handlerStep, hpc, Option.some.injEq] at hstep
      subst hstep
      exact ⟨hinv, hserved, hasks, hkept, h.errors, by simp, h.highest, h.ahead⟩
  | stopped =>
    simp only [System.handlerStep, hpc, Option.some.injEq] at hstep
    exact hstep ▸ h

/-- Every packet that is asked for is in the cache, so the client meets no error. -/
theorem Recovering.clientStep (h : s.Recovering feed target least) (hfits : feed.events.length + 2 ^ 15 < 2 ^ 64)
    {memory : EncodedMessage} (hstep : s.clientStep memory = some s') (hinv : s'.Invariant feed) :
    s'.Recovering feed target least := by
  have hserved := h.served.clientStep h.invariant hstep
  have hasks := h.asks.clientStep h.invariant hstep
  have hkept : s'.retransmitCache.length < least + 2 ^ retransmitCacheBits :=
    (clientStep_frame h.served.asks h.invariant hstep).1 ▸ h.kept
  have hrecent := h.invariant.mostRecent_le
  have hlast := fun request hpc => h.invariant.requests request (Or.inr hpc)
  cases hpc : s.client with
  | waiting =>
    cases hrequests : s.retransmitRequestBuffer with
    | nil =>
      simp only [System.clientStep, hpc, hrequests, Option.some.injEq] at hstep
      exact hstep ▸ h
    | cons request requests =>
      simp only [System.clientStep, hpc, hrequests, Option.some.injEq] at hstep
      subst hstep
      exact ⟨hinv, hserved, hasks, hkept, h.errors, h.written, h.highest, h.ahead⟩
  | sending request =>
    simp only [System.clientStep, hpc, Option.some.injEq] at hstep
    subst hstep
    exact ⟨hinv, hserved, hasks, hkept, h.errors, h.written, h.highest, h.ahead⟩
  | receiving request =>
    have hfirst := h.served.asks.requests request (Or.inr (by rw [hpc]; rfl))
    have hlast := hlast request (by rw [hpc]; rfl)
    have hat := h.invariant.client
    rw [hpc] at hat
    have hlt : request.firstPacket.toNat < request.lastPacket.toNat := hat
    have hcount : s.mostRecent ≤ s.retransmitCache.length := by
      rcases h.invariant.recent with hzero | ⟨number, hmem, heq⟩
      · rw [hzero]
        exact Nat.zero_le _
      · rw [← heq]
        exact h.served.received number hmem
    obtain ⟨message, hmessage⟩ : ∃ message, s.retransmitCache[request.firstPacket.toNat - 1]? = some message :=
      ⟨_, List.getElem?_eq_getElem (by omega)⟩
    have hcached : s.cached request.firstPacket = some message := by
      rw [cached, if_neg, hmessage]
      intro hzero
      rw [hzero] at hfirst
      cases hfirst
    have hpacket := h.invariant.cache _ _ hmessage
    rw [Nat.sub_add_cancel hfirst] at hpacket
    obtain ⟨newMessage, hreceived, hnew⟩ := hpacket.receiveStream memory
    simp only [System.clientStep, hpc, hcached, hreceived, Option.bind_eq_bind, Option.bind_some] at hstep
    cases hstep
    refine ⟨hinv, hserved, hasks, hkept, h.errors, h.written, ?_, h.ahead⟩
    rw [← h.highest]
    apply foldr_max_concat
    rw [hnew.1, hnew.2.toNat]
    exact (show request.firstPacket.toNat ≤ s.highestReceived by omega)
  | writing request newMessage =>
    have hlast := hlast request (by rw [hpc]; rfl)
    have hat := h.invariant.client
    rw [hpc] at hat
    have hlt : request.firstPacket.toNat < request.lastPacket.toNat := hat.1
    have hnumber : newMessage.header.sequenceNumber.toNat = request.firstPacket.toNat := by
      rw [hat.2.1, hat.2.2.toNat]
    simp only [System.clientStep, hpc] at hstep
    obtain ⟨payload, -, hstep⟩ := Option.bind_eq_some_iff.mp hstep
    split at hstep
    · obtain ⟨⟨result, b⟩, hwrite, hstep⟩ := Option.bind_eq_some_iff.mp hstep
      have hok := h.write_ok hfits (by omega) hwrite
      have hreader := writeMarketData_readerIndex hwrite
      subst hok
      cases hstep
      exact ⟨hinv, hserved, hasks, hkept, h.errors, h.written, h.highest, by rw [hreader]; exact h.ahead⟩
    · cases hstep
  | stopped =>
    simp only [System.clientStep, hpc, Option.some.injEq] at hstep
    exact hstep ▸ h

theorem Recovering.publisherStep (h : s.Recovering feed target least) (hstep : s.publisherStep = some s')
    (hinv : s'.Invariant feed) : s'.Recovering feed target least := by
  have hframe := publisherStep_frame hstep
  have hserved := h.served.of_frame hframe (h.served.asks.publisherStep hstep)
  have hasks := h.asks.publisherStep hstep
  have hkept : s'.retransmitCache.length < least + 2 ^ retransmitCacheBits := hframe.1 ▸ h.kept
  have hahead := h.ahead
  cases hpc : s.publisher with
  | waiting =>
    rcases hconsume : s.reorderBuffer.tryConsumeNext with ⟨item, b⟩
    rcases h.invariant.buffer.tryConsumeNext hconsume with ⟨rfl, -, -⟩ | ⟨item, rfl, -, -, hreader, -, -⟩
    · simp only [System.publisherStep, hpc, hconsume, Option.some.injEq] at hstep
      exact hstep ▸ h
    · simp only [System.publisherStep, hpc, hconsume, Option.some.injEq] at hstep
      subst hstep
      refine ⟨hinv, hserved, hasks, hkept, h.errors, h.written, h.highest, ?_⟩
      rw [hreader]
      omega
  | publishing item =>
    simp only [System.publisherStep, hpc] at hstep
    obtain ⟨event, -, hs'⟩ := Option.bind_eq_some_iff.mp hstep
    cases hs'
    exact ⟨hinv, hserved, hasks, hkept, h.errors, h.written, h.highest, h.ahead⟩

theorem keptStep_published {pick : Pick} (hstep : s.keptStep feed pick = some s') :
    s.published.length ≤ s'.published.length ∧ s'.published.length ≤ s.published.length + 1 := by
  rcases keptStep_step feed s pick with hsame | ⟨-, -, -, herror⟩
  · exact step_published (hsame ▸ hstep)
  · exact step_published (herror ▸ hstep)

end System

/-! ## The market event buffer -/

/-- The exchange and the handler, and how many of the published events the engine has consumed. -/
structure MarketDataSystem where
  system : System
  consumed : Nat

inductive MarketDataTurn where
  | system (pick : Pick)
  | engine

inductive MarketDataThread where
  | system (thread : SystemThread)
  | engine
  deriving DecidableEq, Repr

def MarketDataTurn.thread : MarketDataTurn → Option MarketDataThread
  | .system pick => pick.thread.map .system
  | .engine => some .engine

/-- No packet arrives. -/
def MarketDataTurn.Silent : MarketDataTurn → Prop
  | .system pick => pick.Silent
  | .engine => True

theorem MarketDataTurn.of_system {turn : MarketDataTurn} {t : SystemThread} (h : turn.thread = some (.system t)) :
    ∃ pick, turn = .system pick ∧ pick.thread = some t := by
  cases turn with
  | system pick =>
    obtain ⟨t', ht', hsame⟩ := Option.map_eq_some_iff.mp h
    cases hsame
    exact ⟨pick, rfl, ht'⟩
  | engine => cases h

theorem MarketDataTurn.of_engine {turn : MarketDataTurn} (h : turn.thread = some .engine) : turn = .engine := by
  cases turn with
  | system pick =>
    obtain ⟨t, -, hsame⟩ := Option.map_eq_some_iff.mp h
    cases hsame
  | engine => rfl

namespace MarketDataSystem

def init (memory : Nat → List UInt8) : MarketDataSystem := ⟨.init memory, 0⟩

def unconsumed (m : MarketDataSystem) : Nat := m.system.published.length - m.consumed

/-- The publisher holds an item and `wait_get_head_ref` finds no slot for its event. -/
def Full (m : MarketDataSystem) : Prop :=
  m.system.publisher ≠ .waiting ∧ m.unconsumed = 2 ^ 15

instance (m : MarketDataSystem) : Decidable m.Full := inferInstanceAs (Decidable (_ ∧ _))

/-- The publisher polls a full buffer, and the engine an empty one. -/
def step (feed : Feed) (m : MarketDataSystem) : MarketDataTurn → Option MarketDataSystem
  | .system pick =>
    if pick.thread = some .publisher ∧ m.Full then some m
    else (m.system.keptStep feed pick).map fun system => { m with system := system }
  | .engine => some (if m.unconsumed = 0 then m else { m with consumed := m.consumed + 1 })

def run (feed : Feed) (m : MarketDataSystem) (turns : List MarketDataTurn) : Option MarketDataSystem :=
  turns.foldlM (step feed) m

variable {m m' : MarketDataSystem} {feed : Feed}

theorem step_system {pick : Pick} (hroom : ¬ m.Full) :
    m.step feed (.system pick) = (m.system.keptStep feed pick).map fun system => { m with system := system } :=
  if_neg fun h => hroom h.2

theorem step_engine (hsome : m.unconsumed ≠ 0) :
    m.step feed .engine = some { m with consumed := m.consumed + 1 } := by
  rw [MarketDataSystem.step, if_neg hsome]

theorem not_full_of_drained (hnone : m.unconsumed = 0) : ¬ m.Full := by
  rintro ⟨-, hfull⟩
  rw [hnone] at hfull
  cases hfull

/-- The state of a system behind which the engine has consumed what was published. -/
structure Sound (feed : Feed) (m : MarketDataSystem) : Prop where
  invariant : m.system.Invariant feed
  served : m.system.Served
  consumed : m.consumed ≤ m.system.published.length

theorem sound_init (feed : Feed) (memory : Nat → List UInt8) : (init memory).Sound feed :=
  ⟨System.init_invariant memory, System.init_served memory, Nat.zero_le _⟩

/-- An event takes the publisher one step and the engine another. -/
def work (feed : Feed) (m : MarketDataSystem) : Nat := 2 * m.system.work feed + m.unconsumed

/-- A step of the system leaves one event more at most. -/
theorem Sound.system_work (h : m.Sound feed) {pick : Pick} {system : System}
    (hstep : m.system.keptStep feed pick = some system) (hless : system.work feed < m.system.work feed) :
    ({ m with system := system } : MarketDataSystem).work feed < m.work feed := by
  obtain ⟨-, hmost⟩ := System.keptStep_published hstep
  have hconsumed := h.consumed
  simp only [work, unconsumed]
  omega

theorem engine_work (hsome : m.unconsumed ≠ 0) :
    ({ m with consumed := m.consumed + 1 } : MarketDataSystem).work feed < m.work feed := by
  simp only [work, unconsumed] at hsome ⊢
  omega

theorem Sound.system (h : m.Sound feed) (pick : Pick) :
    ∃ system, m.system.keptStep feed pick = some system ∧
      ({ m with system := system } : MarketDataSystem).Sound feed := by
  obtain ⟨system, hstep, hinv, hserved⟩ := (System.kept_usesUp feed).total _ pick ⟨h.invariant, h.served⟩
  exact ⟨system, hstep, hinv, hserved, h.consumed.trans (System.keptStep_published hstep).1⟩

theorem Sound.step (h : m.Sound feed) (turn : MarketDataTurn) : ∃ m', m.step feed turn = some m' ∧ m'.Sound feed := by
  cases turn with
  | system pick =>
    rw [MarketDataSystem.step]
    split
    · exact ⟨m, rfl, h⟩
    · obtain ⟨system, hstep, h'⟩ := h.system pick
      exact ⟨_, by rw [hstep]; rfl, h'⟩
  | engine =>
    refine ⟨_, rfl, ?_⟩
    split
    · exact h
    · rename_i hsome
      refine ⟨h.invariant, h.served, ?_⟩
      rw [unconsumed] at hsome
      show m.consumed + 1 ≤ m.system.published.length
      omega

/-- A step that changes something uses up work, if it is not the arrival of a packet. -/
theorem Sound.change (h : m.Sound feed) {turn : MarketDataTurn} (hsilent : turn.Silent)
    (hstep : m.step feed turn = some m') : m' = m ∨ m'.work feed < m.work feed := by
  cases turn with
  | system pick =>
    rw [MarketDataSystem.step] at hstep
    split at hstep
    · exact Or.inl (Option.some.inj hstep).symm
    · obtain ⟨system, hkept, rfl⟩ := Option.map_eq_some_iff.mp hstep
      apply ((System.kept_usesUp feed).change _ _ _ ⟨h.invariant, h.served⟩ hsilent hkept).imp
      · rintro rfl
        rfl
      · exact h.system_work hkept
  | engine =>
    by_cases hnone : m.unconsumed = 0
    · rw [MarketDataSystem.step, if_pos hnone] at hstep
      exact Or.inl (Option.some.inj hstep).symm
    · rw [step_engine hnone] at hstep
      cases hstep
      exact Or.inr (engine_work hnone)

/-- A publisher that finds the buffer full is idle, and otherwise a thread is what it is in the system. -/
theorem Sound.system_works (h : m.Sound feed) (t : SystemThread) :
    FairRun.Idle (MarketDataSystem.step feed) MarketDataTurn.thread m (.system t) ∨
      ∀ turn m', turn.thread = some (.system t) → m.step feed turn = some m' → m'.work feed < m.work feed := by
  by_cases hfull : t = .publisher ∧ m.Full
  · left
    intro turn hthread
    obtain ⟨pick, rfl, hpick⟩ := MarketDataTurn.of_system hthread
    rw [MarketDataSystem.step, if_pos ⟨hfull.1 ▸ hpick, hfull.2⟩]
  · have hstep : ∀ pick, pick.thread = some t → m.step feed (.system pick) =
        (m.system.keptStep feed pick).map fun system => { m with system := system } := by
      intro pick hpick
      rw [MarketDataSystem.step, if_neg]
      rintro ⟨hpublisher, hm⟩
      rw [hpick] at hpublisher
      exact hfull ⟨Option.some.inj hpublisher, hm⟩
    apply ((System.kept_usesUp feed).works _ t ⟨h.invariant, h.served⟩).imp
    · intro hidle turn hthread
      obtain ⟨pick, rfl, hpick⟩ := MarketDataTurn.of_system hthread
      rw [hstep pick hpick, hidle pick hpick, Option.map_some]
    · intro hworks turn m' hthread hturn
      obtain ⟨pick, rfl, hpick⟩ := MarketDataTurn.of_system hthread
      rw [hstep pick hpick] at hturn
      obtain ⟨system, hkept, rfl⟩ := Option.map_eq_some_iff.mp hturn
      exact h.system_work hkept (hworks pick system hpick hkept)

/-- The engine is idle when there is nothing to consume. -/
theorem engine_works (feed : Feed) (m : MarketDataSystem) :
    FairRun.Idle (step feed) MarketDataTurn.thread m .engine ∨
      ∀ turn m', turn.thread = some .engine → m.step feed turn = some m' → m'.work feed < m.work feed := by
  by_cases hnone : m.unconsumed = 0
  · left
    intro turn hthread
    rw [MarketDataTurn.of_engine hthread, MarketDataSystem.step, if_pos hnone]
  · right
    intro turn m' hthread hstep
    rw [MarketDataTurn.of_engine hthread, step_engine hnone] at hstep
    cases hstep
    exact engine_work hnone

theorem usesUp (feed : Feed) :
    FairRun.UsesUp (step feed) MarketDataTurn.thread (Sound feed) MarketDataTurn.Silent (work feed) := by
  refine ⟨fun m turn h => h.step turn, fun m turn m' h hsilent hstep => h.change hsilent hstep, ?_⟩
  intro m thread h
  cases thread with
  | system t => exact h.system_works t
  | engine => exact engine_works feed m

/-- With the buffer drained, the threads of an idle system are idle by themselves. -/
theorem Sound.idle (h : m.Sound feed)
    (hidle : ∀ thread, FairRun.Idle (MarketDataSystem.step feed) MarketDataTurn.thread m thread) :
    m.consumed = m.system.published.length ∧
      ∀ t, FairRun.Idle (System.step feed) Pick.thread m.system t := by
  have hnone : m.unconsumed = 0 := by
    by_contra hsome
    have hstep := hidle .engine .engine rfl
    rw [step_engine hsome] at hstep
    have hconsumed := congrArg MarketDataSystem.consumed (Option.some.inj hstep)
    exact absurd hconsumed (Nat.succ_ne_self _)
  refine ⟨le_antisymm h.consumed (Nat.le_of_sub_eq_zero hnone), ?_⟩
  intro t
  apply h.invariant.idle_of_kept
  intro pick hpick
  have hstep := hidle (.system t) (.system pick) (by rw [MarketDataTurn.thread, hpick]; rfl)
  rw [step_system (not_full_of_drained hnone)] at hstep
  obtain ⟨system, hkept, hsame⟩ := Option.map_eq_some_iff.mp hstep
  rw [hkept, ← hsame]

end MarketDataSystem

end HftPipeline
