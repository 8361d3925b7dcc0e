import HftPipeline.OutboundStream
import Mathlib.Data.Stream.Init

/-!
# The buffer that the loop drains

A round of `place_new_orders` pops a request, and when it is rejected the market maker
pushes cancels behind the ones that wait. A request that reduces the exposure is
always accepted, so that a rejection uses up one of the others, and there are never more
than four requests to drain.
-/
namespace HftPipeline

/-- `evaluate_risk` lets it pass whatever the risk data say. -/
def OutboundOrderRequest.ReducesExposure (r : OutboundOrderRequest) : Prop :=
  r.request.type = .cancel ∨ (r.request.type = .update ∧ r.quantityChange = .reducing)

instance (r : OutboundOrderRequest) : Decidable r.ReducesExposure := inferInstanceAs (Decidable (_ ∨ _))

/-! ## Every push succeeds

`queue_quantity_update` and `cancel_for_risk` return quietly when a push fails. The variants
here are `none` then, as the asserted pushes already are. -/

theorem StrategyOrderBuffer.tryPush_of_lt {buffer : StrategyOrderBuffer}
    (h : buffer.length < StrategyConfig.strategyOrderBufferSize) (item : OutboundOrderRequest) :
    buffer.tryPush item = some (buffer ++ [item]) := by
  rw [tryPush, if_neg (Nat.ne_of_lt h)]

namespace PassiveMarketMaker

open StrategyConfig

def pushQuantityUpdate (m : PassiveMarketMaker) (side : Side) (quantity : Quantity)
    (buffer : StrategyOrderBuffer) : Option (PassiveMarketMaker × StrategyOrderBuffer) :=
  let order := m.order side
  if order.status ≠ .placed ∨ order.placedOrder.quantity = quantity then some (m, buffer)
  else do
    let buffer ← buffer.tryPush (order.updateRequest quantity)
    return (m.setOrder side (order.withQuantity quantity), buffer)

def pushRebalance (m : PassiveMarketMaker) (buffer : StrategyOrderBuffer) :
    Option (PassiveMarketMaker × StrategyOrderBuffer) :=
  if m.netFilledQuantity.abs < exposureRebalanceThreshold.toPosition then some (m, buffer)
  else do
    let (bids, buffer) ← m.pushQuantityUpdate .buy (m.quoteFor .buy) buffer
    bids.pushQuantityUpdate .sell (m.quoteFor .sell) buffer

def pushUpdate (m : PassiveMarketMaker) (u : OrderFillUpdate) (buffer : StrategyOrderBuffer) :
    Option (PassiveMarketMaker × StrategyOrderBuffer) :=
  match m.placedSide u.orderId with
  | none => some (m, buffer)
  | some side => (m.applyFill side u.filledQuantity).pushRebalance buffer

def pushCancelForRisk (m : PassiveMarketMaker) (rejected : OutboundOrderRequest) (buffer : StrategyOrderBuffer) :
    Option (PassiveMarketMaker × StrategyOrderBuffer) :=
  let order := m.order rejected.side
  if order.status ≠ .placed then some (m, buffer)
  else do
    let buffer ← buffer.tryPush order.cancelRequest
    return (m.setOrder rejected.side { order with status := .notPlaced }, buffer)

def pushNotifyInvalid (m : PassiveMarketMaker) (rejected : OutboundOrderRequest) (reason : OrderStatus)
    (buffer : StrategyOrderBuffer) : Option (PassiveMarketMaker × StrategyOrderBuffer) :=
  match reason with
  | .tooMuchExposure => (m.undo rejected).pushCancelForRisk rejected buffer
  | _ => m.notifyInvalid rejected reason buffer

variable {m m' : PassiveMarketMaker} {buffer buffer' : StrategyOrderBuffer}

theorem pushQuantityUpdate_eq (m : PassiveMarketMaker) (side : Side) (quantity : Quantity)
    (h : buffer.length < strategyOrderBufferSize) :
    m.pushQuantityUpdate side quantity buffer = some (m.queueQuantityUpdate side quantity buffer).2 := by
  simp only [pushQuantityUpdate, queueQuantityUpdate]
  split
  · rfl
  · rw [StrategyOrderBuffer.tryPush_of_lt h]
    rfl

theorem queueQuantityUpdate_length (m : PassiveMarketMaker) (side : Side) (quantity : Quantity)
    (buffer : StrategyOrderBuffer) :
    (m.queueQuantityUpdate side quantity buffer).2.2.length ≤ buffer.length + 1 := by
  simp only [queueQuantityUpdate]
  split
  · exact Nat.le_succ _
  · split
    · exact Nat.le_succ _
    · rename_i pushed hpush
      rw [tryPush_eq_some hpush, List.length_append]
      exact Nat.le_refl _

theorem pushRebalance_eq (m : PassiveMarketMaker) (h : buffer.length + 2 ≤ strategyOrderBufferSize) :
    m.pushRebalance buffer = some (m.rebalanceExposure buffer) ∧
      (m.rebalanceExposure buffer).2.length ≤ buffer.length + 2 := by
  by_cases hneeded : m.NeedsRebalance
  · have hnot : ¬ m.netFilledQuantity.abs < exposureRebalanceThreshold.toPosition := by
      rw [Int64.not_lt]
      exact hneeded
    have hbuy := queueQuantityUpdate_length m .buy (m.quoteFor .buy) buffer
    rw [pushRebalance, if_neg hnot, pushQuantityUpdate_eq m .buy _ (by omega),
      rebalanceExposure_eq m buffer hneeded]
    rcases hbids : (m.queueQuantityUpdate .buy (m.quoteFor .buy) buffer).2 with ⟨bids, buffer₁⟩
    rw [hbids] at hbuy
    have hsell := queueQuantityUpdate_length bids .sell (m.quoteFor .sell) buffer₁
    have hbound : buffer₁.length ≤ buffer.length + 1 := hbuy
    refine ⟨pushQuantityUpdate_eq bids .sell _ (by omega), ?_⟩
    show (bids.queueQuantityUpdate .sell (m.quoteFor .sell) buffer₁).2.2.length ≤ buffer.length + 2
    omega
  · have hlt : m.netFilledQuantity.abs < exposureRebalanceThreshold.toPosition := by
      rw [NeedsRebalance, Int64.not_le] at hneeded
      exact hneeded
    rw [pushRebalance, rebalanceExposure, if_pos hlt, if_pos hlt]
    exact ⟨rfl, by simp⟩

theorem pushUpdate_eq (m : PassiveMarketMaker) (u : OrderFillUpdate)
    (h : buffer.length + 2 ≤ strategyOrderBufferSize) :
    m.pushUpdate u buffer = some (m.update u buffer) ∧ (m.update u buffer).2.length ≤ buffer.length + 2 := by
  rw [pushUpdate, update]
  cases m.placedSide u.orderId with
  | none => exact ⟨rfl, by simp⟩
  | some side => exact pushRebalance_eq (m.applyFill side u.filledQuantity) h

theorem pushCancelForRisk_eq (m : PassiveMarketMaker) (rejected : OutboundOrderRequest)
    (h : buffer.length < strategyOrderBufferSize) :
    m.pushCancelForRisk rejected buffer = some (m.cancelForRisk rejected buffer) := by
  simp only [pushCancelForRisk, cancelForRisk]
  split
  · rfl
  · rw [StrategyOrderBuffer.tryPush_of_lt h]
    rfl

theorem placedCount_le (m : PassiveMarketMaker) : m.placedCount ≤ 2 := by
  rw [placedCount]
  split <;> split <;> omega

theorem queueCancel_some (m : PassiveMarketMaker) (side : Side) (buffer : StrategyOrderBuffer)
    (h : buffer.length < strategyOrderBufferSize) :
    ∃ m' cancels, m.queueCancel side buffer = some (m', buffer ++ cancels) ∧
      (m'.order side).status = .notPlaced ∧ m'.order side.opposite = m.order side.opposite ∧
      cancels.length = if (m.order side).status = .placed then 1 else 0 := by
  rw [queueCancel]
  by_cases hplaced : (m.order side).status = .placed
  · rw [if_neg (not_not.mpr hplaced), StrategyOrderBuffer.tryPush_of_lt h]
    refine ⟨_, [(m.order side).cancelRequest], rfl, ?_, ?_, ?_⟩
    · rw [order_setOrder_self]
    · rw [order_setOrder_opposite]
    · rw [if_pos hplaced]
      rfl
  · rw [if_pos hplaced]
    refine ⟨m, [], by rw [List.append_nil], ?_, rfl, ?_⟩
    · cases hstatus : (m.order side).status with
      | notPlaced => rfl
      | placed => exact absurd hstatus hplaced
    · rw [if_neg hplaced]
      rfl

theorem queueCancelOrders_some (m : PassiveMarketMaker) (buffer : StrategyOrderBuffer)
    (h : buffer.length + 2 ≤ strategyOrderBufferSize) :
    ∃ m' buffer', m.queueCancelOrders buffer = some (true, m', buffer') ∧
      (∀ side, (m'.order side).status = .notPlaced) ∧ buffer'.length = buffer.length + m.placedCount := by
  obtain ⟨m₁, buys, hbuy, hfree, hother, hbuys⟩ := queueCancel_some m .buy buffer (by omega)
  have hcount : buys.length ≤ 1 := by
    rw [hbuys]
    split <;> omega
  obtain ⟨m₂, sells, hsell, hfree', hother', hsells⟩ := queueCancel_some m₁ .sell (buffer ++ buys)
    (by rw [List.length_append]; omega)
  have hroom : ¬ buffer.available < m.placedCount := by
    have hle := placedCount_le m
    rw [StrategyOrderBuffer.available]
    omega
  refine ⟨m₂, buffer ++ buys ++ sells, ?_, ?_, ?_⟩
  · rw [queueCancelOrders, if_neg hroom, hbuy]
    show (do
      let (m, buffer) ← m₁.queueCancel .sell (buffer ++ buys)
      return (true, m, buffer)) = _
    rw [hsell]
    rfl
  · rintro (_ | _)
    · rw [show m₂.order .buy = m₁.order .buy from hother']
      exact hfree
    · exact hfree'
  · rw [show m₁.order .sell = m.order .sell from hother] at hsells
    rw [List.length_append, List.length_append, hbuys, hsells, Nat.add_assoc]
    rfl

/-- The assertions of `queue_new_order_pair`: both orders are free, and both pushes succeed. -/
theorem queueNewOrderPair_some (m : PassiveMarketMaker) (bbo : OrderSnapshot) (buffer : StrategyOrderBuffer)
    (hfree : ∀ side, (m.order side).status = .notPlaced) (h : buffer.length + 2 ≤ strategyOrderBufferSize) :
    ∃ queued m' buffer', m.queueNewOrderPair bbo buffer = some (queued, m', buffer') := by
  rw [queueNewOrderPair, if_pos ⟨hfree .buy, hfree .sell⟩]
  split
  · exact ⟨true, m, buffer, rfl⟩
  · rename_i bid offer _
    split
    · exact ⟨true, m, buffer, rfl⟩
    · rw [if_neg (by rw [StrategyOrderBuffer.available]; omega)]
      let pair := m.withNewPair bid offer
      show ∃ queued m' buffer', (do
        let buffer ← buffer.tryPush pair.buyOrder.newOrderRequest
        let buffer ← buffer.tryPush pair.sellOrder.newOrderRequest
        return (true, pair, buffer)) = some (queued, m', buffer')
      have hpushed : (buffer ++ [pair.buyOrder.newOrderRequest]).length < strategyOrderBufferSize := by
        rw [List.length_append, List.length_singleton]
        omega
      have hbuy := StrategyOrderBuffer.tryPush_of_lt (show buffer.length < strategyOrderBufferSize by omega)
        pair.buyOrder.newOrderRequest
      have hsell := StrategyOrderBuffer.tryPush_of_lt hpushed pair.sellOrder.newOrderRequest
      exact ⟨true, pair, _, by rw [hbuy, Option.bind_eq_bind, Option.bind_some, hsell]; rfl⟩

theorem getOrders_some (m : PassiveMarketMaker) (bbo : OrderSnapshot) (buffer : StrategyOrderBuffer) :
    ∃ m' buffer', m.getOrders bbo buffer = some (m', buffer') := by
  rw [getOrders]
  split
  · exact ⟨m, buffer, rfl⟩
  · split
    · exact ⟨m, buffer, rfl⟩
    · rename_i hroom
      rw [StrategyOrderBuffer.available] at hroom
      obtain ⟨m₁, buffer₁, hcancel, hfree, hlength⟩ := queueCancelOrders_some m buffer (by omega)
      obtain ⟨queued, m₂, buffer₂, hpair⟩ := queueNewOrderPair_some m₁ bbo buffer₁ hfree (by omega)
      simp only [hcancel, hpair, Option.bind_eq_bind, Option.bind_some, not_true_eq_false, if_false]
      exact ⟨m₂, buffer₂, rfl⟩

theorem pushNotifyInvalid_some (m : PassiveMarketMaker) (rejected : OutboundOrderRequest) (reason : OrderStatus)
    (h : buffer.length + 2 ≤ strategyOrderBufferSize) :
    ∃ after, m.pushNotifyInvalid rejected reason buffer = some after ∧
      m.notifyInvalid rejected reason buffer = some after := by
  cases reason with
  | halted | tooMuchLoss =>
    obtain ⟨m', buffer', hcancel, -, -⟩ := queueCancelOrders_some (m.undo rejected) buffer h
    refine ⟨(m', buffer'), ?_, ?_⟩
    · simp only [pushNotifyInvalid, notifyInvalid, hcancel, Option.bind_eq_bind, Option.bind_some, Option.pure_def]
    · simp only [notifyInvalid, hcancel, Option.bind_eq_bind, Option.bind_some, Option.pure_def]
  | tooMuchExposure =>
    exact ⟨_, pushCancelForRisk_eq (m.undo rejected) rejected (by omega), rfl⟩
  | good | stopped | tooManyOrders => exact ⟨_, rfl, rfl⟩

/-! ## What a rejection adds -/

theorem Keeps.placedCount_le (h : m.Keeps m') : m'.placedCount ≤ m.placedCount := by
  have hbuy := h.placed .buy
  have hsell := h.placed .sell
  simp only [order] at hbuy hsell
  rw [placedCount, placedCount]
  refine Nat.add_le_add ?_ ?_
  · split
    · rename_i hplaced
      rw [if_pos (hbuy hplaced)]
    · exact Nat.zero_le _
  · split
    · rename_i hplaced
      rw [if_pos (hsell hplaced)]
    · exact Nat.zero_le _

/-- A rejection pushes at most one cancel for each order that was placed. -/
theorem notifyInvalid_appends {rejected : OutboundOrderRequest} {reason : OrderStatus}
    (h : m.notifyInvalid rejected reason buffer = some (m', buffer')) :
    ∃ cancels, buffer' = buffer ++ cancels ∧ (∀ r ∈ cancels, r.ReducesExposure) ∧
      cancels.length + m'.placedCount ≤ m.placedCount := by
  obtain ⟨cancels, hbuffer, htype, hcount⟩ := (notifyInvalid_cancels h).appends
  exact ⟨cancels, hbuffer, fun r hr => Or.inl (htype r hr),
    hcount.trans_le (keeps_undo m rejected).placedCount_le⟩

end PassiveMarketMaker

/-- The rounds that a buffer can take: a rejection replaces a request by at most two cancels. -/
def StrategyOrderBuffer.mostRounds (buffer : StrategyOrderBuffer) : Nat :=
  (buffer.map fun r => if r.ReducesExposure then 1 else 3).sum

theorem StrategyOrderBuffer.mostRounds_append (buffer buffer' : StrategyOrderBuffer) :
    mostRounds (buffer ++ buffer') = mostRounds buffer + mostRounds buffer' := by
  rw [mostRounds, List.map_append, List.sum_append]
  rfl

theorem StrategyOrderBuffer.mostRounds_reducing {buffer : StrategyOrderBuffer}
    (h : ∀ r ∈ buffer, r.ReducesExposure) : mostRounds buffer = buffer.length := by
  induction buffer with
  | nil => rfl
  | cons r rest ih =>
    have hrest := ih fun r hr => h r (List.mem_cons_of_mem _ hr)
    rw [mostRounds, List.map_cons, List.sum_cons, if_pos (h r List.mem_cons_self), List.length_cons, ← hrest]
    exact Nat.add_comm ..

theorem StrategyOrderBuffer.mostRounds_le (buffer : StrategyOrderBuffer) :
    mostRounds buffer ≤ buffer.length * 3 := by
  induction buffer with
  | nil => exact Nat.le_refl _
  | cons r rest ih =>
    rw [mostRounds, List.map_cons, List.sum_cons, List.length_cons, Nat.succ_mul, Nat.add_comm]
    refine Nat.add_le_add ih ?_
    split <;> omega

theorem StrategyOrderBuffer.mostRounds_pop (r : OutboundOrderRequest) (rest : StrategyOrderBuffer) :
    mostRounds rest < mostRounds (r :: rest) := by
  rw [mostRounds, mostRounds, List.map_cons, List.sum_cons]
  split <;> omega

/-- The requests from the first that can be rejected on, and the orders that its rejection
could cancel. -/
structure Occupied (m : PassiveMarketMaker) (buffer : StrategyOrderBuffer) : Prop where
  length : buffer.length ≤ 4
  pending : (buffer.dropWhile fun r => r.ReducesExposure).length + m.placedCount ≤ 4

namespace Occupied

variable {m m' : PassiveMarketMaker} {r : OutboundOrderRequest} {rest buffer' : StrategyOrderBuffer}

theorem mostRounds_le {buffer : StrategyOrderBuffer} (h : Occupied m buffer) : buffer.mostRounds ≤ 12 := by
  have hrounds := buffer.mostRounds_le
  have hlength := h.length
  omega

theorem of_length {buffer : StrategyOrderBuffer} (h : buffer.length ≤ 2) : Occupied m buffer where
  length := by omega
  pending := by
    have hdrop := (List.dropWhile_suffix (l := buffer) fun r => decide r.ReducesExposure).length_le
    have hplaced := m.placedCount_le
    omega

/-- A request that is forwarded is popped. -/
theorem pop (h : Occupied m (r :: rest)) : Occupied m rest where
  length := (Nat.le_succ _).trans h.length
  pending := by
    have hpending := h.pending
    rw [List.dropWhile_cons] at hpending
    split at hpending
    · exact hpending
    · have hdrop := (List.dropWhile_suffix (l := rest) fun r => decide r.ReducesExposure).length_le
      rw [List.length_cons] at hpending
      omega

/-- A request that is rejected was the first of those that can be. -/
theorem reject (h : Occupied m (r :: rest)) (hreject : ¬ r.ReducesExposure) {reason : OrderStatus}
    (hnotify : m.notifyInvalid r reason rest = some (m', buffer')) :
    Occupied m' buffer' ∧ buffer'.mostRounds < StrategyOrderBuffer.mostRounds (r :: rest) := by
  obtain ⟨cancels, rfl, hreduces, hcount⟩ := PassiveMarketMaker.notifyInvalid_appends hnotify
  have hpending := h.pending
  rw [List.dropWhile_cons_of_neg (by simpa using hreject), List.length_cons] at hpending
  have hlength : (rest ++ cancels).length = rest.length + cancels.length := List.length_append
  refine ⟨⟨by omega, ?_⟩, ?_⟩
  · have hdrop := (List.dropWhile_suffix (l := rest ++ cancels) fun r => decide r.ReducesExposure).length_le
    omega
  · have hplaced := m.placedCount_le
    rw [StrategyOrderBuffer.mostRounds_append, StrategyOrderBuffer.mostRounds_reducing hreduces,
      StrategyOrderBuffer.mostRounds, StrategyOrderBuffer.mostRounds, List.map_cons, List.sum_cons,
      if_neg hreject]
    omega

end Occupied

namespace Trader

/-- What an event stages, `none` also when a push fails. -/
def pushStage (t : Trader) : TraderEvent → Option Trader
  | .snapshot bbo checks => t.stage (.snapshot bbo checks)
  | .report update _ => do
    let (strategy, orderBuffer) ← t.strategy.pushUpdate update t.orderBuffer
    return { t with strategy := strategy, orderBuffer := orderBuffer }

/-- Between two events, in a call of `place_new_orders`, or done because the trade buffer
was full. -/
inductive Phase where
  | waiting | placing | failed
  deriving DecidableEq, Repr

/-- What a run reaches while no stop is requested. -/
inductive Reached : Phase → Trader → Prop
  | start : Reached .waiting .init
  | stage {t staged : Trader} {event : TraderEvent} (ht : Reached .waiting t)
      (hstage : t.stage event = some staged) : Reached .placing staged
  | round {t t' : Trader} {outbound : OutboundOrderRequest} {rest : StrategyOrderBuffer} {check : Check}
      (ht : Reached .placing t) (hbuffer : t.orderBuffer = outbound :: rest) (hrisk : check.risk ≠ none)
      (hplace : t.placeOne outbound rest check = some (none, t')) : Reached .placing t'
  | drained {t : Trader} (ht : Reached .placing t) (hbuffer : t.orderBuffer = []) : Reached .waiting t
  | full {t t' : Trader} {outbound : OutboundOrderRequest} {rest : StrategyOrderBuffer} {check : Check}
      {error : StrategyError} (ht : Reached .placing t) (hbuffer : t.orderBuffer = outbound :: rest)
      (hrisk : check.risk ≠ none) (hplace : t.placeOne outbound rest check = some (some (.error error), t')) :
      Reached .failed t'

theorem occupied_stage {t staged : Trader} {event : TraderEvent} (hbuffer : t.orderBuffer = [])
    (hstage : t.stage event = some staged) : Occupied staged.strategy staged.orderBuffer := by
  cases event with
  | snapshot bbo checks =>
    obtain ⟨⟨strategy, orderBuffer⟩, hget, hreturn⟩ := Option.bind_eq_some_iff.mp hstage
    cases hreturn
    rw [hbuffer] at hget
    show Occupied strategy orderBuffer
    obtain ⟨m₁, buffer₁, hcancels, hcase⟩ := PassiveMarketMaker.getOrders_cases hget
    obtain ⟨cancels, hcancelled, htype, hcount⟩ := hcancels.appends
    have hreduces : ∀ r ∈ cancels, r.ReducesExposure := fun r hr => Or.inl (htype r hr)
    have hplaced := t.strategy.placedCount_le
    rw [List.nil_append] at hcancelled
    rcases hcase with ⟨rfl, rfl⟩ | ⟨bid, offer, -, -, hpair, rfl⟩
    · exact .of_length (by rw [hcancelled]; omega)
    · have hplaced' := strategy.placedCount_le
      rw [hcancelled]
      refine ⟨by rw [List.length_append]; simp only [List.length_cons, List.length_nil]; omega, ?_⟩
      -- the cancels ahead of the pair are not counted
      rw [List.dropWhile_append_of_pos (by simpa using hreduces)]
      have hdrop := (List.dropWhile_suffix (l := [strategy.buyOrder.newOrderRequest,
        strategy.sellOrder.newOrderRequest]) fun r => decide r.ReducesExposure).length_le
      simp only [List.length_cons, List.length_nil] at hdrop
      omega
  | report u checks =>
    simp only [Trader.stage] at hstage
    cases hstage
    refine .of_length ?_
    rw [hbuffer]
    exact (PassiveMarketMaker.pushUpdate_eq t.strategy u (by decide)).2

/-- A round is defined when two more pushes fit. -/
theorem placeOne_some (t : Trader) (outbound : OutboundOrderRequest) (rest : StrategyOrderBuffer)
    (check : Check) (h : rest.length + 2 ≤ StrategyConfig.strategyOrderBufferSize) :
    ∃ result t', t.placeOne outbound rest check = some (result, t') := by
  rw [placeOne]
  split
  · exact ⟨_, _, rfl⟩
  · exact ⟨_, _, rfl⟩
  · simp only
    split <;> exact ⟨_, _, rfl⟩
  · rename_i status risk _ _ _ _
    obtain ⟨after, -, hnotify⟩ := PassiveMarketMaker.pushNotifyInvalid_some t.strategy outbound
      (evaluateRisk outbound check.risk) h
    rw [hnotify]
    exact ⟨_, _, rfl⟩

/-- A round leaves fewer rounds to go, or finds the trade buffer full. -/
theorem placeOne_drains {t : Trader} {outbound : OutboundOrderRequest} {rest : StrategyOrderBuffer}
    (check : Check) (h : Occupied t.strategy t.orderBuffer) (hbuffer : t.orderBuffer = outbound :: rest)
    (hrisk : check.risk ≠ none) :
    ∃ result t', t.placeOne outbound rest check = some (result, t') ∧ Occupied t'.strategy t'.orderBuffer ∧
      ((result = none ∧ t'.orderBuffer.mostRounds < t.orderBuffer.mostRounds) ∨
        result = some (.error .tradeBufferFull)) := by
  rw [hbuffer] at h
  have hlength := h.length
  rw [List.length_cons] at hlength
  obtain ⟨result, t', hplace⟩ := placeOne_some t outbound rest check
    (by rw [StrategyConfig.strategyOrderBufferSize]; omega)
  refine ⟨result, t', hplace, ?_⟩
  rcases placeOne_cases hplace with ⟨hstopped, -, -⟩ | ⟨-, -, rfl, rfl⟩ | ⟨risk, -, -, -, rfl, rfl⟩ |
    ⟨risk, strategy, orderBuffer, -, hbad, rfl, hnotify, rfl⟩
  · obtain ⟨risk, hsome⟩ := Option.ne_none_iff_exists'.mp hrisk
    rw [hsome] at hstopped
    exact absurd hstopped (evaluateRisk_ne_stopped outbound risk)
  · exact ⟨by rw [hbuffer]; exact h, Or.inr rfl⟩
  · refine ⟨h.pop, Or.inl ⟨rfl, ?_⟩⟩
    rw [hbuffer]
    exact StrategyOrderBuffer.mostRounds_pop outbound rest
  · have hreject : ¬ outbound.ReducesExposure := fun hreduces => hbad (evaluateRisk_reducing hreduces risk)
    rw [hbuffer]
    exact (h.reject hreject hnotify).imp_right fun hless => Or.inl ⟨rfl, hless⟩

/-- The buffer is empty between two events and holds at most four requests in a call. -/
theorem Reached.occupied {phase : Phase} {t : Trader} (h : Reached phase t) :
    Occupied t.strategy t.orderBuffer ∧ (phase = .waiting → t.orderBuffer = []) := by
  induction h with
  | start => exact ⟨.of_length (by decide), fun _ => rfl⟩
  | stage _ hstage ih => exact ⟨occupied_stage (ih.2 rfl) hstage, nofun⟩
  | @round t t' outbound rest check _ hbuffer hrisk hplace ih =>
    obtain ⟨result, t₁, hplace₁, hoccupied, -⟩ := placeOne_drains check ih.1 hbuffer hrisk
    rw [hplace] at hplace₁
    cases hplace₁
    exact ⟨hoccupied, nofun⟩
  | drained _ hbuffer ih => exact ⟨ih.1, fun _ => hbuffer⟩
  | @full t t' outbound rest check error _ hbuffer hrisk hplace ih =>
    obtain ⟨result, t₁, hplace₁, hoccupied, -⟩ := placeOne_drains check ih.1 hbuffer hrisk
    rw [hplace] at hplace₁
    cases hplace₁
    exact ⟨hoccupied, nofun⟩

/-- A call of `place_new_orders` has drained the buffer after at most so many rounds. -/
theorem Reached.drains {t : Trader} (h : Reached .placing t) {checks : Stream' Check}
    (hrisk : ∀ n, (checks.get n).risk ≠ none) :
    ∃ n ≤ t.orderBuffer.mostRounds, ∃ result t', placeNewOrders (checks.take n) t = some (result, t') ∧
      ((result = .ok () ∧ Reached .waiting t') ∨ (result = .error .tradeBufferFull ∧ Reached .failed t')) := by
  induction hrounds : t.orderBuffer.mostRounds using Nat.strong_induction_on generalizing t checks with
  | _ bound ih =>
    cases hbuffer : t.orderBuffer with
    | nil =>
      refine ⟨0, Nat.zero_le _, .ok (), t, ?_, Or.inl ⟨rfl, h.drained hbuffer⟩⟩
      rw [Stream'.take_zero, placeNewOrders, if_pos hbuffer]
    | cons outbound rest =>
      obtain ⟨result, t₁, hplace, -, ⟨rfl, hless⟩ | rfl⟩ :=
        placeOne_drains (checks.get 0) h.occupied.1 hbuffer (hrisk 0)
      · rw [hrounds] at hless
        obtain ⟨n, hn, result, t', hcall, hresult⟩ := ih _ hless (h.round hbuffer (hrisk 0) hplace)
          (show ∀ n, (checks.tail.get n).risk ≠ none from fun n => hrisk (n + 1)) rfl
        refine ⟨n + 1, by omega, result, t', ?_, hresult⟩
        rw [Stream'.take_succ, placeNewOrders]
        simp only [hbuffer]
        rw [show checks.head = checks.get 0 from rfl, hplace]
        exact hcall
      · have hpop := StrategyOrderBuffer.mostRounds_pop outbound rest
        rw [hbuffer] at hrounds
        refine ⟨1, by omega, .error .tradeBufferFull, t₁, ?_, Or.inr ⟨rfl, h.full hbuffer (hrisk 0) hplace⟩⟩
        rw [Stream'.take_succ, placeNewOrders]
        simp only [hbuffer]
        rw [show checks.head = checks.get 0 from rfl, hplace]

theorem pushStage_eq {t : Trader} (hbuffer : t.orderBuffer = []) (event : TraderEvent) :
    ∃ staged, t.stage event = some staged ∧ t.pushStage event = some staged := by
  cases event with
  | snapshot bbo checks =>
    obtain ⟨strategy, orderBuffer, hget⟩ := t.strategy.getOrders_some bbo t.orderBuffer
    have hstage : t.stage (.snapshot bbo checks) =
        some { t with strategy := strategy, orderBuffer := orderBuffer } := by
      rw [stage, hget]
      rfl
    exact ⟨_, hstage, hstage⟩
  | report u checks =>
    have hpush := (PassiveMarketMaker.pushUpdate_eq t.strategy u
      (show t.orderBuffer.length + 2 ≤ StrategyConfig.strategyOrderBufferSize by rw [hbuffer]; decide)).1
    refine ⟨_, rfl, ?_⟩
    rw [pushStage, hpush]
    rfl

/-- In a run without a stop, whatever the risk data are: the buffer never holds more than four
requests. Between two events it is empty, and what the next one stages is staged with every push
and assertion successful. In a call of `place_new_orders` so is what the rejection of the
request at the front adds, and after at most twelve rounds the call has returned, with an empty
buffer or because the trade buffer is full. -/
theorem reached_drains (phase : Phase) (t : Trader) (h : Reached phase t) :
    t.orderBuffer.length ≤ 4 ∧
    (phase = .waiting → t.orderBuffer = [] ∧ ∀ event, ∃ staged,
      t.stage event = some staged ∧ t.pushStage event = some staged ∧ Reached .placing staged) ∧
    (phase = .placing →
      (∀ outbound rest reason, t.orderBuffer = outbound :: rest → ∃ after,
        t.strategy.notifyInvalid outbound reason rest = some after ∧
          t.strategy.pushNotifyInvalid outbound reason rest = some after) ∧
      ∀ checks : Stream' Check, (∀ n, (checks.get n).risk ≠ none) → ∃ n ≤ 12, ∃ result t',
        placeNewOrders (checks.take n) t = some (result, t') ∧
          ((result = .ok () ∧ t'.orderBuffer = [] ∧ Reached .waiting t') ∨
            (result = .error .tradeBufferFull ∧ Reached .failed t'))) := by
  obtain ⟨hoccupied, hempty⟩ := h.occupied
  refine ⟨hoccupied.length, ?_, ?_⟩
  · rintro rfl
    refine ⟨hempty rfl, fun event => ?_⟩
    obtain ⟨staged, hstage, hpush⟩ := pushStage_eq (hempty rfl) event
    exact ⟨staged, hstage, hpush, h.stage hstage⟩
  · rintro rfl
    refine ⟨?_, ?_⟩
    · intro outbound rest reason hbuffer
      have hlength := hoccupied.length
      rw [hbuffer, List.length_cons] at hlength
      obtain ⟨after, hpush, hnotify⟩ := t.strategy.pushNotifyInvalid_some outbound reason
        (show rest.length + 2 ≤ StrategyConfig.strategyOrderBufferSize by
          rw [StrategyConfig.strategyOrderBufferSize]; omega)
      exact ⟨after, hnotify, hpush⟩
    · intro checks hrisk
      obtain ⟨n, hn, result, t', hcall, hresult⟩ := h.drains hrisk
      refine ⟨n, hn.trans hoccupied.mostRounds_le, result, t', hcall, ?_⟩
      exact hresult.imp_left fun ⟨hok, ht'⟩ => ⟨hok, ht'.occupied.2 rfl, ht'⟩

end Trader

/-- Every risk check finds the halt: the buy and the sell are rejected. -/
theorem reached_drains_stagedPair :
    stagedPair.orderBuffer.length ≤ 4 ∧ ∃ n ≤ 12, ∃ result t',
      Trader.placeNewOrders ((Stream'.const haltedCheck).take n) stagedPair = some (result, t') ∧
        ((result = .ok () ∧ t'.orderBuffer = [] ∧ Trader.Reached .waiting t') ∨
          (result = .error .tradeBufferFull ∧ Trader.Reached .failed t')) := by
  have hstage : Trader.init.stage (pairEvent []) = some stagedPair := by decide
  have hdrains := Trader.reached_drains .placing stagedPair (.stage .start hstage)
  exact ⟨hdrains.1, (hdrains.2.2 rfl).2 (Stream'.const haltedCheck) fun _ => nofun⟩

end HftPipeline
