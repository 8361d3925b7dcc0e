import HftPipeline.Trader

/-!
# What the strategy stages

Every call of the strategy is a sequence of three moves: it cancels a placed order,
resizes one, or places a new pair. Ids are handed out in pairs, so that buys have
odd ids and sells even ones, also when the counter wraps.
-/
namespace HftPipeline

/-- The last bit of the ids of a side. -/
def Side.parity : Side → Nat
  | .buy => 1
  | .sell => 0

theorem Side.parity_inj {a b : Side} (h : a.parity = b.parity) : a = b := by
  cases a <;> cases b <;> first | rfl | cases h

namespace PassiveMarketMaker

variable {m m' : PassiveMarketMaker} {buffer buffer' : StrategyOrderBuffer}

@[simp] theorem order_setOrder_self (m : PassiveMarketMaker) (side : Side) (o : PlacedOrder) :
    (m.setOrder side o).order side = o := by
  cases side <;> rfl

@[simp] theorem order_setOrder_opposite (m : PassiveMarketMaker) (side : Side) (o : PlacedOrder) :
    (m.setOrder side o).order side.opposite = m.order side.opposite := by
  cases side <;> rfl

@[simp] theorem setOrder_netFilledQuantity (m : PassiveMarketMaker) (side : Side) (o : PlacedOrder) :
    (m.setOrder side o).netFilledQuantity = m.netFilledQuantity := by
  cases side <;> rfl

@[simp] theorem setOrder_nextClientId (m : PassiveMarketMaker) (side : Side) (o : PlacedOrder) :
    (m.setOrder side o).nextClientId = m.nextClientId := by
  cases side <;> rfl

/-- The quantity that `rebalance_exposure` wants for a side. -/
def quoteFor (m : PassiveMarketMaker) (side : Side) : Quantity :=
  let imbalance : Quantity :=
    (min m.netFilledQuantity.abs StrategyConfig.maxAdditionalExitQuantity.toPosition).toUInt64.toUInt32
  match side with
  | .buy => if 0 < m.netFilledQuantity then entryQuantity imbalance else exitQuantity imbalance
  | .sell => if 0 < m.netFilledQuantity then exitQuantity imbalance else entryQuantity imbalance

def NeedsRebalance (m : PassiveMarketMaker) : Prop :=
  StrategyConfig.exposureRebalanceThreshold.toPosition ≤ m.netFilledQuantity.abs

/-- A new pair at two prices, with the next two ids. -/
def withNewPair (m : PassiveMarketMaker) (bid offer : Price) : PassiveMarketMaker where
  buyOrder := ⟨.placed, ⟨m.nextClientId, bid, StrategyConfig.marketMakerOrderQuantity, .buy⟩⟩
  sellOrder := ⟨.placed, ⟨m.nextClientId + 1, offer, StrategyConfig.marketMakerOrderQuantity, .sell⟩⟩
  netFilledQuantity := m.netFilledQuantity
  nextClientId := m.nextClientId + 1 + 1

/-- A placed order is cancelled. -/
inductive Cancel : PassiveMarketMaker × StrategyOrderBuffer → PassiveMarketMaker × StrategyOrderBuffer → Prop
  | intro (m : PassiveMarketMaker) (buffer : StrategyOrderBuffer) (side : Side)
      (placed : (m.order side).status = .placed) :
      Cancel (m, buffer)
        (m.setOrder side { m.order side with status := .notPlaced }, buffer ++ [(m.order side).cancelRequest])

/-- A placed order is resized to the quote at the position. -/
inductive Resize : PassiveMarketMaker × StrategyOrderBuffer → PassiveMarketMaker × StrategyOrderBuffer → Prop
  | intro (m : PassiveMarketMaker) (buffer : StrategyOrderBuffer) (side : Side)
      (placed : (m.order side).status = .placed) (needed : m.NeedsRebalance)
      (change : (m.order side).placedOrder.quantity ≠ m.quoteFor side) :
      Resize (m, buffer)
        (m.setOrder side ((m.order side).withQuantity (m.quoteFor side)),
          buffer ++ [(m.order side).updateRequest (m.quoteFor side)])

/-- One move of the strategy on its state and its buffer. -/
inductive Move : PassiveMarketMaker × StrategyOrderBuffer → PassiveMarketMaker × StrategyOrderBuffer → Prop
  | cancel {start last : PassiveMarketMaker × StrategyOrderBuffer} (h : Cancel start last) : Move start last
  | resize (m : PassiveMarketMaker) (buffer : StrategyOrderBuffer) (side : Side)
      (placed : (m.order side).status = .placed) (needed : m.NeedsRebalance)
      (change : (m.order side).placedOrder.quantity ≠ m.quoteFor side) :
      Move (m, buffer)
        (m.setOrder side ((m.order side).withQuantity (m.quoteFor side)),
          buffer ++ [(m.order side).updateRequest (m.quoteFor side)])
  | pair (m : PassiveMarketMaker) (buffer : StrategyOrderBuffer) (bid offer : Price)
      (free : ∀ side, (m.order side).status = .notPlaced) :
      Move (m, buffer)
        (m.withNewPair bid offer,
          buffer ++ [(m.withNewPair bid offer).buyOrder.newOrderRequest,
            (m.withNewPair bid offer).sellOrder.newOrderRequest])

abbrev Cancels := Relation.ReflTransGen Cancel

abbrev Resizes := Relation.ReflTransGen Resize

abbrev Moves := Relation.ReflTransGen Move

theorem Cancels.moves (h : Cancels (m, buffer) (m', buffer')) : Moves (m, buffer) (m', buffer') :=
  Relation.ReflTransGen.mono (fun _ _ => Move.cancel) _ _ h

theorem Resizes.moves (h : Resizes (m, buffer) (m', buffer')) : Moves (m, buffer) (m', buffer') := by
  refine Relation.ReflTransGen.mono ?_ _ _ h
  rintro _ _ ⟨m, buffer, side, placed, needed, change⟩
  exact .resize m buffer side placed needed change

/-- What every step keeps, every sequence of steps keeps. -/
theorem preserves_of_steps {R : PassiveMarketMaker × StrategyOrderBuffer →
      PassiveMarketMaker × StrategyOrderBuffer → Prop}
    {P : PassiveMarketMaker → StrategyOrderBuffer → Prop}
    (h : Relation.ReflTransGen R (m, buffer) (m', buffer'))
    (hstep : ∀ m₁ buffer₁ m₂ buffer₂, R (m₁, buffer₁) (m₂, buffer₂) → P m₁ buffer₁ → P m₂ buffer₂)
    (hstart : P m buffer) : P m' buffer' := by
  have hall : ∀ last, Relation.ReflTransGen R (m, buffer) last → P last.1 last.2 := by
    intro last hlast
    induction hlast with
    | refl => exact hstart
    | tail _ hlast ih => exact hstep _ _ _ _ hlast ih
  exact hall (m', buffer') h

theorem placedCount_cancel (m : PassiveMarketMaker) {side : Side} (h : (m.order side).status = .placed) :
    (m.setOrder side { m.order side with status := .notPlaced }).placedCount + 1 = m.placedCount := by
  cases side with
  | buy =>
    have hbuy : m.buyOrder.status = .placed := h
    show 0 + (if m.sellOrder.status = .placed then 1 else 0) + 1 = m.placedCount
    rw [placedCount, if_pos hbuy]
    omega
  | sell =>
    have hsell : m.sellOrder.status = .placed := h
    show (if m.buyOrder.status = .placed then 1 else 0) + 0 + 1 = m.placedCount
    rw [placedCount, if_pos hsell]

/-- Each cancel that is queued takes one of the placed orders away. -/
theorem Cancels.appends (h : Cancels (m, buffer) (m', buffer')) :
    ∃ cancels, buffer' = buffer ++ cancels ∧ (∀ r ∈ cancels, r.request.type = .cancel) ∧
      cancels.length + m'.placedCount = m.placedCount := by
  refine preserves_of_steps (P := fun m' buffer' => ∃ cancels : StrategyOrderBuffer,
    buffer' = buffer ++ cancels ∧ (∀ r ∈ cancels, r.request.type = .cancel) ∧
      cancels.length + m'.placedCount = m.placedCount) h ?_ ⟨[], by simp⟩
  rintro m₁ _ _ _ ⟨_, _, side, hplaced⟩ ⟨cancels, rfl, htype, hcount⟩
  have hone := placedCount_cancel m₁ hplaced
  refine ⟨cancels ++ [(m₁.order side).cancelRequest], List.append_assoc .., ?_, ?_⟩
  · intro r hr
    rcases List.mem_append.mp hr with hold | hnew
    · exact htype r hold
    · rw [List.mem_singleton.mp hnew]
      rfl
  · rw [List.length_append, List.length_singleton]
    omega

theorem cancels_type (h : Cancels (m, buffer) (m', buffer')) (hbuffer : ∀ r ∈ buffer, r.request.type = .cancel) :
    ∀ r ∈ buffer', r.request.type = .cancel := by
  obtain ⟨cancels, rfl, htype, -⟩ := Cancels.appends h
  exact List.forall_mem_append.mpr ⟨hbuffer, htype⟩

theorem tryPush_eq_some {item : OutboundOrderRequest} (h : buffer.tryPush item = some buffer') :
    buffer' = buffer ++ [item] := by
  rw [StrategyOrderBuffer.tryPush] at h
  split at h
  · cases h
  · exact (Option.some.inj h).symm

theorem queueCancel_cancels {side : Side} (h : m.queueCancel side buffer = some (m', buffer')) :
    Cancels (m, buffer) (m', buffer') := by
  rw [queueCancel] at h
  split at h
  · cases h
    exact .refl
  · rename_i hplaced
    obtain ⟨pushed, hpush, hreturn⟩ := Option.bind_eq_some_iff.mp h
    cases hreturn
    rw [tryPush_eq_some hpush]
    exact .single (.intro m buffer side (not_not.mp hplaced))

theorem queueCancelOrders_cancels {queued : Bool}
    (h : m.queueCancelOrders buffer = some (queued, m', buffer')) : Cancels (m, buffer) (m', buffer') := by
  rw [queueCancelOrders] at h
  split at h
  · cases h
    exact .refl
  · obtain ⟨⟨m₁, buffer₁⟩, hbuy, hrest⟩ := Option.bind_eq_some_iff.mp h
    obtain ⟨⟨m₂, buffer₂⟩, hsell, hreturn⟩ := Option.bind_eq_some_iff.mp hrest
    cases hreturn
    exact (queueCancel_cancels hbuy).trans (queueCancel_cancels hsell)

theorem queueNewOrderPair_cases {bbo : OrderSnapshot} {queued : Bool}
    (h : m.queueNewOrderPair bbo buffer = some (queued, m', buffer')) :
    (m' = m ∧ buffer' = buffer) ∨ ∃ bid offer,
      (priceNewOrderPair bbo = some (bid, offer) ∧ StrategyConfig.minBidPrice ≤ bid) ∧
      (∀ side, (m.order side).status = .notPlaced) ∧ m' = m.withNewPair bid offer ∧
      buffer' = buffer ++ [m'.buyOrder.newOrderRequest, m'.sellOrder.newOrderRequest] := by
  rw [queueNewOrderPair] at h
  split at h
  · rename_i hfree
    split at h
    · cases h
      exact Or.inl ⟨rfl, rfl⟩
    · rename_i bid offer hprices
      split at h
      · cases h
        exact Or.inl ⟨rfl, rfl⟩
      · rename_i hleast
        split at h
        · cases h
          exact Or.inl ⟨rfl, rfl⟩
        · obtain ⟨buffer₁, hbuy, hrest⟩ := Option.bind_eq_some_iff.mp h
          obtain ⟨buffer₂, hsell, hreturn⟩ := Option.bind_eq_some_iff.mp hrest
          cases hreturn
          have hpushed := tryPush_eq_some hsell
          rw [tryPush_eq_some hbuy, List.append_assoc] at hpushed
          refine Or.inr ⟨bid, offer, ⟨hprices, Int32.not_lt.mp hleast⟩, ?_, rfl, hpushed⟩
          intro side
          cases side
          · exact hfree.1
          · exact hfree.2
  · cases h

/-- A snapshot cancels what is placed and then may place a new pair. -/
theorem getOrders_cases {bbo : OrderSnapshot} (h : m.getOrders bbo buffer = some (m', buffer')) :
    ∃ m₁ buffer₁, Cancels (m, buffer) (m₁, buffer₁) ∧
      ((m' = m₁ ∧ buffer' = buffer₁) ∨ ∃ bid offer,
        (priceNewOrderPair bbo = some (bid, offer) ∧ StrategyConfig.minBidPrice ≤ bid) ∧
        (∀ side, (m₁.order side).status = .notPlaced) ∧ m' = m₁.withNewPair bid offer ∧
        buffer' = buffer₁ ++ [m'.buyOrder.newOrderRequest, m'.sellOrder.newOrderRequest]) := by
  rw [getOrders] at h
  split at h
  · cases h
    exact ⟨_, _, .refl, Or.inl ⟨rfl, rfl⟩⟩
  · split at h
    · cases h
      exact ⟨_, _, .refl, Or.inl ⟨rfl, rfl⟩⟩
    · obtain ⟨⟨queued, m₁, buffer₁⟩, hcancel, hrest⟩ := Option.bind_eq_some_iff.mp h
      have hcancels := queueCancelOrders_cancels hcancel
      simp only at hrest
      split at hrest
      · cases hrest
        exact ⟨_, _, hcancels, Or.inl ⟨rfl, rfl⟩⟩
      · obtain ⟨⟨queued', m₂, buffer₂⟩, hpair, hreturn⟩ := Option.bind_eq_some_iff.mp hrest
        cases hreturn
        exact ⟨_, _, hcancels, queueNewOrderPair_cases hpair⟩

theorem getOrders_moves {bbo : OrderSnapshot} (h : m.getOrders bbo buffer = some (m', buffer')) :
    Moves (m, buffer) (m', buffer') := by
  obtain ⟨m₁, buffer₁, hcancels, ⟨rfl, rfl⟩ | ⟨bid, offer, -, hfree, rfl, rfl⟩⟩ := getOrders_cases h
  · exact hcancels.moves
  · exact hcancels.moves.tail (.pair m₁ buffer₁ bid offer hfree)

theorem queueQuantityUpdate_resizes (m : PassiveMarketMaker) (side : Side) (buffer : StrategyOrderBuffer)
    (hneeded : m.NeedsRebalance) :
    Resizes (m, buffer) (m.queueQuantityUpdate side (m.quoteFor side) buffer).2 := by
  rw [queueQuantityUpdate]
  split
  · exact .refl
  · rename_i hcase
    push Not at hcase
    split
    · exact .refl
    · rename_i pushed hpush
      rw [tryPush_eq_some hpush]
      exact .single (.intro m buffer side hcase.1 hneeded hcase.2)

theorem queueQuantityUpdate_netFilledQuantity (m : PassiveMarketMaker) (side : Side) (quantity : Quantity)
    (buffer : StrategyOrderBuffer) :
    (m.queueQuantityUpdate side quantity buffer).2.1.netFilledQuantity = m.netFilledQuantity := by
  rw [queueQuantityUpdate]
  split
  · rfl
  · split
    · rfl
    · simp

theorem rebalanceExposure_eq (m : PassiveMarketMaker) (buffer : StrategyOrderBuffer)
    (hneeded : m.NeedsRebalance) :
    m.rebalanceExposure buffer =
      let bids := (m.queueQuantityUpdate .buy (m.quoteFor .buy) buffer).2
      (bids.1.queueQuantityUpdate .sell (m.quoteFor .sell) bids.2).2 := by
  have hnot : ¬ m.netFilledQuantity.abs < StrategyConfig.exposureRebalanceThreshold.toPosition := by
    rw [Int64.not_lt]
    exact hneeded
  rw [rebalanceExposure, if_neg hnot]
  by_cases hpos : 0 < m.netFilledQuantity
  · simp only [hpos, if_true, quoteFor]
  · simp only [hpos, if_false, quoteFor]

theorem rebalanceExposure_resizes (m : PassiveMarketMaker) (buffer : StrategyOrderBuffer) :
    Resizes (m, buffer) (m.rebalanceExposure buffer) := by
  by_cases hneeded : m.NeedsRebalance
  · rw [rebalanceExposure_eq m buffer hneeded]
    have hbuy := queueQuantityUpdate_resizes m .buy buffer hneeded
    have hnet := queueQuantityUpdate_netFilledQuantity m .buy (m.quoteFor .buy) buffer
    rcases hbids : (m.queueQuantityUpdate .buy (m.quoteFor .buy) buffer).2 with ⟨m₁, buffer₁⟩
    rw [hbids] at hbuy hnet
    have hquote : m₁.quoteFor .sell = m.quoteFor .sell := by
      simp only [quoteFor, show m₁.netFilledQuantity = m.netFilledQuantity from hnet]
    have hsell := queueQuantityUpdate_resizes m₁ .sell buffer₁ (by rw [NeedsRebalance, hnet]; exact hneeded)
    rw [hquote] at hsell
    exact hbuy.trans hsell
  · have hlt : m.netFilledQuantity.abs < StrategyConfig.exposureRebalanceThreshold.toPosition := by
      rw [NeedsRebalance, Int64.not_le] at hneeded
      exact hneeded
    rw [rebalanceExposure, if_pos hlt]

theorem rebalanceExposure_moves (m : PassiveMarketMaker) (buffer : StrategyOrderBuffer) :
    Moves (m, buffer) (m.rebalanceExposure buffer) := (rebalanceExposure_resizes m buffer).moves

theorem cancelForRisk_cancels (m : PassiveMarketMaker) (rejected : OutboundOrderRequest)
    (buffer : StrategyOrderBuffer) : Cancels (m, buffer) (m.cancelForRisk rejected buffer) := by
  rw [cancelForRisk]
  split
  · exact .refl
  · rename_i hplaced
    split
    · exact .refl
    · rename_i pushed hpush
      rw [tryPush_eq_some hpush]
      exact .single (.intro m buffer rejected.side (not_not.mp hplaced))

/-- A rejection is undone, and then orders may be cancelled. -/
theorem notifyInvalid_cancels {rejected : OutboundOrderRequest} {reason : OrderStatus}
    (h : m.notifyInvalid rejected reason buffer = some (m', buffer')) :
    Cancels (m.undo rejected, buffer) (m', buffer') := by
  cases reason with
  | halted | tooMuchLoss =>
    simp only [notifyInvalid] at h
    obtain ⟨⟨queued, m₁, buffer₁⟩, hcancel, hreturn⟩ := Option.bind_eq_some_iff.mp h
    cases hreturn
    exact queueCancelOrders_cancels hcancel
  | tooMuchExposure =>
    simp only [notifyInvalid] at h
    have hpair := Option.some.inj h
    rw [← hpair]
    exact cancelForRisk_cancels _ rejected buffer
  | good | stopped | tooManyOrders =>
    simp only [notifyInvalid] at h
    cases h
    exact .refl

/-- Nothing new is placed, and no order changes its id or its side. -/
structure Keeps (m m' : PassiveMarketMaker) : Prop where
  next : m'.nextClientId = m.nextClientId
  id : ∀ side, (m'.order side).placedOrder.orderId = (m.order side).placedOrder.orderId
  side : ∀ side, (m'.order side).placedOrder.side = (m.order side).placedOrder.side
  placed : ∀ side, (m'.order side).status = .placed → (m.order side).status = .placed

theorem keeps_setOrder (m : PassiveMarketMaker) {side : Side} {o : PlacedOrder}
    (hid : o.placedOrder.orderId = (m.order side).placedOrder.orderId)
    (hside : o.placedOrder.side = (m.order side).placedOrder.side)
    (hplaced : o.status = .placed → (m.order side).status = .placed) : m.Keeps (m.setOrder side o) := by
  cases side with
  | buy =>
    refine ⟨rfl, ?_, ?_, ?_⟩
    · rintro (_ | _)
      · exact hid
      · rfl
    · rintro (_ | _)
      · exact hside
      · rfl
    · rintro (_ | _)
      · exact hplaced
      · exact fun h => h
  | sell =>
    refine ⟨rfl, ?_, ?_, ?_⟩
    · rintro (_ | _)
      · rfl
      · exact hid
    · rintro (_ | _)
      · rfl
      · exact hside
    · rintro (_ | _)
      · exact fun h => h
      · exact hplaced

theorem keeps_refl (m : PassiveMarketMaker) : m.Keeps m := ⟨rfl, fun _ => rfl, fun _ => rfl, fun _ h => h⟩

theorem Keeps.trans {m₁ m₂ m₃ : PassiveMarketMaker} (h₁₂ : m₁.Keeps m₂) (h₂₃ : m₂.Keeps m₃) :
    m₁.Keeps m₃ where
  next := h₂₃.next.trans h₁₂.next
  id := fun side => (h₂₃.id side).trans (h₁₂.id side)
  side := fun side => (h₂₃.side side).trans (h₁₂.side side)
  placed := fun side h => h₁₂.placed side (h₂₃.placed side h)

theorem keeps_undo (m : PassiveMarketMaker) (rejected : OutboundOrderRequest) :
    m.Keeps (m.undo rejected) := by
  rw [undo]
  split
  · split
    · exact keeps_setOrder m rfl rfl fun h => h
    · split
      · exact keeps_setOrder m rfl rfl fun h => h
      · exact keeps_refl m
  · split
    · exact keeps_setOrder m rfl rfl fun h => by cases h
    · exact keeps_refl m
  · split
    · exact keeps_setOrder m rfl rfl fun h => by cases h
    · exact keeps_refl m
  · exact keeps_refl m

theorem keeps_applyFill (m : PassiveMarketMaker) (side : Side) (quantity : Quantity) :
    m.Keeps (m.applyFill side quantity) := by
  have hnet : ∀ net, m.Keeps { m with netFilledQuantity := net } := fun _ =>
    ⟨rfl, fun side => by cases side <;> rfl, fun side => by cases side <;> rfl,
      fun side h => by cases side <;> exact h⟩
  refine (hnet _).trans (keeps_setOrder _ ?_ ?_ ?_)
  · split <;> cases side <;> rfl
  · split <;> cases side <;> rfl
  · split
    · intro h
      cases h
    · cases side <;> exact fun h => h

end PassiveMarketMaker

/-- The id of a request has the parity of its side, and a new order the side of its type. -/
structure OutboundOrderRequest.Numbered (r : OutboundOrderRequest) : Prop where
  parity : r.request.orderId.toNat % 2 = r.side.parity
  buy : r.request.type = .buy → r.side = .buy
  sell : r.request.type = .sell → r.side = .sell

namespace PassiveMarketMaker

variable {m m' : PassiveMarketMaker} {buffer buffer' : StrategyOrderBuffer}

/-- The placed orders have the ids handed out last. -/
structure Numbered (m : PassiveMarketMaker) : Prop where
  next : m.nextClientId.toNat % 2 = 1
  side : ∀ side, (m.order side).status = .placed → (m.order side).placedOrder.side = side
  pair : ∀ side, (m.order side).status = .placed →
    m.sellOrder.placedOrder.orderId = m.buyOrder.placedOrder.orderId + 1 ∧
      m.nextClientId = m.buyOrder.placedOrder.orderId + 1 + 1

theorem numbered_init : init.Numbered where
  next := rfl
  side := by rintro (_ | _) h <;> cases h
  pair := by rintro (_ | _) h <;> cases h

theorem toNat_succ_mod_two (id : ID) : (id + 1).toNat % 2 = (id.toNat + 1) % 2 := by
  rw [UInt64.toNat_add, UInt64.toNat_one]
  omega

theorem Numbered.parity (h : m.Numbered) {side : Side} (hplaced : (m.order side).status = .placed) :
    (m.order side).placedOrder.orderId.toNat % 2 = side.parity := by
  obtain ⟨hsell, hnext⟩ := h.pair side hplaced
  have hodd := h.next
  rw [hnext, toNat_succ_mod_two] at hodd
  have hsucc := toNat_succ_mod_two m.buyOrder.placedOrder.orderId
  cases side with
  | buy =>
    show m.buyOrder.placedOrder.orderId.toNat % 2 = 1
    omega
  | sell =>
    show m.sellOrder.placedOrder.orderId.toNat % 2 = 0
    rw [hsell]
    omega

theorem Numbered.keeps (h : m.Numbered) (hkeeps : m.Keeps m') : m'.Numbered where
  next := by rw [hkeeps.next]; exact h.next
  side := fun side hplaced => by rw [hkeeps.side]; exact h.side side (hkeeps.placed side hplaced)
  pair := fun side hplaced => by
    have hbuy := hkeeps.id .buy
    have hsell := hkeeps.id .sell
    simp only [order] at hbuy hsell
    rw [hbuy, hsell, hkeeps.next]
    exact h.pair side (hkeeps.placed side hplaced)

theorem numbered_withNewPair (h : m.Numbered) (bid offer : Price) : (m.withNewPair bid offer).Numbered where
  next := by
    have hodd := h.next
    have hone := toNat_succ_mod_two m.nextClientId
    show (m.nextClientId + 1 + 1).toNat % 2 = 1
    rw [toNat_succ_mod_two]
    omega
  side := by rintro (_ | _) _ <;> rfl
  pair := fun _ _ => ⟨rfl, rfl⟩

/-- What a placed order sends carries its number. -/
theorem Numbered.request (h : m.Numbered) {side : Side} (hplaced : (m.order side).status = .placed)
    {r : OutboundOrderRequest} (hid : r.request.orderId = (m.order side).placedOrder.orderId)
    (hside : r.side = (m.order side).placedOrder.side) (hbuy : r.request.type = .buy → r.side = .buy)
    (hsell : r.request.type = .sell → r.side = .sell) : r.Numbered :=
  ⟨by rw [hid, hside, h.side side hplaced, h.parity hplaced], hbuy, hsell⟩

theorem Numbered.move (h : m.Numbered) (hmove : Move (m, buffer) (m', buffer')) :
    m'.Numbered ∧ ∀ r ∈ buffer', r ∈ buffer ∨ r.Numbered := by
  cases hmove with
  | cancel hcancel =>
    obtain ⟨_, _, side, placed⟩ := hcancel
    refine ⟨h.keeps (keeps_setOrder m rfl rfl fun h => by cases h), ?_⟩
    intro r hr
    refine (List.mem_append.mp hr).imp_right fun hnew => ?_
    rw [List.mem_singleton.mp hnew]
    exact h.request placed rfl rfl (fun h => by cases h) (fun h => by cases h)
  | resize _ _ side placed =>
    refine ⟨h.keeps (keeps_setOrder m rfl rfl fun h => h), ?_⟩
    intro r hr
    refine (List.mem_append.mp hr).imp_right fun hnew => ?_
    rw [List.mem_singleton.mp hnew]
    exact h.request placed rfl rfl (fun h => by cases h) (fun h => by cases h)
  | pair _ _ bid offer =>
    have hpair := numbered_withNewPair h bid offer
    refine ⟨hpair, ?_⟩
    intro r hr
    refine (List.mem_append.mp hr).imp_right fun hnew => ?_
    rcases List.mem_cons.mp hnew with rfl | hnew
    · exact hpair.request (show ((m.withNewPair bid offer).order .buy).status = .placed from rfl) rfl rfl
        (fun _ => rfl) (fun h => by cases h)
    · rw [List.mem_singleton.mp hnew]
      exact hpair.request (show ((m.withNewPair bid offer).order .sell).status = .placed from rfl) rfl rfl
        (fun h => by cases h) (fun _ => rfl)

theorem Numbered.moves (h : m.Numbered) (hmoves : Moves (m, buffer) (m', buffer'))
    (hbuffer : ∀ r ∈ buffer, r.Numbered) : m'.Numbered ∧ ∀ r ∈ buffer', r.Numbered := by
  refine preserves_of_steps (P := fun m buffer => m.Numbered ∧ ∀ r ∈ buffer, r.Numbered)
    hmoves ?_ ⟨h, hbuffer⟩
  intro m₁ buffer₁ m₂ buffer₂ hmove h₁
  obtain ⟨h₂, hnew⟩ := h₁.1.move hmove
  exact ⟨h₂, fun r hr => (hnew r hr).elim (h₁.2 r) id⟩

theorem placedSide_placed {m : PassiveMarketMaker} {id : ID} {side : Side}
    (h : m.placedSide id = some side) :
    (m.order side).status = .placed ∧ (m.order side).placedOrder.orderId = id := by
  rw [PassiveMarketMaker.placedSide] at h
  split at h
  · cases h
    assumption
  · split at h
    · cases h
      assumption
    · cases h

/-- Only a fill changes the net quantity. -/
theorem Move.netFilledQuantity_eq (h : Move (m, buffer) (m', buffer')) :
    m'.netFilledQuantity = m.netFilledQuantity := by
  cases h with
  | cancel hcancel =>
    cases hcancel
    simp
  | resize => simp
  | pair => rfl

theorem Moves.netFilledQuantity_eq (h : Moves (m, buffer) (m', buffer')) :
    m'.netFilledQuantity = m.netFilledQuantity := by
  refine preserves_of_steps (P := fun m₁ _ => m₁.netFilledQuantity = m.netFilledQuantity) h ?_ rfl
  intro m₁ buffer₁ m₂ buffer₂ hmove h₁
  rw [hmove.netFilledQuantity_eq, h₁]

theorem undo_netFilledQuantity (m : PassiveMarketMaker) (rejected : OutboundOrderRequest) :
    (m.undo rejected).netFilledQuantity = m.netFilledQuantity := by
  rw [undo]
  split
  · split
    · simp
    · split <;> simp
  · split <;> simp
  · split <;> simp
  · rfl

end PassiveMarketMaker

/-! ## The two orders under a rejection and a fill -/

section Rejected

variable {m : PassiveMarketMaker}

def Side.orderType : Side → OrderRequest.Type
  | .buy => .buy
  | .sell => .sell

theorem Side.eq_or_opposite (a b : Side) : a = b ∨ a = b.opposite := by
  cases a <;> cases b <;> simp [Side.opposite]

theorem id_ne_later (id : ID) : id ≠ id + 1 ∧ id ≠ id + 1 + 1 ∧ id ≠ id + 1 + 1 + 1 := by
  have hlt := id.toNat_lt
  have hne : ∀ {other : ID}, id.toNat ≠ other.toNat → id ≠ other := fun h heq => h (by rw [heq])
  refine ⟨hne ?_, hne ?_, hne ?_⟩ <;> simp only [UInt64.toNat_add, UInt64.toNat_one] <;> omega

/-- The orders of the two sides have different ids. -/
theorem opposite_id_ne (h : m.Numbered) {side : Side} (hplaced : (m.order side).status = .placed) :
    (m.order side).placedOrder.orderId ≠ (m.order side.opposite).placedOrder.orderId := by
  have hsell := (h.pair side hplaced).1
  cases side with
  | buy =>
    show m.buyOrder.placedOrder.orderId ≠ m.sellOrder.placedOrder.orderId
    rw [hsell]
    exact (id_ne_later _).1
  | sell =>
    show m.sellOrder.placedOrder.orderId ≠ m.buyOrder.placedOrder.orderId
    rw [hsell]
    exact (id_ne_later _).1.symm

theorem undo_order_of_ne {r : OutboundOrderRequest} {side : Side}
    (h : r.request.orderId ≠ (m.order side).placedOrder.orderId) : (m.undo r).order side = m.order side := by
  rw [PassiveMarketMaker.undo]
  split
  · split
    · rename_i heq
      cases side with
      | buy => exact absurd heq h
      | sell => rfl
    · split
      · rename_i heq
        cases side with
        | buy => rfl
        | sell => exact absurd heq h
      · rfl
  · split
    · rename_i heq
      cases side with
      | buy => exact absurd heq.symm h
      | sell => rfl
    · rfl
  · split
    · rename_i heq
      cases side with
      | buy => rfl
      | sell => exact absurd heq.symm h
    · rfl
  · rfl

/-- A rejected new order is not placed. -/
theorem undo_new {r : OutboundOrderRequest} {side : Side} (htype : r.request.type = side.orderType)
    (hid : r.request.orderId = (m.order side).placedOrder.orderId) :
    ((m.undo r).order side).status = .notPlaced := by
  cases side with
  | buy =>
    simp only [PassiveMarketMaker.undo, show r.request.type = .buy from htype]
    rw [if_pos (show m.buyOrder.placedOrder.orderId = r.request.orderId from hid.symm)]
    rfl
  | sell =>
    simp only [PassiveMarketMaker.undo, show r.request.type = .sell from htype]
    rw [if_pos (show m.sellOrder.placedOrder.orderId = r.request.orderId from hid.symm)]
    rfl

/-- A rejected update gives the order its previous quantity back. -/
theorem undo_update (h : m.Numbered) {r : OutboundOrderRequest} {side : Side}
    (hplaced : (m.order side).status = .placed) (htype : r.request.type = .update)
    (hid : r.request.orderId = (m.order side).placedOrder.orderId) :
    (m.undo r).order side = (m.order side).withQuantity r.previousQuantity := by
  have hne := opposite_id_ne h hplaced
  cases side with
  | buy =>
    simp only [PassiveMarketMaker.undo, htype]
    rw [if_pos (show r.request.orderId = m.buyOrder.placedOrder.orderId from hid)]
    rfl
  | sell =>
    have hid : r.request.orderId = m.sellOrder.placedOrder.orderId := hid
    simp only [PassiveMarketMaker.undo, htype]
    rw [if_neg (by rw [hid]; exact hne), if_pos hid]
    rfl

theorem applyFill_order_opposite (m : PassiveMarketMaker) (side : Side) (quantity : Quantity) :
    (m.applyFill side quantity).order side.opposite = m.order side.opposite := by
  rw [PassiveMarketMaker.applyFill, PassiveMarketMaker.order_setOrder_opposite]
  cases side <;> rfl

/-- A fill that leaves nothing takes the order away. -/
theorem applyFill_status (m : PassiveMarketMaker) (side : Side) (quantity : Quantity) :
    ((m.applyFill side quantity).order side).status =
      if ((m.applyFill side quantity).order side).placedOrder.quantity = 0 then .notPlaced
      else (m.order side).status := by
  rw [PassiveMarketMaker.applyFill, PassiveMarketMaker.order_setOrder_self]
  split <;> rfl

/-- A rejected new order leaves the other side alone. -/
theorem undo_new_opposite {r : OutboundOrderRequest} {side : Side} (htype : r.request.type = side.orderType) :
    (m.undo r).order side.opposite = m.order side.opposite := by
  cases side with
  | buy =>
    simp only [PassiveMarketMaker.undo, show r.request.type = .buy from htype]
    split <;> rfl
  | sell =>
    simp only [PassiveMarketMaker.undo, show r.request.type = .sell from htype]
    split <;> rfl

/-- A rejected update changes no status. -/
theorem undo_update_status {r : OutboundOrderRequest} (htype : r.request.type = .update) (side : Side) :
    ((m.undo r).order side).status = (m.order side).status := by
  simp only [PassiveMarketMaker.undo, htype]
  split
  · cases side <;> rfl
  · split
    · cases side <;> rfl
    · rfl

end Rejected

/-! ## Along a run -/

namespace Trader

/-- Everything staged or forwarded carries the number of its side. -/
structure Numbered (t : Trader) : Prop where
  strategy : t.strategy.Numbered
  staged : ∀ r ∈ t.orderBuffer, r.Numbered
  forwarded : ∀ e ∈ t.forwarded, e.1.Numbered

theorem numbered_init : init.Numbered := ⟨PassiveMarketMaker.numbered_init, by simp [init], by simp [init]⟩

/-- What an event stages, and the state of the strategy it starts from. -/
theorem stage_moves {t t' : Trader} {event : TraderEvent} (h : t.stage event = some t') :
    (∃ m, PassiveMarketMaker.Moves (m, t.orderBuffer) (t'.strategy, t'.orderBuffer) ∧
      match event with
      | .snapshot _ _ => m = t.strategy
      | .report u _ => match t.strategy.placedSide u.orderId with
        | none => m = t.strategy
        | some side => m = t.strategy.applyFill side u.filledQuantity) ∧
      t'.forwarded = t.forwarded := by
  cases event with
  | snapshot bbo checks =>
    obtain ⟨⟨strategy, orderBuffer⟩, hget, hreturn⟩ := Option.bind_eq_some_iff.mp h
    cases hreturn
    exact ⟨⟨t.strategy, PassiveMarketMaker.getOrders_moves hget, rfl⟩, rfl⟩
  | report u checks =>
    simp only [stage, PassiveMarketMaker.update] at h
    cases hside : t.strategy.placedSide u.orderId with
    | none =>
      simp only [hside] at h
      cases h
      exact ⟨⟨t.strategy, .refl, by simp only [hside]⟩, rfl⟩
    | some side =>
      simp only [hside] at h
      cases h
      exact ⟨⟨_, PassiveMarketMaker.rebalanceExposure_moves _ _, by simp only [hside]⟩, rfl⟩

theorem Numbered.stage {t t' : Trader} (h : t.Numbered) {event : TraderEvent}
    (hstage : t.stage event = some t') : t'.Numbered := by
  obtain ⟨⟨m, hmoves, hm⟩, hforwarded⟩ := stage_moves hstage
  have hnumbered : m.Numbered := by
    cases event with
    | snapshot bbo checks =>
      rw [show m = t.strategy from hm]
      exact h.strategy
    | report u checks =>
      simp only at hm
      split at hm
      · rw [hm]
        exact h.strategy
      · rw [hm]
        exact h.strategy.keeps (PassiveMarketMaker.keeps_applyFill _ _ _)
  obtain ⟨hstrategy, hstaged⟩ := hnumbered.moves hmoves h.staged
  exact ⟨hstrategy, hstaged, by rw [hforwarded]; exact h.forwarded⟩

theorem Numbered.placeOne {t t' : Trader} (h : t.Numbered) {outbound : OutboundOrderRequest}
    {rest : StrategyOrderBuffer} {check : Check} {result : Option (Except StrategyError Unit)}
    (hbuffer : t.orderBuffer = outbound :: rest) (hplace : t.placeOne outbound rest check = some (result, t')) :
    t'.Numbered := by
  have hstaged := h.staged
  rw [hbuffer] at hstaged
  have hrest : ∀ r ∈ rest, r.Numbered := fun r hr => hstaged r (List.mem_cons_of_mem _ hr)
  rcases placeOne_cases hplace with ⟨-, -, rfl⟩ | ⟨-, -, -, rfl⟩ | ⟨risk, -, -, -, -, rfl⟩ |
    ⟨risk, strategy, orderBuffer, -, -, -, hnotify, rfl⟩
  · exact h
  · exact ⟨h.strategy, h.staged, h.forwarded⟩
  · refine ⟨h.strategy, hrest, ?_⟩
    intro e he
    rcases List.mem_append.mp he with hold | hnew
    · exact h.forwarded e hold
    · rw [List.mem_singleton.mp hnew]
      exact hstaged outbound List.mem_cons_self
  · obtain ⟨hstrategy, hstaged'⟩ := (h.strategy.keeps (PassiveMarketMaker.keeps_undo _ outbound)).moves
      (PassiveMarketMaker.notifyInvalid_cancels hnotify).moves hrest
    exact ⟨hstrategy, hstaged', h.forwarded⟩

theorem handle_cases {t t' : Trader} {event : TraderEvent} (h : t.handle event = some t') :
    ∃ staged result, t.stage event = some staged ∧ placeNewOrders event.checks staged = some (result, t') := by
  obtain ⟨staged, hstage, hrest⟩ := Option.bind_eq_some_iff.mp h
  obtain ⟨⟨result, placed⟩, hplace, hreturn⟩ := Option.bind_eq_some_iff.mp hrest
  cases hreturn
  exact ⟨staged, result, hstage, hplace⟩

theorem Numbered.handle {t t' : Trader} (h : t.Numbered) {event : TraderEvent}
    (hhandle : t.handle event = some t') : t'.Numbered := by
  obtain ⟨staged, result, hstage, hplace⟩ := handle_cases hhandle
  refine placeNewOrders_preserves ?_ (h.stage hstage) hplace
  intro t outbound rest result t' check _ ht hbuffer hone
  exact ht.placeOne hbuffer hone

end Trader

end HftPipeline
