import HftPipeline.QuoteArithmetic
import HftPipeline.PositionLimit

/-!
# The bounds of the quotes

Prices are bounded where they are computed. Quantities come from fills, which are cut to what
is left of the order, from the quotes of `rebalance_exposure`, and from requests that are
rejected: a rejected update gives back the quantity it found. So what a waiting update
remembers is bounded like what an order has.
-/
namespace HftPipeline

open StrategyConfig

/-- No order is quoted with more. -/
def mostQuantity : Nat := marketMakerOrderQuantity.toNat + maxAdditionalExitQuantity.toNat

/-- What holds of a placed order. -/
structure OrderBounded (o : Order) : Prop where
  price : Quotable o.price
  least : 1 ≤ o.quantity.toNat
  most : o.quantity.toNat ≤ mostQuantity

/-- What a waiting update asks for and gives back. -/
structure UpdateBounded (r : OutboundOrderRequest) : Prop where
  previous : 1 ≤ r.previousQuantity.toNat ∧ r.previousQuantity.toNat ≤ mostQuantity
  quantity : minMarketMakerOrderQuantity.toNat ≤ r.request.quantity.toNat ∧
    r.request.quantity.toNat ≤ mostQuantity
  reducing : r.quantityChange = .reducing ↔ r.request.quantity < r.previousQuantity

namespace PassiveMarketMaker

variable {m m' : PassiveMarketMaker} {buffer buffer' : StrategyOrderBuffer} {P : Order → Prop}

/-- A property of the orders that are placed. -/
def EachPlaced (P : Order → Prop) (m : PassiveMarketMaker) : Prop :=
  ∀ side, (m.order side).status = .placed → P (m.order side).placedOrder

theorem EachPlaced.setOrder (h : m.EachPlaced P) {side : Side} {o : PlacedOrder}
    (ho : o.status = .placed → P o.placedOrder) : (m.setOrder side o).EachPlaced P := by
  intro side' hplaced
  rcases Side.eq_or_opposite side' side with rfl | rfl
  · rw [order_setOrder_self] at hplaced ⊢
    exact ho hplaced
  · rw [order_setOrder_opposite] at hplaced ⊢
    exact h side.opposite hplaced

structure Bounded (m : PassiveMarketMaker) (buffer : StrategyOrderBuffer) : Prop where
  orders : m.EachPlaced OrderBounded
  updates : ∀ r ∈ buffer, r.request.type = .update → UpdateBounded r

theorem bounded_init : init.Bounded [] where
  orders := by rintro (_ | _) h <;> cases h
  updates := nofun

/-! ## Quantities -/

theorem quoteFor_bounds (h : m.NeedsRebalance) (side : Side) :
    minMarketMakerOrderQuantity.toNat ≤ (m.quoteFor side).toNat ∧ (m.quoteFor side).toNat ≤ mostQuantity := by
  have hleast : minMarketMakerOrderQuantity.toNat = 25 := rfl
  have hmost : mostQuantity = 225 := rfl
  have hfar : 25 ≤ m.netFilledQuantity.abs.toInt := by
    have hthreshold := Int64.le_iff_toInt_le.mp h
    rw [toInt_toPosition] at hthreshold
    exact hthreshold
  have himbalance := imbalance_toNat (a := m.netFilledQuantity.abs) (by omega)
  have hentry := entryQuantity_toNat
    (min m.netFilledQuantity.abs maxAdditionalExitQuantity.toPosition).toUInt64.toUInt32
  have hexit := exitQuantity_toNat
    (min m.netFilledQuantity.abs maxAdditionalExitQuantity.toPosition).toUInt64.toUInt32 (by omega)
  cases side with
  | buy =>
    simp only [quoteFor]
    split <;> omega
  | sell =>
    simp only [quoteFor]
    split <;> omega

/-- An update is reducing exactly if it lowers the quantity. -/
theorem updateRequest_reducing (o : PlacedOrder) {quantity : Quantity} (h : o.placedOrder.quantity ≠ quantity) :
    (o.updateRequest quantity).quantityChange = .reducing ↔ quantity < o.placedOrder.quantity := by
  simp only [PlacedOrder.updateRequest]
  split
  · rename_i hraises
    exact iff_of_false (by rintro ⟨⟩) (UInt32.lt_asymm hraises)
  · rename_i hraises
    refine iff_of_true rfl (UInt32.lt_of_le_of_ne (UInt32.not_lt.mp hraises) (Ne.symm h))

/-! ## The moves keep the bounds -/

theorem Bounded.cancel (h : m.Bounded buffer) (hcancel : Cancel (m, buffer) (m', buffer')) :
    m'.Bounded buffer' := by
  obtain ⟨_, _, side, placed⟩ := hcancel
  refine ⟨h.orders.setOrder nofun, ?_⟩
  intro r hr htype
  rcases List.mem_append.mp hr with hold | hnew
  · exact h.updates r hold htype
  · rw [List.mem_singleton.mp hnew] at htype
    cases htype

theorem Bounded.resize (h : m.Bounded buffer) (hresize : Resize (m, buffer) (m', buffer')) :
    m'.Bounded buffer' := by
  obtain ⟨_, _, side, placed, needed, change⟩ := hresize
  have horder := h.orders side placed
  have hquote := quoteFor_bounds needed side
  refine ⟨h.orders.setOrder fun _ => ⟨horder.price, ?_, hquote.2⟩, ?_⟩
  · exact Nat.le_trans (show 1 ≤ minMarketMakerOrderQuantity.toNat by decide) hquote.1
  · intro r hr htype
    rcases List.mem_append.mp hr with hold | hnew
    · exact h.updates r hold htype
    · rw [List.mem_singleton.mp hnew]
      exact ⟨⟨horder.least, horder.most⟩, hquote, updateRequest_reducing _ change⟩

theorem Bounded.cancels (h : m.Bounded buffer) (hcancels : Cancels (m, buffer) (m', buffer')) :
    m'.Bounded buffer' :=
  preserves_of_steps hcancels (fun _ _ _ _ hcancel h => h.cancel hcancel) h

theorem Bounded.resizes (h : m.Bounded buffer) (hresizes : Resizes (m, buffer) (m', buffer')) :
    m'.Bounded buffer' :=
  preserves_of_steps hresizes (fun _ _ _ _ hresize h => h.resize hresize) h

/-- A rejected update gives back a quantity that an order had. -/
theorem Bounded.undo {r : OutboundOrderRequest} {rest : StrategyOrderBuffer} (h : m.Bounded (r :: rest)) :
    (m.undo r).Bounded rest := by
  refine ⟨?_, fun r' hr => h.updates r' (List.mem_cons_of_mem _ hr)⟩
  rw [PassiveMarketMaker.undo]
  split
  · rename_i htype
    have hprevious := (h.updates r List.mem_cons_self htype).previous
    split
    · exact h.orders.setOrder fun hplaced => ⟨(h.orders .buy hplaced).price, hprevious.1, hprevious.2⟩
    · split
      · exact h.orders.setOrder fun hplaced => ⟨(h.orders .sell hplaced).price, hprevious.1, hprevious.2⟩
      · exact h.orders
  · split
    · exact h.orders.setOrder (by rintro ⟨⟩)
    · exact h.orders
  · split
    · exact h.orders.setOrder (by rintro ⟨⟩)
    · exact h.orders
  · exact h.orders

theorem Bounded.pop {r : OutboundOrderRequest} {rest : StrategyOrderBuffer} (h : m.Bounded (r :: rest)) :
    m.Bounded rest :=
  ⟨h.orders, fun r' hr => h.updates r' (List.mem_cons_of_mem _ hr)⟩

/-- A fill leaves some of the order, or the order is not placed any more. -/
theorem Bounded.applyFill (h : m.Bounded buffer) {side : Side} (hplaced : (m.order side).status = .placed)
    (filledQuantity : Quantity) : (m.applyFill side filledQuantity).Bounded buffer := by
  refine ⟨?_, h.updates⟩
  have horder := h.orders side hplaced
  intro side' hplaced'
  rcases Side.eq_or_opposite side' side with rfl | rfl
  · obtain ⟨hleft, hsome⟩ := applyFill_order_self m side' filledQuantity hplaced'
    have hle : min filledQuantity (m.order side').placedOrder.quantity ≤ (m.order side').placedOrder.quantity := by
      show (if filledQuantity ≤ (m.order side').placedOrder.quantity then _ else _) ≤ _
      split
      · assumption
      · exact UInt32.le_refl _
    have hquantity := UInt32.toNat_sub_of_le _ _ hle
    rw [hleft]
    refine ⟨horder.price, ?_, ?_⟩
    · exact Nat.one_le_iff_ne_zero.mpr fun hzero => hsome (UInt32.toNat_inj.mp hzero)
    · exact hquantity.trans_le (Nat.sub_le _ _) |>.trans horder.most
  · rw [applyFill_order_opposite] at hplaced' ⊢
    exact h.orders side.opposite hplaced'

/-! ## What a call queues -/

/-- A pair is inside the spread, and as far from the middle as it may be. -/
structure PairWithin (bbo : OrderSnapshot) (bid offer : Price) : Prop where
  midpoint : (midpoint bbo.bestBid.price bbo.bestOffer.price).toInt =
    (bbo.bestOffer.price.toInt + bbo.bestBid.price.toInt).tdiv 2
  aboveBid : bbo.bestBid.price < bid
  belowOffer : offer < bbo.bestOffer.price
  least : minBidPrice ≤ bid
  bidSpread : |(PassiveMarketMaker.midpoint bbo.bestBid.price bbo.bestOffer.price).toInt - bid.toInt| ∈
    Set.Icc oneSidedMinSpread.toInt oneSidedMaxSpread.toInt
  offerSpread : |offer.toInt - (PassiveMarketMaker.midpoint bbo.bestBid.price bbo.bestOffer.price).toInt| ∈
    Set.Icc oneSidedMinSpread.toInt oneSidedMaxSpread.toInt

/-- Cancels, and behind them a pair or nothing. -/
def PairQueued (bbo : OrderSnapshot) (queued : StrategyOrderBuffer) : Prop :=
  ∃ cancels, (∀ r ∈ cancels, r.request.type = .cancel) ∧
    (queued = cancels ∨ ∃ buy sell, queued = cancels ++ [buy, sell] ∧ buy.request.type = .buy ∧
      sell.request.type = .sell ∧ PairWithin bbo buy.request.price sell.request.price)

/-- An update of an order, as it stood before. -/
structure UpdateQueued (o : PlacedOrder) (r : OutboundOrderRequest) : Prop where
  placed : o.status = .placed
  type : r.request.type = .update
  order : r.request.orderId = o.placedOrder.orderId
  least : minMarketMakerOrderQuantity.toNat ≤ r.request.quantity.toNat
  most : r.request.quantity.toNat ≤ mostQuantity
  reducing : r.quantityChange = .reducing ↔ r.request.quantity < o.placedOrder.quantity

theorem pairWithin_of_priced {bbo : OrderSnapshot} {bid offer : Price} (h : bbo.Quotable)
    (hprices : priceNewOrderPair bbo = some (bid, offer)) (hleast : minBidPrice ≤ bid) :
    PairWithin bbo bid offer ∧ Quotable bid ∧ Quotable offer := by
  obtain ⟨⟨hlow, hlow'⟩, ⟨hhigh, hhigh'⟩, hpriced⟩ := priceNewOrderPair_priced h hprices
  obtain ⟨mid, hmid, hexact⟩ :=
    checkedMidpoint_fits bbo.bestBid.price bbo.bestOffer.price (by omega) (by omega)
  rw [midpoint_of_checked hmid] at hexact
  have hmiddle := hexact
  rw [CheckedInt.tdiv_two_of_nonneg (by omega)] at hmiddle
  have hwide := hpriced.wide
  have hbid := hpriced.bid
  have hoffer := hpriced.offer
  have hfew : oneSidedMinSpread.toInt = 3 := rfl
  have hmany : oneSidedMaxSpread.toInt = 10 := rfl
  refine ⟨⟨hexact, ?_, ?_, hleast, ?_, ?_⟩, ⟨by omega, by omega⟩, ⟨by omega, by omega⟩⟩
  · exact Int32.lt_iff_toInt_lt.mpr (by omega)
  · exact Int32.lt_iff_toInt_lt.mpr (by omega)
  · rw [hmiddle, abs_of_nonneg (by omega), hfew, hmany]
    exact ⟨by omega, by omega⟩
  · rw [hmiddle, abs_of_nonneg (by omega), hfew, hmany]
    exact ⟨by omega, by omega⟩

theorem Bounded.getOrders (h : m.Bounded buffer) {bbo : OrderSnapshot} (hbbo : bbo.Quotable)
    (hget : m.getOrders bbo buffer = some (m', buffer')) :
    m'.Bounded buffer' ∧ ∃ queued, buffer' = buffer ++ queued ∧ PairQueued bbo queued := by
  obtain ⟨m₁, buffer₁, hcancels, hcase⟩ := getOrders_cases hget
  obtain ⟨cancels, hcancelled, htype, -⟩ := hcancels.appends
  have h₁ := h.cancels hcancels
  rcases hcase with ⟨rfl, rfl⟩ | ⟨bid, offer, ⟨hprices, hleast⟩, -, rfl, rfl⟩
  · exact ⟨h₁, cancels, hcancelled, cancels, htype, Or.inl rfl⟩
  · obtain ⟨hwithin, hbid, hoffer⟩ := pairWithin_of_priced hbbo hprices hleast
    refine ⟨⟨?_, ?_⟩, cancels ++ _, by rw [hcancelled, List.append_assoc], cancels, htype,
      Or.inr ⟨_, _, rfl, rfl, rfl, hwithin⟩⟩
    · rintro (_ | _) -
      · exact ⟨hbid, show 1 ≤ marketMakerOrderQuantity.toNat by decide,
          show marketMakerOrderQuantity.toNat ≤ mostQuantity by decide⟩
      · exact ⟨hoffer, show 1 ≤ marketMakerOrderQuantity.toNat by decide,
          show marketMakerOrderQuantity.toNat ≤ mostQuantity by decide⟩
    · intro r hr hupdate
      rcases List.mem_append.mp hr with hold | hnew
      · exact h₁.updates r hold hupdate
      · simp only [List.mem_cons, List.not_mem_nil, or_false] at hnew
        rcases hnew with rfl | rfl
        · cases hupdate
        · cases hupdate

/-- Each order is resized at most once, from what it is before. -/
theorem Resizes.queued (h : Resizes (m, buffer) (m', buffer')) :
    ∃ queued, buffer' = buffer ++ queued ∧ ∀ r ∈ queued, ∃ side, UpdateQueued (m.order side) r := by
  have hall : ∃ queued, buffer' = buffer ++ queued ∧ m'.netFilledQuantity = m.netFilledQuantity ∧
      (∀ side, m'.order side = m.order side ∨ (m'.order side).placedOrder.quantity = m.quoteFor side) ∧
      ∀ r ∈ queued, ∃ side, UpdateQueued (m.order side) r := by
    refine preserves_of_steps (P := fun m' buffer' => ∃ queued : StrategyOrderBuffer,
      buffer' = buffer ++ queued ∧ m'.netFilledQuantity = m.netFilledQuantity ∧
      (∀ side, m'.order side = m.order side ∨ (m'.order side).placedOrder.quantity = m.quoteFor side) ∧
      ∀ r ∈ queued, ∃ side, UpdateQueued (m.order side) r) h ?_ ⟨[], by simp⟩
    rintro m₁ _ _ _ ⟨_, _, side, placed, needed, change⟩ ⟨queued, rfl, hnet, horders, hqueued⟩
    have hquote : ∀ side, m₁.quoteFor side = m.quoteFor side := fun side => by simp only [quoteFor, hnet]
    have hsame : m₁.order side = m.order side := by
      refine (horders side).resolve_right fun hdone => change ?_
      rw [hdone, hquote]
    refine ⟨queued ++ [(m₁.order side).updateRequest (m₁.quoteFor side)], List.append_assoc .., ?_, ?_, ?_⟩
    · rw [setOrder_netFilledQuantity]
      exact hnet
    · intro side'
      rcases Side.eq_or_opposite side' side with rfl | rfl
      · rw [order_setOrder_self]
        exact Or.inr (hquote side')
      · rw [order_setOrder_opposite]
        exact horders side.opposite
    · intro r hr
      rcases List.mem_append.mp hr with hold | hnew
      · exact hqueued r hold
      · have hbounds := quoteFor_bounds needed side
        rw [hsame] at placed change hnew
        rw [List.mem_singleton.mp hnew]
        exact ⟨side, placed, rfl, rfl, hbounds.1, hbounds.2, updateRequest_reducing _ change⟩
  obtain ⟨queued, hbuffer, -, -, hqueued⟩ := hall
  exact ⟨queued, hbuffer, hqueued⟩

/-- The orders as `update` finds them when it rebalances. -/
def filledBy (m : PassiveMarketMaker) (u : OrderFillUpdate) : PassiveMarketMaker :=
  match m.placedSide u.orderId with
  | none => m
  | some side => m.applyFill side u.filledQuantity

theorem Bounded.update (h : m.Bounded buffer) {u : OrderFillUpdate} (hupdate : m.update u buffer = (m', buffer')) :
    m'.Bounded buffer' ∧ ∃ queued, buffer' = buffer ++ queued ∧
      ∀ r ∈ queued, ∃ side, UpdateQueued ((m.filledBy u).order side) r := by
  rw [PassiveMarketMaker.update] at hupdate
  rw [filledBy]
  cases hside : m.placedSide u.orderId with
  | none =>
    simp only [hside] at hupdate
    cases hupdate
    exact ⟨h, [], by simp, by rintro _ ⟨⟩⟩
  | some side =>
    simp only [hside] at hupdate
    have hresizes := rebalanceExposure_resizes (m.applyFill side u.filledQuantity) buffer
    rw [hupdate] at hresizes
    exact ⟨(h.applyFill (placedSide_placed hside).1 u.filledQuantity).resizes hresizes, hresizes.queued⟩

end PassiveMarketMaker

/-! ## Along a run -/

namespace Trader

open PassiveMarketMaker

/-- What the trader comes to while the best prices it reads satisfy `P`: events and rounds of
`place_new_orders` in any order, also when a stop leaves requests in the buffer. -/
inductive Visits (P : OrderSnapshot → Prop) : Trader → Prop
  | start : Visits P .init
  | snapshot {t t' : Trader} {bbo : OrderSnapshot} {checks : List Check} (ht : Visits P t) (hbbo : P bbo)
      (hstage : t.stage (.snapshot bbo checks) = some t') : Visits P t'
  | report {t t' : Trader} {u : OrderFillUpdate} {checks : List Check} (ht : Visits P t)
      (hstage : t.stage (.report u checks) = some t') : Visits P t'
  | round {t t' : Trader} {outbound : OutboundOrderRequest} {rest : StrategyOrderBuffer} {check : Check}
      {result : Option (Except StrategyError Unit)} (ht : Visits P t) (hbuffer : t.orderBuffer = outbound :: rest)
      (hplace : t.placeOne outbound rest check = some (result, t')) : Visits P t'

theorem Visits.handle {P : OrderSnapshot → Prop} {t t' : Trader} (ht : Visits P t) {event : TraderEvent}
    (hbbo : ∀ bbo checks, event = .snapshot bbo checks → P bbo) (hhandle : t.handle event = some t') :
    Visits P t' := by
  obtain ⟨staged, result, hstage, hplace⟩ := handle_cases hhandle
  have hstaged : Visits P staged := by
    cases event with
    | snapshot bbo checks => exact ht.snapshot (hbbo bbo checks rfl) hstage
    | report u checks => exact ht.report hstage
  refine placeNewOrders_preserves ?_ hstaged hplace
  intro t outbound rest result t' check _ ht hbuffer hone
  exact ht.round hbuffer hone

theorem Visits.run {P : OrderSnapshot → Prop} {t t' : Trader} (ht : Visits P t) {events : List TraderEvent}
    (hbbo : ∀ bbo checks, .snapshot bbo checks ∈ events → P bbo) (hrun : t.run events = some t') :
    Visits P t' := by
  induction events generalizing t with
  | nil =>
    cases hrun
    exact ht
  | cons event events ih =>
    rw [Trader.run, List.foldlM_cons] at hrun
    obtain ⟨t₁, hhandle, hrest⟩ := Option.bind_eq_some_iff.mp hrun
    refine ih (ht.handle ?_ hhandle) (fun bbo checks hmem => hbbo bbo checks (List.mem_cons_of_mem _ hmem)) hrest
    rintro bbo checks rfl
    exact hbbo bbo checks List.mem_cons_self

/-- A round pops a request and may queue cancels, or it changes nothing in the buffer. -/
theorem bounded_placeOne {t t' : Trader} {outbound : OutboundOrderRequest} {rest : StrategyOrderBuffer}
    {check : Check} {result : Option (Except StrategyError Unit)} (h : t.strategy.Bounded t.orderBuffer)
    (hbuffer : t.orderBuffer = outbound :: rest) (hplace : t.placeOne outbound rest check = some (result, t')) :
    t'.strategy.Bounded t'.orderBuffer ∧ (t'.orderBuffer = t.orderBuffer ∨
      ∃ cancels, t'.orderBuffer = rest ++ cancels ∧ ∀ r ∈ cancels, r.request.type = .cancel) := by
  have hrequests := h
  rw [hbuffer] at hrequests
  rcases placeOne_cases hplace with ⟨-, -, rfl⟩ | ⟨-, -, -, rfl⟩ | ⟨risk, -, -, -, -, rfl⟩ |
    ⟨risk, strategy, orderBuffer, -, -, -, hnotify, rfl⟩
  · exact ⟨h, Or.inl rfl⟩
  · exact ⟨h, Or.inl rfl⟩
  · exact ⟨hrequests.pop, Or.inr ⟨[], by simp, nofun⟩⟩
  · have hcancels := notifyInvalid_cancels hnotify
    obtain ⟨cancels, hcancelled, htype, -⟩ := hcancels.appends
    exact ⟨hrequests.undo.cancels hcancels, Or.inr ⟨cancels, hcancelled, htype⟩⟩

theorem Visits.bounded {t : Trader} (ht : Visits OrderSnapshot.Quotable t) : t.strategy.Bounded t.orderBuffer := by
  induction ht with
  | start => exact bounded_init
  | snapshot _ hbbo hstage ih =>
    obtain ⟨⟨strategy, orderBuffer⟩, hget, hreturn⟩ := Option.bind_eq_some_iff.mp hstage
    cases hreturn
    exact (ih.getOrders hbbo hget).1
  | @report t _ u _ _ hstage ih =>
    cases hstage
    exact (ih.update (u := u) rfl).1
  | round _ hbuffer hplace ih => exact (bounded_placeOne ih hbuffer hplace).1

/-- In every state that a trader comes to with best prices between 1 and `2 ^ 30 - 1`, or with
an empty side, each placed order has at least 1 and at most the greatest quote left. What the
next call queues is bounded too: after a snapshot cancels and a pair within the spread, after
a fill updates that are reducing exactly if they lower their order, after a rejection cancels. -/
theorem quote_bounds (t : Trader) (ht : Visits OrderSnapshot.Quotable t) :
    (∀ side, (t.strategy.order side).status = .placed →
      1 ≤ (t.strategy.order side).placedOrder.quantity.toNat ∧
        (t.strategy.order side).placedOrder.quantity.toNat ≤ mostQuantity) ∧
    (∀ bbo checks t', bbo.Quotable → t.stage (.snapshot bbo checks) = some t' →
      ∃ queued, t'.orderBuffer = t.orderBuffer ++ queued ∧ PairQueued bbo queued) ∧
    (∀ u checks t', t.stage (.report u checks) = some t' →
      ∃ queued, t'.orderBuffer = t.orderBuffer ++ queued ∧
        ∀ r ∈ queued, ∃ side, UpdateQueued ((t.strategy.filledBy u).order side) r) ∧
    ∀ outbound rest check result t', t.orderBuffer = outbound :: rest →
      t.placeOne outbound rest check = some (result, t') →
      t'.orderBuffer = t.orderBuffer ∨
        ∃ cancels, t'.orderBuffer = rest ++ cancels ∧ ∀ r ∈ cancels, r.request.type = .cancel := by
  have hbounded := ht.bounded
  refine ⟨fun side hplaced => ⟨(hbounded.orders side hplaced).least, (hbounded.orders side hplaced).most⟩, ?_, ?_,
    fun outbound rest check result t' hbuffer hplace => (bounded_placeOne hbounded hbuffer hplace).2⟩
  · intro bbo checks t' hbbo hstage
    obtain ⟨⟨strategy, orderBuffer⟩, hget, hreturn⟩ := Option.bind_eq_some_iff.mp hstage
    cases hreturn
    exact (hbounded.getOrders hbbo hget).2
  · intro u checks t' hstage
    cases hstage
    exact (hbounded.update (u := u) rfl).2

end Trader

/-- A new pair is placed while 60 are held. -/
def heldRun : List TraderEvent := [narrowMarket 100 120, .report ⟨1, 60⟩ openChecks, narrowMarket 110 130]

/-- After one more is bought the buy is cut from 74 to 25 and the sell raised from 75 to 136. -/
theorem quote_bounds_heldRun :
    ∃ t t', Trader.init.run heldRun = some t ∧ t.stage (.report ⟨3, 1⟩ []) = some t' ∧
      t'.orderBuffer.map (fun r => (r.request.quantity, r.quantityChange)) =
        [(25, .reducing), (136, .increasing)] ∧
      (∀ side, (t.strategy.order side).status = .placed →
        1 ≤ (t.strategy.order side).placedOrder.quantity.toNat ∧
          (t.strategy.order side).placedOrder.quantity.toNat ≤ mostQuantity) ∧
      ∃ queued, t'.orderBuffer = t.orderBuffer ++ queued ∧
        ∀ r ∈ queued, ∃ side, PassiveMarketMaker.UpdateQueued ((t.strategy.filledBy ⟨3, 1⟩).order side) r := by
  have hqueued : ((Trader.init.run heldRun).bind fun t => t.stage (.report ⟨3, 1⟩ [])).map
      (fun t' => t'.orderBuffer.map fun r => (r.request.quantity, r.quantityChange)) =
        some [(25, .reducing), (136, .increasing)] := by
    decide +kernel
  obtain ⟨t', hstaged, ht'⟩ := Option.map_eq_some_iff.mp hqueued
  obtain ⟨t, hrun, hstage⟩ := Option.bind_eq_some_iff.mp hstaged
  have hvisits : t.Visits OrderSnapshot.Quotable := by
    refine Trader.Visits.start.run ?_ hrun
    intro bbo checks hmem
    simp only [heldRun, narrowMarket, List.mem_cons, TraderEvent.snapshot.injEq, reduceCtorEq, false_or,
      List.not_mem_nil, or_false] at hmem
    rcases hmem with ⟨rfl, -⟩ | ⟨rfl, -⟩
    · decide
    · decide
  have hbounds := Trader.quote_bounds t hvisits
  exact ⟨t, t', hrun, hstage, ht', hbounds.1, hbounds.2.2.1 ⟨3, 1⟩ [] t' hstage⟩

end HftPipeline
