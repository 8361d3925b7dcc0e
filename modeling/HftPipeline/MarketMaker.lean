import HftPipeline.BookState

/-!
# The passive market maker

`PassiveMarketMaker`, the requests it stages and the risk data they are judged by.
Arithmetic on prices, quantities and positions is that of the C++ types, a signed
operation that overflows wraps. A failed assertion is `none`.
-/
namespace HftPipeline

structure OrderFillUpdate where
  orderId : ID
  filledQuantity : Quantity
  deriving DecidableEq, Repr

inductive QuantityChange where
  | notAnUpdate | reducing | increasing
  deriving DecidableEq, Repr

structure OutboundOrderRequest where
  request : OrderRequest
  quantityChange : QuantityChange
  previousQuantity : Quantity
  side : Side
  deriving DecidableEq, Repr

/-- `RiskData`, less the two counts that no check reads. -/
structure RiskData where
  netPosition : Int64
  realizedPnl : Int64
  unrealizedPnl : Int64
  ordersSentInWindow : UInt32
  maxPosition : Int64
  maxLossAllowed : Int64
  maxOrdersPerWindow : UInt32
  isHalted : Bool
  deriving DecidableEq, Repr

inductive OrderStatus where
  | good | stopped | halted | tooManyOrders | tooMuchExposure | tooMuchLoss
  deriving DecidableEq, Repr

namespace StrategyConfig

def strategyOrderBufferSize : Nat := 2 ^ 5
def minTickDiff : Price := 1
def oneSidedMinSpread : Price := 3
def oneSidedMaxSpread : Price := 10
def maxAllowedDrift : Price := 2
def marketMakerOrderQuantity : Quantity := 75
def minMarketMakerOrderQuantity : Quantity := 25
def exposureRebalanceThreshold : Quantity := 25
def maxAdditionalExitQuantity : Quantity := 150
def minBidPrice : Price := 1

end StrategyConfig

/-- A quantity as an `int64_t`. -/
def Quantity.toPosition (quantity : Quantity) : Int64 := Int64.ofNat quantity.toNat

/-- `StrategyOrderBuffer`, oldest request first. -/
abbrev StrategyOrderBuffer := List OutboundOrderRequest

namespace StrategyOrderBuffer

def available (buffer : StrategyOrderBuffer) : Nat := StrategyConfig.strategyOrderBufferSize - buffer.length

def tryPush (buffer : StrategyOrderBuffer) (item : OutboundOrderRequest) : Option StrategyOrderBuffer :=
  if buffer.length = StrategyConfig.strategyOrderBufferSize then none else some (buffer ++ [item])

end StrategyOrderBuffer

/-- `PlacedOrder::Status`. -/
inductive PlacedOrder.Status where
  | notPlaced | placed
  deriving DecidableEq, Repr

structure PlacedOrder where
  status : PlacedOrder.Status
  placedOrder : Order
  deriving DecidableEq, Repr

namespace PlacedOrder

def newOrderRequest (o : PlacedOrder) : OutboundOrderRequest where
  request :=
    ⟨o.placedOrder.orderId, o.placedOrder.price, o.placedOrder.quantity,
      if o.placedOrder.side = .buy then .buy else .sell⟩
  quantityChange := .notAnUpdate
  previousQuantity := 0
  side := o.placedOrder.side

def cancelRequest (o : PlacedOrder) : OutboundOrderRequest where
  request := ⟨o.placedOrder.orderId, 0, 0, .cancel⟩
  quantityChange := .notAnUpdate
  previousQuantity := 0
  side := o.placedOrder.side

def updateRequest (o : PlacedOrder) (quantity : Quantity) : OutboundOrderRequest where
  request := ⟨o.placedOrder.orderId, 0, quantity, .update⟩
  quantityChange := if o.placedOrder.quantity < quantity then .increasing else .reducing
  previousQuantity := o.placedOrder.quantity
  side := o.placedOrder.side

def withQuantity (o : PlacedOrder) (quantity : Quantity) : PlacedOrder :=
  { o with placedOrder := o.placedOrder.withQuantity quantity }

end PlacedOrder

/-- The strategy with `ClientOrderIDGenerator::next_client_id_`, which only it uses. -/
structure PassiveMarketMaker where
  buyOrder : PlacedOrder
  sellOrder : PlacedOrder
  netFilledQuantity : Int64
  nextClientId : ID
  deriving DecidableEq, Repr

namespace PassiveMarketMaker

open StrategyConfig

def init : PassiveMarketMaker := ⟨⟨.notPlaced, .zero⟩, ⟨.notPlaced, .zero⟩, 0, 1⟩

/-- The member `buy_order_` or `sell_order_`. -/
def order (m : PassiveMarketMaker) : Side → PlacedOrder
  | .buy => m.buyOrder
  | .sell => m.sellOrder

def setOrder (m : PassiveMarketMaker) (side : Side) (o : PlacedOrder) : PassiveMarketMaker :=
  match side with
  | .buy => { m with buyOrder := o }
  | .sell => { m with sellOrder := o }

/-- How many of the two orders are placed. -/
def placedCount (m : PassiveMarketMaker) : Nat :=
  (if m.buyOrder.status = .placed then 1 else 0) + (if m.sellOrder.status = .placed then 1 else 0)

def midpoint (bid offer : Price) : Price := (offer + bid) / 2

/-- The bid and the offer of a new pair. -/
def priceNewOrderPair (bbo : OrderSnapshot) : Option (Price × Price) :=
  if bbo.bestBid.price = noBid ∨ bbo.bestOffer.price = noOffer ∨
      bbo.bestOffer.price ≤ bbo.bestBid.price then none
  else
    let potentialOffer := bbo.bestOffer.price - minTickDiff
    let potentialBid := bbo.bestBid.price + minTickDiff
    if potentialOffer - potentialBid < oneSidedMinSpread * 2 then none
    else
      let midpoint := midpoint bbo.bestBid.price bbo.bestOffer.price
      some (max (midpoint - oneSidedMaxSpread) potentialBid, min (midpoint + oneSidedMaxSpread) potentialOffer)

def shouldPlaceNewOrders (m : PassiveMarketMaker) (bbo : OrderSnapshot) : Bool :=
  if m.buyOrder.status = .notPlaced ∨ m.sellOrder.status = .notPlaced then true
  else
    let midpoint' := midpoint bbo.bestBid.price bbo.bestOffer.price
    let quotedMidpoint := midpoint m.sellOrder.placedOrder.price m.buyOrder.placedOrder.price
    maxAllowedDrift < (midpoint' - quotedMidpoint).abs

def queueCancel (m : PassiveMarketMaker) (side : Side) (buffer : StrategyOrderBuffer) :
    Option (PassiveMarketMaker × StrategyOrderBuffer) :=
  if (m.order side).status ≠ .placed then some (m, buffer)
  else do
    let buffer ← buffer.tryPush (m.order side).cancelRequest
    return (m.setOrder side { m.order side with status := .notPlaced }, buffer)

def queueCancelOrders (m : PassiveMarketMaker) (buffer : StrategyOrderBuffer) :
    Option (Bool × PassiveMarketMaker × StrategyOrderBuffer) :=
  if buffer.available < m.placedCount then some (false, m, buffer)
  else do
    let (m, buffer) ← m.queueCancel .buy buffer
    let (m, buffer) ← m.queueCancel .sell buffer
    return (true, m, buffer)

/-- `ClientOrderIDGenerator::generate`. -/
def generate (m : PassiveMarketMaker) : ID × PassiveMarketMaker :=
  (m.nextClientId, { m with nextClientId := m.nextClientId + 1 })

def queueNewOrderPair (m : PassiveMarketMaker) (bbo : OrderSnapshot) (buffer : StrategyOrderBuffer) :
    Option (Bool × PassiveMarketMaker × StrategyOrderBuffer) :=
  if m.buyOrder.status = .notPlaced ∧ m.sellOrder.status = .notPlaced then
    match priceNewOrderPair bbo with
    | none => some (true, m, buffer)
    | some (bidPrice, offerPrice) =>
      if bidPrice < minBidPrice then some (true, m, buffer)
      else if buffer.available < 2 then some (false, m, buffer)
      else do
        let (buyId, m) := m.generate
        let m := m.setOrder .buy ⟨.placed, ⟨buyId, bidPrice, marketMakerOrderQuantity, .buy⟩⟩
        let (sellId, m) := m.generate
        let m := m.setOrder .sell ⟨.placed, ⟨sellId, offerPrice, marketMakerOrderQuantity, .sell⟩⟩
        let buffer ← buffer.tryPush m.buyOrder.newOrderRequest
        let buffer ← buffer.tryPush m.sellOrder.newOrderRequest
        return (true, m, buffer)
  else none

def queueQuantityUpdate (m : PassiveMarketMaker) (side : Side) (quantity : Quantity)
    (buffer : StrategyOrderBuffer) : Bool × PassiveMarketMaker × StrategyOrderBuffer :=
  let order := m.order side
  if order.status ≠ .placed ∨ order.placedOrder.quantity = quantity then (true, m, buffer)
  else
    match buffer.tryPush (order.updateRequest quantity) with
    | none => (false, m, buffer)
    | some buffer => (true, m.setOrder side (order.withQuantity quantity), buffer)

/-- The quantity to quote on the side that adds to the position. -/
def entryQuantity (imbalance : Quantity) : Quantity :=
  max minMarketMakerOrderQuantity
    (if imbalance < marketMakerOrderQuantity then marketMakerOrderQuantity - imbalance else 0)

/-- The quantity to quote on the side that reduces it. -/
def exitQuantity (imbalance : Quantity) : Quantity := marketMakerOrderQuantity + imbalance

def rebalanceExposure (m : PassiveMarketMaker) (buffer : StrategyOrderBuffer) :
    PassiveMarketMaker × StrategyOrderBuffer :=
  if m.netFilledQuantity.abs < exposureRebalanceThreshold.toPosition then (m, buffer)
  else
    let imbalance : Quantity :=
      (min m.netFilledQuantity.abs maxAdditionalExitQuantity.toPosition).toUInt64.toUInt32
    let (bid, offer) :=
      if 0 < m.netFilledQuantity then (entryQuantity imbalance, exitQuantity imbalance)
      else (exitQuantity imbalance, entryQuantity imbalance)
    let (_, m, buffer) := m.queueQuantityUpdate .buy bid buffer
    let (_, m, buffer) := m.queueQuantityUpdate .sell offer buffer
    (m, buffer)

def getOrders (m : PassiveMarketMaker) (bbo : OrderSnapshot) (buffer : StrategyOrderBuffer) :
    Option (PassiveMarketMaker × StrategyOrderBuffer) :=
  if ¬ m.shouldPlaceNewOrders bbo then some (m, buffer)
  else if buffer.available < m.placedCount + 2 then some (m, buffer)
  else do
    let (queued, m, buffer) ← m.queueCancelOrders buffer
    if ¬ queued then return (m, buffer)
    let (_, m, buffer) ← m.queueNewOrderPair bbo buffer
    return (m, buffer)

/-- The placed order with an id. -/
def placedSide (m : PassiveMarketMaker) (id : ID) : Option Side :=
  if m.buyOrder.status = .placed ∧ m.buyOrder.placedOrder.orderId = id then some .buy
  else if m.sellOrder.status = .placed ∧ m.sellOrder.placedOrder.orderId = id then some .sell
  else none

/-- What `update` does to the order it has found, before it rebalances. -/
def applyFill (m : PassiveMarketMaker) (side : Side) (filledQuantity : Quantity) : PassiveMarketMaker :=
  let order := m.order side
  let filled := min filledQuantity order.placedOrder.quantity
  let net := match order.placedOrder.side with
    | .buy => m.netFilledQuantity + filled.toPosition
    | .sell => m.netFilledQuantity - filled.toPosition
  let order := order.withQuantity (order.placedOrder.quantity - filled)
  let order := if order.placedOrder.quantity = 0 then { order with status := .notPlaced } else order
  { m with netFilledQuantity := net }.setOrder side order

def update (m : PassiveMarketMaker) (u : OrderFillUpdate) (buffer : StrategyOrderBuffer) :
    PassiveMarketMaker × StrategyOrderBuffer :=
  match m.placedSide u.orderId with
  | none => (m, buffer)
  | some side => (m.applyFill side u.filledQuantity).rebalanceExposure buffer

def cancelForRisk (m : PassiveMarketMaker) (rejected : OutboundOrderRequest) (buffer : StrategyOrderBuffer) :
    PassiveMarketMaker × StrategyOrderBuffer :=
  let order := m.order rejected.side
  if order.status ≠ .placed then (m, buffer)
  else
    match buffer.tryPush order.cancelRequest with
    | none => (m, buffer)
    | some buffer => (m.setOrder rejected.side { order with status := .notPlaced }, buffer)

/-- What `notify_invalid` undoes of the request that was rejected. -/
def undo (m : PassiveMarketMaker) (rejected : OutboundOrderRequest) : PassiveMarketMaker :=
  let id := rejected.request.orderId
  match rejected.request.type with
  | .update =>
    if id = m.buyOrder.placedOrder.orderId then
      m.setOrder .buy (m.buyOrder.withQuantity rejected.previousQuantity)
    else if id = m.sellOrder.placedOrder.orderId then
      m.setOrder .sell (m.sellOrder.withQuantity rejected.previousQuantity)
    else m
  | .buy =>
    if m.buyOrder.placedOrder.orderId = id then m.setOrder .buy { m.buyOrder with status := .notPlaced } else m
  | .sell =>
    if m.sellOrder.placedOrder.orderId = id then m.setOrder .sell { m.sellOrder with status := .notPlaced }
    else m
  | .cancel => m

def notifyInvalid (m : PassiveMarketMaker) (rejected : OutboundOrderRequest) (reason : OrderStatus)
    (buffer : StrategyOrderBuffer) : Option (PassiveMarketMaker × StrategyOrderBuffer) :=
  let m := m.undo rejected
  match reason with
  | .halted | .tooMuchLoss => do
    let (_, m, buffer) ← m.queueCancelOrders buffer
    return (m, buffer)
  | .tooMuchExposure => some (m.cancelForRisk rejected buffer)
  | .good | .stopped | .tooManyOrders => some (m, buffer)

end PassiveMarketMaker

end HftPipeline
