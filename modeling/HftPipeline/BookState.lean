import HftPipeline.ClosedHashMap
import HftPipeline.OrderPool

/-!
# The book

`BookState` as `book-state.cpp` writes it: a pool of resting orders, a map from
price to the two ends of that price's queue, a map from order id to pool slot,
the two price sets and the cached best bid and offer. A dereference of an empty
`find`, an access outside the pool and a full hash map are `none`.
-/
namespace HftPipeline

/-- `config::MAX_CONCURRENT_ORDERS`. -/
def maxConcurrentOrders : Nat := 2 ^ 15

/-- `config::MAX_PRICE_LEVELS * 2` slots are `2 ^ priceLevelBits`. -/
abbrev priceLevelBits : Nat := 14

/-- `config::MAX_CONCURRENT_ORDERS * 2` slots are `2 ^ orderMapBits`. -/
abbrev orderMapBits : Nat := 16

/-- `std::hash` of an integer in libstdc++ is the integer, converted to `size_t`. -/
@[reducible] def priceHash : StdHash Price := ⟨fun price => price.toInt64.toUInt64⟩

@[reducible] def idHash : StdHash ID := ⟨fun id => id⟩

structure PriceLevel where
  head : Nat
  tail : Nat
  totalQuantity : UInt64
  deriving DecidableEq, Repr

instance : Inhabited PriceLevel := ⟨⟨0, 0, 0⟩⟩

structure BestOrderInfo where
  price : Price
  quantity : Quantity
  deriving DecidableEq, Repr

structure OrderSnapshot where
  bestBid : BestOrderInfo
  bestOffer : BestOrderInfo
  deriving DecidableEq, Repr

/-- `BookState::Update`. -/
inductive BookUpdate where
  | noChange | newBestBid | newBestOffer
  deriving DecidableEq, Repr

structure BookState where
  orderPool : OrderPool maxConcurrentOrders
  priceLevels : ClosedHashMap Price PriceLevel priceLevelBits
  orderMap : ClosedHashMap ID Nat orderMapBits
  bids : Finset Price
  offers : Finset Price
  bbo : OrderSnapshot

namespace BookState

variable [StdHash Price] [StdHash ID]

def init : BookState where
  orderPool := .init
  priceLevels := .init
  orderMap := .init
  bids := ∅
  offers := ∅
  bbo := ⟨⟨noBid, 0⟩, ⟨noOffer, 0⟩⟩

def snapshot (s : BookState) : OrderSnapshot := s.bbo

/-- The order at the front of the queue of `price`. -/
def headOrder (s : BookState) (price : Price) : Option Order := do
  let level ← s.priceLevels.find price
  let head ← s.orderPool.get level.head
  return head.order

def bestOpposingOrder (s : BookState) (side : Side) : Option Order :=
  if side = .sell ∧ s.bbo.bestBid.price = noBid then some ⟨invalidOrderId, noBid, 0, .buy⟩
  else if side = .buy ∧ s.bbo.bestOffer.price = noOffer then some ⟨invalidOrderId, noOffer, 0, .sell⟩
  else if side = .sell then do
    let head ← s.headOrder s.bbo.bestBid.price
    return ⟨head.orderId, s.bbo.bestBid.price, head.quantity, .buy⟩
  else do
    let head ← s.headOrder s.bbo.bestOffer.price
    return ⟨head.orderId, s.bbo.bestOffer.price, head.quantity, .sell⟩

def orderExists (s : BookState) (orderId : ID) : Bool := (s.orderMap.find orderId).isSome

def setBestBid (s : BookState) (b : BestOrderInfo) : BookState :=
  { s with bbo := { s.bbo with bestBid := b } }

def setBestOffer (s : BookState) (b : BestOrderInfo) : BookState :=
  { s with bbo := { s.bbo with bestOffer := b } }

def updateBestBidAdd (s : BookState) (order : Order) : BookState × BookUpdate :=
  if s.bbo.bestBid.price < order.price then
    (s.setBestBid ⟨order.price, order.quantity⟩, .newBestBid)
  else if order.price = s.bbo.bestBid.price then
    (s.setBestBid ⟨s.bbo.bestBid.price, s.bbo.bestBid.quantity + order.quantity⟩, .newBestBid)
  else (s, .noChange)

def updateBestOfferAdd (s : BookState) (order : Order) : BookState × BookUpdate :=
  if order.price < s.bbo.bestOffer.price then
    (s.setBestOffer ⟨order.price, order.quantity⟩, .newBestOffer)
  else if order.price = s.bbo.bestOffer.price then
    (s.setBestOffer ⟨s.bbo.bestOffer.price, s.bbo.bestOffer.quantity + order.quantity⟩, .newBestOffer)
  else (s, .noChange)

def updateBboAdd (s : BookState) (order : Order) : BookState × BookUpdate :=
  match order.side with
  | .buy => s.updateBestBidAdd order
  | .sell => s.updateBestOfferAdd order

/-- The total of the level at `price`, cut to the 32 bits of `BestOrderInfo::quantity`. -/
def levelQuantity (s : BookState) (price : Price) : Option Quantity :=
  (s.priceLevels.find price).map fun level => level.totalQuantity.toUInt32

/-- `bids.empty() ? {NO_BID, 0}` and otherwise the first bid with its level's total.
`std::set<Price, std::greater<>>` begins at its greatest element. -/
def firstBid (s : BookState) : Option BestOrderInfo :=
  if s.bids = ∅ then some ⟨noBid, 0⟩
  else (s.levelQuantity (s.bids.max.unbotD noBid)).map fun q => ⟨s.bids.max.unbotD noBid, q⟩

def firstOffer (s : BookState) : Option BestOrderInfo :=
  if s.offers = ∅ then some ⟨noOffer, 0⟩
  else (s.levelQuantity (s.offers.min.untopD noOffer)).map fun q => ⟨s.offers.min.untopD noOffer, q⟩

def updateBestBidReduce (s : BookState) (order : Order) : Option (BookState × BookUpdate) :=
  if order.price = s.bbo.bestBid.price ∧ order.quantity = s.bbo.bestBid.quantity then
    s.firstBid.map fun b => (s.setBestBid b, .newBestBid)
  else if order.price = s.bbo.bestBid.price then
    some (s.setBestBid ⟨s.bbo.bestBid.price, s.bbo.bestBid.quantity - order.quantity⟩, .newBestBid)
  else some (s, .noChange)

def updateBestOfferReduce (s : BookState) (order : Order) : Option (BookState × BookUpdate) :=
  if order.price = s.bbo.bestOffer.price ∧ order.quantity = s.bbo.bestOffer.quantity then
    s.firstOffer.map fun b => (s.setBestOffer b, .newBestOffer)
  else if order.price = s.bbo.bestOffer.price then
    some (s.setBestOffer ⟨s.bbo.bestOffer.price, s.bbo.bestOffer.quantity - order.quantity⟩,
      .newBestOffer)
  else some (s, .noChange)

def updateBboReduce (s : BookState) (order : Order) : Option (BookState × BookUpdate) :=
  match order.side with
  | .buy => s.updateBestBidReduce order
  | .sell => s.updateBestOfferReduce order

def addBidOrOffer (s : BookState) (order : Order) : BookState :=
  match order.side with
  | .buy => { s with bids := insert order.price s.bids }
  | .sell => { s with offers := insert order.price s.offers }

def removeBidOrOffer (s : BookState) (order : Order) : BookState :=
  match order.side with
  | .buy => { s with bids := s.bids.erase order.price }
  | .sell => { s with offers := s.offers.erase order.price }

/-- A new level, or a link from the old tail to the new slot. -/
def enqueue (s : BookState) (order : Order) (orderIndex : Nat) : Option BookState :=
  match s.priceLevels.find order.price with
  | none => do
    let priceLevels ← s.priceLevels.add order.price ⟨orderIndex, orderIndex, order.quantity.toUInt64⟩
    return { s with priceLevels }.addBidOrOffer order
  | some level => do
    let pool ← s.orderPool.modify level.tail fun r => { r with next := orderIndex }
    let pool ← pool.modify orderIndex fun r => { r with previous := level.tail }
    return { s with
      orderPool := pool
      priceLevels := s.priceLevels.set order.price
        ⟨level.head, orderIndex, level.totalQuantity + order.quantity.toUInt64⟩ }

def add (s : BookState) (event : MarketEvent) : Option (BookState × BookUpdate) := do
  let (orderIndex, pool) ← s.orderPool.allocate ⟨event.order, nullIndex, nullIndex⟩
  let orderMap ← s.orderMap.add event.order.orderId orderIndex
  let s ← { s with orderPool := pool, orderMap }.enqueue event.order orderIndex
  return s.updateBboAdd event.order

/-- Joins the neighbours of `order`; a missing neighbour moves an end of the level. -/
def detach (pool : OrderPool maxConcurrentOrders) (order : RestingOrder) (level : PriceLevel) :
    Option (OrderPool maxConcurrentOrders × PriceLevel) := do
  let (pool, level) ←
    if order.previous ≠ nullIndex then
      (pool.modify order.previous fun r => { r with next := order.next }).map fun p => (p, level)
    else some (pool, { level with head := order.next })
  if order.next ≠ nullIndex then
    (pool.modify order.next fun r => { r with previous := order.previous }).map fun p => (p, level)
  else some (pool, { level with tail := order.previous })

/-- The part of `purge_order` that works on the price level. -/
def dequeue (s : BookState) (restingOrder : RestingOrder) : Option BookState := do
  let level ← s.priceLevels.find restingOrder.order.price
  let level := { level with
    totalQuantity := level.totalQuantity - restingOrder.order.quantity.toUInt64 }
  let priceLevels := s.priceLevels.set restingOrder.order.price level
  if level.totalQuantity = 0 then
    return { s with priceLevels := (priceLevels.remove restingOrder.order.price).2 }.removeBidOrOffer
      restingOrder.order
  else
    let (pool, level) ← detach s.orderPool restingOrder level
    return { s with
      orderPool := pool
      priceLevels := priceLevels.set restingOrder.order.price level }

/-- `purge_order(order_index, resting_order)`. -/
def purgeOrderAt (s : BookState) (orderIndex : Nat) (restingOrder : RestingOrder) :
    Option (BookState × BookUpdate) := do
  let s ← s.dequeue restingOrder
  let s := { s with orderMap := (s.orderMap.remove restingOrder.order.orderId).2 }
  let (s, update) ← s.updateBboReduce restingOrder.order
  let pool ← s.orderPool.free orderIndex
  return ({ s with orderPool := pool }, update)

/-- `purge_order(resting_order_id)`. -/
def purgeOrder (s : BookState) (restingOrderId : ID) : Option (BookState × BookUpdate) := do
  let orderIndex ← s.orderMap.find restingOrderId
  let order ← s.orderPool.get orderIndex
  s.purgeOrderAt orderIndex order

def setQuantity (s : BookState) (orderIndex : Nat) (quantity : Quantity) : Option BookState :=
  (s.orderPool.modify orderIndex fun r => { r with order := (r.order.withQuantity quantity) }).map
    fun pool => { s with orderPool := pool }

/-- The level's total goes through `total`, the pool order carries `delta` while the
best prices are adjusted, and then its true quantity. -/
def changeQuantity (s : BookState) (orderIndex : Nat) (restingOrder : RestingOrder)
    (total : UInt64 → UInt64) (delta quantity : Quantity)
    (updateBbo : BookState → Order → Option (BookState × BookUpdate)) :
    Option (BookState × BookUpdate) := do
  let level ← s.priceLevels.find restingOrder.order.price
  let level := { level with totalQuantity := total level.totalQuantity }
  let s := { s with priceLevels := s.priceLevels.set restingOrder.order.price level }
  let s ← s.setQuantity orderIndex delta
  let (s, update) ← updateBbo s (restingOrder.order.withQuantity delta)
  let s ← s.setQuantity orderIndex quantity
  return (s, update)

/-- `trade(resting_order_id, quantity)`. -/
def tradeQuantity (s : BookState) (restingOrderId : ID) (quantity : Quantity) :
    Option (BookState × BookUpdate) := do
  let orderIndex ← s.orderMap.find restingOrderId
  let restingOrder ← s.orderPool.get orderIndex
  if restingOrder.order.quantity = quantity then s.purgeOrderAt orderIndex restingOrder
  else
    s.changeQuantity orderIndex restingOrder (· - quantity.toUInt64) quantity
      (restingOrder.order.quantity - quantity) updateBboReduce

/-- A reduction calls `update_bbo_add` and an increase `update_bbo_reduce`, as written. -/
def updateQuantity (s : BookState) (restingOrderId : ID) (newQuantity : Quantity) :
    Option (BookState × BookUpdate) := do
  let orderIndex ← s.orderMap.find restingOrderId
  let restingOrder ← s.orderPool.get orderIndex
  if newQuantity = 0 then s.purgeOrderAt orderIndex restingOrder
  else if newQuantity < restingOrder.order.quantity then
    let delta := restingOrder.order.quantity - newQuantity
    s.changeQuantity orderIndex restingOrder (· - delta.toUInt64) delta newQuantity
      fun s order => some (s.updateBboAdd order)
  else
    let delta := newQuantity - restingOrder.order.quantity
    s.changeQuantity orderIndex restingOrder (· + delta.toUInt64) delta newQuantity updateBboReduce

def cancel (s : BookState) (event : MarketEvent) : Option (BookState × BookUpdate) :=
  s.purgeOrder event.order.orderId

def trade (s : BookState) (event : MarketEvent) : Option (BookState × BookUpdate) :=
  s.tradeQuantity event.order.orderId event.order.quantity

def update (s : BookState) (event : MarketEvent) : Option (BookState × BookUpdate) :=
  s.updateQuantity event.order.orderId event.order.quantity

def execute (s : BookState) (event : MarketEvent) : Option (BookState × BookUpdate) :=
  match event.type with
  | .add => s.add event
  | .cancel => s.cancel event
  | .trade => s.trade event
  | .update => s.update event

/-- The states along a list of events, or `none` if one of them has no defined effect. -/
def executeAll (s : BookState) (events : List MarketEvent) : Option BookState :=
  events.foldlM (fun s event => (s.execute event).map Prod.fst) s

end BookState

end HftPipeline
