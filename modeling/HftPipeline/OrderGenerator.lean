import HftPipeline.Clob
import HftPipeline.RandomContainer

/-!
# The market request generator

`MarketRequestGenerator` and the book it posts to. Its functions call each other and loop
until a container has some size, so a state holds the calls that have not returned, and a
step goes from one loop head or call to the next. An undefined access of the book is `none`.
-/
namespace HftPipeline

/-! ## Configuration -/

/-- `config::CANCEL_PROBABILITY`, the number that the literal 0.4 stands for. -/
def cancelProbability : ℚ := 7205759403792794 / 2 ^ 54

/-- `config::CANCEL_PROBABILITY + config::BUY_PROBABILITY`, rounded. -/
def cancelOrBuyProbability : ℚ := 6305039478318694 / 2 ^ 53

/-- `config::AGGRESSIVE_ORDER_PROBABILITY`. -/
def aggressiveOrderProbability : ℚ := 5764607523034235 / 2 ^ 58

/-- `NORMALIZED_BUY_SELL_PROBABILITY`, which is exact. -/
def normalizedBuySellProbability : ℚ := 1 / 2

def minQuantity : Quantity := 10
def maxQuantity : Quantity := 100
def minLargeQuantity : Quantity := 100
def maxLargeQuantity : Quantity := 600

def minPrice : Price := 1
def maxPrice : Price := 1000
def defaultBuyPrice : Price := 350
def defaultSellPrice : Price := 650
def priceVariance : Price := 10
def largePriceVariance : Price := 20

def maxActiveOrders : Nat := 2 ^ 13
def purgeUntilWhenFull : Nat := 2 ^ 12
def populateWhenEmpty : Nat := 2 ^ 8

def Side.requestType : Side → OrderRequest.Type
  | .buy => .buy
  | .sell => .sell

/-! ## The generator -/

/-- A function that has not returned, and where it is. -/
inductive GeneratorCall where
  /-- `start`, at its loop -/
  | start
  /-- `populate_active_orders`, at its loop -/
  | populateActiveOrders
  /-- `purge_active_orders`, at its loop -/
  | purgeActiveOrders
  /-- `generate_and_post_cancel_request`, at its loop -/
  | cancelRequest
  /-- `generate_and_post_cancel_request`, behind the call of `populate_active_orders` -/
  | cancelPopulated
  /-- `generate_and_post_new_order_request`, at its beginning -/
  | newOrderRequest (side : Side)
  /-- `generate_and_post_new_order_request`, behind the call of `purge_active_orders` -/
  | postNewOrder (side : Side)
  deriving DecidableEq, Repr

structure MarketRequestGenerator (source : RandomSource) where
  calls : List GeneratorCall
  activeOrderIds : RandomContainer ID maxActiveOrders
  clob : Clob
  generator : source.State

/-- The two prices between which `generate_price` draws. -/
def priceRange (snapshot : OrderSnapshot) (side : Side) (aggressive : Bool) : Price × Price :=
  let bestBid := if snapshot.bestBid.price = noBid then defaultBuyPrice else snapshot.bestBid.price
  let bestAsk := if snapshot.bestOffer.price = noOffer then defaultSellPrice else snapshot.bestOffer.price
  let variance := if aggressive then largePriceVariance else priceVariance
  let (low, high) := match side, aggressive with
    | .buy, false => (bestBid - variance, bestBid + variance)
    | .sell, false => (bestAsk - variance, bestAsk + variance)
    | .buy, true => (bestAsk, bestAsk + variance)
    | .sell, true => (bestBid - variance, bestBid)
  (max low minPrice, min high maxPrice)

namespace MarketRequestGenerator

variable [StdHash Price] [StdHash ID] {source : RandomSource}

def generatePrice (m : MarketRequestGenerator source) (side : Side) (aggressive : Bool) : Price × source.State :=
  let (low, high) := priceRange m.clob.state.snapshot side aggressive
  let (price, g) := source.uniform low.toInt high.toInt m.generator
  (Int32.ofInt price, g)

/-- The price is drawn first. -/
def generateOrderRequest (m : MarketRequestGenerator source) (side : Side) (aggressive : Bool)
    (low high : Quantity) : OrderRequest × source.State :=
  let (price, g) := m.generatePrice side aggressive
  let (quantity, g) := source.uniform low.toNat high.toNat g
  (⟨0, price, UInt32.ofNat quantity.toNat, side.requestType⟩, g)

def generateAggressiveOrderRequest (m : MarketRequestGenerator source) (side : Side) :
    OrderRequest × source.State :=
  m.generateOrderRequest side true minLargeQuantity maxLargeQuantity

def generatePassiveOrderRequest (m : MarketRequestGenerator source) (side : Side) :
    OrderRequest × source.State :=
  m.generateOrderRequest side false minQuantity maxQuantity

/-- The request that is posted next. -/
def newRequest (m : MarketRequestGenerator source) (side : Side) : OrderRequest × source.State :=
  let (value, g) := source.real m.generator
  if value < aggressiveOrderProbability then { m with generator := g }.generateAggressiveOrderRequest side
  else { m with generator := g }.generatePassiveOrderRequest side

/-- What `clob_.submit` makes of it. The matching loop goes round once for a unit at most. -/
def submitNewRequest (m : MarketRequestGenerator source) (side : Side) (token : StopToken) :
    Option (Except Error ID × Clob) :=
  m.clob.submit ((m.newRequest side).1.quantity.toNat + 1) (m.newRequest side).1 token

/-- The part of `generate_and_post_new_order_request` behind the purge. -/
def postNewOrder (m : MarketRequestGenerator source) (side : Side) (token : StopToken) :
    Option (MarketRequestGenerator source) := do
  let (result, clob) ← m.submitNewRequest side token
  let activeOrderIds := match result with
    | .error _ => m.activeOrderIds
    | .ok id => if id ≠ invalidOrderId then (m.activeOrderIds.add id).2 else m.activeOrderIds
  return { m with activeOrderIds, clob, generator := (m.newRequest side).2 }

def generateAndPostNewOrderRequest (m : MarketRequestGenerator source) (side : Side) :
    MarketRequestGenerator source :=
  if m.activeOrderIds.isFull then { m with calls := .purgeActiveOrders :: .postNewOrder side :: m.calls }
  else { m with calls := .postNewOrder side :: m.calls }

/-- The part of a round of `generate_and_post_cancel_request` behind `populate_active_orders`:
orders that were traded are dropped until there is one to cancel. -/
def postCancelRequest (m : MarketRequestGenerator source) (token : StopToken) :
    Option (MarketRequestGenerator source) :=
  if m.activeOrderIds.isEmpty then some m
  else do
    let (id, activeOrderIds, generator) ← m.activeOrderIds.removeRandom m.generator
    let m := { m with activeOrderIds, generator }
    if m.clob.state.orderExists id then do
      let (_, clob) ← m.clob.submit 0 ⟨id, 0, 0, .cancel⟩ token
      return { m with clob }
    else return { m with calls := .cancelRequest :: m.calls }

def generateAndPostCancelRequest (m : MarketRequestGenerator source) (token : StopToken) :
    Option (MarketRequestGenerator source) :=
  let (stopped, token) := token.stopRequested
  if stopped then some m
  else if m.activeOrderIds.isEmpty then
    some { m with calls := .populateActiveOrders :: .cancelPopulated :: m.calls }
  else m.postCancelRequest token

def populateActiveOrders (m : MarketRequestGenerator source) (token : StopToken) :
    MarketRequestGenerator source :=
  if !token.stopRequested.1 && m.activeOrderIds.size < populateWhenEmpty then
    let (value, generator) := source.real m.generator
    let side : Side := if value < normalizedBuySellProbability then .buy else .sell
    { m with calls := .newOrderRequest side :: .populateActiveOrders :: m.calls, generator }
  else m

def purgeActiveOrders (m : MarketRequestGenerator source) (token : StopToken) : MarketRequestGenerator source :=
  if !token.stopRequested.1 && purgeUntilWhenFull < m.activeOrderIds.size then
    { m with calls := .cancelRequest :: .purgeActiveOrders :: m.calls }
  else m

def generateAndPostRandomOrderRequest (m : MarketRequestGenerator source) : MarketRequestGenerator source :=
  let (value, generator) := source.real m.generator
  if value < cancelProbability then { m with calls := .cancelRequest :: m.calls, generator }
  else if value < cancelOrBuyProbability then { m with calls := .newOrderRequest .buy :: m.calls, generator }
  else { m with calls := .newOrderRequest .sell :: m.calls, generator }

def start (m : MarketRequestGenerator source) (token : StopToken) : MarketRequestGenerator source :=
  if token.stopRequested.1 then m
  else generateAndPostRandomOrderRequest { m with calls := .start :: m.calls }

/-- The call on top goes on; it is not among the calls of the state that it gets. -/
def resume (m : MarketRequestGenerator source) (token : StopToken) :
    GeneratorCall → Option (MarketRequestGenerator source)
  | .start => some (m.start token)
  | .populateActiveOrders => some (m.populateActiveOrders token)
  | .purgeActiveOrders => some (m.purgeActiveOrders token)
  | .cancelRequest => m.generateAndPostCancelRequest token
  | .cancelPopulated => m.postCancelRequest token
  | .newOrderRequest side => some (m.generateAndPostNewOrderRequest side)
  | .postNewOrder side => m.postNewOrder side token

def step (m : MarketRequestGenerator source) (token : StopToken) : Option (MarketRequestGenerator source) :=
  match m.calls with
  | [] => some m
  | call :: calls => { m with calls }.resume token call

/-- `start` is called for a new book: it populates before its loop. -/
def new (generator : source.State) : MarketRequestGenerator source :=
  ⟨[.populateActiveOrders, .start], .empty, .init, generator⟩

end MarketRequestGenerator

/-- When the stop is requested: in which step, and behind how many questions for it. -/
abbrev StopMoment := Option (Nat × Nat)

namespace StopMoment

/-- What the token answers in a step. -/
def token (moment : StopMoment) (n : Nat) : StopToken :=
  match moment with
  | none => none
  | some (stopped, questions) => if n < stopped then none else if n = stopped then some questions else some 0

/-- The stop is not requested before a step begins. -/
def Later (moment : StopMoment) (n : Nat) : Prop :=
  match moment with
  | none => True
  | some (stopped, _) => n ≤ stopped

end StopMoment

/-- The state before step `n`. -/
def MarketRequestGenerator.after [StdHash Price] [StdHash ID] {source : RandomSource} (generator : source.State)
    (moment : StopMoment) : Nat → Option (MarketRequestGenerator source)
  | 0 => some (.new generator)
  | n + 1 => (after generator moment n).bind fun m => m.step (moment.token n)

end HftPipeline
