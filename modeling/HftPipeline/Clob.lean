import HftPipeline.BookState

/-!
# The central limit order book

`CentralLimitOrderBook` of `clob.cpp`: an incoming order trades with the best
opposing order as long as it crosses one, and what is left of it rests. The
event buffer is the list of everything published so far. The loop runs on fuel;
running out of it, and every undefined access of the book, is `none`.
-/
namespace HftPipeline

/-- What a stop token is going to answer: `some n` reports the stop after `n` more
questions and from then on, `none` never does. -/
abbrev StopToken := Option Nat

namespace StopToken

def stopRequested : StopToken → Bool × StopToken
  | none => (false, none)
  | some 0 => (true, some 0)
  | some (n + 1) => (false, some n)

/-- `wait_get_head_ref(stop_token)`: asks the token until a slot is free, so it comes back
either with a slot or, without one, after the stop. -/
def waitGetHeadRef (token : StopToken) : Bool × StopToken :=
  ((!token.stopRequested.1), token.stopRequested.2)

theorem stopRequested_spec (token : StopToken) :
    token.stopRequested = (false, token.stopRequested.2) ∧ token ≠ some 0 ∨
      token.stopRequested = (true, some 0) ∧ token = some 0 := by
  match token with
  | none => exact Or.inl ⟨rfl, by simp⟩
  | some 0 => exact Or.inr ⟨rfl, rfl⟩
  | some (n + 1) => exact Or.inl ⟨rfl, by simp⟩

end StopToken

structure Clob where
  nextOrderId : ID
  state : BookState
  published : List MarketEvent

namespace Clob

variable [StdHash Price] [StdHash ID]

def init : Clob := ⟨1, .init, []⟩

def publish (c : Clob) (event : MarketEvent) (state : BookState) : Clob :=
  { c with state, published := c.published ++ [event] }

/-- The test of `execute_trade` for "there is nothing to trade with". -/
def NoTrade (newOrder bestResting : Order) : Prop :=
  bestResting.orderId = invalidOrderId ∨
    newOrder.side = .buy ∧ newOrder.price < bestResting.price ∨
    newOrder.side = .sell ∧ bestResting.price < newOrder.price

instance (newOrder bestResting : Order) : Decidable (NoTrade newOrder bestResting) :=
  inferInstanceAs (Decidable (_ ∨ _ ∨ _))

def tradeEvent (bestResting : Order) (quantity : Quantity) : MarketEvent :=
  ⟨⟨bestResting.orderId, bestResting.price, quantity, bestResting.side⟩, .trade⟩

def executeTrade (c : Clob) (newOrder : Order) (token : StopToken) :
    Option (Bool × Clob × Order × StopToken) :=
  let (stopped, token) := token.stopRequested
  if stopped then some (false, c, newOrder, token)
  else do
    let bestResting ← c.state.bestOpposingOrder newOrder.side
    if NoTrade newOrder bestResting then some (false, c, newOrder, token)
    else
      let quantity := min newOrder.quantity bestResting.quantity
      let (slot, token) := token.waitGetHeadRef
      if slot then do
        let trade := tradeEvent bestResting quantity
        let (state, _) ← c.state.trade trade
        some (true, c.publish trade state, newOrder.withQuantity (newOrder.quantity - quantity), token)
      else some (false, c, newOrder, token)

/-- `while(order.quantity != 0 && execute_trade(order, stop_token));` -/
def matchLoop : Nat → Clob → Order → StopToken → Option (Clob × Order × StopToken)
  | 0, _, _, _ => none
  | fuel + 1, c, order, token =>
    if order.quantity = 0 then some (c, order, token)
    else do
      let (traded, c, order, token) ← c.executeTrade order token
      if traded then matchLoop fuel c order token else some (c, order, token)

def addOrder (c : Clob) (newOrder : Order) (token : StopToken) : Option Clob :=
  if token.waitGetHeadRef.1 then do
    let add : MarketEvent := ⟨newOrder, .add⟩
    let (state, _) ← c.state.add add
    return c.publish add state
  else some c

/-- The common body of `buy_order` and `sell_order`. -/
def placeOrder (fuel : Nat) (side : Side) (c : Clob) (request : OrderRequest) (token : StopToken) :
    Option (ID × Clob) :=
  if request.quantity = 0 then some (invalidOrderId, c)
  else do
    let (c, order, token) ← c.matchLoop fuel ⟨0, request.price, request.quantity, side⟩ token
    if order.quantity = 0 then some (invalidOrderId, c)
    else
      let (stopped, token) := token.stopRequested
      if stopped then some (invalidOrderId, c)
      else do
        let order := { order with orderId := c.nextOrderId }
        let c ← { c with nextOrderId := c.nextOrderId + 1 }.addOrder order token
        return (order.orderId, c)

def buyOrder (fuel : Nat) : Clob → OrderRequest → StopToken → Option (ID × Clob) := placeOrder fuel .buy

def sellOrder (fuel : Nat) : Clob → OrderRequest → StopToken → Option (ID × Clob) := placeOrder fuel .sell

/-- `Order { .order_id = ... }` leaves the other fields zero. -/
def cancelEvent (id : ID) : MarketEvent := ⟨{ Order.zero with orderId := id }, .cancel⟩

def updateEvent (id : ID) (quantity : Quantity) : MarketEvent :=
  ⟨{ Order.zero with orderId := id, quantity := quantity }, .update⟩

def cancelOrder (c : Clob) (request : OrderRequest) (token : StopToken) : Option (Except Error Unit × Clob) :=
  if !c.state.orderExists request.orderId then some (.error .orderDoesNotExist, c)
  else if token.waitGetHeadRef.1 then do
    let canceledOrder := cancelEvent request.orderId
    let (state, _) ← c.state.cancel canceledOrder
    return (.ok (), c.publish canceledOrder state)
  else some (.ok (), c)

def updateOrder (c : Clob) (request : OrderRequest) (token : StopToken) : Option (Except Error Unit × Clob) :=
  if !c.state.orderExists request.orderId then some (.error .orderDoesNotExist, c)
  else if token.waitGetHeadRef.1 then do
    let updatedOrder := updateEvent request.orderId request.quantity
    let (state, _) ← c.state.update updatedOrder
    return (.ok (), c.publish updatedOrder state)
  else some (.ok (), c)

def submit (fuel : Nat) (c : Clob) (request : OrderRequest) (token : StopToken) :
    Option (Except Error ID × Clob) :=
  match request.type with
  | .buy => (c.buyOrder fuel request token).map fun (id, c) => (.ok id, c)
  | .sell => (c.sellOrder fuel request token).map fun (id, c) => (.ok id, c)
  | .cancel =>
    (c.cancelOrder request token).map fun (result, c) => (result.map fun _ => invalidOrderId, c)
  | .update =>
    (c.updateOrder request token).map fun (result, c) => (result.map fun _ => request.orderId, c)

/-- A sequence of `submit` calls, each with the token it is given. -/
def submitAll (fuel : Nat) (c : Clob) : List (OrderRequest × StopToken) →
    Option (List (Except Error ID) × Clob)
  | [] => some ([], c)
  | (request, token) :: calls => do
    let (result, c) ← c.submit fuel request token
    let (results, c) ← submitAll fuel c calls
    return (result :: results, c)

/-- A run that completes is a call and a run. -/
theorem submitAll_cons {fuel : Nat} {c c' : Clob} {call : OrderRequest × StopToken}
    {calls : List (OrderRequest × StopToken)} {results : List (Except Error ID)}
    (h : c.submitAll fuel (call :: calls) = some (results, c')) :
    ∃ result c₁ rest, c.submit fuel call.1 call.2 = some (result, c₁) ∧
      c₁.submitAll fuel calls = some (rest, c') ∧ results = result :: rest := by
  rw [submitAll] at h
  obtain ⟨⟨result, c₁⟩, hsubmit, h⟩ := Option.bind_eq_some_iff.mp h
  obtain ⟨⟨rest, c₂⟩, hrest, h⟩ := Option.bind_eq_some_iff.mp h
  cases h
  exact ⟨result, c₁, rest, hsubmit, hrest, rfl⟩

/-! ## What one call can do -/

/-- `execute_trade` either leaves everything alone, because of the stop or because there is
nothing to trade with, or trades with the best opposing order. -/
theorem executeTrade_cases {c c' : Clob} {order order' : Order} {token token' : StopToken} {traded : Bool}
    (h : c.executeTrade order token = some (traded, c', order', token')) :
    (traded = false ∧ c' = c ∧ order' = order ∧
      (token' = some 0 ∨
        ∃ best, c.state.bestOpposingOrder order.side = some best ∧ NoTrade order best)) ∨
    (traded = true ∧ ∃ best state u, c.state.bestOpposingOrder order.side = some best ∧
      ¬ NoTrade order best ∧
      c.state.trade (tradeEvent best (min order.quantity best.quantity)) = some (state, u) ∧
      c' = c.publish (tradeEvent best (min order.quantity best.quantity)) state ∧
      order' = order.withQuantity (order.quantity - min order.quantity best.quantity)) := by
  rw [executeTrade] at h
  rcases StopToken.stopRequested_spec token with ⟨hgo, -⟩ | ⟨hstop, -⟩
  · rw [hgo] at h
    simp only [Bool.false_eq_true, ↓reduceIte, Option.bind_eq_bind] at h
    obtain ⟨best, hbest, h⟩ := Option.bind_eq_some_iff.mp h
    split at h
    · next hno =>
      cases h
      exact Or.inl ⟨rfl, rfl, rfl, Or.inr ⟨best, hbest, hno⟩⟩
    · next hno =>
      rcases StopToken.stopRequested_spec token.stopRequested.2 with ⟨hgo', -⟩ | ⟨hstop, -⟩
      · rw [StopToken.waitGetHeadRef, hgo'] at h
        simp only [Bool.not_false, ↓reduceIte] at h
        obtain ⟨⟨state, u⟩, htrade, h⟩ := Option.bind_eq_some_iff.mp h
        cases h
        exact Or.inr ⟨rfl, best, state, u, hbest, hno, htrade, rfl, rfl⟩
      · rw [StopToken.waitGetHeadRef, hstop] at h
        cases h
        exact Or.inl ⟨rfl, rfl, rfl, Or.inl rfl⟩
  · rw [hstop] at h
    cases h
    exact Or.inl ⟨rfl, rfl, rfl, Or.inl rfl⟩

end Clob

end HftPipeline
