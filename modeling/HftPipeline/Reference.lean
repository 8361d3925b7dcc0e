import HftPipeline.BestPrices
import HftPipeline.Clob

/-!
# Price-time priority, as a reference

What the matching engine is for: a matcher over the plain list of resting
orders in arrival order. It knows nothing of pools, maps and caches; ids come
from an unbounded counter. Quantity updates are no part of it.
-/
namespace HftPipeline

/-- An incoming order of `side` at `price` may trade with an opposing order at `p`. -/
def Side.Crosses : Side → Price → Price → Prop
  | .buy, price, p => p ≤ price
  | .sell, price, p => price ≤ p

instance (side : Side) (price p : Price) : Decidable (side.Crosses price p) :=
  match side with
  | .buy => inferInstanceAs (Decidable (p ≤ price))
  | .sell => inferInstanceAs (Decidable (price ≤ p))

/-- The oldest among the best-priced orders of `side`. -/
def bestOf (side : Side) (orders : List Order) : Option Order :=
  orders.find? fun o => o.side = side ∧ ∀ o' ∈ orders, o'.side = side → ¬ side.Better o'.price o.price

/-- At most `n` trades of an incoming order with `quantity` left: each is with the best
opposing order, at its price, for the smaller of the two quantities. -/
def fill (side : Side) (price : Price) :
    Nat → Quantity → List Order → List MarketEvent × Quantity × List Order
  | 0, quantity, orders => ([], quantity, orders)
  | n + 1, quantity, orders =>
    match bestOf side.opposite orders with
    | none => ([], quantity, orders)
    | some best =>
      if quantity ≠ 0 ∧ side.Crosses price best.price then
        let traded := min quantity best.quantity
        let (events, left, orders) :=
          fill side price n (quantity - traded) (amend best.orderId (Order.reduceBy traded) orders)
        (⟨⟨best.orderId, best.price, traded, best.side⟩, .trade⟩ :: events, left, orders)
      else ([], quantity, orders)

structure Reference where
  nextId : Nat
  orders : List Order
  deriving DecidableEq, Repr

namespace Reference

def init : Reference := ⟨1, []⟩

/-- Every trade takes at least one unit, so as many trades are allowed as there are units. -/
def place (r : Reference) (side : Side) (price : Price) (quantity : Quantity) :
    Except Error Nat × List MarketEvent × Reference :=
  let (events, left, orders) := fill side price quantity.toNat quantity r.orders
  if left = 0 then (.ok 0, events, { r with orders })
  else
    let order : Order := ⟨UInt64.ofNat r.nextId, price, left, side⟩
    (.ok r.nextId, events ++ [⟨order, .add⟩], ⟨r.nextId + 1, orders ++ [order]⟩)

def submit (r : Reference) (request : OrderRequest) : Except Error Nat × List MarketEvent × Reference :=
  match request.type with
  | .buy => r.place .buy request.price request.quantity
  | .sell => r.place .sell request.price request.quantity
  | .cancel =>
    if request.orderId ∈ r.orders.map Order.orderId then
      (.ok 0, [Clob.cancelEvent request.orderId],
        { r with orders := r.orders.filter fun o => o.orderId ≠ request.orderId })
    else (.error .orderDoesNotExist, [], r)
  | .update => (.error .invalidOrderRequest, [], r)

def run (r : Reference) : List OrderRequest → List (Except Error Nat) × List MarketEvent × Reference
  | [] => ([], [], r)
  | request :: requests =>
    let (result, events, r) := r.submit request
    let (results, events', r) := r.run requests
    (result :: results, events ++ events', r)

/-- The capacity of the book. -/
def Fits (r : Reference) : Prop := r.orders.length ≤ 2 ^ 15 ∧ (restingPrices r.orders).card ≤ 2 ^ 14

/-- The capacity is respected after every request. -/
def RunFits (r : Reference) : List OrderRequest → Prop
  | [] => True
  | request :: requests => (r.submit request).2.2.Fits ∧ (r.submit request).2.2.RunFits requests

instance (r : Reference) : Decidable r.Fits := inferInstanceAs (Decidable (_ ∧ _))

def decideRunFits : (r : Reference) → (requests : List OrderRequest) → Decidable (r.RunFits requests)
  | _, [] => inferInstanceAs (Decidable True)
  | r, request :: requests =>
    have := decideRunFits (r.submit request).2.2 requests
    inferInstanceAs (Decidable (_ ∧ _))

instance (r : Reference) (requests : List OrderRequest) : Decidable (r.RunFits requests) :=
  decideRunFits r requests

theorem run_append (r : Reference) (a b : List OrderRequest) :
    r.run (a ++ b) = ((r.run a).1 ++ ((r.run a).2.2.run b).1,
      (r.run a).2.1 ++ ((r.run a).2.2.run b).2.1, ((r.run a).2.2.run b).2.2) := by
  induction a generalizing r with
  | nil => rfl
  | cons request a ih => simp [run, ih]

theorem runFits_append (r : Reference) (a b : List OrderRequest) :
    r.RunFits (a ++ b) ↔ r.RunFits a ∧ (r.run a).2.2.RunFits b := by
  induction a generalizing r with
  | nil => simp [RunFits, run]
  | cons request a ih => simp [RunFits, run, ih, and_assoc]

/-- Ids are only ever used up. -/
theorem nextId_le_submit (r : Reference) (request : OrderRequest) : r.nextId ≤ (r.submit request).2.2.nextId := by
  have hplace : ∀ side, r.nextId ≤ (r.place side request.price request.quantity).2.2.nextId := by
    intro side
    simp only [place]
    split <;> simp
  rw [submit]
  split
  · exact hplace .buy
  · exact hplace .sell
  · split <;> exact Nat.le_refl _
  · exact Nat.le_refl _

theorem nextId_le_run (r : Reference) (requests : List OrderRequest) :
    r.nextId ≤ (r.run requests).2.2.nextId := by
  induction requests generalizing r with
  | nil => exact Nat.le_refl _
  | cons request requests ih => exact Nat.le_trans (r.nextId_le_submit request) (ih _)

end Reference

theorem Side.crosses_iff (side : Side) (price p : Price) : side.Crosses price p ↔ ¬ side.Better p price := by
  cases side with
  | buy => exact not_lt.symm
  | sell => exact not_lt.symm

/-- The two sides order prices in opposite ways. -/
theorem Side.better_opposite (side : Side) (p q : Price) : side.opposite.Better p q ↔ side.Better q p := by
  cases side <;> rfl

theorem bestOf_spec {side : Side} {orders : List Order} {o : Order} (h : bestOf side orders = some o) :
    o ∈ orders ∧ o.side = side ∧ ∀ o' ∈ orders, o'.side = side → ¬ side.Better o'.price o.price := by
  have hp := List.find?_some h
  simp only [decide_eq_true_eq] at hp
  exact ⟨List.mem_of_find?_eq_some h, hp⟩

/-- If the best opposing order does not cross, none does. -/
theorem not_crosses_of_best {side : Side} {orders : List Order} {best : Order} {price : Price}
    (h : bestOf side.opposite orders = some best) (hnot : ¬ side.Crosses price best.price) {o : Order}
    (ho : o ∈ orders) (hside : o.side = side.opposite) : ¬ side.Crosses price o.price := by
  have hbest := (bestOf_spec h).2.2 o ho hside
  rw [Side.better_opposite] at hbest
  rw [Side.crosses_iff, not_not] at hnot ⊢
  rcases Side.better_trichotomy side best.price o.price with hb | he | hb
  · exact absurd hb hbest
  · rwa [← he]
  · exact Side.better_trans hb hnot

end HftPipeline
