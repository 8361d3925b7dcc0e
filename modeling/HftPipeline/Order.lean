import Mathlib

/-!
# Orders, market events and order requests

The plain data of the exchange: every field has the width of the C++ type it
comes from, so a value of the model is a value the program can hold.
-/

/-- `Order::Price` is compared by the book and by the matching loop. -/
instance priceLinearOrder : LinearOrder Int32 where
  le_refl := Int32.le_refl
  le_trans := fun _ _ _ => Int32.le_trans
  lt_iff_le_not_ge := fun a b => by
    rw [Int32.lt_iff_toInt_lt, Int32.le_iff_toInt_le, Int32.le_iff_toInt_le]
    omega
  le_antisymm := fun _ _ => Int32.le_antisymm
  le_total := Int32.le_total
  toDecidableLE := fun a b => inferInstanceAs (Decidable (a ≤ b))
  toDecidableEq := instDecidableEqInt32
  toDecidableLT := fun a b => inferInstanceAs (Decidable (a < b))

namespace HftPipeline

inductive Side where
  | buy | sell
  deriving DecidableEq, Repr

/-- The side an incoming order trades against. -/
def Side.opposite : Side → Side
  | .buy => .sell
  | .sell => .buy

abbrev ID := UInt64
abbrev Price := Int32
abbrev Quantity := UInt32

def invalidOrderId : ID := 0

structure Order where
  orderId : ID
  price : Price
  quantity : Quantity
  side : Side
  deriving DecidableEq, Repr

/-- `Order{}`: members without an initialiser are zero, and `Buy` is the zero side. -/
def Order.zero : Order := ⟨0, 0, 0, .buy⟩

def Order.withQuantity (o : Order) (quantity : Quantity) : Order := { o with quantity := quantity }

instance : Inhabited Order := ⟨Order.zero⟩

inductive MarketEvent.Type where
  | add | cancel | trade | update
  deriving DecidableEq, Repr

structure MarketEvent where
  order : Order
  type : MarketEvent.Type
  deriving DecidableEq, Repr

inductive OrderRequest.Type where
  | buy | sell | cancel | update
  deriving DecidableEq, Repr

structure OrderRequest where
  orderId : ID
  price : Price
  quantity : Quantity
  type : OrderRequest.Type
  deriving DecidableEq, Repr

/-- `OrderRequest{}` with every member zero. -/
def OrderRequest.zero : OrderRequest := ⟨0, 0, 0, .buy⟩

instance : Inhabited OrderRequest := ⟨OrderRequest.zero⟩

/-- `exchange::Error`. -/
inductive Error where
  | packetTooOld | invalidPacket | packetUnavailable | clientConnection | serverFatal
  | orderDoesNotExist | invalidOrderRequest
  | startBroadcast | invalidBroadcastIP | invalidBroadcastInterface | send
  | serverBusy | startRetransmitServer | addressInfo | setSocketNonblocking | clientConnectionClosed
  | wouldBlock | receiveFromClient | sendToClient | newConnection | requestHandler
  | registerEvent | eventQueue
  deriving DecidableEq, Repr

/-- `BookState::NO_BID`, the least price of the type. -/
def noBid : Price := Int32.minValue

/-- `BookState::NO_OFFER`, the greatest price of the type. -/
def noOffer : Price := Int32.maxValue

theorem noBid_le (p : Price) : noBid ≤ p := Int32.minValue_le p

theorem le_noOffer (p : Price) : p ≤ noOffer := Int32.le_maxValue p

end HftPipeline
