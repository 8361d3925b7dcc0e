import HftPipeline.Matching

/-!
# Books that are neither crossed nor mixed

Requests may carry any price. The two sides share one price map and an empty
side is shown by an extreme price, so an order that rests at the extreme price of
its own side is invisible to incoming orders: it is never traded with, and an
order of the other side that is still looking for quantity at that price comes to
rest beside it. Short of that, and of an id counter that has come round, the
sides stay apart.
-/
namespace HftPipeline

open RestingBook LinkedQueue

section

variable [StdHash Price] [StdHash ID] {s : BookState} {book : List Entry}

namespace BookState

/-- The order that the order map and the pool hold under `id`. -/
def RestsAs (s : BookState) (id : ID) (o : Order) : Prop :=
  o.orderId = id ∧ ∃ i r, s.orderMap.find id = some i ∧ s.orderPool.get i = some r ∧ r.order = o

/-- The slots of a level's queue, from its head along the links. -/
def levelSlots (s : BookState) (level : PriceLevel) : List Nat :=
  walk nullIndex s.orderPool.succ maxConcurrentOrders level.head

/-- No resting buy reaches a resting sell, and no level queues orders of both sides. -/
structure Apart (s : BookState) : Prop where
  uncrossed : ∀ id id' b a, s.RestsAs id b → s.RestsAs id' a → b.side = .buy → a.side = .sell →
    b.price < a.price
  unmixed : ∀ p level, s.priceLevels.find p = some level →
    ∀ i ∈ s.levelSlots level, ∀ j ∈ s.levelSlots level,
      (s.orderPool.orders i).order.side = (s.orderPool.orders j).order.side

theorem Represents.restsAs_iff (h : s.Represents book) (id : ID) (o : Order) :
    s.RestsAs id o ↔ o ∈ orders book ∧ o.orderId = id := by
  constructor
  · rintro ⟨hid, i, r, hfind, hget, rfl⟩
    obtain ⟨e, he, -, rfl⟩ := (h.orderMap_iff id i).mp hfind
    rw [(h.order_eq he).2, Option.some.injEq] at hget
    exact ⟨mem_orders.mpr ⟨e, he, by rw [← hget, h.stored e he]⟩, hid⟩
  · rintro ⟨ho, rfl⟩
    obtain ⟨e, he, rfl⟩ := mem_orders.mp ho
    exact ⟨rfl, e.slot, _, (h.order_eq he).1, (h.order_eq he).2, h.stored e he⟩

theorem Represents.apart (h : s.Represents book) (hu : Uncrossed (orders book)) : s.Apart where
  uncrossed := by
    intro id id' b a hb ha hbuy hsell
    exact hu b ((h.restsAs_iff id b).mp hb).1 a ((h.restsAs_iff id' a).mp ha).1 hbuy hsell
  unmixed := by
    intro p level hfind i hi j hj
    have hlevel := h.levels.find p
    have hq : queue book p ≠ [] := by
      intro hnil
      rw [hnil, levelOf_nil, hfind] at hlevel
      cases hlevel
    rw [levelOf_of_ne hq, hfind, Option.some.injEq] at hlevel
    have hslots : s.levelSlots level = slots (queue book p) := by
      rw [levelSlots, hlevel]
      exact (h.walks p (Nat.le_refl _)).1
    rw [hslots] at hi hj
    obtain ⟨e, he, rfl⟩ := mem_slots.mp hi
    obtain ⟨e', he', rfl⟩ := mem_slots.mp hj
    obtain ⟨heBook, hePrice⟩ := mem_queue.mp he
    obtain ⟨heBook', hePrice'⟩ := mem_queue.mp he'
    rw [h.stored e heBook, h.stored e' heBook']
    exact h.unmixed e heBook e' heBook' (hePrice.trans hePrice'.symm)

/-- An `add` that is defined found a free slot and, for a new price, a free level. -/
theorem Represents.add_room (h : s.Represents book) {event : MarketEvent} {r : BookState × BookUpdate}
    (hadd : s.add event = some r) :
    book.length < maxConcurrentOrders ∧
      (event.order.price ∈ levelPrices book ∨ s.priceLevels.HasRoom) := by
  obtain ⟨⟨i, pool⟩, halloc, hadd⟩ := Option.bind_eq_some_iff.mp hadd
  obtain ⟨orderMap, hmap, hadd⟩ := Option.bind_eq_some_iff.mp hadd
  obtain ⟨s', henqueue, hadd⟩ := Option.bind_eq_some_iff.mp hadd
  constructor
  · have htop : s.orderPool.topIndex ≠ 0 := by
      intro h0
      simp [OrderPool.allocate, h0] at halloc
    obtain ⟨j, hj⟩ := List.exists_mem_of_ne_nil s.orderPool.freeList (by
      rw [← List.length_pos_iff, OrderPool.length_freeList]
      omega)
    obtain ⟨hlt, hnot⟩ := (h.free.mem_iff j).mp hj
    have hnodup : (j :: slots book).Nodup := List.nodup_cons.mpr ⟨hnot, h.slots_nodup⟩
    have hlength := OrderPool.length_le_of_nodup hnodup
      (List.forall_mem_cons.mpr ⟨hlt, List.forall_mem_map.mpr h.slots_lt⟩)
    rw [List.length_cons, slots, List.length_map] at hlength
    exact hlength
  · by_cases hm : event.order.price ∈ levelPrices book
    · exact Or.inl hm
    · have hfind : s.priceLevels.find event.order.price = none := by
        rw [h.levels.find, queue_eq_nil_iff.mpr hm, levelOf_nil]
      simp only [enqueue, hfind] at henqueue
      obtain ⟨priceLevels, hlevels, -⟩ := Option.bind_eq_some_iff.mp henqueue
      obtain ⟨idx, hprobe, -⟩ := Option.map_eq_some_iff.mp hlevels
      obtain ⟨k, -, hk, hfree, -⟩ :=
        ClosedHashMap.probeNewLoop_some _ _ _ _ (ClosedHashMap.hash_lt _) hprobe
      exact Or.inr ⟨idx, hk ▸ ClosedHashMap.probe_lt _ _, hfree⟩

/-- Along the events, every trade names an order that rests on the side opposite to `side`. -/
def TradesOpposing (side : Side) : BookState → List MarketEvent → Prop
  | _, [] => True
  | s, event :: events =>
    (event.type = .trade → ∃ o, s.RestsAs event.order.orderId o ∧ o.side = side.opposite) ∧
      ∀ s' u, s.execute event = some (s', u) → TradesOpposing side s' events

theorem tradesOpposing_of_no_trade {side : Side} {events : List MarketEvent}
    (h : ∀ event ∈ events, event.type ≠ .trade) (s : BookState) : TradesOpposing side s events := by
  induction events generalizing s with
  | nil => trivial
  | cons e events ih =>
    exact ⟨fun ht => absurd ht (h e (by simp)), fun s' _ _ => ih (fun e he => h e (by simp [he])) s'⟩

theorem TradesOpposing.append_all {side : Side} {events rest : List MarketEvent} {s : BookState}
    (h : TradesOpposing side s events) (hrest : ∀ event ∈ rest, event.type ≠ .trade) :
    TradesOpposing side s (events ++ rest) := by
  induction events generalizing s with
  | nil => exact tradesOpposing_of_no_trade hrest s
  | cons e events ih => exact ⟨h.1, fun s' u hs' => ih (h.2 s' u hs')⟩

end BookState

/-! ## What an incoming order can reach -/

def quantityOf (orders : List Order) : Nat := (orders.map (·.quantity.toNat)).sum

/-- The opposing orders that an incoming order crosses and that `best_opposing_order` can show. -/
def reach (side : Side) (price : Price) (orders : List Order) : List Order :=
  orders.filter fun o => o.side = side.opposite ∧ side.Crosses price o.price ∧ o.price ≠ side.opposite.noPrice

omit [StdHash Price] [StdHash ID] in
theorem mem_reach {side : Side} {price : Price} {orders : List Order} {o : Order} :
    o ∈ reach side price orders ↔ o ∈ orders ∧ o.side = side.opposite ∧ side.Crosses price o.price ∧
      o.price ≠ side.opposite.noPrice := by
  simp [reach]

omit [StdHash Price] [StdHash ID] in
/-- With nothing to reach, only an order at a sentinel price could be crossed. -/
theorem not_crosses_of_reach_eq_nil {side : Side} {price : Price} {orders : List Order}
    (hnil : reach side price orders = [])
    (hhidden : ∀ o ∈ orders, o.side = side.opposite → o.price = side.opposite.noPrice →
      ¬ side.Crosses price o.price) :
    ∀ o ∈ orders, o.side = side.opposite → ¬ side.Crosses price o.price := by
  intro o ho hopp hcross
  by_cases hsentinel : o.price = side.opposite.noPrice
  · exact hhidden o ho hopp hsentinel hcross
  · have hmem : o ∈ reach side price orders := mem_reach.mpr ⟨ho, hopp, hcross, hsentinel⟩
    rw [hnil] at hmem
    cases hmem

omit [StdHash Price] [StdHash ID] in
theorem amend_of_not_mem {id : ID} {f : Order → Option Order} {orders : List Order}
    (h : id ∉ orders.map Order.orderId) : amend id f orders = orders := by
  induction orders with
  | nil => rfl
  | cons o orders ih =>
    simp only [List.map_cons, List.mem_cons, not_or] at h
    rw [amend, List.filterMap_cons, if_neg (Ne.symm h.1)]
    exact congrArg _ (ih h.2)

omit [StdHash Price] [StdHash ID] in
/-- The one order of an id is passed through, all others stay. -/
theorem amend_mid {f : Order → Option Order} {front back : List Order} {o : Order}
    (h : ((front ++ o :: back).map Order.orderId).Nodup) :
    amend o.orderId f (front ++ o :: back) = front ++ (f o).toList ++ back := by
  simp only [List.map_append, List.map_cons, List.nodup_append, List.nodup_cons] at h
  have hfront : o.orderId ∉ front.map Order.orderId := fun hm => h.2.2 _ hm _ (by simp) rfl
  have happend : ∀ a b : List Order, amend o.orderId f (a ++ b) = amend o.orderId f a ++ amend o.orderId f b := by
    intro a b
    simp [amend]
  have hcons : amend o.orderId f (o :: back) = (f o).toList ++ amend o.orderId f back := by
    rw [amend, List.filterMap_cons, if_pos rfl]
    cases f o <;> rfl
  rw [happend, hcons, amend_of_not_mem hfront, amend_of_not_mem h.2.1.1, List.append_assoc]

omit [StdHash Price] [StdHash ID] in
/-- A trade takes the same quantity from the incoming order and from what it can reach. -/
theorem quantityOf_reach_amend {side : Side} {price : Price} {orders : List Order}
    (hids : (orders.map Order.orderId).Nodup) {best : Order} (hbest : best ∈ reach side price orders)
    {quantity : Quantity} (hle : quantity ≤ best.quantity) :
    quantityOf (reach side price (amend best.orderId (Order.reduceBy quantity) orders)) + quantity.toNat =
      quantityOf (reach side price orders) := by
  obtain ⟨hmem, hreach⟩ := mem_reach.mp hbest
  obtain ⟨front, back, rfl⟩ := List.append_of_mem hmem
  rw [amend_mid hids]
  have hsub := UInt32.toNat_sub_of_le _ _ hle
  have hle' := UInt32.le_iff_toNat_le.mp hle
  have hmid : quantityOf (reach side price (Order.reduceBy quantity best).toList) + quantity.toNat =
      best.quantity.toNat := by
    rw [Order.reduceBy]
    split
    · next hall => simp [quantityOf, reach, hall]
    · simp only [quantityOf, reach, Option.toList_some, Order.withQuantity, List.filter_cons, hreach.1, hreach.2,
        not_false_eq_true, and_self, decide_true, ↓reduceIte, List.filter_nil, List.map_cons, List.map_nil,
        List.sum_cons, List.sum_nil, ne_eq]
      omega
  have hone : quantityOf (reach side price (best :: back)) =
      best.quantity.toNat + quantityOf (reach side price back) := by
    simp [quantityOf, reach, hreach]
  have happend : ∀ a b : List Order, quantityOf (reach side price (a ++ b)) =
      quantityOf (reach side price a) + quantityOf (reach side price b) := by
    intro a b
    simp [quantityOf, reach]
  rw [happend, happend, happend, hone]
  omega

/-! ## The condition on a request -/

namespace Clob

/-- The resting orders that the published events describe. -/
def resting (c : Clob) : List Order := applyAll [] c.published

/-- What is left of an order may rest: no opposing order hides at a sentinel price that it
crosses, and the next id is a real one that no resting order has. -/
def MayRest (c : Clob) (side : Side) (price : Price) : Prop :=
  (∀ o ∈ c.resting, o.side = side.opposite → o.price = side.opposite.noPrice → ¬ side.Crosses price o.price) ∧
    c.nextOrderId ≠ invalidOrderId ∧ c.nextOrderId ∉ c.resting.map Order.orderId

/-- An order that asks for more than it can reach is one whose remainder may rest. -/
def SafePlace (c : Clob) (side : Side) (request : OrderRequest) : Prop :=
  quantityOf (reach side request.price c.resting) < request.quantity.toNat → c.MayRest side request.price

def Safe (c : Clob) (request : OrderRequest) : Prop :=
  match request.type with
  | .buy => c.SafePlace .buy request
  | .sell => c.SafePlace .sell request
  | .cancel => True
  | .update => False

/-- Every request of a run is safe in the state it meets. -/
def SafeRun (fuel : Nat) (c : Clob) : List (OrderRequest × StopToken) → Prop
  | [] => True
  | (request, token) :: calls =>
    c.Safe request ∧
      match c.submit fuel request token with
      | none => True
      | some (_, c) => SafeRun fuel c calls

instance (c : Clob) (side : Side) (request : OrderRequest) : Decidable (c.SafePlace side request) :=
  inferInstanceAs (Decidable (_ → _ ∧ _ ∧ _))

instance (c : Clob) (request : OrderRequest) : Decidable (c.Safe request) :=
  match request with
  | ⟨_, _, _, .buy⟩ => inferInstanceAs (Decidable (c.SafePlace .buy _))
  | ⟨_, _, _, .sell⟩ => inferInstanceAs (Decidable (c.SafePlace .sell _))
  | ⟨_, _, _, .cancel⟩ => inferInstanceAs (Decidable True)
  | ⟨_, _, _, .update⟩ => inferInstanceAs (Decidable False)

def decideSafeRun (fuel : Nat) : (c : Clob) → (calls : List (OrderRequest × StopToken)) →
    Decidable (c.SafeRun fuel calls)
  | _, [] => inferInstanceAs (Decidable True)
  | c, (request, token) :: calls =>
    have : Decidable (match c.submit fuel request token with
        | none => True
        | some (_, c) => SafeRun fuel c calls) :=
      match c.submit fuel request token with
      | none => inferInstanceAs (Decidable True)
      | some (_, c) => decideSafeRun fuel c calls
    inferInstanceAs (Decidable (_ ∧ _))

instance (fuel : Nat) (c : Clob) (calls : List (OrderRequest × StopToken)) : Decidable (c.SafeRun fuel calls) :=
  decideSafeRun fuel c calls

/-! ## One request -/

/-- The invariant of safe runs. -/
structure Holds (c : Clob) (book : List Entry) : Prop where
  represents : c.state.Represents book
  best : c.state.BestShown book
  orders_eq : orders book = c.resting
  real : ∀ o ∈ c.resting, o.orderId ≠ invalidOrderId
  uncrossed : Uncrossed c.resting

theorem holds_init : (init : Clob).Holds [] :=
  ⟨BookState.represents_init, BookState.bestShown_init, rfl, by simp [resting, init, applyAll],
    by simp [resting, init, applyAll, Uncrossed]⟩

variable {c c' : Clob}

omit [StdHash Price] [StdHash ID] in
@[simp] theorem resting_publish (c : Clob) (event : MarketEvent) (state : BookState) :
    (c.publish event state).resting = event.applyTo c.resting := applyAll_append _ _ _

theorem Holds.ids_nodup (h : c.Holds book) : (c.resting.map Order.orderId).Nodup := by
  rw [← h.orders_eq, ← ids_eq]
  exact h.represents.ids_nodup

/-- With nothing to trade there is nothing to reach. -/
theorem Holds.reach_eq_nil (h : c.Holds book) {order best : Order}
    (hopp : c.state.bestOpposingOrder order.side = some best) (hno : NoTrade order best) :
    reach order.side order.price c.resting = [] := by
  rw [List.eq_nil_iff_forall_not_mem]
  intro o ho
  obtain ⟨hmem, hside, hcross, hprice⟩ := mem_reach.mp ho
  rw [← h.orders_eq] at hmem
  obtain ⟨e, he, rfl⟩ := mem_orders.mp hmem
  by_cases hnone : (c.state.bbo.best order.side.opposite).price = order.side.opposite.noPrice
  · -- a best price that is the sentinel is the worst there is, so every opposing order is at it
    have hprices : e.order.price ∈ prices order.side.opposite book := mem_prices.mpr ⟨e, he, hside, rfl⟩
    obtain ⟨-, hmax, -⟩ := (h.best order.side.opposite).ne_empty (Finset.ne_empty_of_mem hprices)
    have hnot := hmax _ hprices
    rw [hnone] at hnot
    rcases Side.better_trichotomy order.side.opposite e.order.price order.side.opposite.noPrice with hb | heq | hb
    · exact hnot hb
    · exact hprice heq
    · exact Side.not_noPrice_better _ _ hb
  · obtain ⟨best', hbest, hopp'⟩ := h.represents.bestOpposingOrder_eq h.best hnone
    rw [hopp, Option.some.injEq] at hopp'
    subst hopp'
    have hreal := h.real best (h.orders_eq ▸ (bestOf_spec hbest).1)
    have hno' := (noTrade_iff hreal).mp
      (show NoTrade ⟨order.orderId, order.price, order.quantity, order.side⟩ best from hno)
    exact not_crosses_of_best hbest hno' hmem hside hcross

/-- The best order of a side whose cache is not that of an empty side has a real price. -/
theorem Holds.best_ne_noPrice (h : c.Holds book) {side : Side} {best : Order}
    (hsome : (c.state.bbo.best side).price ≠ side.noPrice) (hbest : bestOf side (orders book) = some best) :
    best.price ≠ side.noPrice := by
  obtain ⟨hmem, hside, hmax⟩ := bestOf_spec hbest
  obtain ⟨e, he, rfl⟩ := mem_orders.mp hmem
  have hprices : e.order.price ∈ prices side book := mem_prices.mpr ⟨e, he, hside, rfl⟩
  obtain ⟨hbest', -, -⟩ := (h.best side).ne_empty (Finset.ne_empty_of_mem hprices)
  obtain ⟨e', he', hside', hprice'⟩ := mem_prices.mp hbest'
  intro hnone
  have hnot := hmax e'.order (mem_orders.mpr ⟨e', he', rfl⟩) hside'
  rw [hnone, hprice'] at hnot
  rcases Side.better_trichotomy side (c.state.bbo.best side).price side.noPrice with hb | heq | hb
  · exact hnot hb
  · exact hsome heq
  · exact Side.not_noPrice_better _ _ hb

/-- One call of `execute_trade`. -/
theorem Holds.executeTrade (h : c.Holds book) {order order' : Order} {token token' : StopToken} {traded : Bool}
    (hq : order.quantity ≠ 0) (hstep : c.executeTrade order token = some (traded, c', order', token')) :
    (traded = false ∧ c' = c ∧ order' = order ∧
      (token' = some 0 ∨ reach order.side order.price c.resting = [])) ∨
    (traded = true ∧ ∃ book' trade u, c'.Holds book' ∧ c'.nextOrderId = c.nextOrderId ∧
      c'.published = c.published ++ [trade] ∧ c.state.execute trade = some (c'.state, u) ∧
      (∃ o, c.state.RestsAs trade.order.orderId o ∧ o.side = order.side.opposite) ∧
      Shrinks c'.resting c.resting ∧ order' = order.withQuantity order'.quantity ∧
      order'.quantity.toNat + quantityOf (reach order.side order.price c.resting) =
        order.quantity.toNat + quantityOf (reach order.side order.price c'.resting)) := by
  rcases executeTrade_cases hstep with ⟨ht, hc, ho, hend⟩ | ⟨ht, best, state, u, hopp, hno, htrade, rfl, rfl⟩
  · refine Or.inl ⟨ht, hc, ho, ?_⟩
    rcases hend with hstop | ⟨best, hopp, hno⟩
    · exact Or.inl hstop
    · exact Or.inr (h.reach_eq_nil hopp hno)
  · refine Or.inr ⟨ht, ?_⟩
    have hsome : (c.state.bbo.best order.side.opposite).price ≠ order.side.opposite.noPrice := by
      intro hnone
      rw [BookState.bestOpposingOrder_sentinel c.state hnone, Option.some.injEq] at hopp
      exact hno (Or.inl (by rw [← hopp]))
    obtain ⟨best', hbest, hopp'⟩ := h.represents.bestOpposingOrder_eq h.best hsome
    rw [hopp, Option.some.injEq] at hopp'
    subst hopp'
    obtain ⟨hmem, hside, -⟩ := bestOf_spec hbest
    obtain ⟨e, he, heq⟩ := mem_orders.mp hmem
    have hmin := min_quantity hq (heq ▸ h.represents.positive e he)
    obtain ⟨s', u', book', htrade', hrep, hshown, horders⟩ :=
      h.represents.trade_best h.best hmem hmin.1 hmin.2.1
    rw [htrade, Option.some.injEq, Prod.mk.injEq] at htrade'
    obtain ⟨rfl, rfl⟩ := htrade'
    have hresting : (c.publish (tradeEvent best (min order.quantity best.quantity)) state).resting =
        amend best.orderId (Order.reduceBy (min order.quantity best.quantity)) c.resting := by
      rw [resting_publish]
      rfl
    rw [h.orders_eq] at hmem horders
    have hshrink := shrinks_amend best.orderId (min order.quantity best.quantity) c.resting
    have hcross : order.side.Crosses order.price best.price := by
      by_contra hnot
      exact hno ((noTrade_iff (h.real best hmem)).mpr hnot)
    have hprice := h.best_ne_noPrice hsome hbest
    have hreach : best ∈ reach order.side order.price c.resting := mem_reach.mpr ⟨hmem, hside, hcross, hprice⟩
    have hquantity := quantityOf_reach_amend h.ids_nodup hreach hmin.2.1
    refine ⟨book', _, u, ⟨hrep, hshown, hresting ▸ horders, ?_, ?_⟩, rfl, rfl, htrade, ⟨best, ?_, hside⟩, ?_,
      rfl, ?_⟩
    · rw [hresting]
      intro o ho
      obtain ⟨o₀, ho₀, hid, -⟩ := hshrink o ho
      rw [hid]
      exact h.real o₀ ho₀
    · rw [hresting]
      exact hshrink.uncrossed h.uncrossed
    · exact (h.represents.restsAs_iff _ _).mpr ⟨h.orders_eq ▸ hmem, rfl⟩
    · rw [hresting]
      exact hshrink
    · rw [hresting]
      simp only [Order.withQuantity]
      omega

/-- The loop, however it ends. If it ends with quantity left and without a stop, then the
order has taken everything it could reach. -/
theorem Holds.matchLoop {fuel : Nat} (h : c.Holds book) {order order' : Order} {token token' : StopToken}
    (hloop : c.matchLoop fuel order token = some (c', order', token')) :
    ∃ book' events, c'.Holds book' ∧ c'.nextOrderId = c.nextOrderId ∧
      c'.published = c.published ++ events ∧ BookState.TradesOpposing order.side c.state events ∧
      Shrinks c'.resting c.resting ∧ order' = order.withQuantity order'.quantity ∧
      (order'.quantity = 0 ∨ token' = some 0 ∨
        reach order.side order.price c'.resting = [] ∧
          order'.quantity.toNat + quantityOf (reach order.side order.price c.resting) =
            order.quantity.toNat) := by
  induction fuel generalizing c book order token with
  | zero => simp [Clob.matchLoop] at hloop
  | succ fuel ih =>
    rw [Clob.matchLoop] at hloop
    split at hloop
    · next hzero =>
      cases hloop
      exact ⟨book, [], h, rfl, by simp, trivial, Shrinks.refl _, rfl, Or.inl hzero⟩
    · next hq =>
      obtain ⟨⟨traded, c₁, order₁, token₁⟩, hstep, hrest⟩ := Option.bind_eq_some_iff.mp hloop
      rcases h.executeTrade hq hstep with
        ⟨rfl, rfl, rfl, hend⟩ | ⟨rfl, book₁, trade, u, h₁, hnext, hpub, hexec, hopp, hshrink, horder, hsum⟩
      · cases hrest
        refine ⟨book, [], h, rfl, by simp, trivial, Shrinks.refl _, rfl, Or.inr (hend.imp_right fun hnil => ?_)⟩
        refine ⟨hnil, ?_⟩
        rw [hnil]
        rfl
      · obtain ⟨book', events, h', hnext', hpub', htrades, hshrink', horder', hend⟩ := ih h₁ hrest
        have hside : order₁.side = order.side := by rw [horder]; rfl
        have hprice : order₁.price = order.price := by rw [horder]; rfl
        rw [hside, hprice] at hend
        refine ⟨book', trade :: events, h', hnext'.trans hnext, by simp [hpub', hpub], ⟨fun _ => hopp, ?_⟩,
          hshrink'.trans hshrink, ?_, ?_⟩
        · intro s' u' hs'
          rw [hexec, Option.some.injEq, Prod.mk.injEq] at hs'
          rw [← hs'.1, ← hside]
          exact htrades
        · rw [horder', horder]
          rfl
        · refine hend.imp_right (Or.imp_right fun hlast => ⟨hlast.1, ?_⟩)
          omega

/-- What is left comes to rest. -/
theorem Holds.addOrder (h : c.Holds book) {order : Order} {token : StopToken} (hq : order.quantity ≠ 0)
    (hid : c.nextOrderId ≠ invalidOrderId) (hfresh : c.nextOrderId ∉ c.resting.map Order.orderId)
    (hend : ∀ o ∈ c.resting, o.side = order.side.opposite → ¬ order.side.Crosses order.price o.price)
    (hadd : { c with nextOrderId := c.nextOrderId + 1 }.addOrder { order with orderId := c.nextOrderId } token =
      some c') :
    ∃ book' events, c'.Holds book' ∧ c'.published = c.published ++ events ∧
      ∀ event ∈ events, event.type ≠ .trade := by
  rw [Clob.addOrder] at hadd
  split at hadd
  · obtain ⟨⟨state, u⟩, hexec, hadd⟩ := Option.bind_eq_some_iff.mp hadd
    cases hadd
    obtain ⟨hlen, hlevels⟩ := h.represents.add_room hexec
    have hside := same_side_of_not_crosses hend
    obtain ⟨s', u', i, hs', hrep, hbest, -, -⟩ := h.represents.add_best h.best
      ⟨{ order with orderId := c.nextOrderId }, .add⟩ (by rw [ids_eq, h.orders_eq]; exact hfresh) hq
      (fun e he => hside e.order (h.orders_eq ▸ mem_orders.mpr ⟨e, he, rfl⟩)) hlen hlevels
    have hstate : (s', u') = (state, u) := Option.some.inj (hs'.symm.trans hexec)
    cases hstate
    have hresting : ({ c with nextOrderId := c.nextOrderId + 1 }.publish
        ⟨{ order with orderId := c.nextOrderId }, .add⟩ state).resting =
        c.resting ++ [{ order with orderId := c.nextOrderId }] := resting_publish _ _ _
    refine ⟨_, [_], ⟨hrep, hbest, ?_, ?_, ?_⟩, rfl, by simp⟩
    · rw [hresting, orders_append, h.orders_eq]
    · rw [hresting]
      intro o ho
      rw [List.mem_append, List.mem_singleton] at ho
      rcases ho with ho | rfl
      · exact h.real o ho
      · exact hid
    · rw [hresting]
      exact h.uncrossed.append hend
  · cases hadd
    exact ⟨book, [], ⟨h.represents, h.best, h.orders_eq, h.real, h.uncrossed⟩, by simp, by simp⟩

theorem Holds.placeOrder {fuel : Nat} (h : c.Holds book) {side : Side} {request : OrderRequest}
    {token : StopToken} {id : ID} (hsafe : c.SafePlace side request)
    (hplace : placeOrder fuel side c request token = some (id, c')) :
    ∃ book' events, c'.Holds book' ∧ c'.published = c.published ++ events ∧
      BookState.TradesOpposing side c.state events := by
  rw [Clob.placeOrder] at hplace
  split at hplace
  · cases hplace
    exact ⟨book, [], h, by simp, trivial⟩
  · obtain ⟨⟨c₁, order, token₁⟩, hloop, hplace⟩ := Option.bind_eq_some_iff.mp hplace
    obtain ⟨book₁, events, h₁, hnext, hpub, htrades, hshrink, horder, hend⟩ := h.matchLoop hloop
    simp only at hplace
    split at hplace
    · cases hplace
      exact ⟨book₁, events, h₁, hpub, htrades⟩
    · next hleft =>
      rcases token₁.stopRequested_spec with ⟨hgo, hne⟩ | ⟨hstop, -⟩
      · rw [hgo] at hplace
        obtain ⟨c₂, hadd, hplace⟩ := Option.bind_eq_some_iff.mp hplace
        cases hplace
        obtain ⟨hnil, hsum⟩ := (hend.resolve_left hleft).resolve_left hne
        have hpos : order.quantity.toNat ≠ 0 := fun h0 => hleft (UInt32.toNat_inj.mp h0)
        obtain ⟨hhidden, hid, hfresh⟩ := hsafe (by simp only at hsum; omega)
        have hside : order.side = side := by rw [horder]; rfl
        have hprice : order.price = request.price := by rw [horder]; rfl
        have hcross : ∀ o ∈ c₁.resting, o.side = order.side.opposite →
            ¬ order.side.Crosses order.price o.price := by
          rw [hside, hprice]
          refine not_crosses_of_reach_eq_nil hnil fun o ho hopp hsentinel => ?_
          obtain ⟨o₀, ho₀, -, hp, hs⟩ := hshrink o ho
          rw [hp]
          exact hhidden o₀ ho₀ (hs ▸ hopp) (hp ▸ hsentinel)
        have hfresh₁ : c₁.nextOrderId ∉ c₁.resting.map Order.orderId := by
          rw [hnext]
          exact hshrink.not_mem_ids hfresh
        obtain ⟨book₂, rest, h₂, hpub₂, hrest⟩ := h₁.addOrder hleft (hnext ▸ hid) hfresh₁ hcross hadd
        refine ⟨book₂, events ++ rest, h₂, by simp [hpub₂, hpub], ?_⟩
        exact htrades.append_all hrest
      · rw [hstop] at hplace
        cases hplace
        exact ⟨book₁, events, h₁, hpub, htrades⟩

theorem Holds.cancelOrder (h : c.Holds book) {request : OrderRequest} {token : StopToken}
    {result : Except Error Unit} (hcancel : c.cancelOrder request token = some (result, c')) :
    ∃ book' events, c'.Holds book' ∧ c'.published = c.published ++ events ∧
      ∀ event ∈ events, event.type ≠ .trade := by
  have hsame : ∃ book' events, c.Holds book' ∧ c.published = c.published ++ events ∧
      ∀ event ∈ events, event.type ≠ .trade := ⟨book, [], h, by simp, by simp⟩
  rw [Clob.cancelOrder] at hcancel
  split at hcancel
  · cases hcancel
    exact hsame
  · next hexists =>
    split at hcancel
    · obtain ⟨⟨state, u⟩, hexec, hcancel⟩ := Option.bind_eq_some_iff.mp hcancel
      cases hcancel
      have hm : request.orderId ∈ (orders book).map Order.orderId := by
        rw [← ids_eq, ← h.represents.orderExists_iff]
        simpa using hexists
      obtain ⟨s', u', book', hs', hrep, horders, hbest, -, -⟩ := h.represents.execute_best h.best
        (show (cancelEvent request.orderId).Admissible (orders book) from hm) (by simp [cancelEvent])
      have hstate : (s', u') = (state, u) := Option.some.inj (hs'.symm.trans hexec)
      cases hstate
      have hresting : (c.publish (cancelEvent request.orderId) state).resting =
          c.resting.filter fun o => o.orderId ≠ request.orderId := by
        rw [resting_publish]
        exact amend_none _ _
      have hsub : Shrinks (c.resting.filter fun o => o.orderId ≠ request.orderId) c.resting :=
        fun o ho => ⟨o, (List.mem_filter.mp ho).1, rfl, rfl, rfl⟩
      refine ⟨book', [_], ⟨hrep, hbest, ?_, ?_, ?_⟩, rfl, by simp [cancelEvent]⟩
      · rw [horders, resting_publish, h.orders_eq]
      · rw [hresting]
        exact fun o ho => h.real o (List.mem_filter.mp ho).1
      · rw [hresting]
        exact hsub.uncrossed h.uncrossed
    · cases hcancel
      exact hsame

/-- The trades published by a request name orders that rest opposite to it; a cancel publishes none. -/
def TradesNamed (c c' : Clob) (request : OrderRequest) : Prop :=
  ∃ events, c'.published = c.published ++ events ∧
    match request.type with
    | .buy => BookState.TradesOpposing .buy c.state events
    | .sell => BookState.TradesOpposing .sell c.state events
    | _ => ∀ event ∈ events, event.type ≠ .trade

theorem Holds.submit {fuel : Nat} (h : c.Holds book) {request : OrderRequest} {token : StopToken}
    {result : Except Error ID} (hsafe : c.Safe request)
    (hsubmit : c.submit fuel request token = some (result, c')) :
    (∃ book', c'.Holds book') ∧ c.TradesNamed c' request := by
  cases hkind : request.type with
  | buy =>
    simp only [Safe, Clob.submit, hkind] at hsafe hsubmit
    obtain ⟨⟨id, c₁⟩, hplace, hpair⟩ := Option.map_eq_some_iff.mp hsubmit
    cases hpair
    obtain ⟨book', events, h', hpub, htrades⟩ := h.placeOrder hsafe hplace
    exact ⟨⟨book', h'⟩, events, hpub, by simpa only [hkind] using htrades⟩
  | sell =>
    simp only [Safe, Clob.submit, hkind] at hsafe hsubmit
    obtain ⟨⟨id, c₁⟩, hplace, hpair⟩ := Option.map_eq_some_iff.mp hsubmit
    cases hpair
    obtain ⟨book', events, h', hpub, htrades⟩ := h.placeOrder hsafe hplace
    exact ⟨⟨book', h'⟩, events, hpub, by simpa only [hkind] using htrades⟩
  | cancel =>
    simp only [Clob.submit, hkind] at hsubmit
    obtain ⟨⟨r, c₁⟩, hcancel, hpair⟩ := Option.map_eq_some_iff.mp hsubmit
    cases hpair
    obtain ⟨book', events, h', hpub, htrades⟩ := h.cancelOrder hcancel
    exact ⟨⟨book', h'⟩, events, hpub, by simpa only [hkind] using htrades⟩
  | update => simp [Safe, hkind] at hsafe

/-- A safe run reaches a state of the invariant, in which the next request is safe as well. -/
theorem Holds.submitAll {fuel : Nat} {calls : List (OrderRequest × StopToken)} (h : c.Holds book)
    {request : OrderRequest} {token : StopToken} {results : List (Except Error ID)}
    (hsafe : c.SafeRun fuel (calls ++ [(request, token)]))
    (hrun : c.submitAll fuel calls = some (results, c')) :
    (∃ book', c'.Holds book') ∧ c'.Safe request := by
  induction calls generalizing c book results with
  | nil =>
    cases hrun
    exact ⟨⟨book, h⟩, hsafe.1⟩
  | cons call calls ih =>
    obtain ⟨result, c₁, rest, hsubmit, hrest, -⟩ := submitAll_cons hrun
    obtain ⟨⟨book₁, h₁⟩, -⟩ := h.submit hsafe.1 hsubmit
    have hsafe₁ := hsafe.2
    simp only [hsubmit] at hsafe₁
    exact ih h₁ hsafe₁ hrest

/-- Every state of a safe run is uncrossed and unmixed, and every trade is with a resting
order of the other side. -/
theorem safe_run_apart {fuel : Nat} {calls : List (OrderRequest × StopToken)} {request : OrderRequest}
    {token : StopToken} {results : List (Except Error ID)} {result : Except Error ID}
    (hsafe : SafeRun fuel (init : Clob) (calls ++ [(request, token)]))
    (hrun : (init : Clob).submitAll fuel calls = some (results, c))
    (hsubmit : c.submit fuel request token = some (result, c')) :
    c.state.Apart ∧ c'.state.Apart ∧ c.TradesNamed c' request := by
  obtain ⟨⟨book, h⟩, hsafe'⟩ := holds_init.submitAll hsafe hrun
  obtain ⟨⟨book', h'⟩, htrades⟩ := h.submit hsafe' hsubmit
  exact ⟨h.represents.apart (h.orders_eq ▸ h.uncrossed), h'.represents.apart (h'.orders_eq ▸ h'.uncrossed),
    htrades⟩

end Clob

end

section

attribute [local instance] priceHash idHash

/-- One sell hides at the highest price; a buy at that price takes exactly what it can reach. -/
def hiddenRun : List (OrderRequest × StopToken) :=
  [(⟨0, noOffer, 5, .sell⟩, none), (⟨0, 100, 3, .sell⟩, none)]

theorem safe_run_apart_hiddenRun :
    Clob.SafeRun 3 (Clob.init : Clob) (hiddenRun ++ [(⟨0, noOffer, 3, .buy⟩, none)]) ∧
      ∃ results c result c', (Clob.init : Clob).submitAll 3 hiddenRun = some (results, c) ∧
        c.submit 3 ⟨0, noOffer, 3, .buy⟩ none = some (result, c') ∧
        c.state.Apart ∧ c'.state.Apart ∧ c.TradesNamed c' ⟨0, noOffer, 3, .buy⟩ := by
  have hsafe : Clob.SafeRun 3 (Clob.init : Clob) (hiddenRun ++ [(⟨0, noOffer, 3, .buy⟩, none)]) := by
    decide +kernel
  have hsome : (((Clob.init : Clob).submitAll 3 hiddenRun).bind fun r =>
      r.2.submit 3 ⟨0, noOffer, 3, .buy⟩ none).isSome := by decide +kernel
  obtain ⟨⟨result, c'⟩, hboth⟩ := Option.isSome_iff_exists.mp hsome
  obtain ⟨⟨results, c⟩, hrun, hsubmit⟩ := Option.bind_eq_some_iff.mp hboth
  exact ⟨hsafe, results, c, result, c', hrun, hsubmit, Clob.safe_run_apart hsafe hrun hsubmit⟩

/-- A sell at the highest price and then a buy at it. -/
def sentinelRun : List (OrderRequest × StopToken) :=
  [(⟨0, noOffer, 5, .sell⟩, none), (⟨0, noOffer, 5, .buy⟩, none)]

/-- The buy does not see the sell, rests beside it and is queued behind it in the same level. -/
theorem sentinelRun_not_apart :
    ∃ results c, (Clob.init : Clob).submitAll 2 sentinelRun = some (results, c) ∧
      c.state.RestsAs 1 ⟨1, noOffer, 5, .sell⟩ ∧ c.state.RestsAs 2 ⟨2, noOffer, 5, .buy⟩ ∧
      (∃ level, c.state.priceLevels.find noOffer = some level ∧
        (c.state.levelSlots level).map (fun i => (c.state.orderPool.orders i).order.side) = [.sell, .buy]) ∧
      ¬ c.state.Apart := by
  have hfinds : ((Clob.init : Clob).submitAll 2 sentinelRun).map (fun r =>
      (r.2.state.orderMap.find 1, r.2.state.orderMap.find 2)) = some (some 32767, some 32766) := by
    decide +kernel
  have hgets : ((Clob.init : Clob).submitAll 2 sentinelRun).map (fun r =>
      ((r.2.state.orderPool.get 32767).map RestingOrder.order,
        (r.2.state.orderPool.get 32766).map RestingOrder.order)) =
      some (some ⟨1, noOffer, 5, .sell⟩, some ⟨2, noOffer, 5, .buy⟩) := by decide +kernel
  have hlevel : ((Clob.init : Clob).submitAll 2 sentinelRun).map (fun r =>
      (r.2.state.priceLevels.find noOffer).map fun level =>
        (r.2.state.levelSlots level).map fun i => (r.2.state.orderPool.orders i).order.side) =
      some (some [.sell, .buy]) := by decide +kernel
  obtain ⟨⟨results, c⟩, hrun, hfinds⟩ := Option.map_eq_some_iff.mp hfinds
  rw [hrun, Option.map_some, Option.some.injEq] at hgets hlevel
  obtain ⟨hfind₁, hfind₂⟩ := Prod.mk.inj hfinds
  obtain ⟨hget₁, hget₂⟩ := Prod.mk.inj hgets
  obtain ⟨r₁, hr₁, hsell⟩ := Option.map_eq_some_iff.mp hget₁
  obtain ⟨r₂, hr₂, hbuy⟩ := Option.map_eq_some_iff.mp hget₂
  obtain ⟨level, hlevel, hsides⟩ := Option.map_eq_some_iff.mp hlevel
  have hrest₁ : c.state.RestsAs 1 ⟨1, noOffer, 5, .sell⟩ := ⟨rfl, 32767, r₁, hfind₁, hr₁, hsell⟩
  have hrest₂ : c.state.RestsAs 2 ⟨2, noOffer, 5, .buy⟩ := ⟨rfl, 32766, r₂, hfind₂, hr₂, hbuy⟩
  refine ⟨results, c, hrun, hrest₁, hrest₂, ⟨level, hlevel, hsides⟩, ?_⟩
  intro hapart
  exact lt_irrefl noOffer (hapart.uncrossed 2 1 _ _ hrest₂ hrest₁ rfl rfl)

end

end HftPipeline
