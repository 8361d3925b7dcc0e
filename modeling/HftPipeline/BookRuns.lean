import HftPipeline.BookInvariant

/-!
# Runs of market events

The list of resting orders that a sequence of events describes, and the book
that `execute` builds from the same events. Along admissible events no step is
undefined and after each of them the book shows that list.
-/
namespace HftPipeline

open RestingBook LinkedQueue

/-- Passes the order named `id` through `f`; `none` takes it off the list. -/
def amend (id : ID) (f : Order → Option Order) (orders : List Order) : List Order :=
  orders.filterMap fun o => if o.orderId = id then f o else some o

/-- A trade of everything that is left removes the order. -/
def Order.reduceBy (quantity : Quantity) (o : Order) : Option Order :=
  if o.quantity = quantity then none else some (o.withQuantity (o.quantity - quantity))

/-- An update to nothing removes the order. -/
def Order.resizeTo (quantity : Quantity) (o : Order) : Option Order :=
  if quantity = 0 then none else some (o.withQuantity quantity)

/-- What an event means for the resting orders, listed in arrival order. -/
def MarketEvent.applyTo (event : MarketEvent) (orders : List Order) : List Order :=
  match event.type with
  | .add => orders ++ [event.order]
  | .cancel => amend event.order.orderId (fun _ => none) orders
  | .trade => amend event.order.orderId (Order.reduceBy event.order.quantity) orders
  | .update => amend event.order.orderId (Order.resizeTo event.order.quantity) orders

/-- The prices at which orders rest. -/
def restingPrices (orders : List Order) : Finset Price := (orders.map Order.price).toFinset

/-- The events a book with these resting orders can be asked to execute. -/
def MarketEvent.Admissible (event : MarketEvent) (orders : List Order) : Prop :=
  match event.type with
  | .add =>
    event.order.orderId ∉ orders.map Order.orderId ∧ 0 < event.order.quantity ∧
      (∀ o ∈ orders, o.price = event.order.price → o.side = event.order.side) ∧
      orders.length < 2 ^ 15 ∧ (insert event.order.price (restingPrices orders)).card ≤ 2 ^ 14
  | .cancel => event.order.orderId ∈ orders.map Order.orderId
  | .trade =>
    ∃ o ∈ orders, o.orderId = event.order.orderId ∧ 0 < event.order.quantity ∧
      event.order.quantity ≤ o.quantity
  | .update => event.order.orderId ∈ orders.map Order.orderId

instance (event : MarketEvent) (orders : List Order) : Decidable (event.Admissible orders) :=
  match event with
  | ⟨_, .add⟩ => inferInstanceAs (Decidable (_ ∧ _ ∧ _ ∧ _ ∧ _))
  | ⟨_, .cancel⟩ => inferInstanceAs (Decidable (_ ∈ _))
  | ⟨_, .trade⟩ => inferInstanceAs (Decidable (∃ o ∈ orders, _))
  | ⟨_, .update⟩ => inferInstanceAs (Decidable (_ ∈ _))

/-- The resting orders after a sequence of events. -/
def applyAll (orders : List Order) (events : List MarketEvent) : List Order :=
  events.foldl (fun orders event => event.applyTo orders) orders

/-- Every event is admissible when its turn comes. -/
def AdmissibleRun (orders : List Order) : List MarketEvent → Prop
  | [] => True
  | event :: events => event.Admissible orders ∧ AdmissibleRun (event.applyTo orders) events

def decideAdmissibleRun : (orders : List Order) → (events : List MarketEvent) →
    Decidable (AdmissibleRun orders events)
  | _, [] => inferInstanceAs (Decidable True)
  | orders, event :: events =>
    have := decideAdmissibleRun (event.applyTo orders) events
    inferInstanceAs (Decidable (_ ∧ _))

instance (orders : List Order) (events : List MarketEvent) : Decidable (AdmissibleRun orders events) :=
  decideAdmissibleRun orders events

theorem admissibleRun_append {orders : List Order} {events : List MarketEvent} {event : MarketEvent} :
    AdmissibleRun orders (events ++ [event]) ↔
      AdmissibleRun orders events ∧ event.Admissible (applyAll orders events) := by
  induction events generalizing orders with
  | nil => simp [AdmissibleRun, applyAll]
  | cons e events ih => simp [AdmissibleRun, applyAll, ih, and_assoc]

theorem applyAll_append (orders : List Order) (events : List MarketEvent) (event : MarketEvent) :
    applyAll orders (events ++ [event]) = event.applyTo (applyAll orders events) := by
  simp [applyAll]

/-! ## The list and its entries -/

theorem amend_congr {id : ID} {f g : Order → Option Order} {orders : List Order}
    (h : ∀ o ∈ orders, o.orderId = id → f o = g o) : amend id f orders = amend id g orders := by
  apply List.filterMap_congr
  intro o ho
  by_cases hid : o.orderId = id
  · rw [if_pos hid, if_pos hid, h o ho hid]
  · rw [if_neg hid, if_neg hid]

/-- The resting orders of a book, without their slots. -/
def RestingBook.orders (book : List Entry) : List Order := book.map Entry.order

namespace RestingBook

@[simp] theorem mem_orders {o : Order} {book : List Entry} : o ∈ orders book ↔ ∃ e ∈ book, e.order = o := by
  simp [orders]

theorem orders_append (book : List Entry) (e : Entry) : orders (book ++ [e]) = orders book ++ [e.order] := by
  simp [orders]

theorem ids_eq (book : List Entry) : ids book = (orders book).map Order.orderId := by
  simp [ids, orders]

theorem levelPrices_eq (book : List Entry) : levelPrices book = restingPrices (orders book) := by
  rw [levelPrices, restingPrices, orders, List.map_map]
  rfl

/-- One more level is allowed when the prices are counted with the new one. -/
theorem room_of_insert {p : Price} {book : List Entry} {n : Nat}
    (h : (insert p (restingPrices (orders book))).card ≤ n) :
    p ∈ levelPrices book ∨ (levelPrices book).card < n := by
  rw [levelPrices_eq]
  by_cases hp : p ∈ restingPrices (orders book)
  · exact Or.inl hp
  · rw [Finset.card_insert_of_notMem hp] at h
    exact Or.inr h

theorem orders_remove (id : ID) (book : List Entry) :
    orders (remove id book) = amend id (fun _ => none) (orders book) := by
  induction book with
  | nil => rfl
  | cons e book ih =>
    simp only [orders, remove, amend] at ih ⊢
    by_cases hid : e.order.orderId = id
    · simpa [hid] using ih
    · simpa [hid] using ih

theorem remove_remove (id : ID) (book : List Entry) : remove id (remove id book) = remove id book := by
  simp [remove]

theorem remove_resize (id : ID) (quantity : Quantity) (book : List Entry) :
    remove id (resize id quantity book) = remove id book := by
  induction book with
  | nil => rfl
  | cons e book ih =>
    simp only [remove, resize, List.map_cons] at ih ⊢
    by_cases hid : e.order.orderId = id
    · simpa [hid, Order.withQuantity] using ih
    · simpa [hid] using ih

theorem orders_resize (id : ID) (quantity : Quantity) (book : List Entry) :
    orders (resize id quantity book) = amend id (fun o => some (o.withQuantity quantity)) (orders book) := by
  induction book with
  | nil => rfl
  | cons e book ih =>
    simp only [orders, resize, amend] at ih ⊢
    by_cases hid : e.order.orderId = id
    · simpa [hid] using ih
    · simpa [hid] using ih

/-- In a book without repeated ids an amendment is decided by the one order it names. -/
theorem amend_orders {book : List Entry} (hids : (ids book).Nodup) {e : Entry} (he : e ∈ book)
    {f g : Order → Option Order} (hfg : f e.order = g e.order) :
    amend e.order.orderId f (orders book) = amend e.order.orderId g (orders book) := by
  apply amend_congr
  intro o ho hid
  obtain ⟨e', he', rfl⟩ := mem_orders.mp ho
  rw [eq_of_id hids he' he hid, hfg]

end RestingBook

namespace BookState

variable [StdHash Price] [StdHash ID] {s : BookState} {book : List Entry}

/-! ## One event -/

omit [StdHash Price] [StdHash ID] in
theorem ne_zero_of_toNat {quantity : Quantity} (h : quantity.toNat ≠ 0) : quantity ≠ 0 :=
  fun he => h (by rw [he]; rfl)

theorem Represents.cancel_eq (h : s.Represents book) (event : MarketEvent) {e : Entry} (he : e ∈ book)
    (hid : event.order.orderId = e.order.orderId) :
    s.cancel event = s.purgeOrderAt e.slot (s.orderPool.orders e.slot) := by
  simp [cancel, purgeOrder, hid, h.order_eq he]

theorem Represents.trade_eq (h : s.Represents book) (event : MarketEvent) {e : Entry} (he : e ∈ book)
    (hid : event.order.orderId = e.order.orderId) :
    s.trade event =
      if e.order.quantity = event.order.quantity then s.purgeOrderAt e.slot (s.orderPool.orders e.slot)
      else s.changeQuantity e.slot (s.orderPool.orders e.slot) (· - event.order.quantity.toUInt64)
        event.order.quantity (e.order.quantity - event.order.quantity) updateBboReduce := by
  simp [trade, tradeQuantity, hid, h.order_eq he, h.stored e he]

/-- The amount by which an update moves a quantity, and the cache function it calls. -/
theorem Represents.update_eq (h : s.Represents book) (event : MarketEvent) {e : Entry} (he : e ∈ book)
    (hid : event.order.orderId = e.order.orderId) :
    s.update event =
      if event.order.quantity = 0 then s.purgeOrderAt e.slot (s.orderPool.orders e.slot)
      else if event.order.quantity < e.order.quantity then
        s.changeQuantity e.slot (s.orderPool.orders e.slot)
          (· - (e.order.quantity - event.order.quantity).toUInt64)
          (e.order.quantity - event.order.quantity) event.order.quantity
          fun s order => some (s.updateBboAdd order)
      else
        s.changeQuantity e.slot (s.orderPool.orders e.slot)
          (· + (event.order.quantity - e.order.quantity).toUInt64)
          (event.order.quantity - e.order.quantity) event.order.quantity updateBboReduce := by
  simp [update, updateQuantity, hid, h.order_eq he, h.stored e he]

/-- The 64-bit total of a level follows the quantity of one of its orders down. -/
theorem Represents.total_decrease (h : s.Represents book) {e : Entry} (he : e ∈ book)
    (delta quantity : Quantity) (hsum : delta.toNat + quantity.toNat = e.order.quantity.toNat) :
    UInt64.ofNat (total (queue book e.order.price)) - delta.toUInt64 =
      UInt64.ofNat (total (resize e.order.orderId quantity (queue book e.order.price))) := by
  have hmem : e ∈ queue book e.order.price := mem_queue.mpr ⟨he, rfl⟩
  have hids : (ids (queue book e.order.price)).Nodup :=
    h.ids_nodup.sublist ((queue_sublist book _).map _)
  have hresize := total_resize hids hmem quantity
  have hle : total (resize e.order.orderId quantity (queue book e.order.price)) =
      total (queue book e.order.price) - delta.toNat := by omega
  rw [hle, UInt64.ofNat_sub (by omega), UInt64.ofNat_uInt32ToNat]

/-- And up. -/
theorem Represents.total_increase (h : s.Represents book) {e : Entry} (he : e ∈ book)
    (delta quantity : Quantity) (hsum : quantity.toNat = e.order.quantity.toNat + delta.toNat) :
    UInt64.ofNat (total (queue book e.order.price)) + delta.toUInt64 =
      UInt64.ofNat (total (resize e.order.orderId quantity (queue book e.order.price))) := by
  have hmem : e ∈ queue book e.order.price := mem_queue.mpr ⟨he, rfl⟩
  have hids : (ids (queue book e.order.price)).Nodup :=
    h.ids_nodup.sublist ((queue_sublist book _).map _)
  have hresize := total_resize hids hmem quantity
  have hle : total (resize e.order.orderId quantity (queue book e.order.price)) =
      total (queue book e.order.price) + delta.toNat := by omega
  rw [hle, UInt64.ofNat_add, UInt64.ofNat_uInt32ToNat]

theorem Represents.purge_step (h : s.Represents book) {e : Entry} (he : e ∈ book) :
    ∃ s' u, s.purgeOrderAt e.slot (s.orderPool.orders e.slot) = some (s', u) ∧
      s'.Represents (remove e.order.orderId book) := by
  obtain ⟨mid, hmid, -, hpurge⟩ := h.purgeOrderAt_spec he
  obtain ⟨bbo, u, hu⟩ := hmid.updateBboReduce_frame e.order
  obtain ⟨s', hs', -, hrep⟩ := hpurge bbo u hu
  exact ⟨s', u, hs', hrep⟩

/-- The event is defined, leaves the book it describes, and no other order changes its
quantity, its place or its slot. -/
def Executes (s : BookState) (book : List Entry) (event : MarketEvent) : Prop :=
  ∃ s' u book', s.execute event = some (s', u) ∧ s'.Represents book' ∧
    orders book' = event.applyTo (orders book) ∧
    remove event.order.orderId book' = remove event.order.orderId book

theorem Represents.executes_add (h : s.Represents book) {order : Order}
    (hadm : (⟨order, .add⟩ : MarketEvent).Admissible (orders book)) : s.Executes book ⟨order, .add⟩ := by
  obtain ⟨hfresh, hpos, hside, hlen, hlevels⟩ := hadm
  obtain ⟨mid, i, hmid, -, hadd⟩ := h.add_spec ⟨order, .add⟩
    (by rw [ids_eq]; exact hfresh) (UInt32.pos_iff_ne_zero.mp hpos)
    (fun e he => hside e.order (mem_orders.mpr ⟨e, he, rfl⟩))
    (by simpa [orders, maxConcurrentOrders] using hlen) ((room_of_insert hlevels).imp_right h.levels.hasRoom)
  obtain ⟨bbo, u, hu⟩ := updateBboAdd_frame mid order
  exact ⟨_, u, _, by rw [← hu]; exact hadd, hmid.withBbo bbo, orders_append book _, by simp [remove]⟩

theorem Represents.executes_cancel (h : s.Represents book) {order : Order}
    (hadm : (⟨order, .cancel⟩ : MarketEvent).Admissible (orders book)) : s.Executes book ⟨order, .cancel⟩ := by
  obtain ⟨e, he, hid⟩ := mem_ids.mp (by rw [ids_eq]; exact hadm)
  obtain ⟨s', u, hs', hrep⟩ := h.purge_step he
  refine ⟨s', u, _, (h.cancel_eq ⟨order, .cancel⟩ he hid.symm).trans hs', hrep, ?_, ?_⟩
  · rw [orders_remove, hid]
    rfl
  · rw [hid, remove_remove]

theorem Represents.executes_trade (h : s.Represents book) {order : Order}
    (hadm : (⟨order, .trade⟩ : MarketEvent).Admissible (orders book)) : s.Executes book ⟨order, .trade⟩ := by
  obtain ⟨o, ho, hid, hpos, hle⟩ := hadm
  obtain ⟨e, he, rfl⟩ := mem_orders.mp ho
  have heq := h.trade_eq ⟨order, .trade⟩ he hid.symm
  simp only at heq hid hle
  simp only [Executes, MarketEvent.applyTo, ← hid]
  by_cases hall : e.order.quantity = order.quantity
  · rw [if_pos hall] at heq
    obtain ⟨s', u, hs', hrep⟩ := h.purge_step he
    refine ⟨s', u, _, heq.trans hs', hrep, ?_, remove_remove _ _⟩
    rw [orders_remove]
    exact amend_orders h.ids_nodup he (by rw [Order.reduceBy, if_pos hall])
  · rw [if_neg hall] at heq
    have hsub := UInt32.toNat_sub_of_le _ _ hle
    have hlt : order.quantity.toNat < e.order.quantity.toNat :=
      Nat.lt_of_le_of_ne hle fun he => hall (UInt32.toNat_inj.mp he.symm)
    have htotal := h.total_decrease he order.quantity (e.order.quantity - order.quantity) (by omega)
    obtain ⟨mid, hmid, -, hchange⟩ := h.changeQuantity_spec he (· - order.quantity.toUInt64)
      order.quantity (e.order.quantity - order.quantity) updateBboReduce (ne_zero_of_toNat (by omega)) htotal
    obtain ⟨bbo, u, hu⟩ := hmid.updateBboReduce_frame (e.order.withQuantity order.quantity)
    obtain ⟨s', hs', -, hrep⟩ := hchange bbo u hu
    refine ⟨s', u, _, heq.trans hs', hrep, ?_, remove_resize _ _ _⟩
    rw [orders_resize]
    exact amend_orders h.ids_nodup he (by rw [Order.reduceBy, if_neg hall])

theorem Represents.executes_update (h : s.Represents book) {order : Order}
    (hadm : (⟨order, .update⟩ : MarketEvent).Admissible (orders book)) : s.Executes book ⟨order, .update⟩ := by
  obtain ⟨e, he, hid⟩ := mem_ids.mp (by rw [ids_eq]; exact hadm)
  have heq := h.update_eq ⟨order, .update⟩ he hid.symm
  simp only at heq hid
  simp only [Executes, MarketEvent.applyTo, ← hid]
  by_cases hzero : order.quantity = 0
  · rw [if_pos hzero] at heq
    obtain ⟨s', u, hs', hrep⟩ := h.purge_step he
    refine ⟨s', u, _, heq.trans hs', hrep, ?_, remove_remove _ _⟩
    rw [orders_remove]
    exact amend_orders h.ids_nodup he (by rw [Order.resizeTo, if_pos hzero])
  · rw [if_neg hzero] at heq
    have horders : orders (resize e.order.orderId order.quantity book) =
        amend e.order.orderId (Order.resizeTo order.quantity) (orders book) := by
      rw [orders_resize]
      exact amend_orders h.ids_nodup he (by rw [Order.resizeTo, if_neg hzero])
    by_cases hless : order.quantity < e.order.quantity
    · rw [if_pos hless] at heq
      have hsub := UInt32.toNat_sub_of_le _ _ (UInt32.le_of_lt hless)
      have hlt := UInt32.lt_iff_toNat_lt.mp hless
      have htotal := h.total_decrease he (e.order.quantity - order.quantity) order.quantity (by omega)
      obtain ⟨mid, hmid, -, hchange⟩ := h.changeQuantity_spec he
        (· - (e.order.quantity - order.quantity).toUInt64) (e.order.quantity - order.quantity)
        order.quantity (fun s order => some (s.updateBboAdd order)) hzero htotal
      obtain ⟨bbo, u, hu⟩ := updateBboAdd_frame mid (e.order.withQuantity _)
      obtain ⟨s', hs', -, hrep⟩ := hchange bbo u (by rw [hu])
      exact ⟨s', u, _, heq.trans hs', hrep, horders, remove_resize _ _ _⟩
    · rw [if_neg hless] at heq
      have hle := UInt32.le_iff_toNat_le.mp (UInt32.not_lt.mp hless)
      have hsub := UInt32.toNat_sub_of_le _ _ (UInt32.not_lt.mp hless)
      have htotal := h.total_increase he (order.quantity - e.order.quantity) order.quantity (by omega)
      obtain ⟨mid, hmid, -, hchange⟩ := h.changeQuantity_spec he
        (· + (order.quantity - e.order.quantity).toUInt64) (order.quantity - e.order.quantity)
        order.quantity updateBboReduce hzero htotal
      obtain ⟨bbo, u, hu⟩ := hmid.updateBboReduce_frame (e.order.withQuantity _)
      obtain ⟨s', hs', -, hrep⟩ := hchange bbo u hu
      exact ⟨s', u, _, heq.trans hs', hrep, horders, remove_resize _ _ _⟩

theorem Represents.execute_step (h : s.Represents book) {event : MarketEvent}
    (hadm : event.Admissible (orders book)) : s.Executes book event := by
  obtain ⟨order, type⟩ := event
  cases type with
  | add => exact h.executes_add hadm
  | cancel => exact h.executes_cancel hadm
  | trade => exact h.executes_trade hadm
  | update => exact h.executes_update hadm

theorem executeAll_snoc {s s' s'' : BookState} {events : List MarketEvent} {event : MarketEvent} {u : BookUpdate}
    (hs : s.executeAll events = some s') (hs' : s'.execute event = some (s'', u)) :
    s.executeAll (events ++ [event]) = some s'' := by
  simp only [executeAll] at hs
  simp [executeAll, hs, hs']

/-- A whole run, by induction from its last event back. -/
theorem executeAll_represents (events : List MarketEvent) (hrun : AdmissibleRun [] events) :
    ∃ s book, (init : BookState).executeAll events = some s ∧ s.Represents book ∧
      orders book = applyAll [] events := by
  induction events using List.reverseRecOn with
  | nil => exact ⟨init, [], rfl, represents_init, rfl⟩
  | append_singleton events event ih =>
    obtain ⟨hrun, hadm⟩ := admissibleRun_append.mp hrun
    obtain ⟨s, book, hs, hrep, horders⟩ := ih hrun
    rw [← horders] at hadm
    obtain ⟨s', u, book', hs', hrep', horders', -⟩ := hrep.execute_step hadm
    exact ⟨s', book', executeAll_snoc hs hs', hrep', by rw [applyAll_append, ← horders, horders']⟩

/-! ## What can be read off the five structures -/

/-- The pool, the price levels, the order map, the price sets and the free stack
describe the same resting orders `book`. Chains are followed link by link. -/
structure Shows (s : BookState) (book : List Entry) : Prop where
  slots_lt : ∀ e ∈ book, e.slot < maxConcurrentOrders
  slots_nodup : (slots book).Nodup
  stored : ∀ e ∈ book, (s.orderPool.orders e.slot).order = e.order
  level : ∀ p, queue book p ≠ [] → ∃ level,
    (∃! i, ∃ l, s.priceLevels.HoldsAt i p l) ∧ s.priceLevels.find p = some level ∧
    (∀ n ≥ maxConcurrentOrders, walk nullIndex s.orderPool.succ n level.head = slots (queue book p)) ∧
    (slots (queue book p)).getLast? = some level.tail ∧
    (∀ n ≥ maxConcurrentOrders,
      walk nullIndex s.orderPool.prev n level.tail = (slots (queue book p)).reverse) ∧
    level.totalQuantity.toNat = total (queue book p)
  no_level : ∀ p, queue book p = [] → ∀ i l, ¬ s.priceLevels.HoldsAt i p l
  bids : ∀ p, p ∈ s.bids ↔ ∃ e ∈ book, e.order.side = .buy ∧ e.order.price = p
  offers : ∀ p, p ∈ s.offers ↔ ∃ e ∈ book, e.order.side = .sell ∧ e.order.price = p
  orderMap : ∀ id i, s.orderMap.find id = some i ↔ ∃ e ∈ book, e.order.orderId = id ∧ e.slot = i
  free_nodup : s.orderPool.freeList.Nodup
  free_iff : ∀ i, i ∈ s.orderPool.freeList ↔ i < maxConcurrentOrders ∧ i ∉ slots book

/-- The two walks along a queue, for any bound that a queue cannot exceed. -/
theorem Represents.walks (h : s.Represents book) (p : Price) {n : Nat} (hn : maxConcurrentOrders ≤ n) :
    walk nullIndex s.orderPool.succ n ((slots (queue book p)).headD nullIndex) = slots (queue book p) ∧
      walk nullIndex s.orderPool.prev n ((slots (queue book p)).getLastD nullIndex) =
        (slots (queue book p)).reverse := by
  have hnull : nullIndex ∉ slots (queue book p) := fun hm =>
    h.slot_ne_null (((queue_sublist book p).map Entry.slot).subset hm) rfl
  have hlen : (slots (queue book p)).length ≤ n := by
    have := (queue_sublist book p).length_le.trans h.length_le
    simp only [slots, List.length_map]
    omega
  have hback := (h.links p).walk_prev hnull (n - (slots (queue book p)).length)
  have hend : walk nullIndex s.orderPool.prev (n - (slots (queue book p)).length) nullIndex = [] := by
    cases n - (slots (queue book p)).length <;> simp [walk]
  rw [Nat.add_sub_cancel' hlen, hend, List.append_nil] at hback
  exact ⟨(h.links p).walk_next hnull hlen, hback⟩

theorem Represents.shows (h : s.Represents book) : s.Shows book where
  slots_lt := h.slots_lt
  slots_nodup := h.slots_nodup
  stored := h.stored
  level := by
    intro p hq
    have hfind := h.levels.find p
    rw [levelOf_of_ne hq] at hfind
    obtain ⟨i, hi⟩ := (h.levels.wf.find_iff _ _).mp hfind
    refine ⟨_, ⟨i, ⟨_, hi⟩, ?_⟩, hfind, fun n hn => (h.walks p hn).1, ?_, fun n hn => (h.walks p hn).2, ?_⟩
    · rintro j ⟨l, hj⟩
      exact h.levels.wf.unique j hj.1 i hi.1 hj.2.1 hi.2.1 (by rw [hj.2.2, hi.2.2])
    · rw [List.getLastD_eq_getLast?]
      have hne : slots (queue book p) ≠ [] := by simpa [slots] using hq
      rw [List.getLast?_eq_getLast_of_ne_nil hne]
      rfl
    · have hlt := total_lt _ ((queue_sublist book p).length_le.trans h.length_le)
      simp only [UInt64.toNat_ofNat', Nat.mod_eq_of_lt hlt]
  no_level := by
    intro p hq i l hi
    have hfind := h.levels.find p
    rw [hq, levelOf_nil, (h.levels.wf.find_iff p l).mpr ⟨i, hi⟩] at hfind
    cases hfind
  bids := fun p => by rw [h.levels.bids, mem_prices]
  offers := fun p => by rw [h.levels.offers, mem_prices]
  orderMap := h.orderMap_iff
  free_nodup := h.free.nodup
  free_iff := h.free.mem_iff

/-- Every event of an admissible run is defined and takes a consistent book to a
consistent book of the orders it describes; the orders it does not name keep their
quantities, their slots and their places in the queues. -/
theorem execute_keeps_consistent (events : List MarketEvent) (event : MarketEvent)
    (hrun : AdmissibleRun [] (events ++ [event])) :
    ∃ s book s' u book', (init : BookState).executeAll events = some s ∧ s.Shows book ∧
      orders book = applyAll [] events ∧ s.execute event = some (s', u) ∧ s'.Shows book' ∧
      orders book' = applyAll [] (events ++ [event]) ∧
      ∀ p, remove event.order.orderId (queue book' p) = remove event.order.orderId (queue book p) := by
  obtain ⟨hrun, hadm⟩ := admissibleRun_append.mp hrun
  obtain ⟨s, book, hs, hrep, horders⟩ := executeAll_represents events hrun
  rw [← horders] at hadm
  obtain ⟨s', u, book', hs', hrep', horders', hrest⟩ := hrep.execute_step hadm
  refine ⟨s, book, s', u, book', hs, hrep.shows, horders, hs', hrep'.shows, ?_, ?_⟩
  · rw [applyAll_append, ← horders, horders']
  · intro p
    rw [← queue_remove, ← queue_remove, hrest]

end BookState

section

attribute [local instance] priceHash idHash

/-- Two buys and a sell, then a partial trade and an update of the two buys. -/
def mixedRun : List MarketEvent :=
  [⟨⟨1, 100, 10, .buy⟩, .add⟩, ⟨⟨2, 100, 5, .buy⟩, .add⟩, ⟨⟨3, 101, 7, .sell⟩, .add⟩,
    ⟨⟨1, 100, 4, .buy⟩, .trade⟩, ⟨⟨2, 0, 9, .buy⟩, .update⟩]

theorem execute_keeps_consistent_mixedRun :
    AdmissibleRun [] (mixedRun ++ [⟨⟨1, 0, 0, .buy⟩, .cancel⟩]) ∧
      ∃ s s' u book', (BookState.init : BookState).executeAll mixedRun = some s ∧
        s.execute ⟨⟨1, 0, 0, .buy⟩, .cancel⟩ = some (s', u) ∧ s'.Shows book' ∧
        orders book' = [⟨2, 100, 9, .buy⟩, ⟨3, 101, 7, .sell⟩] := by
  have hrun : AdmissibleRun [] (mixedRun ++ [⟨⟨1, 0, 0, .buy⟩, .cancel⟩]) := by decide
  obtain ⟨s, book, s', u, book', hs, -, -, hs', hshows, horders, -⟩ :=
    BookState.execute_keeps_consistent mixedRun ⟨⟨1, 0, 0, .buy⟩, .cancel⟩ hrun
  exact ⟨hrun, s, s', u, book', hs, hs', hshows, horders.trans (by decide)⟩

end

end HftPipeline
