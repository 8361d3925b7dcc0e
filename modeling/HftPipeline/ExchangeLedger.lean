import HftPipeline.Submission

/-!
# The ledger of the exchange

What whole runs of requests publish, also when stops interrupt them: a stream in which
every trade takes the oldest of the best-priced orders of its side, no order that is added
crosses the other side, and no unit of quantity is lost. A unit asked for is traded, cancelled or still at rest.
-/
namespace HftPipeline

open RestingBook

/-! ## Streams that keep price-time priority -/

/-- A trade is with the oldest of the best-priced orders of its side, at its price, and for
no more than it has left. -/
def MarketEvent.TakesBest (event : MarketEvent) (orders : List Order) : Prop :=
  event.type = .trade → ∃ best, bestOf event.order.side orders = some best ∧
    event.order = best.withQuantity event.order.quantity ∧ 0 < event.order.quantity ∧
    event.order.quantity ≤ best.quantity

/-- An order that is added crosses no order of the other side. -/
def MarketEvent.RestsUncrossed (event : MarketEvent) (orders : List Order) : Prop :=
  event.type = .add → ∀ o ∈ orders, o.side = event.order.side.opposite →
    ¬ event.order.side.Crosses event.order.price o.price

/-- Every event of the stream is possible when its turn comes, and none is an update. -/
def PriorityRun (orders : List Order) : List MarketEvent → Prop
  | [] => True
  | event :: events =>
    (event.Admissible orders ∧ event.type ≠ .update ∧ event.TakesBest orders ∧ event.RestsUncrossed orders) ∧
      PriorityRun (event.applyTo orders) events

theorem priorityRun_append {orders : List Order} {a b : List MarketEvent} :
    PriorityRun orders (a ++ b) ↔ PriorityRun orders a ∧ PriorityRun (applyAll orders a) b := by
  induction a generalizing orders with
  | nil => simp [PriorityRun, applyAll]
  | cons event a ih => simp [PriorityRun, applyAll, ih, and_assoc]

theorem PriorityRun.admissible {orders : List Order} {events : List MarketEvent} (h : PriorityRun orders events) :
    AdmissibleRun orders events := by
  induction events generalizing orders with
  | nil => trivial
  | cons event events ih => exact ⟨h.1.1, ih h.2⟩

theorem PriorityRun.not_update {orders : List Order} {events : List MarketEvent} (h : PriorityRun orders events) :
    ∀ event ∈ events, event.type ≠ .update := by
  induction events generalizing orders with
  | nil => simp
  | cons event events ih =>
    intro e he
    rcases List.mem_cons.mp he with rfl | he
    · exact h.1.2.1
    · exact ih h.2 e he

/-! ## Counting units -/

/-- The units that rest on a side. -/
def volume (side : Side) (orders : List Order) : Nat := quantityOf (orders.filter fun o => o.side = side)

/-- The units that changed hands. -/
def traded (events : List MarketEvent) : Nat :=
  ((events.filter fun event => event.type = .trade).map (·.order.quantity.toNat)).sum

/-- The units that an event takes off a side without a trade. -/
def MarketEvent.withdraws (event : MarketEvent) (side : Side) (orders : List Order) : Nat :=
  if event.type = .cancel then volume side (orders.filter fun o => o.orderId = event.order.orderId) else 0

/-- The units of a side that were cancelled along the events. -/
def cancelled (side : Side) (orders : List Order) : List MarketEvent → Nat
  | [] => 0
  | event :: events => event.withdraws side orders + cancelled side (event.applyTo orders) events

/-- The units that a request asks to trade on a side. -/
def OrderRequest.asks (request : OrderRequest) (side : Side) : Nat :=
  match request.type, side with
  | .buy, .buy | .sell, .sell => request.quantity.toNat
  | _, _ => 0

theorem traded_append (a b : List MarketEvent) : traded (a ++ b) = traded a + traded b := by
  simp [traded]

theorem cancelled_append (side : Side) (orders : List Order) (a b : List MarketEvent) :
    cancelled side orders (a ++ b) = cancelled side orders a + cancelled side (applyAll orders a) b := by
  induction a generalizing orders with
  | nil => simp [cancelled, applyAll]
  | cons event a ih =>
    rw [List.cons_append, cancelled, ih, cancelled, Nat.add_assoc]
    rfl

theorem volume_append (side : Side) (a b : List Order) : volume side (a ++ b) = volume side a + volume side b := by
  simp [volume, quantityOf]

theorem volume_singleton (side : Side) (o : Order) :
    volume side [o] = if o.side = side then o.quantity.toNat else 0 := by
  by_cases h : o.side = side <;> simp [volume, quantityOf, h]

/-- A cancel takes the units of the orders that it names. -/
theorem volume_filter (side : Side) (id : ID) (orders : List Order) :
    volume side (orders.filter fun o => o.orderId ≠ id) + volume side (orders.filter fun o => o.orderId = id) =
      volume side orders := by
  induction orders with
  | nil => rfl
  | cons o orders ih =>
    have hcons : volume side (o :: orders) = volume side [o] + volume side orders := by
      rw [← volume_append]
      rfl
    by_cases hid : o.orderId = id
    · have hsplit : volume side (o :: orders.filter fun o => o.orderId = id) =
          volume side [o] + volume side (orders.filter fun o => o.orderId = id) := by
        rw [← volume_append]
        rfl
      simp only [List.filter_cons, hid, ne_eq, not_true_eq_false, decide_false, decide_true, if_true,
        Bool.false_eq_true, if_false] at ih ⊢
      omega
    · have hsplit : volume side (o :: orders.filter fun o => o.orderId ≠ id) =
          volume side [o] + volume side (orders.filter fun o => o.orderId ≠ id) := by
        rw [← volume_append]
        rfl
      simp only [List.filter_cons, hid, ne_eq, not_false_eq_true, decide_false, decide_true, if_true,
        Bool.false_eq_true, if_false] at ih hsplit ⊢
      omega

section

variable [StdHash Price] [StdHash ID] {book : List Entry}

section

omit [StdHash Price] [StdHash ID]

/-- A trade takes its units from the side of the order that it names. -/
theorem volume_amend {orders : List Order} (hids : (orders.map Order.orderId).Nodup) {best : Order}
    (hbest : best ∈ orders) {quantity : Quantity} (hle : quantity ≤ best.quantity) (side : Side) :
    volume side (amend best.orderId (Order.reduceBy quantity) orders) +
        (if best.side = side then quantity.toNat else 0) = volume side orders := by
  obtain ⟨front, back, rfl⟩ := List.append_of_mem hbest
  have hsub := UInt32.toNat_sub_of_le _ _ hle
  have hle' := UInt32.le_iff_toNat_le.mp hle
  have hcons : volume side (best :: back) =
      (if best.side = side then best.quantity.toNat else 0) + volume side back := by
    rw [← volume_singleton, ← volume_append]
    rfl
  have hmid : volume side (Order.reduceBy quantity best).toList + (if best.side = side then quantity.toNat else 0) =
      if best.side = side then best.quantity.toNat else 0 := by
    rw [Order.reduceBy]
    split
    · next hall =>
      rw [← hall]
      simp [volume, quantityOf]
    · rw [Option.toList_some, volume_singleton]
      by_cases hside : best.side = side
      · simp only [Order.withQuantity, hside, if_true]
        omega
      · simp only [Order.withQuantity, hside, if_false]
  rw [amend_mid hids, volume_append, volume_append, volume_append, hcons]
  omega

end

/-! ## The state of the exchange -/

namespace Clob

variable {c c' : Clob}

/-- The units of a side that the published events account for. -/
def accounted (c : Clob) (side : Side) : Nat :=
  traded c.published + cancelled side [] c.published + volume side c.resting

section

omit [StdHash Price] [StdHash ID]

/-- What one more event adds to the account. -/
theorem accounted_publish (c : Clob) (event : MarketEvent) (state : BookState) (side : Side) :
    (c.publish event state).accounted side =
      traded c.published + cancelled side [] c.published +
        (traded [event] + event.withdraws side c.resting + volume side (event.applyTo c.resting)) := by
  have hpublished : (c.publish event state).published = c.published ++ [event] := rfl
  have hcancelled : cancelled side [] (c.published ++ [event]) =
      cancelled side [] c.published + event.withdraws side c.resting := cancelled_append side [] c.published [event]
  rw [accounted, resting_publish, hpublished, traded_append, hcancelled]
  omega

end

theorem accounted_trade (h : c.Holds book) {best : Order} (hbest : best ∈ c.resting) {quantity : Quantity}
    (hle : quantity ≤ best.quantity) (state : BookState) (side : Side) :
    (c.publish (tradeEvent best quantity) state).accounted side =
      c.accounted side + if best.side = side then 0 else quantity.toNat := by
  have hvolume := volume_amend h.ids_nodup hbest hle side
  have happly : (tradeEvent best quantity).applyTo c.resting =
      amend best.orderId (Order.reduceBy quantity) c.resting := rfl
  have htraded : traded [tradeEvent best quantity] = quantity.toNat := by simp [traded, tradeEvent]
  have hwithdraws : (tradeEvent best quantity).withdraws side c.resting = 0 := rfl
  rw [accounted_publish, happly, htraded, hwithdraws, accounted]
  by_cases hside : best.side = side
  · rw [if_pos hside] at hvolume ⊢
    omega
  · rw [if_neg hside] at hvolume ⊢
    omega

section

omit [StdHash Price] [StdHash ID]

theorem accounted_add (c : Clob) (order : Order) (state : BookState) (side : Side) :
    (c.publish ⟨order, .add⟩ state).accounted side =
      c.accounted side + if order.side = side then order.quantity.toNat else 0 := by
  have happly : (⟨order, .add⟩ : MarketEvent).applyTo c.resting = c.resting ++ [order] := rfl
  have htraded : traded [⟨order, .add⟩] = 0 := rfl
  have hwithdraws : (⟨order, .add⟩ : MarketEvent).withdraws side c.resting = 0 := rfl
  rw [accounted_publish, happly, htraded, hwithdraws, volume_append, volume_singleton, accounted]
  omega

theorem accounted_cancel (c : Clob) (id : ID) (state : BookState) (side : Side) :
    (c.publish (cancelEvent id) state).accounted side = c.accounted side := by
  have happly : (cancelEvent id).applyTo c.resting = c.resting.filter fun o => o.orderId ≠ id := amend_none _ _
  have htraded : traded [cancelEvent id] = 0 := rfl
  have hwithdraws : (cancelEvent id).withdraws side c.resting =
      volume side (c.resting.filter fun o => o.orderId = id) := rfl
  have hvolume := volume_filter side id c.resting
  rw [accounted_publish, happly, htraded, hwithdraws, accounted]
  omega

end

section

omit [StdHash ID]

/-- A price that found room keeps the number of levels within the map. -/
theorem card_insert_le {s : BookState} (h : s.LevelsShow book) {price : Price}
    (hroom : price ∈ levelPrices book ∨ s.priceLevels.HasRoom) :
    (insert price (restingPrices (orders book))).card ≤ 2 ^ 14 := by
  have hshown : ∀ p ∈ levelPrices book, s.priceLevels.find p ≠ none := by
    intro p hp
    rw [h.find, levelOf_of_ne fun hq => queue_eq_nil_iff.mp hq hp]
    exact Option.some_ne_none _
  rw [← levelPrices_eq]
  rcases hroom with hm | hroom
  · rw [Finset.insert_eq_of_mem hm]
    exact (h.wf.card_le _ hshown).trans (ClosedHashMap.card_occupiedSlots_le _)
  · have hle := h.wf.card_le _ hshown
    exact (Finset.card_insert_le _ _).trans (Nat.lt_of_le_of_lt hle hroom.card_occupiedSlots_lt)

end

/-! ## Calls -/

/-- The exchange has published more events, in a stream that keeps the priority. -/
structure Keeps (c c' : Clob) (events : List MarketEvent) : Prop where
  published : c'.published = c.published ++ events
  priority : PriorityRun c.resting events

section

omit [StdHash Price] [StdHash ID]

theorem Keeps.refl (c : Clob) : c.Keeps c [] := ⟨(List.append_nil _).symm, trivial⟩

theorem Keeps.resting {events : List MarketEvent} (h : c.Keeps c' events) :
    c'.resting = applyAll c.resting events := by
  rw [Clob.resting, h.published, applyAll_append_all]
  rfl

theorem Keeps.trans {c'' : Clob} {a b : List MarketEvent} (h : c.Keeps c' a) (h' : c'.Keeps c'' b) :
    c.Keeps c'' (a ++ b) := by
  refine ⟨?_, priorityRun_append.mpr ⟨h.priority, ?_⟩⟩
  · rw [h'.published, h.published, List.append_assoc]
  · rw [← h.resting]
    exact h'.priority

end

/-- A trade takes its units from the incoming order and from the best opposing one. -/
theorem Holds.executeTrade_ledger (h : c.Holds book) {order order' : Order} {token token' : StopToken}
    (hq : order.quantity ≠ 0) (hstep : c.executeTrade order token = some (true, c', order', token')) :
    ∃ trade, c.Keeps c' [trade] ∧ order' = order.withQuantity order'.quantity ∧
      c'.accounted order.side + order'.quantity.toNat = c.accounted order.side + order.quantity.toNat ∧
      c'.accounted order.side.opposite = c.accounted order.side.opposite := by
  rcases executeTrade_cases hstep with ⟨hfalse, -⟩ | ⟨-, best, state, u, hopp, hno, -, rfl, rfl⟩
  · cases hfalse
  · have hsome : (c.state.bbo.best order.side.opposite).price ≠ order.side.opposite.noPrice := by
      intro hnone
      rw [BookState.bestOpposingOrder_sentinel c.state hnone, Option.some.injEq] at hopp
      exact hno (Or.inl (by rw [← hopp]))
    obtain ⟨best', hbest, hopp'⟩ := h.represents.bestOpposingOrder_eq h.best hsome
    rw [hopp, Option.some.injEq] at hopp'
    subst hopp'
    rw [h.orders_eq] at hbest
    obtain ⟨hmem, hside, -⟩ := bestOf_spec hbest
    obtain ⟨e, he, heq⟩ := mem_orders.mp (h.orders_eq.symm ▸ hmem)
    obtain ⟨hpos, hle, hsum⟩ := min_quantity hq (heq ▸ h.represents.positive e he)
    refine ⟨tradeEvent best (min order.quantity best.quantity), ⟨rfl, ⟨?_, ?_, ?_, ?_⟩, trivial⟩, rfl, ?_, ?_⟩
    · exact ⟨best, hmem, rfl, UInt32.pos_iff_ne_zero.mpr hpos, hle⟩
    · exact fun htype => by cases htype
    · intro _
      refine ⟨best, ?_, rfl, UInt32.pos_iff_ne_zero.mpr hpos, hle⟩
      rw [show (tradeEvent best (min order.quantity best.quantity)).order.side = best.side from rfl, hside]
      exact hbest
    · exact fun htype => by cases htype
    · rw [accounted_trade h hmem hle, hside, if_neg (BookState.Side.ne_opposite _).symm]
      simp only [Order.withQuantity]
      omega
    · rw [accounted_trade h hmem hle, hside, if_pos rfl, Nat.add_zero]

theorem Holds.matchLoop_ledger {fuel : Nat} (h : c.Holds book) {order order' : Order} {token token' : StopToken}
    (hloop : c.matchLoop fuel order token = some (c', order', token')) :
    ∃ events, c.Keeps c' events ∧
      c'.accounted order.side + order'.quantity.toNat = c.accounted order.side + order.quantity.toNat ∧
      c'.accounted order.side.opposite = c.accounted order.side.opposite := by
  induction fuel generalizing c book order token with
  | zero => cases hloop
  | succ fuel ih =>
    rw [Clob.matchLoop] at hloop
    split at hloop
    · cases hloop
      exact ⟨[], Keeps.refl _, rfl, rfl⟩
    · next hq =>
      obtain ⟨⟨traded, c₁, order₁, token₁⟩, hstep, hrest⟩ := Option.bind_eq_some_iff.mp hloop
      cases traded with
      | false =>
        cases hrest
        rcases h.executeTrade hq hstep with ⟨-, rfl, rfl, -⟩ | ⟨htrue, -⟩
        · exact ⟨[], Keeps.refl _, rfl, rfl⟩
        · cases htrue
      | true =>
        obtain ⟨trade, hkeeps, horder, hsum, hopposite⟩ := h.executeTrade_ledger hq hstep
        obtain ⟨book₁, h₁⟩ : ∃ book₁, c₁.Holds book₁ := by
          rcases h.executeTrade hq hstep with ⟨hfalse, -⟩ | ⟨-, book₁, _, _, h₁, -⟩
          · cases hfalse
          · exact ⟨book₁, h₁⟩
        obtain ⟨events, hkeeps', hsum', hopposite'⟩ := ih h₁ hrest
        have hside : order₁.side = order.side := by rw [horder]; rfl
        rw [hside] at hsum' hopposite'
        exact ⟨trade :: events, hkeeps.trans hkeeps', by omega, hopposite'.trans hopposite⟩

/-- What is left is at rest afterwards, unless a stop came first. -/
theorem Holds.addOrder_ledger (h : c.Holds book) {order : Order} {token : StopToken} (hq : order.quantity ≠ 0)
    (hfresh : c.nextOrderId ∉ c.resting.map Order.orderId)
    (hend : ∀ o ∈ c.resting, o.side = order.side.opposite → ¬ order.side.Crosses order.price o.price)
    (hadd : { c with nextOrderId := c.nextOrderId + 1 }.addOrder { order with orderId := c.nextOrderId } token =
      some c') :
    ∃ events, c.Keeps c' events ∧
      c'.accounted order.side ≤ c.accounted order.side + order.quantity.toNat ∧
      (token = none → c'.accounted order.side = c.accounted order.side + order.quantity.toNat) ∧
      c'.accounted order.side.opposite = c.accounted order.side.opposite := by
  rw [Clob.addOrder] at hadd
  split at hadd
  · obtain ⟨⟨state, u⟩, hexec, hadd⟩ := Option.bind_eq_some_iff.mp hadd
    cases hadd
    obtain ⟨hlength, hlevels⟩ := h.represents.add_room hexec
    have hadm : (⟨{ order with orderId := c.nextOrderId }, .add⟩ : MarketEvent).Admissible c.resting := by
      refine ⟨hfresh, UInt32.pos_iff_ne_zero.mpr hq, same_side_of_not_crosses hend, ?_, ?_⟩
      · rw [← h.orders_eq, orders, List.length_map]
        exact hlength
      · rw [← h.orders_eq]
        exact card_insert_le h.represents.levels hlevels
    have hsame := accounted_add { c with nextOrderId := c.nextOrderId + 1 }
      { order with orderId := c.nextOrderId } state order.side
    have hother := accounted_add { c with nextOrderId := c.nextOrderId + 1 }
      { order with orderId := c.nextOrderId } state order.side.opposite
    rw [if_pos rfl] at hsame
    rw [if_neg (BookState.Side.ne_opposite _), Nat.add_zero] at hother
    exact ⟨[_], ⟨rfl, ⟨hadm, by simp, fun htype => (by cases htype), fun _ => hend⟩, trivial⟩, Nat.le_of_eq hsame,
      fun _ => hsame, hother⟩
  · next hstopped =>
    cases hadd
    refine ⟨[], ⟨(List.append_nil _).symm, trivial⟩, Nat.le_add_right _ _, ?_, rfl⟩
    rintro rfl
    exact absurd rfl hstopped

/-- What a call does to the account of each side, at most what it asks for and without a
stop exactly that. -/
structure Accounts (c c' : Clob) (asks : Side → Nat) (token : StopToken) : Prop where
  keeps : ∃ events, c.Keeps c' events
  le : ∀ side, c'.accounted side ≤ c.accounted side + asks side
  eq : token = none → ∀ side, c'.accounted side = c.accounted side + asks side

section

omit [StdHash Price] [StdHash ID]

theorem Accounts.refl {asks : Side → Nat} {token : StopToken} (hnothing : token = none → ∀ side, asks side = 0) :
    c.Accounts c asks token := by
  refine ⟨⟨[], Keeps.refl c⟩, fun side => Nat.le_add_right _ _, ?_⟩
  intro htoken side
  rw [hnothing htoken side, Nat.add_zero]

end

theorem Holds.placeOrder_ledger {fuel : Nat} (h : c.Holds book) {side : Side} {request : OrderRequest}
    {token : StopToken} {id : ID} (hsafe : c.SafePlace side request) {asks : Side → Nat}
    (hasks : asks side = request.quantity.toNat) (hother : asks side.opposite = 0)
    (hplace : Clob.placeOrder fuel side c request token = some (id, c')) : c.Accounts c' asks token := by
  have hsides : ∀ {P : Side → Prop}, P side → P side.opposite → ∀ side', P side' := by
    intro P hside hopposite side'
    rcases Side.eq_or_eq_opposite side side' with rfl | rfl
    · exact hside
    · exact hopposite
  rw [Clob.placeOrder] at hplace
  split at hplace
  · next hzero =>
    cases hplace
    refine Accounts.refl fun _ => hsides ?_ hother
    rw [hasks, hzero]
    rfl
  · obtain ⟨⟨c₁, order, token₁⟩, hloop, hplace⟩ := Option.bind_eq_some_iff.mp hplace
    obtain ⟨book₁, _, h₁, hnext, -, -, hshrink, horder, hend⟩ := h.matchLoop hloop
    obtain ⟨events, hkeeps, hsum, hopposite⟩ := h.matchLoop_ledger hloop
    simp only at hsum hopposite hplace
    split at hplace
    · next hfilled =>
      cases hplace
      rw [hfilled] at hsum
      have hall : c'.accounted side = c.accounted side + asks side := by rw [hasks]; exact hsum
      have hnone : c'.accounted side.opposite = c.accounted side.opposite + asks side.opposite := by
        rw [hother, hopposite, Nat.add_zero]
      exact ⟨⟨events, hkeeps⟩, hsides (Nat.le_of_eq hall) (Nat.le_of_eq hnone), fun _ => hsides hall hnone⟩
    · next hleft =>
      rcases token₁.stopRequested_spec with ⟨hgo, hne⟩ | ⟨hstop, hzero⟩
      · rw [hgo] at hplace
        obtain ⟨c₂, hadd, hplace⟩ := Option.bind_eq_some_iff.mp hplace
        cases hplace
        obtain ⟨hnil, hreached⟩ := (hend.resolve_left hleft).resolve_left hne
        have hpos : order.quantity.toNat ≠ 0 := fun h0 => hleft (UInt32.toNat_inj.mp h0)
        obtain ⟨hhidden, -, hfresh⟩ := hsafe (by simp only at hreached; omega)
        have hside : order.side = side := by rw [horder]; rfl
        have hprice : order.price = request.price := by rw [horder]; rfl
        have hcross : ∀ o ∈ c₁.resting, o.side = order.side.opposite →
            ¬ order.side.Crosses order.price o.price := by
          rw [hside, hprice]
          refine not_crosses_of_reach_eq_nil hnil fun o ho hopp hsentinel => ?_
          obtain ⟨o₀, ho₀, -, hp, hs⟩ := hshrink o ho
          rw [hp]
          exact hhidden o₀ ho₀ (hs ▸ hopp) (hp ▸ hsentinel)
        have hfresh₁ : c₁.nextOrderId ∉ c₁.resting.map Order.orderId := by
          rw [hnext]
          exact hshrink.not_mem_ids hfresh
        obtain ⟨rest, hkeeps', hle, heq, hopposite'⟩ := h₁.addOrder_ledger hleft hfresh₁ hcross hadd
        rw [hside] at hle heq hopposite'
        have hnone : c'.accounted side.opposite = c.accounted side.opposite + asks side.opposite := by
          rw [hother, hopposite', hopposite, Nat.add_zero]
        refine ⟨⟨_, hkeeps.trans hkeeps'⟩, hsides (by omega) (Nat.le_of_eq hnone), ?_⟩
        rintro rfl
        have htoken := matchLoop_none_token hloop
        have hrested := heq (by rw [htoken]; rfl)
        exact hsides (by omega) hnone
      · rw [hstop] at hplace
        cases hplace
        have hnone : c'.accounted side.opposite = c.accounted side.opposite + asks side.opposite := by
          rw [hother, hopposite, Nat.add_zero]
        refine ⟨⟨events, hkeeps⟩, hsides (by omega) (Nat.le_of_eq hnone), ?_⟩
        rintro rfl
        rw [matchLoop_none_token hloop] at hzero
        cases hzero

theorem Holds.cancelOrder_ledger (h : c.Holds book) {request : OrderRequest} {token : StopToken}
    {result : Except Error Unit} {asks : Side → Nat} (hasks : ∀ side, asks side = 0)
    (hcancel : c.cancelOrder request token = some (result, c')) : c.Accounts c' asks token := by
  rw [Clob.cancelOrder] at hcancel
  split at hcancel
  · cases hcancel
    exact Accounts.refl fun _ => hasks
  · next hexists =>
    split at hcancel
    · obtain ⟨⟨state, u⟩, -, hcancel⟩ := Option.bind_eq_some_iff.mp hcancel
      cases hcancel
      have hadm : (cancelEvent request.orderId).Admissible c.resting := by
        show request.orderId ∈ c.resting.map Order.orderId
        rw [← h.orders_eq, ← ids_eq, ← h.represents.orderExists_iff]
        simpa using hexists
      have hsame : ∀ side, (c.publish (cancelEvent request.orderId) state).accounted side =
          c.accounted side + asks side := by
        intro side
        rw [accounted_cancel, hasks, Nat.add_zero]
      have hpriority : PriorityRun c.resting [cancelEvent request.orderId] :=
        ⟨⟨hadm, by simp [cancelEvent], fun htype => (by cases htype), fun htype => (by cases htype)⟩, trivial⟩
      exact ⟨⟨[_], rfl, hpriority⟩, fun side => Nat.le_of_eq (hsame side), fun _ => hsame⟩
    · cases hcancel
      exact Accounts.refl fun _ => hasks

theorem Holds.submit_ledger {fuel : Nat} (h : c.Holds book) {request : OrderRequest} {token : StopToken}
    {result : Except Error ID} (hsafe : c.Safe request)
    (hsubmit : c.submit fuel request token = some (result, c')) : c.Accounts c' request.asks token := by
  cases hkind : request.type with
  | buy =>
    simp only [Safe, Clob.submit, hkind] at hsafe hsubmit
    obtain ⟨⟨id, c₁⟩, hplace, hpair⟩ := Option.map_eq_some_iff.mp hsubmit
    cases hpair
    exact h.placeOrder_ledger hsafe (by simp [OrderRequest.asks, hkind])
      (by simp [OrderRequest.asks, hkind, Side.opposite]) hplace
  | sell =>
    simp only [Safe, Clob.submit, hkind] at hsafe hsubmit
    obtain ⟨⟨id, c₁⟩, hplace, hpair⟩ := Option.map_eq_some_iff.mp hsubmit
    cases hpair
    exact h.placeOrder_ledger hsafe (by simp [OrderRequest.asks, hkind])
      (by simp [OrderRequest.asks, hkind, Side.opposite]) hplace
  | cancel =>
    simp only [Clob.submit, hkind] at hsubmit
    obtain ⟨⟨r, c₁⟩, hcancel, hpair⟩ := Option.map_eq_some_iff.mp hsubmit
    cases hpair
    exact h.cancelOrder_ledger (fun side => by simp [OrderRequest.asks, hkind]) hcancel
  | update => simp [Safe, hkind] at hsafe

/-! ## Whole runs -/

/-- The units that the requests of a run ask to trade on a side. -/
def asked (calls : List (OrderRequest × StopToken)) (side : Side) : Nat :=
  (calls.map fun call => call.1.asks side).sum

theorem Holds.submitAll_ledger {fuel : Nat} {calls : List (OrderRequest × StopToken)} (h : c.Holds book)
    (hsafe : c.SafeRun fuel calls) {results : List (Except Error ID)}
    (hrun : c.submitAll fuel calls = some (results, c')) :
    (∃ book', c'.Holds book') ∧ (∃ events, c.Keeps c' events) ∧
      (∀ side, c'.accounted side ≤ c.accounted side + asked calls side) ∧
      ((∀ call ∈ calls, call.2 = none) → ∀ side, c'.accounted side = c.accounted side + asked calls side) := by
  induction calls generalizing c book results with
  | nil =>
    cases hrun
    exact ⟨⟨book, h⟩, ⟨[], Keeps.refl _⟩, fun _ => Nat.le_add_right _ _, fun _ _ => rfl⟩
  | cons call calls ih =>
    obtain ⟨result, c₁, rest, hsubmit, hrest, -⟩ := submitAll_cons hrun
    obtain ⟨⟨book₁, h₁⟩, -⟩ := h.submit hsafe.1 hsubmit
    obtain ⟨⟨events, hkeeps⟩, hle, heq⟩ := h.submit_ledger hsafe.1 hsubmit
    have hsafe₁ := hsafe.2
    simp only [hsubmit] at hsafe₁
    obtain ⟨hholds, ⟨events', hkeeps'⟩, hle', heq'⟩ := ih h₁ hsafe₁ hrest
    have hasked : ∀ side, asked (call :: calls) side = call.1.asks side + asked calls side := fun _ => rfl
    refine ⟨hholds, ⟨_, hkeeps.trans hkeeps'⟩, ?_, ?_⟩
    · intro side
      have := hle side
      have := hle' side
      rw [hasked]
      omega
    · intro hgo side
      rw [heq' (fun call' hcall => hgo call' (List.mem_cons_of_mem _ hcall)) side,
        heq (hgo call List.mem_cons_self) side, hasked, Nat.add_assoc]

end Clob

end

section

attribute [local instance] priceHash idHash

end

end HftPipeline
