import HftPipeline.Reference

/-!
# The matching loop against the reference

The order that `best_opposing_order` reads through the cached best price, the
price map and the head of the level is the oldest best-priced order of the list,
unless the best price is the one that also stands for an empty side. From there
the loop of the exchange and the loop of the reference run side by side.
-/
namespace HftPipeline

open RestingBook

section

variable [StdHash Price] [StdHash ID] {s : BookState} {book : List Entry}

namespace BookState

/-- The head of a level is the oldest order at its price. -/
theorem Represents.headOrder_eq (h : s.Represents book) {p : Price} (hq : queue book p ≠ []) :
    s.headOrder p = (orders book).find? fun o => o.price = p := by
  obtain ⟨e, q, hcons⟩ := List.exists_cons_of_ne_nil hq
  have hmem : e ∈ book := (mem_queue.mp (hcons ▸ List.mem_cons_self)).1
  have hhead : (slots (queue book p)).headD nullIndex = e.slot := by rw [hcons]; rfl
  have hfind : (orders book).find? (fun o => o.price = p) = some e.order := by
    have hhead? : (queue book p).head? = some e := by rw [hcons]; rfl
    rw [queue, List.head?_filter] at hhead?
    rw [orders, List.find?_map]
    simp only [Function.comp_def, hhead?, Option.map_some]
  rw [hfind, headOrder, h.levels.find, levelOf_of_ne hq, hhead]
  simp [OrderPool.get_of_lt _ (h.slots_lt e hmem), h.stored e hmem]

omit [StdHash Price] [StdHash ID] in
/-- The oldest order at the best price is the best order. -/
theorem bestOf_eq (hmix : Unmixed book) {side : Side} {info : BestOrderInfo} (hbest : IsBest side book info)
    (hne : prices side book ≠ ∅) :
    bestOf side (orders book) = (orders book).find? fun o => o.price = info.price := by
  obtain ⟨hmem, hmax, -⟩ := hbest.ne_empty hne
  obtain ⟨e₀, he₀, hside₀, hprice₀⟩ := mem_prices.mp hmem
  apply List.find?_congr
  intro o ho
  obtain ⟨e, he, rfl⟩ := mem_orders.mp ho
  rw [decide_eq_decide]
  constructor
  · rintro ⟨hside, hall⟩
    have hup := hall e₀.order (mem_orders.mpr ⟨e₀, he₀, rfl⟩) hside₀
    have hdown := hmax _ (mem_prices.mpr ⟨e, he, hside, rfl⟩)
    rw [hprice₀] at hup
    rcases Side.better_trichotomy side e.order.price info.price with hb | heq | hb
    · exact absurd hb hdown
    · exact heq
    · exact absurd hb hup
  · intro hprice
    refine ⟨(hmix e he e₀ he₀ (hprice.trans hprice₀.symm)).trans hside₀, ?_⟩
    intro o' ho' hside'
    obtain ⟨e', he', rfl⟩ := mem_orders.mp ho'
    rw [hprice]
    exact hmax _ (mem_prices.mpr ⟨e', he', hside', rfl⟩)

omit [StdHash ID] in
/-- A best price that is the sentinel reads as an empty side, whether or not it is one. -/
theorem bestOpposingOrder_sentinel (s : BookState) {side : Side}
    (hnone : (s.bbo.best side.opposite).price = side.opposite.noPrice) :
    s.bestOpposingOrder side = some ⟨invalidOrderId, side.opposite.noPrice, 0, side.opposite⟩ := by
  cases side with
  | buy =>
    simp only [Side.opposite, OrderSnapshot.best, Side.noPrice] at hnone
    simp [bestOpposingOrder, hnone, Side.opposite, Side.noPrice]
  | sell =>
    simp only [Side.opposite, OrderSnapshot.best, Side.noPrice] at hnone
    simp [bestOpposingOrder, hnone, Side.opposite, Side.noPrice]

/-- Any other best price leads to the best opposing order. -/
theorem Represents.bestOpposingOrder_eq (h : s.Represents book) (hb : s.BestShown book) {side : Side}
    (hsome : (s.bbo.best side.opposite).price ≠ side.opposite.noPrice) :
    ∃ best, bestOf side.opposite (orders book) = some best ∧ s.bestOpposingOrder side = some best := by
  have hne : prices side.opposite book ≠ ∅ := by
    intro hnone
    have hbest := hb side.opposite
    rw [IsBest, if_pos hnone] at hbest
    exact hsome (by rw [hbest])
  obtain ⟨hmem, -, -⟩ := (hb side.opposite).ne_empty hne
  have hhead := h.headOrder_eq (queue_ne_nil_of_mem_prices hmem)
  rw [← bestOf_eq h.unmixed (hb side.opposite) hne] at hhead
  obtain ⟨e, he, -, hprice⟩ := mem_prices.mp hmem
  obtain ⟨best, hbest⟩ : ∃ best, bestOf side.opposite (orders book) = some best := by
    rw [bestOf_eq h.unmixed (hb side.opposite) hne, ← Option.isSome_iff_exists, List.find?_isSome]
    exact ⟨e.order, mem_orders.mpr ⟨e, he, rfl⟩, by simpa using hprice⟩
  have hprice' : best.price = (s.bbo.best side.opposite).price := by
    have hfind := hbest
    rw [bestOf_eq h.unmixed (hb side.opposite) hne] at hfind
    simpa using List.find?_some hfind
  have hside := (bestOf_spec hbest).2.1
  refine ⟨best, hbest, ?_⟩
  rw [hbest] at hhead
  obtain ⟨id, price, quantity, side'⟩ := best
  subst hprice' hside
  cases side with
  | buy =>
    simp only [Side.opposite, OrderSnapshot.best, Side.noPrice] at hsome hhead ⊢
    simp [bestOpposingOrder, hsome, hhead]
  | sell =>
    simp only [Side.opposite, OrderSnapshot.best, Side.noPrice] at hsome hhead ⊢
    simp [bestOpposingOrder, hsome, hhead]

/-- A trade with a resting order, for no more than it has left. -/
theorem Represents.trade_best (h : s.Represents book) (hb : s.BestShown book) {best : Order}
    (hbest : best ∈ orders book) {quantity : Quantity} (hpos : quantity ≠ 0) (hle : quantity ≤ best.quantity) :
    ∃ s' u book', s.trade (Clob.tradeEvent best quantity) = some (s', u) ∧ s'.Represents book' ∧
      s'.BestShown book' ∧ orders book' = amend best.orderId (Order.reduceBy quantity) (orders book) := by
  have hadm : (Clob.tradeEvent best quantity).Admissible (orders book) :=
    ⟨best, hbest, rfl, UInt32.pos_iff_ne_zero.mpr hpos, hle⟩
  obtain ⟨s', u, book', hexec, hrep, horders, hshown, -, -⟩ := h.execute_best hb hadm (by simp [Clob.tradeEvent])
  exact ⟨s', u, book', hexec, hrep, hshown, horders⟩

end BookState

/-- Every order of the first list is an order of the second up to its quantity. -/
def Shrinks (orders' orders : List Order) : Prop :=
  ∀ o' ∈ orders', ∃ o ∈ orders, o'.orderId = o.orderId ∧ o'.price = o.price ∧ o'.side = o.side

section

omit [StdHash Price] [StdHash ID]

theorem Shrinks.refl (orders : List Order) : Shrinks orders orders := fun o ho => ⟨o, ho, rfl, rfl, rfl⟩

theorem Shrinks.trans {a b c : List Order} (h : Shrinks a b) (h' : Shrinks b c) : Shrinks a c := by
  intro o ho
  obtain ⟨o₁, ho₁, hid, hprice, hside⟩ := h o ho
  obtain ⟨o₂, ho₂, hid', hprice', hside'⟩ := h' o₁ ho₁
  exact ⟨o₂, ho₂, hid.trans hid', hprice.trans hprice', hside.trans hside'⟩

theorem shrinks_amend (id : ID) (quantity : Quantity) (orders : List Order) :
    Shrinks (amend id (Order.reduceBy quantity) orders) orders := by
  intro o' ho'
  obtain ⟨o, ho, heq⟩ := List.mem_filterMap.mp ho'
  refine ⟨o, ho, ?_⟩
  split at heq
  · rw [Order.reduceBy] at heq
    split at heq
    · cases heq
    · cases heq
      exact ⟨rfl, rfl, rfl⟩
  · cases heq
    exact ⟨rfl, rfl, rfl⟩

end

/-- An order with a real id at a price that is no sentinel. -/
def Order.Inside (o : Order) : Prop := o.orderId ≠ invalidOrderId ∧ noBid < o.price ∧ o.price < noOffer

section

omit [StdHash Price] [StdHash ID]

theorem Shrinks.inside {orders' orders : List Order} (h : Shrinks orders' orders)
    (hin : ∀ o ∈ orders, o.Inside) : ∀ o ∈ orders', o.Inside := by
  intro o ho
  obtain ⟨o₀, ho₀, hid, hprice, -⟩ := h o ho
  rw [Order.Inside, hid, hprice]
  exact hin o₀ ho₀

/-- An id that is not in use stays so. -/
theorem Shrinks.not_mem_ids {orders' orders : List Order} (h : Shrinks orders' orders) {id : ID}
    (hid : id ∉ orders.map Order.orderId) : id ∉ orders'.map Order.orderId := by
  intro hm
  obtain ⟨o, ho, heq⟩ := List.mem_map.mp hm
  obtain ⟨o₀, ho₀, hid₀, -⟩ := h o ho
  exact hid (List.mem_map.mpr ⟨o₀, ho₀, by rw [← hid₀, heq]⟩)

theorem amend_none (id : ID) (orders : List Order) :
    amend id (fun _ => none) orders = orders.filter fun o => o.orderId ≠ id := by
  rw [amend, ← List.filterMap_eq_filter]
  apply List.filterMap_congr
  intro o _
  by_cases hid : o.orderId = id <;> simp [Option.guard, hid]

theorem Order.Inside.price_ne {o : Order} (h : o.Inside) (side : Side) : o.price ≠ side.noPrice := by
  cases side with
  | buy => exact ne_of_gt h.2.1
  | sell => exact ne_of_lt h.2.2

end

namespace Clob

theorem executeTrade_none (c : Clob) (order : Order) :
    c.executeTrade order none = (do
      let bestResting ← c.state.bestOpposingOrder order.side
      if NoTrade order bestResting then some (false, c, order, none)
      else do
        let trade := tradeEvent bestResting (min order.quantity bestResting.quantity)
        let (state, _) ← c.state.trade trade
        some (true, c.publish trade state,
          order.withQuantity (order.quantity - min order.quantity bestResting.quantity), none)) := rfl

omit [StdHash Price] [StdHash ID] in
theorem noTrade_iff {side : Side} {price : Price} {quantity : Quantity} {id : ID} {best : Order}
    (hid : best.orderId ≠ invalidOrderId) :
    NoTrade ⟨id, price, quantity, side⟩ best ↔ ¬ side.Crosses price best.price := by
  cases side <;> simp [NoTrade, hid, Side.Crosses]

/-- What the best opposing order is when no order hides behind a sentinel. -/
theorem bestOpposingOrder_cases (h : s.Represents book) (hb : s.BestShown book)
    (hin : ∀ o ∈ orders book, o.Inside) (side : Side) :
    (∃ best, bestOf side.opposite (orders book) = some best ∧ s.bestOpposingOrder side = some best) ∨
      (bestOf side.opposite (orders book) = none ∧ (∀ o ∈ orders book, o.side ≠ side.opposite) ∧
        ∃ best, s.bestOpposingOrder side = some best ∧ best.orderId = invalidOrderId) := by
  by_cases hnone : (s.bbo.best side.opposite).price = side.opposite.noPrice
  · have hempty : ∀ o ∈ orders book, o.side ≠ side.opposite := by
      intro o ho hside
      obtain ⟨e, he, rfl⟩ := mem_orders.mp ho
      have hmem : e.order.price ∈ prices side.opposite book := mem_prices.mpr ⟨e, he, hside, rfl⟩
      obtain ⟨hbest, -, -⟩ := (hb side.opposite).ne_empty (Finset.ne_empty_of_mem hmem)
      obtain ⟨e', he', -, hprice⟩ := mem_prices.mp hbest
      exact (hin e'.order (mem_orders.mpr ⟨e', he', rfl⟩)).price_ne side.opposite (hprice.trans hnone)
    refine Or.inr ⟨?_, hempty, _, BookState.bestOpposingOrder_sentinel s hnone, rfl⟩
    rw [bestOf, List.find?_eq_none]
    intro o ho
    simp [hempty o ho]
  · exact Or.inl (h.bestOpposingOrder_eq hb hnone)

section

omit [StdHash Price] [StdHash ID]

theorem min_quantity {q b : Quantity} (hq : q ≠ 0) (hb : b ≠ 0) :
    min q b ≠ 0 ∧ min q b ≤ b ∧ (q - min q b).toNat + (min q b).toNat = q.toNat := by
  by_cases hle : q ≤ b
  · have hmin : min q b = q := if_pos hle
    rw [hmin]
    exact ⟨hq, hle, by simp⟩
  · have hmin : min q b = b := if_neg hle
    have hlt : b < q := UInt32.not_le.mp hle
    have hsub := UInt32.toNat_sub_of_le _ _ (UInt32.le_of_lt hlt)
    have hlt' := UInt32.lt_iff_toNat_lt.mp hlt
    rw [hmin]
    exact ⟨hb, UInt32.le_refl b, by omega⟩

theorem fill_of_none {side : Side} {orders : List Order} (hnone : bestOf side.opposite orders = none) (price : Price)
    (n : Nat) (q : Quantity) : fill side price (n + 1) q orders = ([], q, orders) := by
  rw [fill, hnone]

theorem fill_of_not {side : Side} {orders : List Order} {best : Order} (hbest : bestOf side.opposite orders = some best)
    {price : Price} {q : Quantity} (hnot : ¬ (q ≠ 0 ∧ side.Crosses price best.price)) (n : Nat) :
    fill side price (n + 1) q orders = ([], q, orders) := by
  rw [fill, hbest]
  exact if_neg hnot

end

omit [StdHash Price] [StdHash ID] in
theorem fill_zero (side : Side) (price : Price) (n : Nat) (orders : List Order) :
    fill side price n 0 orders = ([], 0, orders) := by
  cases n with
  | zero => rfl
  | succ n =>
    cases hbest : bestOf side.opposite orders with
    | none => exact fill_of_none hbest price n 0
    | some best => exact fill_of_not hbest (fun h => h.1 rfl) n

omit [StdHash Price] [StdHash ID] in
theorem fill_of_crosses {side : Side} {orders : List Order} {best : Order}
    (hbest : bestOf side.opposite orders = some best) {price : Price} {q : Quantity} (hq : q ≠ 0)
    (hcross : side.Crosses price best.price) (n : Nat) :
    fill side price (n + 1) q orders =
      let rest := amend best.orderId (Order.reduceBy (min q best.quantity)) orders
      (tradeEvent best (min q best.quantity) :: (fill side price n (q - min q best.quantity) rest).1,
        (fill side price n (q - min q best.quantity) rest).2) := by
  rw [fill, hbest]
  simp only [if_pos (And.intro hq hcross)]
  rfl

/-- The loop makes the trades of the reference, at most `n` of them, and ends. If something is
left then it cannot trade with what rests. -/
def Fills (c : Clob) (fuel : Nat) (book : List Entry) (side : Side) (price : Price) (n : Nat) (q : Quantity) : Prop :=
  ∃ c' book', c.matchLoop fuel ⟨0, price, q, side⟩ none =
      some (c', ⟨0, price, (fill side price n q (orders book)).2.1, side⟩, none) ∧
    c'.published = c.published ++ (fill side price n q (orders book)).1 ∧
    c'.nextOrderId = c.nextOrderId ∧ c'.state.Represents book' ∧ c'.state.BestShown book' ∧
    orders book' = (fill side price n q (orders book)).2.2 ∧ Shrinks (orders book') (orders book) ∧
    ((fill side price n q (orders book)).2.1 ≠ 0 →
      ∀ o ∈ orders book', o.side = side.opposite → ¬ side.Crosses price o.price)

section Loop

variable {c : Clob} {book : List Entry} {side : Side} {price : Price} {n fuel : Nat} {q : Quantity}

/-- Where the reference does not trade, the loop has to stop. -/
theorem Fills.stop (h : c.state.Represents book) (hb : c.state.BestShown book)
    (hfill : fill side price n q (orders book) = ([], q, orders book))
    (hloop : c.matchLoop fuel ⟨0, price, q, side⟩ none = some (c, ⟨0, price, q, side⟩, none))
    (hend : q ≠ 0 → ∀ o ∈ orders book, o.side = side.opposite → ¬ side.Crosses price o.price) :
    c.Fills fuel book side price n q := by
  rw [Fills, hfill]
  exact ⟨c, book, hloop, (List.append_nil _).symm, rfl, h, hb, rfl, Shrinks.refl _, hend⟩

/-- A trade with the best opposing order, and then the rest of the loop. -/
theorem Fills.trade {best : Order} {s' : BookState} {book₁ : List Entry}
    (hbest : bestOf side.opposite (orders book) = some best) (hq : q ≠ 0) (hcross : side.Crosses price best.price)
    (horders : orders book₁ = amend best.orderId (Order.reduceBy (min q best.quantity)) (orders book))
    (hloop : c.matchLoop (fuel + 1) ⟨0, price, q, side⟩ none =
      (c.publish (tradeEvent best (min q best.quantity)) s').matchLoop fuel
        ⟨0, price, q - min q best.quantity, side⟩ none)
    (hrest : (c.publish (tradeEvent best (min q best.quantity)) s').Fills fuel book₁ side price n
      (q - min q best.quantity)) : c.Fills (fuel + 1) book side price (n + 1) q := by
  have hshrink := shrinks_amend best.orderId (min q best.quantity) (orders book)
  rw [← horders] at hshrink
  obtain ⟨c', book', hloop', hpub, hnext, hrep', hshown', horders', hshrink', hend⟩ := hrest
  rw [Fills, fill_of_crosses hbest hq hcross n, ← horders]
  refine ⟨c', book', hloop.trans hloop', ?_, hnext, hrep', hshown', horders', hshrink'.trans hshrink, hend⟩
  rw [hpub]
  simp [publish]

end Loop

/-- The loop of the exchange makes exactly the trades of the reference, and it ends: with
`n` units left it goes round at most `n + 1` times. -/
theorem matchLoop_eq_fill (side : Side) (price : Price) (n : Nat) :
    ∀ {fuel : Nat} {c : Clob} {book : List Entry} {q : Quantity}, n < fuel → q.toNat ≤ n →
      c.state.Represents book → c.state.BestShown book → (∀ o ∈ orders book, o.Inside) →
      c.Fills fuel book side price n q := by
  induction n with
  | zero =>
    intro fuel c book q hfuel hq h hb hin
    obtain ⟨fuel, rfl⟩ := Nat.exists_eq_succ_of_ne_zero (Nat.ne_of_gt hfuel)
    obtain rfl : q = 0 := UInt32.toNat_inj.mp (Nat.le_zero.mp hq)
    exact .stop h hb (fill_zero side price 0 _) (by simp [matchLoop]) fun hne => absurd rfl hne
  | succ n ih =>
    intro fuel c book q hfuel hq h hb hin
    obtain ⟨fuel, rfl⟩ := Nat.exists_eq_succ_of_ne_zero (Nat.ne_of_gt (Nat.zero_lt_of_lt hfuel))
    by_cases hzero : q = 0
    · subst hzero
      exact .stop h hb (fill_zero side price _ _) (by simp [matchLoop]) fun hne => absurd rfl hne
    · rcases bestOpposingOrder_cases h hb hin side with
        ⟨best, hbest, hopp⟩ | ⟨hnone, hempty, best, hopp, hid⟩
      · have hspec := bestOf_spec hbest
        have hid := (hin best hspec.1).1
        by_cases hcross : side.Crosses price best.price
        · obtain ⟨e, he, heq⟩ := mem_orders.mp hspec.1
          have hmin := min_quantity hzero (heq ▸ h.positive e he)
          obtain ⟨s', u, book₁, htrade, hrep, hshown, horders⟩ := h.trade_best hb hspec.1 hmin.1 hmin.2.1
          have hmin0 : (min q best.quantity).toNat ≠ 0 := fun h0 =>
            hmin.1 (UInt32.toNat_inj.mp h0)
          have hin' : ∀ o ∈ orders book₁, o.Inside := by
            rw [horders]
            exact (shrinks_amend best.orderId (min q best.quantity) (orders book)).inside hin
          refine .trade hbest hzero hcross horders ?_ (ih (by omega) (by omega) hrep hshown hin')
          rw [matchLoop, if_neg hzero, executeTrade_none]
          simp only [hopp, noTrade_iff hid, hcross, htrade, Option.bind_eq_bind, Option.bind_some,
            not_true_eq_false, ↓reduceIte, Order.withQuantity]
        · refine .stop h hb (fill_of_not hbest (fun hc => hcross hc.2) n) ?_
            fun _ o ho hside => not_crosses_of_best hbest hcross ho hside
          rw [matchLoop, if_neg hzero, executeTrade_none]
          simp [hopp, noTrade_iff hid, hcross]
      · refine .stop h hb (fill_of_none hnone price n q) ?_ fun _ o ho hside => absurd hside (hempty o ho)
        rw [matchLoop, if_neg hzero, executeTrade_none]
        simp [hopp, NoTrade, hid]

end Clob

/-! ## Whole runs -/

/-- No resting buy could trade with a resting sell. -/
def Uncrossed (orders : List Order) : Prop :=
  ∀ b ∈ orders, ∀ a ∈ orders, b.side = .buy → a.side = .sell → b.price < a.price

section

omit [StdHash Price] [StdHash ID]

theorem Shrinks.uncrossed {orders' orders : List Order} (h : Shrinks orders' orders) (hu : Uncrossed orders) :
    Uncrossed orders' := by
  intro b hb a ha hbuy hsell
  obtain ⟨b₀, hb₀, -, hbp, hbs⟩ := h b hb
  obtain ⟨a₀, ha₀, -, hap, has⟩ := h a ha
  rw [hbp, hap]
  exact hu b₀ hb₀ a₀ ha₀ (hbs ▸ hbuy) (has ▸ hsell)

/-- An order that crosses nothing on the other side may rest. -/
theorem Uncrossed.append {orders : List Order} (hu : Uncrossed orders) {o : Order}
    (ho : ∀ o' ∈ orders, o'.side = o.side.opposite → ¬ o.side.Crosses o.price o'.price) :
    Uncrossed (orders ++ [o]) := by
  intro b hb a ha hbuy hsell
  rw [List.mem_append, List.mem_singleton] at hb ha
  rcases hb with hb | rfl
  · rcases ha with ha | rfl
    · exact hu b hb a ha hbuy hsell
    · have hnot := ho b hb (by rw [hbuy, hsell]; rfl)
      rw [hsell] at hnot
      exact not_le.mp hnot
  · rcases ha with ha | rfl
    · have hnot := ho a ha (by rw [hbuy, hsell]; rfl)
      rw [hbuy] at hnot
      exact not_le.mp hnot
    · rw [hbuy] at hsell
      cases hsell

/-- An order may join the level at its price when it crosses nothing on the other side. -/
theorem same_side_of_not_crosses {orders : List Order} {o : Order}
    (ho : ∀ o' ∈ orders, o'.side = o.side.opposite → ¬ o.side.Crosses o.price o'.price) :
    ∀ o' ∈ orders, o'.price = o.price → o'.side = o.side := by
  intro o' ho' hprice
  rcases Side.eq_or_eq_opposite o.side o'.side with hside | hside
  · exact hside
  · refine absurd ?_ (ho o' ho' hside)
    rw [hprice, Side.crosses_iff]
    exact Side.better_irrefl _ _

end

/-- The exchange and the reference hold the same resting orders and count ids alike. -/
structure Follows (c : Clob) (r : Reference) (book : List Entry) : Prop where
  represents : c.state.Represents book
  best : c.state.BestShown book
  orders_eq : orders book = r.orders
  nextId : c.nextOrderId = UInt64.ofNat r.nextId
  pos : 1 ≤ r.nextId
  inside : ∀ o ∈ r.orders, o.Inside
  older : ∀ o ∈ r.orders, o.orderId.toNat < r.nextId
  uncrossed : Uncrossed r.orders

theorem follows_init : Follows (Clob.init : Clob) Reference.init [] where
  represents := BookState.represents_init
  best := BookState.bestShown_init
  orders_eq := rfl
  nextId := rfl
  pos := Nat.le_refl 1
  inside := by simp [Reference.init]
  older := by simp [Reference.init]
  uncrossed := by simp [Reference.init, Uncrossed]

namespace Follows

variable {c : Clob} {r : Reference}

/-- What is left of an order that crosses nothing any more comes to rest under the next id. -/
theorem addOrder (h : Follows c r book) {side : Side} {price : Price} {left : Quantity} (hleft : left ≠ 0)
    (hprice : noBid < price ∧ price < noOffer)
    (hend : ∀ o ∈ r.orders, o.side = side.opposite → ¬ side.Crosses price o.price)
    (hfits : Reference.Fits ⟨r.nextId + 1, r.orders ++ [⟨UInt64.ofNat r.nextId, price, left, side⟩]⟩)
    (hids : r.nextId + 1 ≤ 2 ^ 64) :
    ∃ c' book', { c with nextOrderId := c.nextOrderId + 1 }.addOrder ⟨c.nextOrderId, price, left, side⟩ none =
        some c' ∧
      c'.published = c.published ++ [⟨⟨UInt64.ofNat r.nextId, price, left, side⟩, .add⟩] ∧
      Follows c' ⟨r.nextId + 1, r.orders ++ [⟨UInt64.ofNat r.nextId, price, left, side⟩]⟩ book' := by
  obtain ⟨hlen, hcard⟩ := hfits
  simp only [List.length_append, List.length_singleton] at hlen
  let order : Order := ⟨UInt64.ofNat r.nextId, price, left, side⟩
  have hid : order.orderId.toNat = r.nextId := by
    simp only [order, UInt64.toNat_ofNat']
    exact Nat.mod_eq_of_lt (by omega)
  have hadm : (⟨order, .add⟩ : MarketEvent).Admissible (orders book) := by
    rw [h.orders_eq]
    refine ⟨?_, UInt32.pos_iff_ne_zero.mpr hleft, same_side_of_not_crosses hend, Nat.lt_of_succ_le hlen, ?_⟩
    · intro hm
      obtain ⟨o, ho, heq⟩ := List.mem_map.mp hm
      have hlt := h.older o ho
      rw [heq, ← hid] at hlt
      exact Nat.lt_irrefl _ hlt
    · refine Nat.le_trans (Finset.card_le_card ?_) hcard
      intro p hp
      simp only [restingPrices, Finset.mem_insert, List.mem_toFinset, List.map_append, List.mem_append] at hp ⊢
      rcases hp with rfl | hp
      · exact Or.inr (by simp)
      · exact Or.inl hp
  obtain ⟨s', u, book', hexec, hrep, horders, hbest, -, -⟩ :=
    h.represents.execute_best h.best hadm (by simp)
  have hadd : c.state.add ⟨⟨c.nextOrderId, price, left, side⟩, .add⟩ = some (s', u) := by
    rw [h.nextId]
    exact hexec
  refine ⟨{ c with nextOrderId := c.nextOrderId + 1 }.publish ⟨⟨c.nextOrderId, price, left, side⟩, .add⟩ s',
    book', by simp [Clob.addOrder, StopToken.waitGetHeadRef, StopToken.stopRequested, hadd],
    by simp [Clob.publish, h.nextId], hrep, hbest, ?_, ?_, Nat.le_succ_of_le h.pos, ?_, ?_, ?_⟩
  · rw [horders, h.orders_eq]
    rfl
  · simp [Clob.publish, h.nextId]
  · intro o ho
    rw [List.mem_append, List.mem_singleton] at ho
    rcases ho with ho | rfl
    · exact h.inside o ho
    · refine ⟨?_, hprice⟩
      intro h0
      have hpos := h.pos
      rw [show order.orderId = 0 from h0] at hid
      rw [← hid] at hpos
      exact absurd hpos (by decide)
  · intro o ho
    rw [List.mem_append, List.mem_singleton] at ho
    rcases ho with ho | rfl
    · exact Nat.lt_succ_of_lt (h.older o ho)
    · exact Nat.lt_succ_of_le (Nat.le_of_eq hid)
  · exact h.uncrossed.append hend

/-- `buy_order` and `sell_order` do what the reference does with the order. -/
theorem placeOrder (h : Follows c r book) {fuel : Nat} (hfuel : 2 ^ 32 ≤ fuel) (side : Side)
    {request : OrderRequest} (hprice : noBid < request.price ∧ request.price < noOffer)
    (hfits : (r.place side request.price request.quantity).2.2.Fits)
    (hids : (r.place side request.price request.quantity).2.2.nextId ≤ 2 ^ 64) :
    ∃ id c' book', Clob.placeOrder fuel side c request none = some (id, c') ∧
      .ok id.toNat = (r.place side request.price request.quantity).1 ∧
      c'.published = c.published ++ (r.place side request.price request.quantity).2.1 ∧
      Follows c' (r.place side request.price request.quantity).2.2 book' := by
  obtain ⟨c₁, book₁, hloop, hpub, hnext, hrep, hbest, horders, hshrink, hend⟩ :=
    Clob.matchLoop_eq_fill side request.price request.quantity.toNat
      (Nat.lt_of_lt_of_le request.quantity.toNat_lt hfuel) (Nat.le_refl _) h.represents h.best
      (h.orders_eq ▸ h.inside)
  rw [h.orders_eq] at hloop hpub horders hshrink hend
  by_cases hq : request.quantity = 0
  · have hplace : r.place side request.price request.quantity = (.ok 0, [], r) := by
      rw [Reference.place, hq]
      rfl
    rw [hplace]
    exact ⟨invalidOrderId, c, book, by simp [Clob.placeOrder, hq], rfl, by simp, h⟩
  · rw [Clob.placeOrder, if_neg hq, hloop]
    rw [Reference.place] at hfits hids ⊢
    generalize fill side request.price request.quantity.toNat request.quantity r.orders = filled at *
    obtain ⟨events, left, rest⟩ := filled
    simp only at hpub horders hend hfits hids ⊢
    rw [horders] at hshrink hend
    have hfollows : Follows c₁ ⟨r.nextId, rest⟩ book₁ := by
      refine ⟨hrep, hbest, horders, hnext.trans h.nextId, h.pos, hshrink.inside h.inside, ?_,
        hshrink.uncrossed h.uncrossed⟩
      intro o ho
      obtain ⟨o₀, ho₀, hid, -⟩ := hshrink o ho
      rw [hid]
      exact h.older o₀ ho₀
    by_cases hzero : left = 0
    · simp only [hzero, Option.bind_eq_bind, Option.bind_some, ↓reduceIte]
      exact ⟨invalidOrderId, c₁, book₁, rfl, rfl, hpub, hfollows⟩
    · rw [if_neg hzero] at hfits hids ⊢
      obtain ⟨c', book', hadd, hpub', hfollows'⟩ := hfollows.addOrder hzero hprice (hend hzero) hfits hids
      have hid : (UInt64.ofNat r.nextId).toNat = r.nextId := by
        rw [UInt64.toNat_ofNat']
        exact Nat.mod_eq_of_lt (Nat.lt_of_succ_le hids)
      refine ⟨c₁.nextOrderId, c', book', ?_, ?_, ?_, hfollows'⟩
      · simp [hzero, StopToken.stopRequested, hadd]
      · rw [hfollows.nextId, hid]
      · rw [hpub', hpub, List.append_assoc]

theorem cancelOrder (h : Follows c r book) (request : OrderRequest) (htype : request.type = .cancel) :
    ∃ result c' book', c.cancelOrder request none = some (result, c') ∧
      result.map (fun _ => 0) = (r.submit request).1 ∧
      c'.published = c.published ++ (r.submit request).2.1 ∧ Follows c' (r.submit request).2.2 book' := by
  have hexists := h.represents.orderExists_iff request.orderId
  rw [ids_eq, h.orders_eq] at hexists
  simp only [Reference.submit, htype]
  by_cases hm : request.orderId ∈ r.orders.map Order.orderId
  · have hadm : (Clob.cancelEvent request.orderId).Admissible (orders book) := by
      rw [h.orders_eq]
      exact hm
    obtain ⟨s', u, book', hexec, hrep, horders, hbest, -, -⟩ :=
      h.represents.execute_best h.best hadm (by simp [Clob.cancelEvent])
    have hcancel : c.state.cancel (Clob.cancelEvent request.orderId) = some (s', u) := hexec
    have hsub : Shrinks (r.orders.filter fun o => o.orderId ≠ request.orderId) r.orders :=
      fun o ho => ⟨o, (List.mem_filter.mp ho).1, rfl, rfl, rfl⟩
    rw [if_pos hm]
    refine ⟨.ok (), c.publish (Clob.cancelEvent request.orderId) s', book', ?_, rfl, rfl, ?_⟩
    · simp [Clob.cancelOrder, hexists.mpr hm, StopToken.waitGetHeadRef, StopToken.stopRequested, hcancel]
    · refine ⟨hrep, hbest, ?_, h.nextId, h.pos, hsub.inside h.inside, ?_, hsub.uncrossed h.uncrossed⟩
      · rw [horders, h.orders_eq]
        exact amend_none _ _
      · exact fun o ho => h.older o (List.mem_filter.mp ho).1
  · rw [if_neg hm]
    refine ⟨.error .orderDoesNotExist, c, book, ?_, rfl, by simp, h⟩
    simp [Clob.cancelOrder, Bool.eq_false_iff.mpr fun he => hm (hexists.mp he)]

/-- One request. -/
theorem submit (h : Follows c r book) {fuel : Nat} (hfuel : 2 ^ 32 ≤ fuel) {request : OrderRequest}
    (htype : request.type ≠ .update)
    (hprice : request.type ≠ .cancel → noBid < request.price ∧ request.price < noOffer)
    (hfits : (r.submit request).2.2.Fits) (hids : (r.submit request).2.2.nextId ≤ 2 ^ 64) :
    ∃ result c' book', c.submit fuel request none = some (result, c') ∧
      result.map UInt64.toNat = (r.submit request).1 ∧
      c'.published = c.published ++ (r.submit request).2.1 ∧ Follows c' (r.submit request).2.2 book' := by
  cases hkind : request.type with
  | buy =>
    simp only [Reference.submit, hkind] at hfits hids ⊢
    obtain ⟨id, c', book', hplace, hid, hpub, hfollows⟩ :=
      h.placeOrder hfuel .buy (hprice (by simp [hkind])) hfits hids
    exact ⟨.ok id, c', book', by simp [Clob.submit, hkind, Clob.buyOrder, hplace], hid, hpub, hfollows⟩
  | sell =>
    simp only [Reference.submit, hkind] at hfits hids ⊢
    obtain ⟨id, c', book', hplace, hid, hpub, hfollows⟩ :=
      h.placeOrder hfuel .sell (hprice (by simp [hkind])) hfits hids
    exact ⟨.ok id, c', book', by simp [Clob.submit, hkind, Clob.sellOrder, hplace], hid, hpub, hfollows⟩
  | cancel =>
    obtain ⟨result, c', book', hcancel, hresult, hpub, hfollows⟩ := h.cancelOrder request hkind
    refine ⟨result.map fun _ => invalidOrderId, c', book', by simp [Clob.submit, hkind, hcancel], ?_, hpub,
      hfollows⟩
    rw [← hresult]
    cases result <;> rfl
  | update => exact absurd hkind htype

/-- All requests of a run. -/
theorem submitAll {fuel : Nat} (hfuel : 2 ^ 32 ≤ fuel) {requests : List OrderRequest} (h : Follows c r book)
    (htypes : ∀ request ∈ requests, request.type ≠ .update)
    (hprices : ∀ request ∈ requests, request.type ≠ .cancel →
      noBid < request.price ∧ request.price < noOffer)
    (hfits : r.RunFits requests) (hids : (r.run requests).2.2.nextId ≤ 2 ^ 64) :
    ∃ results c' book', c.submitAll fuel (requests.map fun request => (request, none)) = some (results, c') ∧
      results.map (Except.map UInt64.toNat) = (r.run requests).1 ∧
      c'.published = c.published ++ (r.run requests).2.1 ∧ Follows c' (r.run requests).2.2 book' := by
  induction requests generalizing c r book with
  | nil => exact ⟨[], c, book, rfl, rfl, by simp [Reference.run], h⟩
  | cons request requests ih =>
    obtain ⟨hfirst, hrest⟩ := hfits
    have hlater := (r.submit request).2.2.nextId_le_run requests
    obtain ⟨result, c₁, book₁, hsubmit, hresult, hpub, hfollows⟩ :=
      h.submit hfuel (htypes request (by simp)) (hprices request (by simp)) hfirst
        (Nat.le_trans hlater hids)
    obtain ⟨results, c', book', hrun, hresults, hpub', hfollows'⟩ := ih hfollows
      (fun x hx => htypes x (by simp [hx])) (fun x hx => hprices x (by simp [hx])) hrest hids
    refine ⟨result :: results, c', book', ?_, ?_, ?_, hfollows'⟩
    · simp [Clob.submitAll, hsubmit, hrun]
    · simp [Reference.run, hresult, hresults]
    · simp [Reference.run, hpub', hpub]

end Follows

/-- The exchange answers a sequence of requests as the reference does: the same results,
the same events, the same resting orders, none of which cross. A cancel of an id that does
not rest is refused and changes nothing. -/
def Agrees (fuel : Nat) (requests : List OrderRequest) : Prop :=
  ∃ results c book,
    (Clob.init : Clob).submitAll fuel (requests.map fun request => (request, none)) = some (results, c) ∧
    results.map (Except.map UInt64.toNat) = (Reference.init.run requests).1 ∧
    c.published = (Reference.init.run requests).2.1 ∧
    c.state.Shows book ∧ orders book = (Reference.init.run requests).2.2.orders ∧ Uncrossed (orders book) ∧
    ∀ request, request.type = .cancel → request.orderId ∉ (orders book).map Order.orderId →
      c.submit fuel request none = some (.error .orderDoesNotExist, c)

/-- As long as at most 2^64 - 1 orders come to rest. -/
theorem submitAll_matches_reference {fuel : Nat} (hfuel : 2 ^ 32 ≤ fuel) (requests : List OrderRequest)
    (htypes : ∀ request ∈ requests, request.type ≠ .update)
    (hprices : ∀ request ∈ requests, request.type ≠ .cancel →
      noBid < request.price ∧ request.price < noOffer)
    (hfits : Reference.init.RunFits requests)
    (hids : (Reference.init.run requests).2.2.nextId ≤ 2 ^ 64) : Agrees fuel requests := by
  obtain ⟨results, c, book, hrun, hresults, hpub, hfollows⟩ :=
    follows_init.submitAll hfuel htypes hprices hfits hids
  refine ⟨results, c, book, hrun, hresults, hpub, hfollows.represents.shows, hfollows.orders_eq,
    hfollows.orders_eq ▸ hfollows.uncrossed, ?_⟩
  intro request htype hm
  have hnot : c.state.orderExists request.orderId = false := by
    rw [Bool.eq_false_iff, Ne, hfollows.represents.orderExists_iff, ids_eq]
    exact hm
  simp only [Clob.submit, htype, Clob.cancelOrder, hnot]
  rfl

end

section

attribute [local instance] priceHash idHash

/-- Two buys at different prices and one more, a sell that goes through the best of them
and rests, and two cancels of which the second names nothing. -/
def crossingRun : List OrderRequest :=
  [⟨0, 100, 10, .buy⟩, ⟨0, 101, 4, .buy⟩, ⟨0, 101, 3, .buy⟩, ⟨0, 101, 9, .sell⟩, ⟨1, 0, 0, .cancel⟩,
    ⟨9, 0, 0, .cancel⟩]

theorem submitAll_matches_reference_crossingRun :
    Agrees (2 ^ 32) crossingRun ∧ (Reference.init.run crossingRun).1 =
      [.ok 1, .ok 2, .ok 3, .ok 4, .ok 0, .error .orderDoesNotExist] := by
  refine ⟨submitAll_matches_reference (Nat.le_refl _) crossingRun ?_ ?_ ?_ ?_, ?_⟩
  all_goals decide +kernel

end

/-! ## The id counter at its end -/

def buyOne : OrderRequest := ⟨0, 100, 1, .buy⟩

/-- `n` orders that come to rest and are cancelled at once. -/
def churn : Nat → List OrderRequest
  | 0 => []
  | n + 1 => churn n ++ [buyOne, ⟨UInt64.ofNat (n + 1), 0, 0, .cancel⟩]

theorem churn_types (n : Nat) : ∀ request ∈ churn n, request.type ≠ .update := by
  induction n with
  | zero => simp [churn]
  | succ n ih =>
    intro request hm
    rcases List.mem_append.mp hm with hm | hm
    · exact ih request hm
    · simp only [List.mem_cons, List.not_mem_nil, or_false] at hm
      rcases hm with rfl | rfl <;> simp [buyOne]

theorem churn_prices (n : Nat) : ∀ request ∈ churn n, request.type ≠ .cancel →
    noBid < request.price ∧ request.price < noOffer := by
  induction n with
  | zero => simp [churn]
  | succ n ih =>
    intro request hm
    rcases List.mem_append.mp hm with hm | hm
    · exact ih request hm
    · simp only [List.mem_cons, List.not_mem_nil, or_false] at hm
      rcases hm with rfl | rfl
      · intro _
        decide
      · intro hne
        exact absurd rfl hne

theorem submit_buyOne (n : Nat) : (⟨n, []⟩ : Reference).submit buyOne =
    (.ok n, [⟨⟨UInt64.ofNat n, 100, 1, .buy⟩, .add⟩], ⟨n + 1, [⟨UInt64.ofNat n, 100, 1, .buy⟩]⟩) := rfl

theorem submit_cancelOne (n : Nat) :
    (⟨n + 1, [⟨UInt64.ofNat n, 100, 1, .buy⟩]⟩ : Reference).submit ⟨UInt64.ofNat n, 0, 0, .cancel⟩ =
      (.ok 0, [Clob.cancelEvent (UInt64.ofNat n)], ⟨n + 1, []⟩) := by
  simp [Reference.submit]

theorem fits_singleton (n : Nat) (o : Order) : Reference.Fits ⟨n, [o]⟩ := by
  simp [Reference.Fits, restingPrices]

theorem run_churn (n : Nat) :
    (Reference.init.run (churn n)).2.2 = ⟨n + 1, []⟩ ∧ Reference.init.RunFits (churn n) := by
  induction n with
  | zero => exact ⟨rfl, trivial⟩
  | succ n ih =>
    rw [churn, Reference.run_append, Reference.runFits_append]
    simp only [ih.1, Reference.run, Reference.RunFits, submit_buyOne, submit_cancelOne, ih.2, true_and, and_true]
    exact ⟨fits_singleton _ _, by simp [Reference.Fits, restingPrices]⟩

section

attribute [local instance] priceHash idHash

theorem submitAll_append (fuel : Nat) (c : Clob) (a b : List (OrderRequest × StopToken)) :
    c.submitAll fuel (a ++ b) = (do
      let (ra, c) ← c.submitAll fuel a
      let (rb, c) ← c.submitAll fuel b
      return (ra ++ rb, c)) := by
  induction a generalizing c with
  | nil => simp [Clob.submitAll]
  | cons call a ih => simp [Clob.submitAll, ih, Option.bind_assoc]

/-- On an empty book a buy finds nothing to trade with and rests under the next id. -/
theorem submit_buyOne_empty {c : Clob} {book : List Entry} (h : c.state.Represents book)
    (hb : c.state.BestShown book) (hnil : orders book = []) :
    ∃ c', c.submit (2 ^ 32) buyOne none = some (.ok c.nextOrderId, c') ∧
      c'.published = c.published ++ [⟨⟨c.nextOrderId, 100, 1, .buy⟩, .add⟩] := by
  obtain ⟨c₁, book₁, hloop, hpub, hnext, hrep, hbest, horders, -, -⟩ :=
    Clob.matchLoop_eq_fill .buy 100 1 (show 1 < 2 ^ 32 by decide) (Nat.le_refl (1 : Quantity).toNat) h hb
      (by simp [hnil])
  have hfill : fill .buy 100 1 1 [] = ([], 1, []) := rfl
  rw [hnil, hfill] at hloop hpub horders
  have hadm : (⟨⟨c₁.nextOrderId, 100, 1, .buy⟩, .add⟩ : MarketEvent).Admissible (orders book₁) := by
    rw [horders]
    exact ⟨by simp, show (0 : Quantity) < 1 by decide, by simp, by decide, by simp [restingPrices]⟩
  obtain ⟨s', u, -, hexec, -⟩ := hrep.execute_best hbest hadm (by simp)
  have hadd : c₁.state.add ⟨⟨c₁.nextOrderId, 100, 1, .buy⟩, .add⟩ = some (s', u) := hexec
  refine ⟨{ c₁ with nextOrderId := c₁.nextOrderId + 1 }.publish ⟨⟨c₁.nextOrderId, 100, 1, .buy⟩, .add⟩ s',
    ?_, by simp [Clob.publish, hpub, hnext]⟩
  have hplace : Clob.placeOrder (2 ^ 32) .buy c buyOne none = some (c₁.nextOrderId,
      { c₁ with nextOrderId := c₁.nextOrderId + 1 }.publish ⟨⟨c₁.nextOrderId, 100, 1, .buy⟩, .add⟩ s') := by
    rw [Clob.placeOrder, if_neg (by decide), show (⟨0, buyOne.price, buyOne.quantity, .buy⟩ : Order) =
      ⟨0, 100, 1, .buy⟩ from rfl, hloop]
    simp [StopToken.stopRequested, StopToken.waitGetHeadRef, Clob.addOrder, hadd]
  rw [Clob.submit]
  simp only [buyOne, Clob.buyOrder] at hplace ⊢
  rw [hplace, hnext]
  rfl

/-- After 2^64 - 1 resting orders the next one rests under the id that means "no order":
the answer says it was filled while its Add is published. -/
theorem buyOne_after_churn_disagrees :
    (∀ request ∈ churn (2 ^ 64 - 1) ++ [buyOne], request.type ≠ .update) ∧
    (∀ request ∈ churn (2 ^ 64 - 1) ++ [buyOne], request.type ≠ .cancel →
      noBid < request.price ∧ request.price < noOffer) ∧
    Reference.init.RunFits (churn (2 ^ 64 - 1) ++ [buyOne]) ∧
    (∃ results c, (Clob.init : Clob).submitAll (2 ^ 32)
        ((churn (2 ^ 64 - 1) ++ [buyOne]).map fun request => (request, none)) = some (results, c) ∧
      results.getLast? = some (.ok invalidOrderId) ∧
      c.published.getLast? = some ⟨⟨invalidOrderId, 100, 1, .buy⟩, .add⟩) ∧
    ¬ Agrees (2 ^ 32) (churn (2 ^ 64 - 1) ++ [buyOne]) := by
  generalize hn : 2 ^ 64 - 1 = n
  have hn' : n + 1 = 2 ^ 64 := by omega
  have hrun := run_churn n
  obtain ⟨results, c, book, hall, -, -, hfollows⟩ := follows_init.submitAll (Nat.le_refl (2 ^ 32))
    (churn_types n) (churn_prices n) hrun.2 (by rw [hrun.1]; exact Nat.le_of_eq hn')
  rw [hrun.1] at hfollows
  have hnil : orders book = [] := hfollows.orders_eq
  have hzero : c.nextOrderId = invalidOrderId := by
    rw [hfollows.nextId]
    simp only [hn']
    rfl
  obtain ⟨c', hsubmit, hpub⟩ := submit_buyOne_empty hfollows.represents hfollows.best hnil
  have hsubmitAll : (Clob.init : Clob).submitAll (2 ^ 32)
      ((churn n ++ [buyOne]).map fun request => (request, none)) =
        some (results ++ [.ok invalidOrderId], c') := by
    rw [List.map_append, submitAll_append, hall]
    simp only [List.map_cons, List.map_nil, Clob.submitAll, Option.bind_eq_bind, Option.bind_some, hsubmit, hzero]
    rfl
  have hfits : Reference.init.RunFits (churn n ++ [buyOne]) := by
    rw [Reference.runFits_append, hrun.1]
    exact ⟨hrun.2, fits_singleton _ _, trivial⟩
  refine ⟨?_, ?_, hfits, ⟨_, c', hsubmitAll, by simp, by simp [hpub, hzero]⟩, ?_⟩
  · intro request hm
    rcases List.mem_append.mp hm with hm | hm
    · exact churn_types n request hm
    · rw [List.mem_singleton.mp hm]
      simp [buyOne]
  · intro request hm
    rcases List.mem_append.mp hm with hm | hm
    · exact churn_prices n request hm
    · rw [List.mem_singleton.mp hm]
      intro _
      decide
  · rintro ⟨results', c'', book'', hagree, hresults, -⟩
    rw [hsubmitAll, Option.some.injEq, Prod.mk.injEq] at hagree
    rw [← hagree.1, Reference.run_append, hrun.1] at hresults
    have hlast := congrArg List.getLast? hresults
    simp [Reference.run, submit_buyOne, Except.map, invalidOrderId] at hlast

end

end HftPipeline
