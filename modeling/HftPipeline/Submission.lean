import HftPipeline.Uncrossed

/-!
# One call of the exchange

What a call of `submit` publishes, whatever its stop token answers, and that none of the
accesses it makes is undefined as long as the book has room.
-/
namespace HftPipeline

open RestingBook

/-! ## Events one after another -/

theorem applyAll_append_all (orders : List Order) (a b : List MarketEvent) :
    applyAll orders (a ++ b) = applyAll (applyAll orders a) b :=
  List.foldl_append

theorem admissibleRun_append_all {orders : List Order} {a b : List MarketEvent} :
    AdmissibleRun orders (a ++ b) ↔ AdmissibleRun orders a ∧ AdmissibleRun (applyAll orders a) b := by
  induction a generalizing orders with
  | nil => simp [AdmissibleRun, applyAll]
  | cons event a ih => simp [AdmissibleRun, applyAll, ih, and_assoc]

section

variable [StdHash Price] [StdHash ID] {book : List Entry}

omit [StdHash Price] [StdHash ID] in
/-- Trades leave fewer orders and smaller ones. -/
theorem shrinks_applyAll (orders : List Order) {trades : List MarketEvent}
    (h : ∀ trade ∈ trades, trade.type = .trade) :
    Shrinks (applyAll orders trades) orders ∧ (applyAll orders trades).length ≤ orders.length := by
  induction trades generalizing orders with
  | nil => exact ⟨Shrinks.refl orders, Nat.le_refl _⟩
  | cons trade trades ih =>
    have hfirst : trade.applyTo orders =
        amend trade.order.orderId (Order.reduceBy trade.order.quantity) orders := by
      simp only [MarketEvent.applyTo, h trade List.mem_cons_self]
    obtain ⟨hshrinks, hlength⟩ := ih (trade.applyTo orders) fun t ht => h t (List.mem_cons_of_mem _ ht)
    rw [hfirst] at hshrinks hlength
    refine ⟨?_, ?_⟩
    · show Shrinks (applyAll (trade.applyTo orders) trades) orders
      rw [hfirst]
      exact hshrinks.trans (shrinks_amend _ _ _)
    · show (applyAll (trade.applyTo orders) trades).length ≤ orders.length
      rw [hfirst]
      exact Nat.le_trans hlength (List.length_filterMap_le _ _)

namespace Clob

variable {c c' : Clob}

/-- More events were published, and each of them could be executed when its turn came. -/
structure Extends (c c' : Clob) (events : List MarketEvent) : Prop where
  published : c'.published = c.published ++ events
  admissible : AdmissibleRun c.resting events

section

omit [StdHash Price] [StdHash ID]

theorem Extends.refl (c : Clob) : c.Extends c [] := ⟨(List.append_nil _).symm, trivial⟩

theorem Extends.resting {events : List MarketEvent} (h : c.Extends c' events) :
    c'.resting = applyAll c.resting events := by
  rw [Clob.resting, h.published, applyAll_append_all]
  rfl

end

omit [StdHash Price] [StdHash ID] in
theorem Extends.trans {c'' : Clob} {a b : List MarketEvent} (h : c.Extends c' a) (h' : c'.Extends c'' b) :
    c.Extends c'' (a ++ b) := by
  refine ⟨?_, admissibleRun_append_all.mpr ⟨h.admissible, ?_⟩⟩
  · rw [h'.published, h.published, List.append_assoc]
  · rw [← h.resting]
    exact h'.admissible

/-! ## Trades -/

theorem Holds.executeTrade_progress (h : c.Holds book) (hin : ∀ o ∈ c.resting, o.Inside) (order : Order)
    (hq : order.quantity ≠ 0) (token : StopToken) :
    ∃ traded c' order' token', c.executeTrade order token = some (traded, c', order', token') ∧
      (traded = true → order'.quantity.toNat < order.quantity.toNat ∧
        ∃ trade, trade.type = .trade ∧ c.Extends c' [trade]) := by
  rw [Clob.executeTrade]
  rcases StopToken.stopRequested_spec token with ⟨hgo, -⟩ | ⟨hstop, -⟩
  · rw [hgo]
    rcases bestOpposingOrder_cases h.represents h.best (h.orders_eq ▸ hin) order.side with
      ⟨best, hbest, hopp⟩ | ⟨-, -, best, hopp, hid⟩
    · simp only [Bool.false_eq_true, if_false, hopp, Option.bind_eq_bind, Option.bind_some]
      by_cases hno : NoTrade order best
      · exact ⟨false, c, order, _, if_pos hno, by rintro ⟨⟩⟩
      · rw [if_neg hno]
        rcases StopToken.stopRequested_spec token.stopRequested.2 with ⟨hgo', -⟩ | ⟨hstop', -⟩
        · obtain ⟨hmem, -⟩ := bestOf_spec hbest
          obtain ⟨e, he, heq⟩ := mem_orders.mp hmem
          obtain ⟨hpos, hle, hsum⟩ := min_quantity hq (heq ▸ h.represents.positive e he)
          obtain ⟨s', u, -, htrade, -⟩ := h.represents.trade_best h.best hmem hpos hle
          have hpos' : (min order.quantity best.quantity).toNat ≠ 0 := fun h0 => hpos (UInt32.toNat_inj.mp h0)
          rw [StopToken.waitGetHeadRef, hgo']
          simp only [Bool.not_false, if_true, htrade, Option.bind_some]
          refine ⟨true, _, _, _, rfl, fun _ =>
            ⟨?_, tradeEvent best (min order.quantity best.quantity), rfl, rfl, ?_, trivial⟩⟩
          · simp only [Order.withQuantity]
            omega
          · exact ⟨best, h.orders_eq ▸ hmem, rfl, UInt32.pos_iff_ne_zero.mpr hpos, hle⟩
        · rw [StopToken.waitGetHeadRef, hstop']
          exact ⟨false, c, order, _, rfl, by rintro ⟨⟩⟩
    · simp only [Bool.false_eq_true, if_false, hopp, Option.bind_eq_bind, Option.bind_some]
      exact ⟨false, c, order, _, if_pos (Or.inl hid), by rintro ⟨⟩⟩
  · rw [hstop]
    exact ⟨false, c, order, some 0, rfl, by rintro ⟨⟩⟩

/-- The loop ends, since every trade takes something from the order. -/
theorem Holds.matchLoop_progress (n : Nat) :
    ∀ {fuel : Nat} {c : Clob} {book : List Entry} (order : Order) (token : StopToken), n < fuel →
      order.quantity.toNat ≤ n → c.Holds book → (∀ o ∈ c.resting, o.Inside) →
      ∃ c' order' token' trades, c.matchLoop fuel order token = some (c', order', token') ∧
        (∀ trade ∈ trades, trade.type = .trade) ∧ c.Extends c' trades := by
  induction n with
  | zero =>
    intro fuel c book order token hfuel hq h hin
    obtain ⟨fuel, rfl⟩ := Nat.exists_eq_succ_of_ne_zero (Nat.ne_of_gt hfuel)
    have hzero : order.quantity = 0 := UInt32.toNat_inj.mp (Nat.le_zero.mp hq)
    exact ⟨c, order, token, [], if_pos hzero, nofun, Extends.refl c⟩
  | succ n ih =>
    intro fuel c book order token hfuel hq h hin
    obtain ⟨fuel, rfl⟩ := Nat.exists_eq_succ_of_ne_zero (Nat.ne_of_gt (Nat.zero_lt_of_lt hfuel))
    by_cases hzero : order.quantity = 0
    · exact ⟨c, order, token, [], if_pos hzero, nofun, Extends.refl c⟩
    · obtain ⟨traded, c₁, order₁, token₁, hstep, htrade⟩ := h.executeTrade_progress hin order hzero token
      rw [Clob.matchLoop, if_neg hzero, hstep]
      cases traded with
      | false =>
        have hsame : c₁ = c := by
          rcases h.executeTrade hzero hstep with ⟨-, hc, -⟩ | ⟨ht, -⟩
          · exact hc
          · cases ht
        rw [hsame]
        exact ⟨c, order₁, token₁, [], rfl, nofun, Extends.refl c⟩
      | true =>
        obtain ⟨hless, trade, htype, hextends⟩ := htrade rfl
        obtain ⟨book₁, h₁, hshrinks⟩ : ∃ book₁, c₁.Holds book₁ ∧ Shrinks c₁.resting c.resting := by
          rcases h.executeTrade hzero hstep with ⟨ht, -⟩ | ⟨-, book₁, _, _, h₁, -, -, -, -, hshrinks, -⟩
          · cases ht
          · exact ⟨book₁, h₁, hshrinks⟩
        obtain ⟨c', order', token', trades, hloop, htypes, hextends'⟩ :=
          @ih fuel c₁ book₁ order₁ token₁ (by omega) (by omega) h₁ (hshrinks.inside hin)
        refine ⟨c', order', token', trade :: trades, hloop, ?_, hextends.trans hextends'⟩
        intro t ht
        rcases List.mem_cons.mp ht with rfl | ht
        · exact htype
        · exact htypes t ht

theorem executeTrade_none_token {order order' : Order} {traded : Bool} {token' : StopToken}
    (h : c.executeTrade order none = some (traded, c', order', token')) : token' = none := by
  rw [executeTrade_none] at h
  obtain ⟨best, -, h⟩ := Option.bind_eq_some_iff.mp h
  split at h
  · cases h
    rfl
  · obtain ⟨⟨state, u⟩, -, h⟩ := Option.bind_eq_some_iff.mp h
    cases h
    rfl

/-- A stop that is never requested is not seen by the loop. -/
theorem matchLoop_none_token {fuel : Nat} {order order' : Order} {token' : StopToken}
    (h : c.matchLoop fuel order none = some (c', order', token')) : token' = none := by
  induction fuel generalizing c order with
  | zero => cases h
  | succ fuel ih =>
    rw [matchLoop] at h
    split at h
    · cases h
      rfl
    · obtain ⟨⟨traded, c₁, order₁, token₁⟩, hstep, h⟩ := Option.bind_eq_some_iff.mp h
      have htoken := executeTrade_none_token hstep
      simp only [htoken] at h
      split at h
      · exact ih h
      · cases h
        rfl

/-! ## New orders -/

/-- What may come of a new order: it is filled, or stopped before it rests; what is left of it
rests under the next id; or it has got that id when the stop comes. -/
inductive Placed (c : Clob) (side : Side) (price : Price) (token : StopToken) : ID → Clob → Prop
  | filled {c' : Clob} (trades : List MarketEvent) (htrades : ∀ trade ∈ trades, trade.type = .trade)
      (hextends : c.Extends c' trades) (hholds : ∃ book, c'.Holds book) (hnext : c'.nextOrderId = c.nextOrderId) :
      Placed c side price token invalidOrderId c'
  | rested {c' : Clob} (trades : List MarketEvent) (left : Quantity)
      (htrades : ∀ trade ∈ trades, trade.type = .trade)
      (hextends : c.Extends c' (trades ++ [⟨⟨c.nextOrderId, price, left, side⟩, .add⟩]))
      (hrepresents : ∃ book, c'.state.Represents book ∧ orders book = c'.resting)
      (hholds : c.nextOrderId ≠ invalidOrderId → ∃ book, c'.Holds book)
      (hnext : c'.nextOrderId = c.nextOrderId + 1) : Placed c side price token c.nextOrderId c'
  | stopped {c' : Clob} (trades : List MarketEvent) (htrades : ∀ trade ∈ trades, trade.type = .trade)
      (hextends : c.Extends c' trades) (hholds : ∃ book, c'.Holds book) (htoken : token ≠ none) :
      Placed c side price token c.nextOrderId c'

omit [StdHash Price] [StdHash ID] in
/-- There is room for one more order and for one more price. -/
theorem admissible_add {orders : List Order} {order : Order} (hfresh : order.orderId ∉ orders.map Order.orderId)
    (hq : order.quantity ≠ 0)
    (hend : ∀ o ∈ orders, o.side = order.side.opposite → ¬ order.side.Crosses order.price o.price)
    (hroom : orders.length < 2 ^ 14) : (⟨order, .add⟩ : MarketEvent).Admissible orders := by
  have hprices : (restingPrices orders).card ≤ orders.length := by
    rw [restingPrices, ← List.length_map Order.price]
    exact List.toFinset_card_le _
  have hinsert := Finset.card_insert_le order.price (restingPrices orders)
  refine ⟨hfresh, UInt32.pos_iff_ne_zero.mpr hq, same_side_of_not_crosses hend, ?_, ?_⟩
  · omega
  · show (insert order.price (restingPrices orders)).card ≤ 2 ^ 14
    omega

/-- What is left of an order that crosses nothing comes to rest, or the stop comes. -/
theorem Holds.addOrder_progress (h : c.Holds book) (order : Order) (token : StopToken) (hq : order.quantity ≠ 0)
    (hfresh : c.nextOrderId ∉ c.resting.map Order.orderId)
    (hend : ∀ o ∈ c.resting, o.side = order.side.opposite → ¬ order.side.Crosses order.price o.price)
    (hroom : c.resting.length < 2 ^ 14) :
    ∃ c', { c with nextOrderId := c.nextOrderId + 1 }.addOrder { order with orderId := c.nextOrderId } token =
        some c' ∧ c'.nextOrderId = c.nextOrderId + 1 ∧
      (c.Extends c' [⟨{ order with orderId := c.nextOrderId }, .add⟩] ∧
          (∃ book', c'.state.Represents book' ∧ orders book' = c'.resting ∧ c'.state.BestShown book') ∧
          (c.nextOrderId ≠ invalidOrderId → ∃ book', c'.Holds book') ∨
        token ≠ none ∧ c.Extends c' [] ∧ ∃ book', c'.Holds book') := by
  rcases StopToken.stopRequested_spec token with ⟨hgo, -⟩ | ⟨hstop, htoken⟩
  · have hadm : (⟨{ order with orderId := c.nextOrderId }, .add⟩ : MarketEvent).Admissible c.resting :=
      admissible_add hfresh hq hend hroom
    obtain ⟨s', u, book', hexec, hrep, horders, hshown, -⟩ :=
      h.represents.execute_best h.best (h.orders_eq.symm ▸ hadm) (by simp)
    have hadd : { c with nextOrderId := c.nextOrderId + 1 }.addOrder
        { order with orderId := c.nextOrderId } token =
        some ({ c with nextOrderId := c.nextOrderId + 1 }.publish
          ⟨{ order with orderId := c.nextOrderId }, .add⟩ s') := by
      have hstate : c.state.add ⟨{ order with orderId := c.nextOrderId }, .add⟩ = some (s', u) := hexec
      rw [Clob.addOrder, StopToken.waitGetHeadRef, hgo]
      simp only [Bool.not_false, if_true, hstate, Option.bind_eq_bind, Option.bind_some]
      rfl
    refine ⟨_, hadd, rfl, Or.inl ⟨⟨rfl, hadm, trivial⟩, ⟨book', hrep, ?_, hshown⟩, ?_⟩⟩
    · rw [horders, h.orders_eq, resting_publish]
      rfl
    · intro hid
      obtain ⟨book'', _, hholds, -⟩ := h.addOrder hq hid hfresh hend hadd
      exact ⟨book'', hholds⟩
  · refine ⟨{ c with nextOrderId := c.nextOrderId + 1 }, ?_, rfl,
      Or.inr ⟨?_, ⟨(List.append_nil _).symm, trivial⟩, book, ?_⟩⟩
    · rw [Clob.addOrder, StopToken.waitGetHeadRef, hstop]
      rfl
    · rw [htoken]
      rintro ⟨⟩
    · exact ⟨h.represents, h.best, h.orders_eq, h.real, h.uncrossed⟩

theorem Holds.placeOrder_progress (h : c.Holds book) (hin : ∀ o ∈ c.resting, o.Inside) {fuel : Nat} (side : Side)
    (request : OrderRequest) (token : StopToken) (hfuel : request.quantity.toNat < fuel)
    (hfresh : c.nextOrderId ∉ c.resting.map Order.orderId) (hroom : c.resting.length < 2 ^ 14) :
    ∃ id c', Clob.placeOrder fuel side c request token = some (id, c') ∧
      Placed c side request.price token id c' := by
  rw [Clob.placeOrder]
  by_cases hzero : request.quantity = 0
  · rw [if_pos hzero]
    exact ⟨_, c, rfl, .filled [] (by rintro _ ⟨⟩) (Extends.refl c) ⟨book, h⟩ rfl⟩
  · rw [if_neg hzero]
    obtain ⟨c₁, order, token₁, trades, hloop, htrades, hextends⟩ :=
      Holds.matchLoop_progress request.quantity.toNat ⟨0, request.price, request.quantity, side⟩ token hfuel
        (Nat.le_refl _) h hin
    obtain ⟨book₁, -, h₁, hnext, -, -, hshrinks, horder, hend⟩ := h.matchLoop hloop
    rw [hloop]
    simp only [Option.bind_eq_bind, Option.bind_some]
    by_cases hleft : order.quantity = 0
    · rw [if_pos hleft]
      exact ⟨_, c₁, rfl, .filled trades htrades hextends ⟨book₁, h₁⟩ hnext⟩
    · rw [if_neg hleft]
      rcases StopToken.stopRequested_spec token₁ with ⟨hgo, hne⟩ | ⟨hstop, -⟩
      · obtain ⟨hnil, -⟩ := (hend.resolve_left hleft).resolve_left hne
        have hside : order.side = side := by rw [horder]; rfl
        have hprice : order.price = request.price := by rw [horder]; rfl
        have hcross : ∀ o ∈ c₁.resting, o.side = order.side.opposite →
            ¬ order.side.Crosses order.price o.price := by
          rw [hside, hprice]
          exact not_crosses_of_reach_eq_nil hnil fun o ho _ hsentinel =>
            absurd hsentinel ((hshrinks.inside hin o ho).price_ne _)
        have hfresh₁ : c₁.nextOrderId ∉ c₁.resting.map Order.orderId := by
          rw [hnext]
          exact hshrinks.not_mem_ids hfresh
        have hroom₁ : c₁.resting.length < 2 ^ 14 := by
          rw [hextends.resting]
          exact Nat.lt_of_le_of_lt (shrinks_applyAll _ htrades).2 hroom
        obtain ⟨c', hadd, hnext', hafter⟩ :=
          h₁.addOrder_progress order token₁.stopRequested.2 hleft hfresh₁ hcross hroom₁
        rw [hgo]
        simp only [Bool.false_eq_true, if_false, hadd, Option.bind_some]
        rw [hnext] at hnext'
        refine ⟨c₁.nextOrderId, c', rfl, ?_⟩
        rw [hnext]
        rcases hafter with ⟨hextends', hrepresents, hholds⟩ | ⟨htoken, hextends', hholds⟩
        · rw [hnext, hside, hprice] at hextends'
          rw [hnext] at hholds
          exact .rested trades order.quantity htrades (hextends.trans hextends')
            (hrepresents.imp fun _ h => ⟨h.1, h.2.1⟩) hholds hnext'
        · refine .stopped trades htrades ?_ hholds ?_
          · have hboth := hextends.trans hextends'
            rw [List.append_nil] at hboth
            exact hboth
          · intro hnone
            rw [hnone] at hloop
            rw [matchLoop_none_token hloop] at htoken
            exact htoken rfl
      · rw [hstop]
        exact ⟨_, c₁, rfl, .filled trades htrades hextends ⟨book₁, h₁⟩ hnext⟩

/-- An order that may not be traded with the best opposing one comes to rest as it is. -/
theorem placeOrder_noTrade (c : Clob) (fuel : Nat) (side : Side) (request : OrderRequest)
    (hq : request.quantity ≠ 0) {best : Order} (hopp : c.state.bestOpposingOrder side = some best)
    (hno : NoTrade ⟨0, request.price, request.quantity, side⟩ best) :
    Clob.placeOrder (fuel + 1) side c request none =
      ({ c with nextOrderId := c.nextOrderId + 1 }.addOrder
        ⟨c.nextOrderId, request.price, request.quantity, side⟩ none).map fun c' => (c.nextOrderId, c') := by
  have hloop : c.matchLoop (fuel + 1) ⟨0, request.price, request.quantity, side⟩ none =
      some (c, ⟨0, request.price, request.quantity, side⟩, none) := by
    rw [Clob.matchLoop, if_neg hq, executeTrade_none]
    simp only [hopp, Option.bind_eq_bind, Option.bind_some, hno, if_true, Bool.false_eq_true, if_false]
  rw [Clob.placeOrder, if_neg hq, hloop]
  simp only [Option.bind_eq_bind, Option.bind_some, if_neg hq, StopToken.stopRequested, Bool.false_eq_true, if_false]
  cases Clob.addOrder { c with nextOrderId := c.nextOrderId + 1 }
    ⟨c.nextOrderId, request.price, request.quantity, side⟩ none with
  | none => rfl
  | some c' => rfl

/-- An order that crosses nothing rests as it is. -/
theorem Holds.placeOrder_alone (h : c.Holds book) (hin : ∀ o ∈ c.resting, o.Inside) (fuel : Nat) (side : Side)
    (request : OrderRequest) (hq : request.quantity ≠ 0)
    (halone : ∀ o ∈ c.resting, o.side = side.opposite → ¬ side.Crosses request.price o.price)
    (hfresh : c.nextOrderId ∉ c.resting.map Order.orderId) (hroom : c.resting.length < 2 ^ 14) :
    ∃ c', Clob.placeOrder (fuel + 1) side c request none = some (c.nextOrderId, c') ∧
      c'.nextOrderId = c.nextOrderId + 1 ∧
      c.Extends c' [⟨⟨c.nextOrderId, request.price, request.quantity, side⟩, .add⟩] ∧
      ∃ book', c'.state.Represents book' ∧ orders book' = c'.resting ∧ c'.state.BestShown book' := by
  obtain ⟨best, hopp, hno⟩ : ∃ best, c.state.bestOpposingOrder side = some best ∧
      NoTrade ⟨0, request.price, request.quantity, side⟩ best := by
    rcases bestOpposingOrder_cases h.represents h.best (h.orders_eq ▸ hin) side with
      ⟨best, hbest, hopp⟩ | ⟨-, -, best, hopp, hid⟩
    · obtain ⟨hmem, hside, -⟩ := bestOf_spec hbest
      rw [h.orders_eq] at hmem
      exact ⟨best, hopp, (noTrade_iff (hin best hmem).1).mpr (halone best hmem hside)⟩
    · exact ⟨best, hopp, Or.inl hid⟩
  obtain ⟨c', hadd, hnext, hafter⟩ := h.addOrder_progress ⟨0, request.price, request.quantity, side⟩ none hq hfresh
    halone hroom
  rcases hafter with ⟨hextends, hrepresents, -⟩ | ⟨hnone, -⟩
  · refine ⟨c', ?_, hnext, hextends, hrepresents⟩
    rw [c.placeOrder_noTrade fuel side request hq hopp hno]
    show Option.map _ (Clob.addOrder _ { (⟨0, request.price, request.quantity, side⟩ : Order) with
      orderId := c.nextOrderId } none) = _
    rw [hadd]
    rfl
  · exact absurd rfl hnone

/-! ## Cancels -/

theorem Holds.cancelOrder_progress (h : c.Holds book) (request : OrderRequest) (token : StopToken)
    (hrests : request.orderId ∈ c.resting.map Order.orderId) :
    ∃ c', c.cancelOrder request token = some (.ok (), c') ∧
      (c.Extends c' [cancelEvent request.orderId] ∧ c'.nextOrderId = c.nextOrderId ∧ (∃ book', c'.Holds book') ∨
        token ≠ none ∧ c' = c) := by
  have hexists : c.state.orderExists request.orderId = true := by
    rw [h.represents.orderExists_iff, ids_eq, h.orders_eq]
    exact hrests
  rcases StopToken.stopRequested_spec token with ⟨hgo, -⟩ | ⟨hstop, htoken⟩
  · have hadm : (cancelEvent request.orderId).Admissible c.resting := hrests
    obtain ⟨s', u, -, hexec, -⟩ :=
      h.represents.execute_best h.best (h.orders_eq.symm ▸ hadm) (by simp [cancelEvent])
    have hcancel : c.cancelOrder request token = some (.ok (), c.publish (cancelEvent request.orderId) s') := by
      have hstate : c.state.cancel (cancelEvent request.orderId) = some (s', u) := hexec
      rw [Clob.cancelOrder, hexists, StopToken.waitGetHeadRef, hgo]
      simp only [Bool.not_true, Bool.false_eq_true, if_false, Bool.not_false, if_true, hstate,
        Option.bind_eq_bind, Option.bind_some]
      rfl
    obtain ⟨book', -, hholds, -⟩ := h.cancelOrder hcancel
    exact ⟨_, hcancel, Or.inl ⟨⟨rfl, hadm, trivial⟩, rfl, book', hholds⟩⟩
  · refine ⟨c, ?_, Or.inr ⟨?_, rfl⟩⟩
    · rw [Clob.cancelOrder, hexists, StopToken.waitGetHeadRef, hstop]
      rfl
    · rw [htoken]
      rintro ⟨⟩

/-! ## After the stop -/

/-- The exchange does nothing any more, and it says that no order rests. -/
theorem placeOrder_stopped (c : Clob) (fuel : Nat) (side : Side) (request : OrderRequest) :
    Clob.placeOrder (fuel + 1) side c request (some 0) = some (invalidOrderId, c) := by
  rw [Clob.placeOrder]
  by_cases hzero : request.quantity = 0
  · rw [if_pos hzero]
  · have hloop : c.matchLoop (fuel + 1) ⟨0, request.price, request.quantity, side⟩ (some 0) =
        some (c, ⟨0, request.price, request.quantity, side⟩, some 0) := if_neg hzero
    rw [if_neg hzero, hloop]
    exact if_neg hzero

theorem cancelOrder_stopped (c : Clob) (request : OrderRequest) :
    ∃ result, c.cancelOrder request (some 0) = some (result, c) := by
  rw [Clob.cancelOrder]
  split
  · exact ⟨_, rfl⟩
  · exact ⟨_, rfl⟩

end Clob

end

end HftPipeline
