import HftPipeline.Capacity

/-!
# The prices in the book

The book holds prices as keys of its levels, in its two price sets, in its orders and in the
cached best prices. None of its operations makes a price up: all of these are prices of
orders that were added, or the ones that stand for an empty side. This needs nothing of the
book, so it holds in every run of the generator, and with it there is always a price to draw.
-/
namespace HftPipeline

/-! ## The pairs of a hash map -/

namespace ClosedHashMap

variable {Key Value : Type} {bits : Nat} [DecidableEq Key] [StdHash Key] {m m' : ClosedHashMap Key Value bits}
  {key key' : Key} {value value' : Value}

/-- Some occupied slot holds the pair, whether or not it can be found there. -/
def HasPair (m : ClosedHashMap Key Value bits) (key : Key) (value : Value) : Prop :=
  ∃ i, m.occupied i = .occupied ∧ m.slots i = (key, value)

omit [DecidableEq Key] [StdHash Key] in
theorem hasPair_init [Inhabited Key] [Inhabited Value] : ¬ (init : ClosedHashMap Key Value bits).HasPair key value :=
  fun ⟨_, hocc, _⟩ => nomatch hocc

theorem find_hasPair (h : m.find key = some value) : m.HasPair key value := by
  obtain ⟨i, hprobe, rfl⟩ := Option.map_eq_some_iff.mp h
  obtain ⟨-, hocc, rfl⟩ := m.probeExistingLoop_sound key _ _ i (hash_lt key) hprobe
  exact ⟨i, hocc, rfl⟩

omit [DecidableEq Key] in
theorem add_hasPair (h : m.add key value = some m') (h' : m'.HasPair key' value') :
    (key' = key ∧ value' = value) ∨ m.HasPair key' value' := by
  obtain ⟨idx, -, rfl⟩ := Option.map_eq_some_iff.mp h
  obtain ⟨i, hocc, hpair⟩ := h'
  by_cases hi : i = idx
  · subst hi
    simp only [Function.update_self, Prod.mk.injEq] at hpair
    exact Or.inl ⟨hpair.1.symm, hpair.2.symm⟩
  · simp only [Function.update_of_ne hi] at hocc hpair
    exact Or.inr ⟨i, hocc, hpair⟩

theorem set_hasPair (h : (m.set key value).HasPair key' value') : ∃ old, m.HasPair key' old := by
  obtain ⟨i, hocc, hpair⟩ := h
  cases hprobe : m.probeExisting key with
  | none =>
    simp only [set, hprobe] at hocc hpair
    exact ⟨value', i, hocc, hpair⟩
  | some idx =>
    simp only [set, hprobe] at hocc hpair
    refine ⟨(m.slots i).2, i, hocc, ?_⟩
    by_cases hi : i = idx
    · subst hi
      simp only [Function.update_self, Prod.mk.injEq] at hpair
      rw [← hpair.1]
    · simp only [Function.update_of_ne hi] at hpair
      rw [hpair]

theorem remove_hasPair (h : (m.remove key).2.HasPair key' value') : m.HasPair key' value' := by
  obtain ⟨i, hocc, hpair⟩ := h
  cases hprobe : m.probeExisting key with
  | none =>
    simp only [remove, hprobe] at hocc hpair
    exact ⟨i, hocc, hpair⟩
  | some idx =>
    simp only [remove, hprobe] at hocc hpair
    refine ⟨i, ?_, hpair⟩
    by_cases hi : i = idx
    · subst hi
      simp only [Function.update_self, reduceCtorEq] at hocc
    · simpa only [Function.update_of_ne hi] using hocc

end ClosedHashMap

/-! ## The prices of a book -/

namespace BookState

variable [StdHash Price] [StdHash ID] {s s' : BookState} {P : Price → Prop} {u : BookUpdate}

/-- All prices in the book have the property, but for those that stand for an empty side. -/
structure PricesAre (P : Price → Prop) (s : BookState) : Prop where
  bid : s.bbo.bestBid.price = noBid ∨ P s.bbo.bestBid.price
  offer : s.bbo.bestOffer.price = noOffer ∨ P s.bbo.bestOffer.price
  bids : ∀ p ∈ s.bids, P p
  offers : ∀ p ∈ s.offers, P p
  levels : ∀ p level, s.priceLevels.HasPair p level → P p
  orders : ∀ id i, s.orderMap.HasPair id i → P (s.orderPool.orders i).order.price

omit [StdHash Price] [StdHash ID] in
theorem pricesAre_init : (init : BookState).PricesAre P where
  bid := Or.inl rfl
  offer := Or.inl rfl
  bids := nofun
  offers := nofun
  levels _ _ h := absurd h ClosedHashMap.hasPair_init
  orders _ _ h := absurd h ClosedHashMap.hasPair_init

/-- The pool is changed in other fields than the price. -/
def SamePrices (pool pool' : OrderPool maxConcurrentOrders) : Prop :=
  ∀ i, (pool'.orders i).order.price = (pool.orders i).order.price

section

omit [StdHash Price] [StdHash ID]

theorem modify_samePrices {pool pool' : OrderPool maxConcurrentOrders} {i : Nat} {f : RestingOrder → RestingOrder}
    (h : pool.modify i f = some pool') (hf : ∀ r, (f r).order.price = r.order.price) : SamePrices pool pool' := by
  intro j
  rw [OrderPool.modify] at h
  split at h
  · cases h
    by_cases hj : j = i
    · subst hj
      simp only [Function.update_self, hf]
    · simp only [Function.update_of_ne hj]
  · cases h

theorem SamePrices.trans {a b c : OrderPool maxConcurrentOrders} (h : SamePrices a b) (h' : SamePrices b c) :
    SamePrices a c := fun i => (h' i).trans (h i)

theorem PricesAre.pool (h : s.PricesAre P) {pool : OrderPool maxConcurrentOrders}
    (hpool : SamePrices s.orderPool pool) : PricesAre P { s with orderPool := pool } :=
  ⟨h.bid, h.offer, h.bids, h.offers, h.levels, fun id i hi => by
    rw [hpool i]
    exact h.orders id i hi⟩

end

section

omit [StdHash ID]

theorem PricesAre.setLevel (h : s.PricesAre P) (price : Price) (level : PriceLevel) :
    PricesAre P { s with priceLevels := s.priceLevels.set price level } :=
  ⟨h.bid, h.offer, h.bids, h.offers, fun p _ hp =>
    let ⟨old, hold⟩ := ClosedHashMap.set_hasPair hp
    h.levels p old hold, h.orders⟩

theorem PricesAre.removeLevel (h : s.PricesAre P) (price : Price) :
    PricesAre P { s with priceLevels := (s.priceLevels.remove price).2 } :=
  ⟨h.bid, h.offer, h.bids, h.offers, fun p level hp => h.levels p level (ClosedHashMap.remove_hasPair hp), h.orders⟩

end

omit [StdHash Price] in
theorem PricesAre.removeOrder (h : s.PricesAre P) (id : ID) :
    PricesAre P { s with orderMap := (s.orderMap.remove id).2 } :=
  ⟨h.bid, h.offer, h.bids, h.offers, h.levels, fun id' i hi => h.orders id' i (ClosedHashMap.remove_hasPair hi)⟩

section

omit [StdHash Price] [StdHash ID]

theorem PricesAre.removeBidOrOffer (h : s.PricesAre P) (order : Order) : (s.removeBidOrOffer order).PricesAre P := by
  rw [BookState.removeBidOrOffer]
  split
  · exact ⟨h.bid, h.offer, fun p hp => h.bids p (Finset.mem_of_mem_erase hp), h.offers, h.levels, h.orders⟩
  · exact ⟨h.bid, h.offer, h.bids, fun p hp => h.offers p (Finset.mem_of_mem_erase hp), h.levels, h.orders⟩

theorem PricesAre.addBidOrOffer (h : s.PricesAre P) {order : Order} (hp : P order.price) :
    (s.addBidOrOffer order).PricesAre P := by
  rw [BookState.addBidOrOffer]
  split
  · exact ⟨h.bid, h.offer, fun p hmem => (Finset.mem_insert.mp hmem).elim (fun heq => heq ▸ hp) (h.bids p),
      h.offers, h.levels, h.orders⟩
  · exact ⟨h.bid, h.offer, h.bids,
      fun p hmem => (Finset.mem_insert.mp hmem).elim (fun heq => heq ▸ hp) (h.offers p), h.levels, h.orders⟩

end

/-! ## The cache -/

section

omit [StdHash Price] [StdHash ID]

theorem PricesAre.setBestBid (h : s.PricesAre P) {b : BestOrderInfo} (hb : b.price = noBid ∨ P b.price) :
    (s.setBestBid b).PricesAre P :=
  ⟨hb, h.offer, h.bids, h.offers, h.levels, h.orders⟩

theorem PricesAre.setBestOffer (h : s.PricesAre P) {b : BestOrderInfo} (hb : b.price = noOffer ∨ P b.price) :
    (s.setBestOffer b).PricesAre P :=
  ⟨h.bid, hb, h.bids, h.offers, h.levels, h.orders⟩

end

omit [StdHash Price] [StdHash ID] in
theorem PricesAre.updateBboAdd (h : s.PricesAre P) {order : Order} (hp : P order.price) :
    (s.updateBboAdd order).1.PricesAre P := by
  rw [BookState.updateBboAdd]
  split
  · rw [updateBestBidAdd]
    split
    · exact h.setBestBid (Or.inr hp)
    · split
      · exact h.setBestBid h.bid
      · exact h
  · rw [updateBestOfferAdd]
    split
    · exact h.setBestOffer (Or.inr hp)
    · split
      · exact h.setBestOffer h.offer
      · exact h

section

omit [StdHash ID]

theorem PricesAre.firstBid (h : s.PricesAre P) {b : BestOrderInfo} (hb : s.firstBid = some b) :
    b.price = noBid ∨ P b.price := by
  rw [BookState.firstBid] at hb
  split at hb
  · cases hb
    exact Or.inl rfl
  · next hne =>
    obtain ⟨q, -, rfl⟩ := Option.map_eq_some_iff.mp hb
    exact Or.inr (h.bids _ (RestingBook.max_unbotD_mem hne noBid))

theorem PricesAre.firstOffer (h : s.PricesAre P) {b : BestOrderInfo} (hb : s.firstOffer = some b) :
    b.price = noOffer ∨ P b.price := by
  rw [BookState.firstOffer] at hb
  split at hb
  · cases hb
    exact Or.inl rfl
  · next hne =>
    obtain ⟨q, -, rfl⟩ := Option.map_eq_some_iff.mp hb
    exact Or.inr (h.offers _ (RestingBook.min_untopD_mem hne noOffer))

end

omit [StdHash ID] in
/-- A cache that is built anew takes its price from the price set. -/
theorem PricesAre.updateBboReduce (h : s.PricesAre P) {order : Order}
    (hs : s.updateBboReduce order = some (s', u)) : s'.PricesAre P := by
  rw [BookState.updateBboReduce] at hs
  split at hs
  · rw [updateBestBidReduce] at hs
    split at hs
    · obtain ⟨b, hb, heq⟩ := Option.map_eq_some_iff.mp hs
      cases heq
      exact h.setBestBid (h.firstBid hb)
    · split at hs
      · cases hs
        exact h.setBestBid h.bid
      · cases hs
        exact h
  · rw [updateBestOfferReduce] at hs
    split at hs
    · obtain ⟨b, hb, heq⟩ := Option.map_eq_some_iff.mp hs
      cases heq
      exact h.setBestOffer (h.firstOffer hb)
    · split at hs
      · cases hs
        exact h.setBestOffer h.offer
      · cases hs
        exact h

/-! ## The operations -/

omit [StdHash ID] in
theorem PricesAre.enqueue (h : s.PricesAre P) {order : Order} (hp : P order.price) {i : Nat}
    (hs : s.enqueue order i = some s') : s'.PricesAre P := by
  rw [BookState.enqueue] at hs
  split at hs
  · obtain ⟨levels, hadd, heq⟩ := Option.bind_eq_some_iff.mp hs
    cases heq
    refine PricesAre.addBidOrOffer (s := { s with priceLevels := levels })
      ⟨h.bid, h.offer, h.bids, h.offers, fun p level hpair => ?_, h.orders⟩ hp
    rcases ClosedHashMap.add_hasPair hadd hpair with ⟨rfl, -⟩ | hold
    · exact hp
    · exact h.levels p level hold
  · obtain ⟨pool, hlinked, hs⟩ := Option.bind_eq_some_iff.mp hs
    obtain ⟨pool', hlinked', heq⟩ := Option.bind_eq_some_iff.mp hs
    cases heq
    have hsame := (modify_samePrices hlinked fun _ => rfl).trans (modify_samePrices hlinked' fun _ => rfl)
    exact (h.setLevel order.price _).pool hsame

theorem PricesAre.add (h : s.PricesAre P) {event : MarketEvent} (hp : P event.order.price)
    (hs : s.add event = some (s', u)) : s'.PricesAre P := by
  obtain ⟨⟨i, pool⟩, hallocate, hs⟩ := Option.bind_eq_some_iff.mp hs
  obtain ⟨orderMap, hmap, hs⟩ := Option.bind_eq_some_iff.mp hs
  obtain ⟨mid, hmid, heq⟩ := Option.bind_eq_some_iff.mp hs
  have hs' : s' = (mid.updateBboAdd event.order).1 := (congrArg Prod.fst (Option.some.inj heq)).symm
  subst hs'
  rw [OrderPool.allocate] at hallocate
  split at hallocate
  · cases hallocate
  · cases hallocate
    have hjoined : PricesAre P { s with
        orderPool := { s.orderPool with
          orders := Function.update s.orderPool.orders (s.orderPool.freeStack (s.orderPool.topIndex - 1))
            ⟨event.order, nullIndex, nullIndex⟩
          topIndex := s.orderPool.topIndex - 1 }
        orderMap } := by
      refine ⟨h.bid, h.offer, h.bids, h.offers, h.levels, fun id j hpair => ?_⟩
      by_cases hj : j = s.orderPool.freeStack (s.orderPool.topIndex - 1)
      · subst hj
        simpa only [Function.update_self] using hp
      · rcases ClosedHashMap.add_hasPair hmap hpair with ⟨-, hsame⟩ | hold
        · exact absurd hsame hj
        · simpa only [Function.update_of_ne hj] using h.orders id j hold
    exact (hjoined.enqueue hp hmid).updateBboAdd hp

omit [StdHash Price] [StdHash ID] in
theorem detach_samePrices {pool pool' : OrderPool maxConcurrentOrders} {r : RestingOrder} {level level' : PriceLevel}
    (hd : detach pool r level = some (pool', level')) : SamePrices pool pool' := by
  have hnext : ∀ {mid : OrderPool maxConcurrentOrders} {level₁ : PriceLevel},
      (if r.next ≠ nullIndex then
        (mid.modify r.next fun x => { x with previous := r.previous }).map fun p => (p, level₁)
      else some (mid, { level₁ with tail := r.previous })) = some (pool', level') → SamePrices mid pool' := by
    intro mid level₁ hd
    split at hd
    · obtain ⟨p, hmodify, heq⟩ := Option.map_eq_some_iff.mp hd
      cases heq
      exact modify_samePrices hmodify fun _ => rfl
    · cases hd
      exact fun _ => rfl
  rw [detach] at hd
  split at hd
  · obtain ⟨⟨mid, level₁⟩, hfirst, hd⟩ := Option.bind_eq_some_iff.mp hd
    obtain ⟨p, hmodify, heq⟩ := Option.map_eq_some_iff.mp hfirst
    cases heq
    exact (modify_samePrices hmodify fun _ => rfl).trans (hnext hd)
  · exact hnext hd

omit [StdHash ID] in
theorem PricesAre.dequeue (h : s.PricesAre P) {r : RestingOrder} (hs : s.dequeue r = some s') : s'.PricesAre P := by
  obtain ⟨level, -, hs⟩ := Option.bind_eq_some_iff.mp hs
  dsimp only at hs
  split at hs
  · cases hs
    exact ((h.setLevel r.order.price _).removeLevel r.order.price).removeBidOrOffer r.order
  · obtain ⟨⟨pool, level'⟩, hdetach, heq⟩ := Option.bind_eq_some_iff.mp hs
    cases heq
    exact ((h.setLevel r.order.price _).setLevel r.order.price _).pool (detach_samePrices hdetach)

theorem PricesAre.purgeOrderAt (h : s.PricesAre P) {i : Nat} {r : RestingOrder}
    (hs : s.purgeOrderAt i r = some (s', u)) : s'.PricesAre P := by
  obtain ⟨mid, hmid, hs⟩ := Option.bind_eq_some_iff.mp hs
  obtain ⟨⟨mid', u'⟩, hreduce, hs⟩ := Option.bind_eq_some_iff.mp hs
  obtain ⟨pool, hfree, heq⟩ := Option.bind_eq_some_iff.mp hs
  cases heq
  refine (((h.dequeue hmid).removeOrder r.order.orderId).updateBboReduce hreduce).pool fun j => ?_
  rw [OrderPool.free] at hfree
  split at hfree
  · cases hfree
    rfl
  · cases hfree

omit [StdHash Price] [StdHash ID] in
theorem PricesAre.setQuantity (h : s.PricesAre P) {i : Nat} {quantity : Quantity}
    (hs : s.setQuantity i quantity = some s') : s'.PricesAre P := by
  obtain ⟨pool, hmodify, rfl⟩ := Option.map_eq_some_iff.mp hs
  exact h.pool (modify_samePrices hmodify fun _ => rfl)

/-- A cancel. -/
theorem PricesAre.cancel (h : s.PricesAre P) {event : MarketEvent} (hs : s.cancel event = some (s', u)) :
    s'.PricesAre P := by
  obtain ⟨i, -, hs⟩ := Option.bind_eq_some_iff.mp hs
  obtain ⟨r, -, hs⟩ := Option.bind_eq_some_iff.mp hs
  exact h.purgeOrderAt hs

omit [StdHash ID] in
/-- A quantity is changed with a mark on the order while the cache is adjusted. -/
theorem PricesAre.changeQuantity (h : s.PricesAre P) {i : Nat} {r : RestingOrder} {total : UInt64 → UInt64}
    {delta quantity : Quantity} {updateBbo : BookState → Order → Option (BookState × BookUpdate)}
    (hbbo : ∀ {mid mid' : BookState} {v : BookUpdate}, mid.PricesAre P →
      updateBbo mid (r.order.withQuantity delta) = some (mid', v) → mid'.PricesAre P)
    (hs : s.changeQuantity i r total delta quantity updateBbo = some (s', u)) : s'.PricesAre P := by
  obtain ⟨level, -, hs⟩ := Option.bind_eq_some_iff.mp hs
  obtain ⟨marked, hmarked, hs⟩ := Option.bind_eq_some_iff.mp hs
  obtain ⟨⟨shown, u'⟩, hshown, hs⟩ := Option.bind_eq_some_iff.mp hs
  obtain ⟨restored, hrestored, heq⟩ := Option.bind_eq_some_iff.mp hs
  cases heq
  exact (hbbo ((h.setLevel r.order.price _).setQuantity hmarked) hshown).setQuantity hrestored

theorem PricesAre.trade (h : s.PricesAre P) {event : MarketEvent} (hs : s.trade event = some (s', u)) :
    s'.PricesAre P := by
  obtain ⟨i, -, hs⟩ := Option.bind_eq_some_iff.mp hs
  obtain ⟨r, -, hs⟩ := Option.bind_eq_some_iff.mp hs
  split at hs
  · exact h.purgeOrderAt hs
  · exact h.changeQuantity (fun hmid hshown => hmid.updateBboReduce hshown) hs

/-- A reduction shows the price of the order, which is one of the book's. -/
theorem PricesAre.update (h : s.PricesAre P) {event : MarketEvent} (hs : s.update event = some (s', u)) :
    s'.PricesAre P := by
  obtain ⟨i, hfind, hs⟩ := Option.bind_eq_some_iff.mp hs
  obtain ⟨r, hget, hs⟩ := Option.bind_eq_some_iff.mp hs
  have hprice : P r.order.price := by
    have hi := h.orders _ i (ClosedHashMap.find_hasPair hfind)
    rw [OrderPool.get] at hget
    split at hget
    · rw [← Option.some.inj hget]
      exact hi
    · cases hget
  split at hs
  · exact h.purgeOrderAt hs
  · split at hs
    · refine h.changeQuantity ?_ hs
      intro mid mid' v hmid hshown
      have hmid' : mid' = (mid.updateBboAdd (r.order.withQuantity (r.order.quantity - event.order.quantity))).1 :=
        (congrArg Prod.fst (Option.some.inj hshown)).symm
      rw [hmid']
      exact hmid.updateBboAdd hprice
    · exact h.changeQuantity (fun hmid hshown => hmid.updateBboReduce hshown) hs

theorem PricesAre.execute (h : s.PricesAre P) {event : MarketEvent}
    (hp : event.type = .add → P event.order.price) (hs : s.execute event = some (s', u)) : s'.PricesAre P := by
  rw [BookState.execute] at hs
  split at hs
  · rename_i htype
    exact h.add (hp htype) hs
  · exact h.cancel hs
  · exact h.trade hs
  · exact h.update hs

/-- In any run of a book all its prices are ones that were added. -/
theorem PricesAre.executeAll (h : s.PricesAre P) {events : List MarketEvent}
    (hp : ∀ event ∈ events, event.type = .add → P event.order.price) (hs : s.executeAll events = some s') :
    s'.PricesAre P := by
  induction events generalizing s with
  | nil =>
    cases hs
    exact h
  | cons event events ih =>
    rw [BookState.executeAll, List.foldlM_cons] at hs
    obtain ⟨mid, hmid, hs⟩ := Option.bind_eq_some_iff.mp hs
    obtain ⟨⟨mid', u'⟩, hexecute, rfl⟩ := Option.map_eq_some_iff.mp hmid
    exact ih (h.execute (hp event List.mem_cons_self) hexecute)
      (fun event' hmem => hp event' (List.mem_cons_of_mem _ hmem)) hs

end BookState

/-! ## The exchange -/

namespace Clob

variable [StdHash Price] [StdHash ID] {P : Price → Prop} {c c' : Clob}

theorem pricesAre_matchLoop {fuel : Nat} {order order' : Order} {token token' : StopToken}
    (h : c.state.PricesAre P) (hloop : c.matchLoop fuel order token = some (c', order', token')) :
    c'.state.PricesAre P ∧ order'.price = order.price := by
  induction fuel generalizing c order token with
  | zero => cases hloop
  | succ fuel ih =>
    rw [matchLoop] at hloop
    split at hloop
    · cases hloop
      exact ⟨h, rfl⟩
    · obtain ⟨⟨traded, c₁, order₁, token₁⟩, hstep, hloop⟩ := Option.bind_eq_some_iff.mp hloop
      rcases executeTrade_cases hstep with
        ⟨htraded, hc, horder, -⟩ | ⟨htraded, best, state, u, -, -, htrade, hc, horder⟩
      · rw [htraded, hc, horder] at hloop
        cases hloop
        exact ⟨h, rfl⟩
      · rw [htraded, hc, horder] at hloop
        replace hloop : (c.publish (tradeEvent best (min order.quantity best.quantity)) state).matchLoop fuel
          (order.withQuantity (order.quantity - min order.quantity best.quantity)) token₁ =
            some (c', order', token') := hloop
        have hrest := ih (h.trade htrade) hloop
        exact hrest

theorem pricesAre_placeOrder {fuel : Nat} {side : Side} {request : OrderRequest} {token : StopToken} {id : ID}
    (h : c.state.PricesAre P) (hp : P request.price) (hplace : c.placeOrder fuel side request token = some (id, c')) :
    c'.state.PricesAre P := by
  rw [placeOrder] at hplace
  split at hplace
  · cases hplace
    exact h
  · obtain ⟨⟨c₁, order₁, token₁⟩, hloop, hplace⟩ := Option.bind_eq_some_iff.mp hplace
    obtain ⟨h₁, hprice⟩ := pricesAre_matchLoop h hloop
    dsimp only at hplace
    split at hplace
    · cases hplace
      exact h₁
    · split at hplace
      · cases hplace
        exact h₁
      · obtain ⟨c₂, hadd, heq⟩ := Option.bind_eq_some_iff.mp hplace
        cases heq
        rw [addOrder] at hadd
        split at hadd
        · obtain ⟨⟨state, u⟩, hstate, heq⟩ := Option.bind_eq_some_iff.mp hadd
          cases heq
          exact BookState.PricesAre.add (s := c₁.state) h₁ (by rw [hprice]; exact hp) hstate
        · cases hadd
          exact h₁

theorem pricesAre_cancelOrder {request : OrderRequest} {token : StopToken} {result : Except Error Unit}
    (h : c.state.PricesAre P) (hcancel : c.cancelOrder request token = some (result, c')) : c'.state.PricesAre P := by
  rw [cancelOrder] at hcancel
  split at hcancel
  · cases hcancel
    exact h
  · split at hcancel
    · obtain ⟨⟨state, u⟩, hstate, heq⟩ := Option.bind_eq_some_iff.mp hcancel
      cases heq
      exact h.cancel hstate
    · cases hcancel
      exact h

end Clob

/-! ## The generator -/

namespace MarketRequestGenerator

variable [StdHash Price] [StdHash ID] {source : RandomSource} {m m' : MarketRequestGenerator source}

omit [StdHash Price] [StdHash ID] in
theorem PricesAre.showsListed (h : m.clob.state.PricesAre Listed) : m.ShowsListed := ⟨h.bid, h.offer⟩

theorem postNewOrder_listed (h : m.clob.state.PricesAre Listed) {side : Side} {token : StopToken}
    (hpost : m.postNewOrder side token = some m') : m'.clob.state.PricesAre Listed := by
  obtain ⟨⟨result, clob⟩, hsubmit, heq⟩ := Option.bind_eq_some_iff.mp hpost
  cases heq
  rw [submitNewRequest_eq] at hsubmit
  obtain ⟨⟨id, c⟩, hplace, heq⟩ := Option.map_eq_some_iff.mp hsubmit
  cases heq
  exact Clob.pricesAre_placeOrder h (newRequest_listed (PricesAre.showsListed h) side) hplace

theorem postCancelRequest_listed (h : m.clob.state.PricesAre Listed) {token : StopToken}
    (hpost : m.postCancelRequest token = some m') : m'.clob.state.PricesAre Listed := by
  rw [postCancelRequest] at hpost
  split at hpost
  · cases hpost
    exact h
  · obtain ⟨⟨id, active, g⟩, -, hpost⟩ := Option.bind_eq_some_iff.mp hpost
    dsimp only at hpost
    split at hpost
    · obtain ⟨⟨result, clob⟩, hsubmit, heq⟩ := Option.bind_eq_some_iff.mp hpost
      cases heq
      obtain ⟨⟨result, c⟩, hcancel, heq⟩ := Option.map_eq_some_iff.mp hsubmit
      cases heq
      exact Clob.pricesAre_cancelOrder (c := m.clob) h hcancel
    · cases hpost
      exact h

/-- One step of the generator: only the calls that submit a request touch the book. -/
theorem step_listed (h : m.clob.state.PricesAre Listed) {token : StopToken} (hstep : m.step token = some m') :
    m'.clob.state.PricesAre Listed := by
  rw [step] at hstep
  split at hstep
  · cases hstep
    exact h
  · rename_i call calls _
    have h : ({ m with calls } : MarketRequestGenerator source).clob.state.PricesAre Listed := h
    cases call with
    | start =>
      cases hstep
      obtain ⟨pushed, hmoves⟩ := start_moves { m with calls } token
      rw [hmoves.clob]
      exact h
    | populateActiveOrders =>
      cases hstep
      obtain ⟨pushed, hmoves⟩ := populateActiveOrders_moves { m with calls } token
      rw [hmoves.clob]
      exact h
    | purgeActiveOrders =>
      cases hstep
      rw [purgeActiveOrders_clob]
      exact h
    | cancelRequest =>
      rw [resume, generateAndPostCancelRequest] at hstep
      split at hstep
      split at hstep
      · cases hstep
        exact h
      · split at hstep
        · cases hstep
          exact h
        · exact postCancelRequest_listed h hstep
    | cancelPopulated => exact postCancelRequest_listed h hstep
    | newOrderRequest side =>
      cases hstep
      rw [generateAndPostNewOrderRequest]
      split <;> exact h
    | postNewOrder side => exact postNewOrder_listed h hstep

theorem after_listed (generator : source.State) (moment : StopMoment) (n : Nat)
    (h : after generator moment n = some m) : m.clob.state.PricesAre Listed := by
  induction n generalizing m with
  | zero =>
    cases h
    exact BookState.pricesAre_init
  | succ n ih =>
    obtain ⟨m₀, hm₀, hstep⟩ := Option.bind_eq_some_iff.mp h
    exact step_listed (ih hm₀) hstep

/-- In every run, whatever is drawn and whenever the stop comes, there is a price to draw for
every kind of request; the price of every new request, of every level and of every order in
the book is within the configured range, and so none of them stands for an empty side. -/
theorem generated_prices_listed (generator : source.State) (moment : StopMoment) (n : Nat)
    (h : after generator moment n = some m) :
    (∀ side aggressive, minPrice ≤ (priceRange m.clob.state.snapshot side aggressive).1 ∧
      (priceRange m.clob.state.snapshot side aggressive).1 ≤ (priceRange m.clob.state.snapshot side aggressive).2 ∧
      (priceRange m.clob.state.snapshot side aggressive).2 ≤ maxPrice) ∧
    (∀ side, Listed (m.newRequest side).1.price) ∧
    (∀ p ∈ m.clob.state.bids ∪ m.clob.state.offers, Listed p) ∧
    (∀ p, (m.clob.state.priceLevels.find p).isSome → Listed p) ∧
    (∀ id i r, m.clob.state.orderMap.find id = some i → m.clob.state.orderPool.get i = some r →
      Listed r.order.price) ∧
    ∀ p, Listed p → p ≠ noBid ∧ p ≠ noOffer := by
  have hprices := after_listed generator moment n h
  have hshows := PricesAre.showsListed hprices
  refine ⟨priceRange_listed hshows.1 hshows.2, newRequest_listed hshows, ?_, ?_, ?_, ?_⟩
  · intro p hp
    exact (Finset.mem_union.mp hp).elim (hprices.bids p) (hprices.offers p)
  · intro p hp
    obtain ⟨level, hlevel⟩ := Option.isSome_iff_exists.mp hp
    exact hprices.levels p level (ClosedHashMap.find_hasPair hlevel)
  · intro id i r hi hr
    rw [OrderPool.get] at hr
    split at hr
    · cases hr
      exact hprices.orders id i (ClosedHashMap.find_hasPair hi)
    · cases hr
  · intro p hp
    obtain ⟨hlow, hhigh⟩ := hp.inside
    exact ⟨ne_of_gt hlow, ne_of_lt hhigh⟩

end MarketRequestGenerator

section

attribute [local instance] priceHash idHash

/-- Two buys have come to rest. -/
theorem generated_prices_listed_stoppedBuying :
    (stoppedBuying 9).map (·.clob.rested) = some 2 ∧
      ∃ m, stoppedBuying 9 = some m ∧ (∀ side, Listed (m.newRequest side).1.price) ∧
        ∀ p, (m.clob.state.priceLevels.find p).isSome → Listed p := by
  have hrested : (stoppedBuying 9).map (·.clob.rested) = some 2 := by decide +kernel
  obtain ⟨m, hm, -⟩ := Option.map_eq_some_iff.mp hrested
  obtain ⟨-, hrequest, -, hlevels, -⟩ :=
    @MarketRequestGenerator.generated_prices_listed _ _ buyingSource m () (some (8, 1)) 9 hm
  exact ⟨hrested, m, hm, hrequest, hlevels⟩

end

end HftPipeline
