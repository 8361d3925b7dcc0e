import HftPipeline.BestPrices

/-!
# A book that may be mixed up

What a call has done to the maps, the pool and the cached best prices if it has had a defined
effect. The orders of a level may be of both sides, so the book need not represent a list of
resting orders.
-/
namespace HftPipeline

namespace ClosedHashMap

variable {Key Value : Type} {bits : Nat} [DecidableEq Key] [StdHash Key] {m m' : ClosedHashMap Key Value bits}

omit [DecidableEq Key] in
theorem hasRoom_of_add {key : Key} {value : Value} (h : m.add key value = some m') : m.HasRoom := by
  obtain ⟨idx, hprobe, -⟩ := Option.map_eq_some_iff.mp h
  obtain ⟨i, -, hi, hfree, -⟩ := probeNewLoop_some m _ _ _ (hash_lt key) hprobe
  exact ⟨idx, hi ▸ probe_lt _ _, hfree⟩

theorem Wf.of_add (hm : m.Wf) {key : Key} {value : Value} (habsent : m.find key = none)
    (h : m.add key value = some m') : m'.Wf ∧ m'.find = Function.update m.find key (some value) := by
  obtain ⟨m₁, hadd, hwf, hfind⟩ := hm.add_spec value habsent (hasRoom_of_add h)
  rw [hadd, Option.some.injEq] at h
  rw [← h]
  refine ⟨hwf, ?_⟩
  funext k
  rw [hfind, Function.update_apply]

theorem Wf.of_set (hm : m.Wf) {key : Key} (value : Value) (hpresent : m.find key ≠ none) :
    (m.set key value).Wf ∧ (m.set key value).find = Function.update m.find key (some value) := by
  obtain ⟨hwf, hfind⟩ := hm.set_spec value hpresent
  refine ⟨hwf, ?_⟩
  funext k
  rw [hfind, Function.update_apply]

theorem Wf.of_remove (hm : m.Wf) (key : Key) :
    (m.remove key).2.Wf ∧ (m.remove key).2.find = Function.update m.find key none := by
  obtain ⟨hwf, -, hfind⟩ := hm.remove_spec key
  refine ⟨hwf, ?_⟩
  funext k
  rw [hfind, Function.update_apply]

end ClosedHashMap

namespace BookState

variable [StdHash Price] [StdHash ID] {s s' : BookState} {u : BookUpdate}

/-- The order in a slot of the pool. -/
def orderAt (s : BookState) (i : Nat) : Order := (s.orderPool.orders i).order

/-- Both maps can be read. -/
structure MapsWf (s : BookState) : Prop where
  levels : s.priceLevels.Wf
  ids : s.orderMap.Wf

omit [StdHash Price] [StdHash ID] in
/-- A write to the links of a slot. -/
theorem modify_links {pool pool' : OrderPool maxConcurrentOrders} {i : Nat} {f : RestingOrder → RestingOrder}
    (h : pool.modify i f = some pool') (hf : ∀ r, (f r).order = r.order) :
    (∀ j, (pool'.orders j).order = (pool.orders j).order) ∧ pool'.freeStack = pool.freeStack ∧
      pool'.topIndex = pool.topIndex := by
  rw [OrderPool.modify] at h
  split at h
  · cases h
    refine ⟨fun j => ?_, rfl, rfl⟩
    show (Function.update pool.orders i (f (pool.orders i)) j).order = _
    by_cases hj : j = i
    · subst hj
      rw [Function.update_self, hf]
    · rw [Function.update_of_ne hj]
  · cases h

/-- The order has joined the level of its price in slot `i`. -/
structure Joined (s : BookState) (order : Order) (level : PriceLevel) (i : Nat) (s' : BookState) : Prop where
  wf : s'.MapsWf
  orderAt : s'.orderAt = Function.update s.orderAt i order
  orderMap : s'.orderMap.find = Function.update s.orderMap.find order.orderId (some i)
  priceLevels : s'.priceLevels.find = Function.update s.priceLevels.find order.price
    (some ⟨level.head, i, level.totalQuantity + order.quantity.toUInt64⟩)
  bids : s'.bids = s.bids
  offers : s'.offers = s.offers
  bbo : s'.bbo = s.bbo.withBest (addBest (s.bbo.best order.side) order) order.side

theorem joined_of_add (hwf : s.MapsWf) {order : Order} {level : PriceLevel}
    (hlevel : s.priceLevels.find order.price = some level) (hfresh : s.orderMap.find order.orderId = none)
    {used : List Nat} (hfree : s.orderPool.FreeExcept used) (hroom : used.length < maxConcurrentOrders)
    (h : s.add ⟨order, .add⟩ = some (s', u)) :
    ∃ i < maxConcurrentOrders, i ∉ used ∧ s'.orderPool.FreeExcept (i :: used) ∧ s.Joined order level i s' := by
  obtain ⟨i, pool, hallocate, hi, hunused, horders, hfree'⟩ :=
    hfree.allocate_spec hroom ⟨order, nullIndex, nullIndex⟩
  rw [add, hallocate] at h
  obtain ⟨_, hpair, h⟩ := Option.bind_eq_some_iff.mp h
  cases hpair
  obtain ⟨orderMap, hmap, h⟩ := Option.bind_eq_some_iff.mp h
  obtain ⟨s₁, henqueue, h⟩ := Option.bind_eq_some_iff.mp h
  obtain ⟨hids, hfind⟩ := hwf.ids.of_add hfresh hmap
  simp only [enqueue, hlevel] at henqueue
  obtain ⟨pool₁, hpool₁, henqueue⟩ := Option.bind_eq_some_iff.mp henqueue
  obtain ⟨pool₂, hpool₂, henqueue⟩ := Option.bind_eq_some_iff.mp henqueue
  obtain ⟨hsame₁, hstack₁, htop₁⟩ := modify_links hpool₁ fun _ => rfl
  obtain ⟨hsame₂, hstack₂, htop₂⟩ := modify_links hpool₂ fun _ => rfl
  obtain ⟨hlevels, hset⟩ := hwf.levels.of_set (⟨level.head, i, level.totalQuantity + order.quantity.toUInt64⟩ :
    PriceLevel) (by rw [hlevel]; exact Option.some_ne_none _)
  rw [updateBboAdd_eq] at h
  cases henqueue
  cases h
  refine ⟨i, hi, hunused, hfree'.congr (hstack₂.trans hstack₁) (htop₂.trans htop₁) fun _ => Iff.rfl,
    ⟨hlevels, hids⟩, ?_, hfind, hset, rfl, rfl, rfl⟩
  funext j
  show (pool₂.orders j).order = _
  rw [hsame₂, hsame₁, horders]
  by_cases hj : j = i
  · rw [hj, Function.update_self, Function.update_self]
  · rw [Function.update_of_ne hj, Function.update_of_ne hj]
    rfl

/-- An order has been taken out of a level, and if nothing was left of its total the level too. -/
structure LevelReduced (s : BookState) (order : Order) (level : PriceLevel) (s' : BookState) : Prop where
  wf : s'.priceLevels.Wf
  goes : level.totalQuantity - order.quantity.toUInt64 = 0 →
    s'.priceLevels.find = Function.update s.priceLevels.find order.price none ∧
      s'.bids = (s.removeBidOrOffer order).bids ∧ s'.offers = (s.removeBidOrOffer order).offers
  stays : level.totalQuantity - order.quantity.toUInt64 ≠ 0 → s'.bids = s.bids ∧ s'.offers = s.offers ∧
    ∃ head tail, s'.priceLevels.find = Function.update s.priceLevels.find order.price
      (some ⟨head, tail, level.totalQuantity - order.quantity.toUInt64⟩)

/-- The order has left the book. -/
structure Left (s : BookState) (order : Order) (level : PriceLevel) (s' : BookState) : Prop where
  reduced : s.LevelReduced order level s'
  ids : s'.orderMap.Wf
  orderMap : s'.orderMap.find = Function.update s.orderMap.find order.orderId none
  orderAt : s'.orderAt = s.orderAt
  bbo : ∃ info, s'.bbo = s.bbo.withBest info order.side ∧
    (order.price ≠ (s.bbo.best order.side).price → info = s.bbo.best order.side) ∧
    (order.price = (s.bbo.best order.side).price → order.quantity = (s.bbo.best order.side).quantity →
      s'.firstOf order.side = some info)

omit [StdHash Price] [StdHash ID] in
theorem detach_orders {pool pool' : OrderPool maxConcurrentOrders} {r : RestingOrder} {level level' : PriceLevel}
    (h : detach pool r level = some (pool', level')) :
    (∀ j, (pool'.orders j).order = (pool.orders j).order) ∧ level'.totalQuantity = level.totalQuantity := by
  rw [detach] at h
  split at h
  · obtain ⟨_, hback, h⟩ := Option.bind_eq_some_iff.mp h
    obtain ⟨back, hmodify, rfl⟩ := Option.map_eq_some_iff.mp hback
    have hfirst := (modify_links hmodify fun _ => rfl).1
    simp only at h
    split at h
    · obtain ⟨skip, hmodify', heq⟩ := Option.map_eq_some_iff.mp h
      cases heq
      exact ⟨fun j => ((modify_links hmodify' fun _ => rfl).1 j).trans (hfirst j), rfl⟩
    · cases h
      exact ⟨hfirst, rfl⟩
  · obtain ⟨_, hback, h⟩ := Option.bind_eq_some_iff.mp h
    cases hback
    simp only at h
    split at h
    · obtain ⟨skip, hmodify', heq⟩ := Option.map_eq_some_iff.mp h
      cases heq
      exact ⟨(modify_links hmodify' fun _ => rfl).1, rfl⟩
    · cases h
      exact ⟨fun _ => rfl, rfl⟩

theorem reduced_of_dequeue (hwf : s.MapsWf) {r : RestingOrder} {level : PriceLevel}
    (hlevel : s.priceLevels.find r.order.price = some level) (h : s.dequeue r = some s') :
    s.LevelReduced r.order level s' ∧ s'.orderAt = s.orderAt ∧ s'.orderMap = s.orderMap ∧ s'.bbo = s.bbo := by
  have hpresent : s.priceLevels.find r.order.price ≠ none := by
    rw [hlevel]
    exact Option.some_ne_none _
  obtain ⟨hset, hfind⟩ := hwf.levels.of_set
    { level with totalQuantity := level.totalQuantity - r.order.quantity.toUInt64 } hpresent
  rw [dequeue, hlevel] at h
  obtain ⟨_, hsome, h⟩ := Option.bind_eq_some_iff.mp h
  cases hsome
  simp only at h
  split at h
  · next hzero =>
    obtain ⟨hremove, hgone⟩ := hset.of_remove r.order.price
    rw [hfind, Function.update_idem] at hgone
    cases hside : r.order.side <;> simp only [removeBidOrOffer, hside] at h <;> cases h
    · refine ⟨⟨hremove, fun _ => ⟨hgone, ?_, ?_⟩, fun hne => absurd hzero hne⟩, rfl, rfl, rfl⟩
      · rw [removeBidOrOffer, hside]
      · rw [removeBidOrOffer, hside]
    · refine ⟨⟨hremove, fun _ => ⟨hgone, ?_, ?_⟩, fun hne => absurd hzero hne⟩, rfl, rfl, rfl⟩
      · rw [removeBidOrOffer, hside]
      · rw [removeBidOrOffer, hside]
  · next hne =>
    obtain ⟨⟨pool, level'⟩, hdetach, h⟩ := Option.bind_eq_some_iff.mp h
    cases h
    obtain ⟨horders, htotal⟩ := detach_orders hdetach
    have hpresent' : (s.priceLevels.set r.order.price
        { level with totalQuantity := level.totalQuantity - r.order.quantity.toUInt64 }).find r.order.price ≠
          none := by
      rw [hfind, Function.update_self]
      exact Option.some_ne_none _
    obtain ⟨hset', hfind'⟩ := hset.of_set level' hpresent'
    rw [hfind, Function.update_idem] at hfind'
    refine ⟨⟨hset', fun hzero => absurd hzero hne, fun _ => ⟨rfl, rfl, level'.head, level'.tail, ?_⟩⟩,
      funext horders, rfl, rfl⟩
    refine hfind'.trans ?_
    rw [show level.totalQuantity - r.order.quantity.toUInt64 = level'.totalQuantity from htotal.symm]

omit [StdHash ID] in
theorem best_of_updateBboReduce {order : Order} (h : s.updateBboReduce order = some (s', u)) :
    ∃ info, s' = { s with bbo := s.bbo.withBest info order.side } ∧
      (order.price ≠ (s.bbo.best order.side).price → info = s.bbo.best order.side) ∧
      (order.price = (s.bbo.best order.side).price → order.quantity = (s.bbo.best order.side).quantity →
        s.firstOf order.side = some info) := by
  rw [updateBboReduce_eq] at h
  split at h
  · next hall =>
    obtain ⟨info, hfirst, heq⟩ := Option.map_eq_some_iff.mp h
    cases heq
    exact ⟨info, rfl, fun hne => absurd hall.1 hne, fun _ _ => hfirst⟩
  · next hnot =>
    split at h
    · next hprice =>
      cases h
      exact ⟨_, rfl, fun hne => absurd hprice hne, fun _ hquantity => absurd ⟨hprice, hquantity⟩ hnot⟩
    · next hprice =>
      cases h
      refine ⟨s.bbo.best order.side, ?_, fun _ => rfl, fun heq => absurd heq hprice⟩
      rw [withBest_best]

theorem left_of_purgeOrder (hwf : s.MapsWf) {id : ID} {i : Nat} {order : Order} {level : PriceLevel}
    (hslot : s.orderMap.find id = some i) (horder : s.orderAt i = order)
    (hlevel : s.priceLevels.find order.price = some level) (h : s.purgeOrder id = some (s', u)) :
    s.Left order level s' := by
  rw [purgeOrder, hslot] at h
  obtain ⟨_, hsome, h⟩ := Option.bind_eq_some_iff.mp h
  cases hsome
  obtain ⟨r, hget, h⟩ := Option.bind_eq_some_iff.mp h
  have hr : r.order = order := by
    rw [OrderPool.get] at hget
    split at hget
    · cases hget
      exact horder
    · cases hget
  rw [← hr] at hlevel ⊢
  rw [purgeOrderAt] at h
  obtain ⟨s₁, hdequeue, h⟩ := Option.bind_eq_some_iff.mp h
  obtain ⟨hreduced, horders, hmap, hbbo⟩ := reduced_of_dequeue hwf hlevel hdequeue
  obtain ⟨⟨s₂, u₂⟩, hreduce, h⟩ := Option.bind_eq_some_iff.mp h
  obtain ⟨pool, hfree, h⟩ := Option.bind_eq_some_iff.mp h
  obtain ⟨info, rfl, haway, hall⟩ := best_of_updateBboReduce hreduce
  obtain ⟨hremove, hgone⟩ := hwf.ids.of_remove r.order.orderId
  have hpool : pool.orders = s₁.orderPool.orders := by
    rw [OrderPool.free] at hfree
    split at hfree
    · cases hfree
      rfl
    · cases hfree
  cases h
  refine ⟨⟨hreduced.wf, hreduced.goes, hreduced.stays⟩, ?_, ?_, ?_, info, ?_⟩
  · show (s₁.orderMap.remove r.order.orderId).2.Wf
    rw [hmap]
    exact hremove
  · show (s₁.orderMap.remove r.order.orderId).2.find = _
    rw [hmap]
    exact hgone
  · rw [← horders]
    funext j
    exact congrArg (fun f => (f j).order) hpool
  · rw [← hbbo]
    exact ⟨rfl, haway, hall⟩

end BookState

end HftPipeline
