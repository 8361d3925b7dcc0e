import HftPipeline.RestingBook
import HftPipeline.Lib.LinkedQueue

/-!
# The representation invariant of the book

`Represents s book` ties the five structures of `BookState` to one list of
resting orders in arrival order. The cached best prices are not part of it: each
operation first brings pool, maps and sets to the new list and then adjusts the
cache, so the operations are stated with the state in between.
-/
namespace HftPipeline

open RestingBook LinkedQueue

def OrderPool.prev {capacity : Nat} (p : OrderPool capacity) (i : Nat) : Nat := (p.orders i).previous

def OrderPool.succ {capacity : Nat} (p : OrderPool capacity) (i : Nat) : Nat := (p.orders i).next

/-- Each queue of `book` is threaded through the pool, front to back and back to front. -/
def PoolLinks (pool : OrderPool maxConcurrentOrders) (book : List Entry) : Prop :=
  ∀ p, Linked nullIndex pool.prev pool.succ nullIndex (slots (queue book p))

namespace BookState

variable [StdHash Price] [StdHash ID]

/-- The price map holds one level for each nonempty queue and no other, and the
price sets are the sets of prices with resting buys and sells. -/
structure LevelsShow (s : BookState) (book : List Entry) : Prop where
  wf : s.priceLevels.Wf
  find : ∀ p, s.priceLevels.find p = levelOf (queue book p)
  bids : s.bids = prices .buy book
  offers : s.offers = prices .sell book

/-- The book state shows exactly the resting orders `book`. -/
structure Represents (s : BookState) (book : List Entry) : Prop where
  levels : s.LevelsShow book
  links : PoolLinks s.orderPool book
  slots_lt : ∀ e ∈ book, e.slot < maxConcurrentOrders
  slots_nodup : (slots book).Nodup
  ids_nodup : (ids book).Nodup
  stored : ∀ e ∈ book, (s.orderPool.orders e.slot).order = e.order
  positive : ∀ e ∈ book, e.order.quantity ≠ 0
  unmixed : Unmixed book
  free : s.orderPool.FreeExcept (slots book)
  orderMap_wf : s.orderMap.Wf
  orderMap_iff : ∀ id i, s.orderMap.find id = some i ↔ ∃ e ∈ book, e.order.orderId = id ∧ e.slot = i

theorem represents_init : (init : BookState).Represents [] where
  levels := ⟨ClosedHashMap.wf_init, fun _ => ClosedHashMap.find_init _, by simp [init, prices],
    by simp [init, prices]⟩
  links := fun _ => trivial
  slots_lt := by simp
  slots_nodup := by simp
  ids_nodup := by simp
  stored := by simp
  positive := by simp
  unmixed := by simp [Unmixed]
  free := OrderPool.freeExcept_init
  orderMap_wf := ClosedHashMap.wf_init
  orderMap_iff := by simp [init]

section

variable {s s' : BookState} {book : List Entry}

omit [StdHash ID] in
/-- Nothing of the representation looks at the cached best prices. -/
theorem LevelsShow.withBbo (h : s.LevelsShow book) (bbo : OrderSnapshot) :
    { s with bbo := bbo }.LevelsShow book := ⟨h.wf, h.find, h.bids, h.offers⟩

theorem Represents.withBbo (h : s.Represents book) (bbo : OrderSnapshot) :
    { s with bbo := bbo }.Represents book where
  __ := h
  levels := h.levels.withBbo bbo

theorem Represents.length_le (h : s.Represents book) : book.length ≤ maxConcurrentOrders := by
  have hlength := OrderPool.length_le_of_nodup h.slots_nodup (List.forall_mem_map.mpr h.slots_lt)
  rw [slots, List.length_map] at hlength
  exact hlength

theorem Represents.slot_ne_null (h : s.Represents book) {i : Nat} (hi : i ∈ slots book) :
    i ≠ nullIndex := by
  obtain ⟨e, he, rfl⟩ := mem_slots.mp hi
  exact ne_nullIndex_of_lt (h.slots_lt e he)

theorem Represents.order_eq (h : s.Represents book) {e : Entry} (he : e ∈ book) :
    s.orderMap.find e.order.orderId = some e.slot ∧
      s.orderPool.get e.slot = some (s.orderPool.orders e.slot) :=
  ⟨(h.orderMap_iff _ _).mpr ⟨e, he, rfl, rfl⟩, OrderPool.get_of_lt _ (h.slots_lt e he)⟩

theorem Represents.orderExists_iff (h : s.Represents book) (id : ID) :
    s.orderExists id = true ↔ id ∈ ids book := by
  rw [orderExists, Option.isSome_iff_exists, mem_ids]
  constructor
  · rintro ⟨i, hi⟩
    obtain ⟨e, he, hid, -⟩ := (h.orderMap_iff id i).mp hi
    exact ⟨e, he, hid⟩
  · rintro ⟨e, he, hid⟩
    exact ⟨e.slot, (h.orderMap_iff id e.slot).mpr ⟨e, he, hid, rfl⟩⟩

/-! ## The cached best prices can always be recomputed -/

omit [StdHash ID] in
theorem LevelsShow.levelQuantity_eq (h : s.LevelsShow book) {p : Price} (hq : queue book p ≠ []) :
    s.levelQuantity p = some (UInt32.ofNat (total (queue book p))) := by
  simp [levelQuantity, h.find, levelOf_of_ne hq]

section

omit [StdHash ID]

theorem LevelsShow.firstBid_eq (h : s.LevelsShow book) : s.firstBid = some (bestBid book) := by
  simp only [firstBid, bestBid, h.bids]
  split
  · rfl
  · next hne =>
    rw [h.levelQuantity_eq (queue_ne_nil_of_mem_prices (max_unbotD_mem hne noBid))]
    rfl

theorem LevelsShow.firstOffer_eq (h : s.LevelsShow book) : s.firstOffer = some (bestOffer book) := by
  simp only [firstOffer, bestOffer, h.offers]
  split
  · rfl
  · next hne =>
    rw [h.levelQuantity_eq (queue_ne_nil_of_mem_prices (min_untopD_mem hne noOffer))]
    rfl

end

omit [StdHash Price] [StdHash ID] in
/-- Adjusting the cache touches nothing else, whatever it held. -/
theorem updateBboAdd_frame (s : BookState) (order : Order) :
    ∃ bbo u, s.updateBboAdd order = ({ s with bbo := bbo }, u) := by
  cases hside : order.side <;>
    simp only [updateBboAdd, hside, updateBestBidAdd, updateBestOfferAdd, setBestBid, setBestOffer] <;>
    split
  all_goals first | exact ⟨_, _, rfl⟩ | (split <;> exact ⟨_, _, rfl⟩)

omit [StdHash ID] in
theorem LevelsShow.updateBboReduce_frame (h : s.LevelsShow book) (order : Order) :
    ∃ bbo u, s.updateBboReduce order = some ({ s with bbo := bbo }, u) := by
  cases hside : order.side <;>
    simp only [updateBboReduce, hside, updateBestBidReduce, updateBestOfferReduce, h.firstBid_eq,
      h.firstOffer_eq, setBestBid, setBestOffer, Option.map_some] <;>
    split
  all_goals first | exact ⟨_, _, rfl⟩ | (split <;> exact ⟨_, _, rfl⟩)

/-! ## Leaving the book -/

section

omit [StdHash Price] [StdHash ID]

/-- `detach` writes the two links that skip the order, and moves an end of the
level where there is no neighbour. -/
theorem detach_spec (pool : OrderPool maxConcurrentOrders) (r : RestingOrder) (level : PriceLevel)
    (hprev : r.previous = nullIndex ∨ r.previous < maxConcurrentOrders)
    (hnext : r.next = nullIndex ∨ r.next < maxConcurrentOrders) :
    ∃ pool', detach pool r level = some (pool',
        ⟨if r.previous = nullIndex then r.next else level.head,
          if r.next = nullIndex then r.previous else level.tail, level.totalQuantity⟩) ∧
      pool'.freeStack = pool.freeStack ∧ pool'.topIndex = pool.topIndex ∧
      ∀ x < maxConcurrentOrders, pool'.orders x = ⟨(pool.orders x).order,
        if x = r.next then r.previous else (pool.orders x).previous,
        if x = r.previous then r.next else (pool.orders x).next⟩ := by
  have hne : ∀ x < maxConcurrentOrders, x ≠ nullIndex := fun x => ne_nullIndex_of_lt
  let skip : RestingOrder → RestingOrder := fun q => { q with next := r.next }
  let back : RestingOrder → RestingOrder := fun q => { q with previous := r.previous }
  by_cases hp : r.previous = nullIndex <;> by_cases hn : r.next = nullIndex
  · refine ⟨pool, by simp [detach, hp, hn], rfl, rfl, ?_⟩
    intro x hx
    simp [hp, hn, hne x hx]
  · have hnlt := hnext.resolve_left hn
    refine ⟨{ pool with orders := Function.update pool.orders r.next (back (pool.orders r.next)) },
      by simp [detach, hp, hn, OrderPool.modify_of_lt _ hnlt, back], rfl, rfl, ?_⟩
    intro x hx
    by_cases hxn : x = r.next
    · subst hxn; simp [back, hp, hn]
    · simp [hxn, hp, hne x hx]
  · have hplt := hprev.resolve_left hp
    refine ⟨{ pool with orders := Function.update pool.orders r.previous (skip (pool.orders r.previous)) },
      by simp [detach, hp, hn, OrderPool.modify_of_lt _ hplt, skip], rfl, rfl, ?_⟩
    intro x hx
    by_cases hxp : x = r.previous
    · subst hxp; simp [skip, hp, hn]
    · simp [hxp, hn, hne x hx]
  · have hplt := hprev.resolve_left hp
    have hnlt := hnext.resolve_left hn
    let orders := Function.update pool.orders r.previous (skip (pool.orders r.previous))
    refine ⟨{ pool with orders := Function.update orders r.next (back (orders r.next)) },
      by simp [detach, hp, hn, OrderPool.modify_of_lt _ hplt, OrderPool.modify_of_lt _ hnlt, back, skip,
        orders], rfl, rfl, ?_⟩
    intro x hx
    by_cases hxn : x = r.next
    · subst hxn
      by_cases hnp : r.next = r.previous
      · simp [orders, skip, back, hnp]
      · simp [orders, back, hnp]
    · by_cases hxp : x = r.previous
      · subst hxp; simp [orders, skip, hxn]
      · simp [orders, hxn, hxp]

theorem getLastD_append_cons {α : Type} (a b : List α) (x d : α) :
    (a ++ x :: b).getLastD d = b.getLastD x := by
  induction a generalizing d with
  | nil => rw [List.nil_append, List.getLastD_cons]
  | cons y a ih => rw [List.cons_append, List.getLastD_cons, ih]

end

/-- The links of a resting order lead to its neighbours in the queue of its price. -/
theorem Represents.neighbours (h : s.Represents book) {e : Entry} {front back : List Entry}
    (hq : queue book e.order.price = front ++ e :: back) :
    (s.orderPool.orders e.slot).previous = (slots front).getLastD nullIndex ∧
      (s.orderPool.orders e.slot).next = (slots back).headD nullIndex := by
  have hl := h.links e.order.price
  rw [hq, slots_append, slots_cons] at hl
  exact hl.at_mid

section

omit [StdHash Price] [StdHash ID]

theorem getLastD_null_or_mem (xs : List Nat) :
    xs.getLastD nullIndex = nullIndex ∧ xs = [] ∨ xs.getLastD nullIndex ∈ xs := by
  cases xs with
  | nil => exact Or.inl ⟨rfl, rfl⟩
  | cons x xs =>
    refine Or.inr ?_
    rw [List.getLastD_eq_getLast?, List.getLast?_eq_getLast_of_ne_nil (by simp)]
    exact List.getLast_mem _

theorem headD_null_or_mem (xs : List Nat) :
    xs.headD nullIndex = nullIndex ∧ xs = [] ∨ xs.headD nullIndex ∈ xs := by
  cases xs with
  | nil => exact Or.inl ⟨rfl, rfl⟩
  | cons x xs => exact Or.inr (by simp)

end

omit [StdHash Price] [StdHash ID] in
/-- The level that `detach` leaves is the level of the shortened queue. -/
theorem levelOf_detached {front back : List Entry} {e : Entry} {i j : Nat}
    (hlt : ∀ x ∈ slots (front ++ e :: back), x ≠ nullIndex)
    (hi : i = (slots front).getLastD nullIndex) (hj : j = (slots back).headD nullIndex)
    (hne : front ++ back ≠ []) :
    levelOf (front ++ back) = some
      ⟨if i = nullIndex then j else (slots (front ++ e :: back)).headD nullIndex,
        if j = nullIndex then i else (slots (front ++ e :: back)).getLastD nullIndex,
        UInt64.ofNat (total (front ++ back))⟩ := by
  rw [levelOf_of_ne hne]
  congr 2
  · cases front with
    | nil => simp [hi, hj]
    | cons x front =>
      have hmem : (slots (x :: front)).getLastD nullIndex ∈ slots (x :: front) := by
        rcases getLastD_null_or_mem (slots (x :: front)) with ⟨-, hnil⟩ | hmem
        · simp at hnil
        · exact hmem
      rw [if_neg (by rw [hi]; exact hlt _ (by rw [slots_append]; exact List.mem_append_left _ hmem))]
      rfl
  · cases back with
    | nil => simp [hi, hj]
    | cons y back =>
      have hy : y.slot ≠ nullIndex := hlt _ (by simp)
      rw [if_neg (by rw [hj]; exact hy)]
      simp only [slots_append, slots_cons, getLastD_append_cons]
      rw [List.getLastD_cons]

omit [StdHash Price] [StdHash ID] in
/-- What the total of a level becomes when one of its orders leaves. -/
theorem total_sub {front back : List Entry} {e : Entry} :
    UInt64.ofNat (total (front ++ e :: back)) - e.order.quantity.toUInt64 =
      UInt64.ofNat (total (front ++ back)) := by
  rw [← UInt64.ofNat_uInt32ToNat, ← UInt64.ofNat_sub (by simp only [total_append, total_cons]; omega)]
  congr 1
  simp only [total_append, total_cons]
  omega

/-- A level total of 64 bits is zero exactly when the level has no order left. -/
theorem Represents.total_eq_zero_iff (h : s.Represents book) {q : List Entry} (hsub : q.Sublist book) :
    UInt64.ofNat (total q) = 0 ↔ q = [] := by
  have hlt : total q < 2 ^ 64 := total_lt q (hsub.length_le.trans h.length_le)
  rw [← UInt64.toNat_inj, UInt64.toNat_ofNat', Nat.mod_eq_of_lt hlt,
    ← total_eq_zero fun e he => h.positive e (hsub.subset he)]
  rfl

theorem Represents.queue_nodup (h : s.Represents book) (p : Price) : (slots (queue book p)).Nodup :=
  h.slots_nodup.sublist ((queue_sublist book p).map _)

/-- Slots of different queues differ. -/
theorem Represents.price_of_slot (h : s.Represents book) {i : Nat} {p p' : Price}
    (hi : i ∈ slots (queue book p)) (hi' : i ∈ slots (queue book p')) : p = p' := by
  obtain ⟨e, he, rfl⟩ := mem_slots.mp hi
  obtain ⟨e', he', hslot⟩ := mem_slots.mp hi'
  rw [mem_queue] at he he'
  rw [← he.2, ← he'.2, eq_of_slot h.slots_nodup he.1 he'.1 hslot.symm]

/-- Unlinking threads the shortened queue and leaves every other queue alone. -/
theorem Represents.links_detached (h : s.Represents book) {e : Entry} {front back : List Entry}
    (hq : queue book e.order.price = front ++ e :: back)
    (he : e ∈ book) {pool' : OrderPool maxConcurrentOrders}
    (hpool : ∀ x < maxConcurrentOrders, pool'.orders x = ⟨(s.orderPool.orders x).order,
      if x = (s.orderPool.orders e.slot).next then (s.orderPool.orders e.slot).previous
        else (s.orderPool.orders x).previous,
      if x = (s.orderPool.orders e.slot).previous then (s.orderPool.orders e.slot).next
        else (s.orderPool.orders x).next⟩) :
    PoolLinks pool' (remove e.order.orderId book) := by
  have hlt : ∀ p, ∀ x ∈ slots (queue book p), x < maxConcurrentOrders := by
    intro p x hx
    obtain ⟨e', he', rfl⟩ := mem_slots.mp hx
    exact h.slots_lt e' (mem_queue.mp he').1
  obtain ⟨hprev, hnext⟩ := h.neighbours hq
  intro p
  by_cases hp : p = e.order.price
  · subst hp
    have hl := h.links e.order.price
    have hnodup := h.queue_nodup e.order.price
    have hlt' := hlt e.order.price
    have hnull : nullIndex ∉ slots (queue book e.order.price) := fun hm =>
      ne_nullIndex_of_lt (hlt' _ hm) rfl
    rw [queue_remove_split h.ids_nodup hq, slots_append]
    rw [hq, slots_append, slots_cons] at hl hnodup hlt' hnull
    have hmem : ∀ y ∈ slots front ++ slots back, y ∈ slots front ++ e.slot :: slots back := by
      intro y hy
      simp only [List.mem_append, List.mem_cons] at hy ⊢
      tauto
    apply hl.unlink hnodup hnull hnull
    · intro y hy
      simp only [OrderPool.prev, OrderPool.succ, hpool y (hlt' y (hmem y hy))]
      congr
    · intro y hy
      simp only [OrderPool.prev, OrderPool.succ, hpool y (hlt' y (hmem y hy))]
      congr
  · rw [queue_eq_of_price_ne h.ids_nodup he hp]
    have hother : ∀ x ∈ slots (queue book p), ∀ ys : List Entry,
        (∀ y ∈ ys, y ∈ queue book e.order.price) → x ∉ slots ys := by
      intro x hx ys hys hm
      obtain ⟨y, hy, hslot⟩ := mem_slots.mp hm
      exact hp (h.price_of_slot hx (mem_slots.mpr ⟨y, hys y hy, hslot⟩))
    have hfront := fun x hx => hother x hx front (by intro y hy; rw [hq]; simp [hy])
    have hback := fun x hx => hother x hx back (by intro y hy; rw [hq]; simp [hy])
    refine (h.links p).congr ?_ ?_
    · intro x hx
      have hne : x ≠ (s.orderPool.orders e.slot).next := by
        rw [hnext]
        rcases headD_null_or_mem (slots back) with ⟨hnull, -⟩ | hm
        · rw [hnull]; exact ne_nullIndex_of_lt (hlt p x hx)
        · exact fun heq => hback x hx (heq ▸ hm)
      simp only [OrderPool.prev, hpool x (hlt p x hx), if_neg hne]
    · intro x hx
      have hne : x ≠ (s.orderPool.orders e.slot).previous := by
        rw [hprev]
        rcases getLastD_null_or_mem (slots front) with ⟨hnull, -⟩ | hm
        · rw [hnull]; exact ne_nullIndex_of_lt (hlt p x hx)
        · exact fun heq => hfront x hx (heq ▸ hm)
      simp only [OrderPool.succ, hpool x (hlt p x hx), if_neg hne]

/-- The level of a queue, as the price map stores it, with a total of `n`. -/
def levelWith (q : List Entry) (n : Nat) : PriceLevel :=
  ⟨(slots q).headD nullIndex, (slots q).getLastD nullIndex, UInt64.ofNat n⟩

theorem Represents.detach_queue (h : s.Represents book) {e : Entry} {front back : List Entry}
    (he : e ∈ book) (hq : queue book e.order.price = front ++ e :: back) (hne : front ++ back ≠ []) :
    ∃ pool' level', detach s.orderPool (s.orderPool.orders e.slot)
        (levelWith (front ++ e :: back) (total (front ++ back))) = some (pool', level') ∧
      levelOf (front ++ back) = some level' ∧
      PoolLinks pool' (remove e.order.orderId book) ∧
      (∀ x < maxConcurrentOrders, (pool'.orders x).order = (s.orderPool.orders x).order) ∧
      pool'.freeStack = s.orderPool.freeStack ∧ pool'.topIndex = s.orderPool.topIndex := by
  obtain ⟨hprev, hnext⟩ := h.neighbours hq
  have hlt : ∀ x ∈ slots (front ++ e :: back), x < maxConcurrentOrders := by
    intro x hx
    obtain ⟨e', he', rfl⟩ := mem_slots.mp hx
    rw [← hq] at he'
    exact h.slots_lt e' (mem_queue.mp he').1
  have hprevLt : (s.orderPool.orders e.slot).previous = nullIndex ∨
      (s.orderPool.orders e.slot).previous < maxConcurrentOrders := by
    rw [hprev]
    rcases getLastD_null_or_mem (slots front) with ⟨hn, -⟩ | hm
    · exact Or.inl hn
    · exact Or.inr (hlt _ (by rw [slots_append]; exact List.mem_append_left _ hm))
  have hnextLt : (s.orderPool.orders e.slot).next = nullIndex ∨
      (s.orderPool.orders e.slot).next < maxConcurrentOrders := by
    rw [hnext]
    rcases headD_null_or_mem (slots back) with ⟨hn, -⟩ | hm
    · exact Or.inl hn
    · refine Or.inr (hlt _ ?_)
      rw [slots_append, slots_cons]
      exact List.mem_append_right _ (List.mem_cons_of_mem _ hm)
  obtain ⟨pool', hdetach, hstack, htop, hpool⟩ := detach_spec s.orderPool (s.orderPool.orders e.slot)
    (levelWith (front ++ e :: back) (total (front ++ back))) hprevLt hnextLt
  have hlevel := levelOf_detached (fun x hx => ne_nullIndex_of_lt (hlt x hx)) hprev hnext hne
  refine ⟨pool', _, hdetach, hlevel, h.links_detached hq he hpool, ?_, hstack, htop⟩
  intro x hx
  rw [hpool x hx]

/-- The queue loses the order, and nothing else of the state changes but the levels and links. -/
structure Dequeued (s s' : BookState) (book : List Entry) (e : Entry) : Prop where
  levels : s'.LevelsShow (remove e.order.orderId book)
  links : PoolLinks s'.orderPool (remove e.order.orderId book)
  orders : ∀ x < maxConcurrentOrders, (s'.orderPool.orders x).order = (s.orderPool.orders x).order
  freeStack : s'.orderPool.freeStack = s.orderPool.freeStack
  topIndex : s'.orderPool.topIndex = s.orderPool.topIndex
  orderMap : s'.orderMap = s.orderMap
  bbo : s'.bbo = s.bbo

section Dequeue

variable {e : Entry} {front back : List Entry}

theorem Represents.find_split (h : s.Represents book) (hq : queue book e.order.price = front ++ e :: back) :
    s.priceLevels.find e.order.price = some (levelWith (front ++ e :: back) (total (front ++ e :: back))) := by
  rw [h.levels.find, hq, levelOf_of_ne (by simp)]
  rfl

theorem Represents.find_of_ne (h : s.Represents book) (he : e ∈ book) {k : Price} (hk : k ≠ e.order.price) :
    s.priceLevels.find k = levelOf (queue (remove e.order.orderId book) k) := by
  rw [h.levels.find, queue_eq_of_price_ne h.ids_nodup he hk]

/-- The level's total is lowered before the level is removed or the order is unlinked from it. -/
def lowered (s : BookState) (e : Entry) (front back : List Entry) : ClosedHashMap Price PriceLevel priceLevelBits :=
  s.priceLevels.set e.order.price (levelWith (front ++ e :: back) (total (front ++ back)))

theorem Represents.lowered_spec (h : s.Represents book) (hq : queue book e.order.price = front ++ e :: back) :
    (s.lowered e front back).Wf ∧ ∀ k, (s.lowered e front back).find k =
      if k = e.order.price then some (levelWith (front ++ e :: back) (total (front ++ back)))
      else s.priceLevels.find k :=
  h.levels.wf.set_spec _ (by rw [h.find_split hq]; simp)

theorem Represents.dequeue_eq (h : s.Represents book) (he : e ∈ book)
    (hq : queue book e.order.price = front ++ e :: back) :
    s.dequeue (s.orderPool.orders e.slot) =
      if front ++ back = [] then
        some ({ s with priceLevels := ((s.lowered e front back).remove e.order.price).2 }.removeBidOrOffer e.order)
      else (detach s.orderPool (s.orderPool.orders e.slot)
          (levelWith (front ++ e :: back) (total (front ++ back)))).map fun r =>
        { s with
          orderPool := r.1
          priceLevels := (s.lowered e front back).set e.order.price r.2 } := by
  have hsub : (front ++ back).Sublist book := by
    rw [← queue_remove_split h.ids_nodup hq]
    exact (queue_sublist _ _).trans (remove_sublist _ _)
  simp only [dequeue, h.stored e he, h.find_split hq, Option.bind_eq_bind, Option.bind_some, levelWith, total_sub,
    h.total_eq_zero_iff hsub]
  split
  · rfl
  · cases detach s.orderPool (s.orderPool.orders e.slot) _ <;> rfl

/-- The level goes with its last order. -/
theorem Represents.dequeue_last (h : s.Represents book) (he : e ∈ book)
    (hq : queue book e.order.price = front ++ e :: back) (hnil : front ++ back = []) :
    ∃ s', s.dequeue (s.orderPool.orders e.slot) = some s' ∧ Dequeued s s' book e := by
  have hrest := queue_remove_split h.ids_nodup hq
  have hprices := fun side => prices_remove h.ids_nodup h.unmixed he side
  simp only [hrest, hnil, and_true] at hprices
  obtain ⟨hwf₁, hfind₁⟩ := h.lowered_spec hq
  obtain ⟨hwf₂, -, hfind₂⟩ := hwf₁.remove_spec e.order.price
  have hlinks : PoolLinks s.orderPool (remove e.order.orderId book) := by
    intro k
    by_cases hk : k = e.order.price
    · rw [hk, hrest, hnil]; trivial
    · rw [queue_eq_of_price_ne h.ids_nodup he hk]; exact h.links k
  have hfinds : ∀ k, ((s.lowered e front back).remove e.order.price).2.find k =
      levelOf (queue (remove e.order.orderId book) k) := by
    intro k
    rw [hfind₂, hfind₁]
    by_cases hk : k = e.order.price
    · rw [if_pos hk, hk, hrest, hnil, levelOf_nil]
    · rw [if_neg hk, if_neg hk, h.find_of_ne he hk]
  rw [h.dequeue_eq he hq, if_pos hnil]
  cases hside : e.order.side with
  | buy =>
    simp only [removeBidOrOffer, hside]
    refine ⟨_, rfl, ⟨hwf₂, hfinds, ?_, ?_⟩, hlinks, fun _ _ => rfl, rfl, rfl, rfl, rfl⟩
    · rw [hprices, if_pos hside, h.levels.bids]
    · rw [hprices, if_neg (by simp [hside]), h.levels.offers]
  | sell =>
    simp only [removeBidOrOffer, hside]
    refine ⟨_, rfl, ⟨hwf₂, hfinds, ?_, ?_⟩, hlinks, fun _ _ => rfl, rfl, rfl, rfl, rfl⟩
    · rw [hprices, if_neg (by simp [hside]), h.levels.bids]
    · rw [hprices, if_pos hside, h.levels.offers]

/-- The order is unlinked from a level that stays. -/
theorem Represents.dequeue_linked (h : s.Represents book) (he : e ∈ book)
    (hq : queue book e.order.price = front ++ e :: back) (hne : front ++ back ≠ []) :
    ∃ s', s.dequeue (s.orderPool.orders e.slot) = some s' ∧ Dequeued s s' book e := by
  have hrest := queue_remove_split h.ids_nodup hq
  have hprices := fun side => prices_remove h.ids_nodup h.unmixed he side
  simp only [hrest, hne, and_false, ↓reduceIte] at hprices
  obtain ⟨hwf₁, hfind₁⟩ := h.lowered_spec hq
  obtain ⟨pool', level', hdetach, hlevel, hlinks, horders, hstack, htop⟩ := h.detach_queue he hq hne
  have hpresent : (s.lowered e front back).find e.order.price ≠ none := by
    rw [hfind₁]
    simp
  obtain ⟨hwf₂, hfind₂⟩ := hwf₁.set_spec level' hpresent
  rw [h.dequeue_eq he hq, if_neg hne, hdetach]
  refine ⟨_, rfl, ⟨hwf₂, ?_, by rw [hprices]; exact h.levels.bids, by rw [hprices]; exact h.levels.offers⟩,
    hlinks, horders, hstack, htop, rfl, rfl⟩
  intro k
  simp only [hfind₂, hfind₁]
  by_cases hk : k = e.order.price
  · rw [if_pos hk, hk, hrest, hlevel]
  · rw [if_neg hk, if_neg hk, h.find_of_ne he hk]

/-- The level part of `purge_order`. -/
theorem Represents.dequeue_spec (h : s.Represents book) (he : e ∈ book) :
    ∃ s', s.dequeue (s.orderPool.orders e.slot) = some s' ∧ Dequeued s s' book e := by
  obtain ⟨front, back, hq⟩ := exists_split he
  by_cases hnil : front ++ back = []
  · exact h.dequeue_last he hq hnil
  · exact h.dequeue_linked he hq hnil

end Dequeue

/-- `purge_order` removes the order, adjusting the cache in a state whose levels
already show the shorter book. -/
theorem Represents.purgeOrderAt_spec (h : s.Represents book) {e : Entry} (he : e ∈ book) :
    ∃ mid : BookState, mid.LevelsShow (remove e.order.orderId book) ∧ mid.bbo = s.bbo ∧
      ∀ bbo u, mid.updateBboReduce e.order = some ({ mid with bbo := bbo }, u) →
        ∃ s', s.purgeOrderAt e.slot (s.orderPool.orders e.slot) = some (s', u) ∧ s'.bbo = bbo ∧
          s'.Represents (remove e.order.orderId book) := by
  obtain ⟨s₁, hs₁, hlevels, hlinks, horders, hstack, htop, hmap, hbbo⟩ := h.dequeue_spec he
  obtain ⟨hmapWf, -, hmapFind⟩ := h.orderMap_wf.remove_spec e.order.orderId
  have hmem : ∀ i, i ∈ slots (remove e.order.orderId book) ↔ i ∈ slots book ∧ i ≠ e.slot := by
    intro i
    simp only [mem_slots, mem_remove]
    constructor
    · rintro ⟨e', ⟨he', hid⟩, rfl⟩
      exact ⟨⟨e', he', rfl⟩, fun hs => hid (by rw [eq_of_slot h.slots_nodup he' he hs])⟩
    · rintro ⟨⟨e', he', rfl⟩, hne⟩
      exact ⟨e', ⟨he', fun hid => hne (by rw [eq_of_id h.ids_nodup he' he hid])⟩, rfl⟩
  have hfree : s₁.orderPool.FreeExcept (slots book) := h.free.congr hstack htop (fun _ => Iff.rfl)
  obtain ⟨pool', hpool', hpoolOrders, hfree'⟩ :=
    hfree.free_spec (h.slots_lt e he) (mem_slots.mpr ⟨e, he, rfl⟩) hmem
  refine ⟨{ s₁ with orderMap := (s₁.orderMap.remove e.order.orderId).2 },
    ⟨hlevels.wf, hlevels.find, hlevels.bids, hlevels.offers⟩, hbbo, ?_⟩
  intro bbo u hu
  refine ⟨{ s₁ with
      orderMap := (s₁.orderMap.remove e.order.orderId).2
      bbo := bbo
      orderPool := pool' }, ?_, rfl, ?_⟩
  · simp [purgeOrderAt, hs₁, h.stored e he, hu, hpool']
  · have hsub := remove_sublist e.order.orderId book
    constructor
    · exact ⟨hlevels.wf, hlevels.find, hlevels.bids, hlevels.offers⟩
    · intro p
      refine (hlinks p).congr ?_ ?_ <;> intro x _ <;> simp only [OrderPool.prev, OrderPool.succ, hpoolOrders]
    · exact fun e' he' => h.slots_lt e' (hsub.subset he')
    · exact h.slots_nodup.sublist (hsub.map _)
    · exact h.ids_nodup.sublist (hsub.map _)
    · intro e' he'
      have hm := hsub.subset he'
      simp only [hpoolOrders]
      rw [horders _ (h.slots_lt e' hm), h.stored e' hm]
    · exact fun e' he' => h.positive e' (hsub.subset he')
    · exact fun a ha b hb => h.unmixed a (hsub.subset ha) b (hsub.subset hb)
    · exact hfree'
    · rw [hmap]; exact hmapWf
    · intro id i
      simp only [hmap, hmapFind]
      by_cases hid : id = e.order.orderId
      · simp only [hid, ↓reduceIte, reduceCtorEq, mem_remove, false_iff, not_exists]
        rintro e' ⟨⟨-, hne⟩, heq, -⟩
        exact hne heq
      · rw [if_neg hid, h.orderMap_iff]
        simp only [mem_remove]
        constructor
        · rintro ⟨e', he', rfl, hi⟩
          exact ⟨e', ⟨he', hid⟩, rfl, hi⟩
        · rintro ⟨e', ⟨he', -⟩, rfl, hi⟩
          exact ⟨e', he', rfl, hi⟩

/-! ## Changing a quantity -/

/-- The pool once the order of `e` has the quantity `q`. -/
def resizedPool (s : BookState) (e : Entry) (q : Quantity) : OrderPool maxConcurrentOrders :=
  { s.orderPool with orders := Function.update s.orderPool.orders e.slot ⟨e.order.withQuantity q,
      (s.orderPool.orders e.slot).previous, (s.orderPool.orders e.slot).next⟩ }

omit [StdHash Price] [StdHash ID] in
theorem resizedPool_links (s : BookState) (e : Entry) (q : Quantity) (x : Nat) :
    ((s.resizedPool e q).orders x).previous = (s.orderPool.orders x).previous ∧
      ((s.resizedPool e q).orders x).next = (s.orderPool.orders x).next := by
  by_cases hx : x = e.slot
  · simp [resizedPool, hx]
  · simp [resizedPool, hx]

/-- The price map once the level of `e` has the total of the resized queue. -/
def resizedLevels (s : BookState) (book : List Entry) (e : Entry) (quantity : Quantity) :
    ClosedHashMap Price PriceLevel priceLevelBits :=
  s.priceLevels.set e.order.price (levelWith (queue book e.order.price)
    (total (resize e.order.orderId quantity (queue book e.order.price))))

/-- A new total at the order's level shows the resized book, whatever pool and cache say. -/
theorem Represents.levelsShow_resized (h : s.Represents book) {e : Entry} (he : e ∈ book)
    (quantity : Quantity) (pool : OrderPool maxConcurrentOrders) (bbo : OrderSnapshot) :
    ({ s with orderPool := pool, priceLevels := s.resizedLevels book e quantity, bbo } : BookState).LevelsShow
      (resize e.order.orderId quantity book) := by
  have hqueue : queue book e.order.price ≠ [] := List.ne_nil_of_mem (mem_queue.mpr ⟨he, rfl⟩)
  have hpresent : s.priceLevels.find e.order.price ≠ none := by
    rw [h.levels.find, levelOf_of_ne hqueue]
    simp
  obtain ⟨hwf, hfind⟩ := h.levels.wf.set_spec
    (levelWith (queue book e.order.price)
      (total (resize e.order.orderId quantity (queue book e.order.price)))) hpresent
  refine ⟨hwf, ?_, ?_, ?_⟩
  · intro k
    simp only [resizedLevels, hfind, queue_resize]
    by_cases hk : k = e.order.price
    · subst hk
      rw [if_pos rfl, levelOf_of_ne (by rw [ne_eq, resize_eq_nil]; exact hqueue), slots_resize]
      rfl
    · rw [if_neg hk, h.levels.find, resize_of_not_mem]
      intro hm
      obtain ⟨e', he', hid⟩ := mem_ids.mp hm
      obtain ⟨hmem, hprice⟩ := mem_queue.mp he'
      rw [eq_of_id h.ids_nodup hmem he hid] at hprice
      exact hk hprice.symm
  · rw [prices_resize]; exact h.levels.bids
  · rw [prices_resize]; exact h.levels.offers

/-- Pool and price map resized together represent the resized book. -/
theorem Represents.resized (h : s.Represents book) {e : Entry} (he : e ∈ book) {quantity : Quantity}
    (hpos : quantity ≠ 0) (bbo : OrderSnapshot) :
    ({ s with
        orderPool := s.resizedPool e quantity
        priceLevels := s.resizedLevels book e quantity
        bbo } : BookState).Represents (resize e.order.orderId quantity book) := by
  constructor
  · exact h.levelsShow_resized he quantity _ _
  · intro p
    rw [queue_resize, slots_resize]
    exact (h.links p).congr (fun x _ => (s.resizedPool_links e quantity x).1)
      (fun x _ => (s.resizedPool_links e quantity x).2)
  · intro e' he'
    obtain ⟨e₀, he₀, rfl⟩ := mem_resize.mp he'
    have := h.slots_lt e₀ he₀
    split <;> exact this
  · rw [slots_resize]; exact h.slots_nodup
  · rw [ids_resize]; exact h.ids_nodup
  · intro e' he'
    obtain ⟨e₀, he₀, rfl⟩ := mem_resize.mp he'
    by_cases hid : e₀.order.orderId = e.order.orderId
    · have heq := eq_of_id h.ids_nodup he₀ he hid
      subst heq
      simp [resizedPool]
    · have hne : e₀.slot ≠ e.slot := fun hs => hid (by rw [eq_of_slot h.slots_nodup he₀ he hs])
      simp [hid, resizedPool, hne, h.stored e₀ he₀]
  · intro e' he'
    obtain ⟨e₀, he₀, rfl⟩ := mem_resize.mp he'
    split
    · exact hpos
    · exact h.positive e₀ he₀
  · intro a ha b hb hprice
    obtain ⟨a₀, ha₀, rfl⟩ := mem_resize.mp ha
    obtain ⟨b₀, hb₀, rfl⟩ := mem_resize.mp hb
    have hunmixed := h.unmixed a₀ ha₀ b₀ hb₀
    simp only [apply_ite Entry.order, apply_ite Order.price, apply_ite Order.side, Order.withQuantity,
      ite_self] at hprice ⊢
    exact hunmixed hprice
  · exact h.free.congr rfl rfl (fun i => by rw [slots_resize])
  · exact h.orderMap_wf
  · intro id i
    rw [h.orderMap_iff]
    constructor
    · rintro ⟨e', he', rfl, rfl⟩
      refine ⟨_, mem_resize.mpr ⟨e', he', rfl⟩, ?_, ?_⟩ <;> split <;> rfl
    · rintro ⟨e', he', rfl, rfl⟩
      obtain ⟨e₀, he₀, rfl⟩ := mem_resize.mp he'
      refine ⟨e₀, he₀, ?_, ?_⟩ <;> split <;> rfl

/-- The common tail of a partial trade and of a quantity update: the order keeps its
place, the level's total moves by the difference, and the cache is adjusted in a
state whose levels already show the new quantity. -/
theorem Represents.changeQuantity_spec (h : s.Represents book) {e : Entry} (he : e ∈ book)
    (change : UInt64 → UInt64) (delta quantity : Quantity)
    (updateBbo : BookState → Order → Option (BookState × BookUpdate)) (hpos : quantity ≠ 0)
    (htotal : change (UInt64.ofNat (total (queue book e.order.price))) =
      UInt64.ofNat (total (resize e.order.orderId quantity (queue book e.order.price)))) :
    ∃ mid : BookState, mid.LevelsShow (resize e.order.orderId quantity book) ∧
      mid.bbo = s.bbo ∧
      ∀ bbo u, updateBbo mid (e.order.withQuantity delta) = some ({ mid with bbo := bbo }, u) →
        ∃ s', s.changeQuantity e.slot (s.orderPool.orders e.slot) change delta quantity updateBbo =
            some (s', u) ∧ s'.bbo = bbo ∧
          s'.Represents (resize e.order.orderId quantity book) := by
  have hfind : s.priceLevels.find e.order.price =
      some (levelWith (queue book e.order.price) (total (queue book e.order.price))) := by
    rw [h.levels.find, levelOf_of_ne (List.ne_nil_of_mem (mem_queue.mpr ⟨he, rfl⟩))]
    rfl
  have hlt := h.slots_lt e he
  refine ⟨{ s with
      orderPool := s.resizedPool e delta
      priceLevels := s.resizedLevels book e quantity }, h.levelsShow_resized he quantity _ _, rfl, ?_⟩
  intro bbo u hu
  refine ⟨_, ?_, rfl, h.resized he hpos bbo⟩
  have hchange : change (levelWith (queue book e.order.price)
      (total (queue book e.order.price))).totalQuantity =
      UInt64.ofNat (total (resize e.order.orderId quantity (queue book e.order.price))) := htotal
  simp only [changeQuantity, h.stored e he, hfind, Option.bind_eq_bind, Option.bind_some, hchange,
    BookState.setQuantity, OrderPool.modify_of_lt _ hlt, Option.map_some]
  simp only [levelWith, resizedLevels, resizedPool] at hu ⊢
  rw [hu]
  simp [Order.withQuantity]

/-! ## Joining the book -/

omit [StdHash ID] in
/-- Fewer levels than slots leave room for one more. -/
theorem LevelsShow.hasRoom (h : s.LevelsShow book)
    (hcard : (levelPrices book).card < ClosedHashMap.capacity priceLevelBits) : s.priceLevels.HasRoom := by
  refine h.wf.hasRoom (levelPrices book) ?_ hcard
  intro p hp
  by_contra hnot
  rw [h.find, queue_eq_nil_iff.mpr hnot] at hp
  exact hp levelOf_nil

/-- The pool after an order has been linked behind its queue. -/
def linkedPool (pool : OrderPool maxConcurrentOrders) (tail i : Nat) : OrderPool maxConcurrentOrders :=
  let orders := Function.update pool.orders tail { pool.orders tail with next := i }
  { pool with orders := Function.update orders i { orders i with previous := tail } }

/-- The queue of the new order's price grows at its back and no other queue changes. -/
theorem Represents.links_appended (h : s.Represents book) {order : Order} {i : Nat}
    {pool' : OrderPool maxConcurrentOrders}
    (hprev : ∀ x ∈ slots book, pool'.prev x = s.orderPool.prev x)
    (hnext : ∀ x ∈ slots book, pool'.succ x =
      if x = (slots (queue book order.price)).getLastD nullIndex then i else s.orderPool.succ x)
    (hnewPrev : pool'.prev i = (slots (queue book order.price)).getLastD nullIndex)
    (hnewNext : pool'.succ i = nullIndex) : PoolLinks pool' (book ++ [⟨i, order⟩]) := by
  intro p
  have hmem : ∀ p, ∀ x ∈ slots (queue book p), x ∈ slots book := by
    intro p x hx
    exact ((queue_sublist book p).map Entry.slot).subset hx
  rw [queue_append, slots_append]
  by_cases hp : order.price = p
  · subst hp
    have hsingle : slots (queue [⟨i, order⟩] order.price) = [i] := by simp [queue]
    rw [hsingle]
    exact (h.links order.price).snoc (h.queue_nodup _) (fun x hx => hprev x (hmem _ x hx))
      (fun x hx => by rw [hnext x (hmem _ x hx)]) hnewPrev hnewNext
  · have hnone : slots (queue [⟨i, order⟩] p) = [] := by simp [queue, hp]
    rw [hnone, List.append_nil]
    refine (h.links p).congr (fun x hx => hprev x (hmem p x hx)) ?_
    intro x hx
    rw [hnext x (hmem p x hx), if_neg]
    intro hlast
    rcases getLastD_null_or_mem (slots (queue book order.price)) with ⟨hnull, -⟩ | hm
    · exact h.slot_ne_null (hmem p x hx) (hlast.trans hnull)
    · exact hp (h.price_of_slot (hlast ▸ hm) hx)

omit [StdHash Price] [StdHash ID] in
/-- The level the price map holds after an order joined the queue `q`. -/
theorem levelOf_append {q : List Entry} {e : Entry} :
    levelOf (q ++ [e]) = some ⟨if q = [] then e.slot else (slots q).headD nullIndex, e.slot,
      UInt64.ofNat (total q) + e.order.quantity.toUInt64⟩ := by
  rw [levelOf_of_ne (by simp), slots_append, slots_cons, slots_nil, getLastD_append_cons, total_append,
    UInt64.ofNat_add, total_cons, total_nil, Nat.add_zero, UInt64.ofNat_uInt32ToNat]
  cases q with
  | nil => simp
  | cons x q => simp

/-- Everything but levels and links follows from the slot and the id being fresh. -/
theorem Represents.appended (h : s.Represents book) {order : Order} {i : Nat} {s' : BookState}
    {orderMap : ClosedHashMap ID Nat orderMapBits}
    (hpos : order.quantity ≠ 0)
    (hside : ∀ e ∈ book, e.order.price = order.price → e.order.side = order.side)
    (hid : order.orderId ∉ ids book) (hi : i < maxConcurrentOrders) (hiNew : i ∉ slots book)
    (hlevels : s'.LevelsShow (book ++ [⟨i, order⟩]))
    (hlinks : PoolLinks s'.orderPool (book ++ [⟨i, order⟩]))
    (horders : ∀ x, (s'.orderPool.orders x).order =
      if x = i then order else (s.orderPool.orders x).order)
    (hfree : s'.orderPool.FreeExcept (i :: slots book))
    (hmap : s'.orderMap = orderMap) (hmapWf : orderMap.Wf)
    (hmapFind : ∀ id, orderMap.find id = if id = order.orderId then some i else s.orderMap.find id) :
    s'.Represents (book ++ [⟨i, order⟩]) := by
  have hmem : ∀ e : Entry, e ∈ book ++ [⟨i, order⟩] ↔ e ∈ book ∨ e = ⟨i, order⟩ := by simp
  constructor
  · exact hlevels
  · exact hlinks
  · intro e he
    rcases (hmem e).mp he with he | rfl
    · exact h.slots_lt e he
    · exact hi
  · rw [slots_append, slots_cons, slots_nil]
    refine List.Nodup.append h.slots_nodup (by simp) ?_
    simpa using hiNew
  · rw [ids_append, ids_cons, ids_nil]
    refine List.Nodup.append h.ids_nodup (by simp) ?_
    simpa using hid
  · intro e he
    rw [horders]
    rcases (hmem e).mp he with he | rfl
    · rw [if_neg, h.stored e he]
      intro heq
      exact hiNew (mem_slots.mpr ⟨e, he, heq⟩)
    · rw [if_pos rfl]
  · intro e he
    rcases (hmem e).mp he with he | rfl
    · exact h.positive e he
    · exact hpos
  · intro a ha b hb hprice
    rcases (hmem a).mp ha with ha | rfl <;> rcases (hmem b).mp hb with hb | rfl
    · exact h.unmixed a ha b hb hprice
    · exact hside a ha hprice
    · exact (hside b hb hprice.symm).symm
    · rfl
  · refine hfree.congr rfl rfl ?_
    intro x
    simp only [slots_append, slots_cons, slots_nil, List.mem_append, List.mem_cons, List.not_mem_nil,
      or_false]
    exact Or.comm
  · rw [hmap]; exact hmapWf
  · intro id j
    rw [hmap, hmapFind]
    by_cases heq : id = order.orderId
    · rw [if_pos heq, Option.some.injEq]
      constructor
      · rintro rfl
        exact ⟨_, (hmem _).mpr (Or.inr rfl), heq.symm, rfl⟩
      · rintro ⟨e, he, hidE, rfl⟩
        rcases (hmem e).mp he with he | rfl
        · exact absurd (mem_ids.mpr ⟨e, he, hidE.trans heq⟩) hid
        · rfl
    · rw [if_neg heq, h.orderMap_iff]
      constructor
      · rintro ⟨e, he, hidE, hslot⟩
        exact ⟨e, (hmem e).mpr (Or.inl he), hidE, hslot⟩
      · rintro ⟨e, he, hidE, hslot⟩
        rcases (hmem e).mp he with he | rfl
        · exact ⟨e, he, hidE, hslot⟩
        · exact absurd hidE.symm heq

/-- What `enqueue` leaves once `pool` and `orderMap` hold the order in slot `i`. -/
structure Enqueued (s : BookState) (book : List Entry) (pool : OrderPool maxConcurrentOrders)
    (orderMap : ClosedHashMap ID Nat orderMapBits) (order : Order) (i : Nat) (s' : BookState) : Prop where
  levels : s'.LevelsShow (book ++ [⟨i, order⟩])
  links : PoolLinks s'.orderPool (book ++ [⟨i, order⟩])
  orders : ∀ x, (s'.orderPool.orders x).order = if x = i then order else (s.orderPool.orders x).order
  freeStack : s'.orderPool.freeStack = pool.freeStack
  topIndex : s'.orderPool.topIndex = pool.topIndex
  orderMap : s'.orderMap = orderMap
  bbo : s'.bbo = s.bbo

/-- The first order of a price opens its level and enters the price set of its side. -/
theorem Represents.enqueue_opens (h : s.Represents book) {order : Order} {i : Nat}
    {pool : OrderPool maxConcurrentOrders} (orderMap : ClosedHashMap ID Nat orderMapBits)
    (hiNew : i ∉ slots book)
    (horders : pool.orders = Function.update s.orderPool.orders i ⟨order, nullIndex, nullIndex⟩)
    (hq : queue book order.price = []) (hroom : s.priceLevels.HasRoom) :
    ∃ s', { s with orderPool := pool, orderMap := orderMap }.enqueue order i = some s' ∧
      Enqueued s book pool orderMap order i s' := by
  have hne : ∀ x ∈ slots book, x ≠ i := fun x hx he => hiNew (he ▸ hx)
  have hfind : s.priceLevels.find order.price = none := by rw [h.levels.find, hq, levelOf_nil]
  obtain ⟨priceLevels, hadd, hwf, hfind'⟩ :=
    h.levels.wf.add_spec (⟨i, i, order.quantity.toUInt64⟩ : PriceLevel) hfind hroom
  have hshow : ∀ p, priceLevels.find p = levelOf (queue (book ++ [⟨i, order⟩]) p) := by
    intro p
    rw [hfind', queue_snoc]
    by_cases hp : p = order.price
    · rw [if_pos hp, if_pos hp, hp, hq, levelOf_append]
      simp
    · rw [if_neg hp, if_neg hp, h.levels.find]
  have hlinks : PoolLinks pool (book ++ [⟨i, order⟩]) := by
    apply h.links_appended
    · intro x hx; simp [OrderPool.prev, horders, hne x hx]
    · intro x hx
      simp only [OrderPool.succ, horders, Function.update_of_ne (hne x hx), hq, slots_nil]
      rw [if_neg]
      exact h.slot_ne_null hx
    · simp [OrderPool.prev, horders, hq]
    · simp [OrderPool.succ, horders]
  have hfields : ∀ x, (pool.orders x).order = if x = i then order else (s.orderPool.orders x).order := by
    intro x
    by_cases hx : x = i
    · simp [horders, hx]
    · simp [horders, hx]
  have hb := prices_append .buy book ⟨i, order⟩
  have ho := prices_append .sell book ⟨i, order⟩
  cases hs : order.side with
  | buy =>
    simp only [enqueue, hfind, hadd, Option.bind_eq_bind, Option.bind_some, addBidOrOffer, hs]
    refine ⟨_, rfl, ⟨hwf, hshow, ?_, ?_⟩, hlinks, hfields, rfl, rfl, rfl, rfl⟩
    · rw [hb, if_pos hs, h.levels.bids]
    · rw [ho, if_neg (by simp [hs]), h.levels.offers]
  | sell =>
    simp only [enqueue, hfind, hadd, Option.bind_eq_bind, Option.bind_some, addBidOrOffer, hs]
    refine ⟨_, rfl, ⟨hwf, hshow, ?_, ?_⟩, hlinks, hfields, rfl, rfl, rfl, rfl⟩
    · rw [hb, if_neg (by simp [hs]), h.levels.bids]
    · rw [ho, if_pos hs, h.levels.offers]

section

omit [StdHash Price] [StdHash ID]

/-- A level is unmixed, so an order behind another adds no price to either set. -/
theorem prices_snoc_of_queue_ne {order : Order} (i : Nat)
    (hside : ∀ e ∈ book, e.order.price = order.price → e.order.side = order.side)
    (hq : queue book order.price ≠ []) (side : Side) :
    prices side (book ++ [⟨i, order⟩]) = prices side book := by
  obtain ⟨e, he⟩ := List.exists_mem_of_ne_nil _ hq
  obtain ⟨heBook, hePrice⟩ := mem_queue.mp he
  rw [prices_append]
  split
  · next hs =>
    have heSide := (hside e heBook hePrice).trans hs
    exact Finset.insert_eq_self.mpr (mem_prices.mpr ⟨e, heBook, heSide, hePrice⟩)
  · rfl

/-- Linking slot `i` behind `tail` writes one link of each. -/
theorem linkedPool_orders {pool : OrderPool maxConcurrentOrders} {orders : Nat → RestingOrder}
    {order : Order} {i tail : Nat}
    (horders : pool.orders = Function.update orders i ⟨order, nullIndex, nullIndex⟩) (htail : tail ≠ i)
    (x : Nat) :
    (linkedPool pool tail i).orders x =
      if x = i then ⟨order, tail, nullIndex⟩
      else if x = tail then { orders tail with next := i } else orders x := by
  by_cases hx : x = i
  · subst hx
    simp [linkedPool, horders, Ne.symm htail]
  · by_cases hxt : x = tail
    · subst hxt
      simp [linkedPool, horders, htail]
    · simp [linkedPool, horders, hx, hxt]

end

/-- A later order of a price is linked behind the last one of its level. -/
theorem Represents.enqueue_appends (h : s.Represents book) {order : Order} {i : Nat}
    {pool : OrderPool maxConcurrentOrders} (orderMap : ClosedHashMap ID Nat orderMapBits)
    (hside : ∀ e ∈ book, e.order.price = order.price → e.order.side = order.side)
    (hi : i < maxConcurrentOrders) (hiNew : i ∉ slots book)
    (horders : pool.orders = Function.update s.orderPool.orders i ⟨order, nullIndex, nullIndex⟩)
    (hq : queue book order.price ≠ []) :
    ∃ s', { s with orderPool := pool, orderMap := orderMap }.enqueue order i = some s' ∧
      Enqueued s book pool orderMap order i s' := by
  have hne : ∀ x ∈ slots book, x ≠ i := fun x hx he => hiNew (he ▸ hx)
  let tail := (slots (queue book order.price)).getLastD nullIndex
  have htail : tail ∈ slots (queue book order.price) := by
    rcases getLastD_null_or_mem (slots (queue book order.price)) with ⟨-, hnil⟩ | hm
    · exact absurd (List.map_eq_nil_iff.mp hnil) hq
    · exact hm
  have htailBook := ((queue_sublist book order.price).map Entry.slot).subset htail
  have htailLt : tail < maxConcurrentOrders := by
    obtain ⟨e, he, hslot⟩ := mem_slots.mp htailBook
    rw [← hslot]
    exact h.slots_lt e he
  have hfind : s.priceLevels.find order.price =
      some (levelWith (queue book order.price) (total (queue book order.price))) := by
    rw [h.levels.find, levelOf_of_ne hq]
    rfl
  have hpresent : s.priceLevels.find order.price ≠ none := by rw [hfind]; simp
  obtain ⟨hwf, hfind'⟩ := h.levels.wf.set_spec
    (⟨(slots (queue book order.price)).headD nullIndex, i,
      UInt64.ofNat (total (queue book order.price)) + order.quantity.toUInt64⟩ : PriceLevel) hpresent
  have hpool := linkedPool_orders horders (hne tail htailBook)
  have henqueue : { s with orderPool := pool, orderMap := orderMap }.enqueue order i =
      some { s with
        orderPool := linkedPool pool tail i
        orderMap := orderMap
        priceLevels := s.priceLevels.set order.price
          ⟨(slots (queue book order.price)).headD nullIndex, i,
            UInt64.ofNat (total (queue book order.price)) + order.quantity.toUInt64⟩ } := by
    simp only [enqueue, hfind, levelWith]
    rw [OrderPool.modify_of_lt _ htailLt]
    simp only [Option.bind_eq_bind, Option.bind_some]
    rw [OrderPool.modify_of_lt _ hi]
    rfl
  refine ⟨_, henqueue, ⟨hwf, ?_, ?_, ?_⟩, ?_, ?_, rfl, rfl, rfl, rfl⟩
  · intro p
    simp only [hfind', queue_snoc]
    by_cases hp : p = order.price
    · rw [if_pos hp, if_pos hp, hp, levelOf_append, if_neg hq]
    · rw [if_neg hp, if_neg hp, h.levels.find]
  · rw [prices_snoc_of_queue_ne i hside hq]; exact h.levels.bids
  · rw [prices_snoc_of_queue_ne i hside hq]; exact h.levels.offers
  · apply h.links_appended
    · intro x hx
      simp only [OrderPool.prev, hpool, if_neg (hne x hx)]
      by_cases hxt : x = tail
      · rw [if_pos hxt, hxt]
      · rw [if_neg hxt]
    · intro x hx
      simp only [OrderPool.succ, hpool, if_neg (hne x hx)]
      by_cases hxt : x = tail
      · rw [if_pos hxt, if_pos hxt]
      · rw [if_neg hxt, if_neg hxt]
    · simp only [OrderPool.prev, hpool, ↓reduceIte, tail]
    · simp only [OrderPool.succ, hpool, ↓reduceIte]
  · intro x
    simp only [hpool]
    by_cases hx : x = i
    · rw [if_pos hx, if_pos hx]
    · rw [if_neg hx, if_neg hx]
      by_cases hxt : x = tail
      · rw [if_pos hxt, hxt]
      · rw [if_neg hxt]

/-- `enqueue` opens a level or appends to one. -/
theorem Represents.enqueue_spec (h : s.Represents book) {order : Order} {i : Nat}
    {pool : OrderPool maxConcurrentOrders} (orderMap : ClosedHashMap ID Nat orderMapBits)
    (hside : ∀ e ∈ book, e.order.price = order.price → e.order.side = order.side)
    (hi : i < maxConcurrentOrders) (hiNew : i ∉ slots book)
    (horders : pool.orders = Function.update s.orderPool.orders i ⟨order, nullIndex, nullIndex⟩)
    (hlevels : order.price ∈ levelPrices book ∨ s.priceLevels.HasRoom) :
    ∃ s', { s with orderPool := pool, orderMap := orderMap }.enqueue order i = some s' ∧
      Enqueued s book pool orderMap order i s' := by
  by_cases hq : queue book order.price = []
  · have hroom : s.priceLevels.HasRoom := hlevels.resolve_left (queue_eq_nil_iff.mp hq)
    exact h.enqueue_opens orderMap hiNew horders hq hroom
  · exact h.enqueue_appends orderMap hside hi hiNew horders hq

/-- `add` stores the order behind all others of its price, then adjusts the cache. -/
theorem Represents.add_spec (h : s.Represents book) (event : MarketEvent)
    (hid : event.order.orderId ∉ ids book) (hpos : event.order.quantity ≠ 0)
    (hside : ∀ e ∈ book, e.order.price = event.order.price → e.order.side = event.order.side)
    (hlen : book.length < maxConcurrentOrders)
    (hlevels : event.order.price ∈ levelPrices book ∨ s.priceLevels.HasRoom) :
    ∃ (mid : BookState) (i : Nat), mid.Represents (book ++ [⟨i, event.order⟩]) ∧ mid.bbo = s.bbo ∧
      s.add event = some (mid.updateBboAdd event.order) := by
  obtain ⟨i, pool, hpool, hi, hiNew, horders, hfree⟩ :=
    h.free.allocate_spec (by simpa [slots] using hlen) ⟨event.order, nullIndex, nullIndex⟩
  have habsent : s.orderMap.find event.order.orderId = none := by
    by_contra hne
    obtain ⟨j, hj⟩ := Option.ne_none_iff_exists'.mp hne
    obtain ⟨e, he, heq, -⟩ := (h.orderMap_iff _ _).mp hj
    exact hid (mem_ids.mpr ⟨e, he, heq⟩)
  have hroom : s.orderMap.HasRoom := by
    apply h.orderMap_wf.hasRoom (ids book).toFinset
    · intro id hne
      obtain ⟨j, hj⟩ := Option.ne_none_iff_exists'.mp hne
      obtain ⟨e, he, heq, -⟩ := (h.orderMap_iff _ _).mp hj
      exact List.mem_toFinset.mpr (mem_ids.mpr ⟨e, he, heq⟩)
    · have hcard := List.toFinset_card_le (ids book)
      simp only [ids, List.length_map, maxConcurrentOrders, ClosedHashMap.capacity, orderMapBits] at hcard hlen ⊢
      omega
  obtain ⟨orderMap, hmap, hmapWf, hmapFind⟩ := h.orderMap_wf.add_spec i habsent hroom
  obtain ⟨mid, henqueue, hmid⟩ := h.enqueue_spec orderMap hside hi hiNew horders hlevels
  refine ⟨mid, i, ?_, hmid.bbo, ?_⟩
  · exact h.appended hpos hside hid hi hiNew hmid.levels hmid.links hmid.orders
      (hfree.congr hmid.freeStack hmid.topIndex (fun _ => Iff.rfl)) hmid.orderMap hmapWf hmapFind
  · simp [add, hpool, hmap, henqueue]

end

end BookState

end HftPipeline
