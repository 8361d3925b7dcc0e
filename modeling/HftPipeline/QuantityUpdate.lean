import HftPipeline.Matching

/-!
# Updates of a quantity

`update_quantity` adjusts the cached best prices through the helper of the other
direction: a reduction is added to the cached quantity and an increase is taken
off it. The price set and the level are right all the same, so the cache stays
right exactly where its quantity does not matter: below the best price, for no
change at all, where adding and taking off agree modulo 2^32, and where the
increase equals the cached quantity and the cache is built anew.
-/
namespace HftPipeline

open RestingBook

/-- The total quantity that rests at a price. -/
def levelTotal (orders : List Order) (price : Price) : Nat :=
  ((orders.filter fun o => o.price = price).map (·.quantity.toNat)).sum

/-- The updates of `o` after which the cache still shows the best prices. -/
def UpdateKeepsBest (orders : List Order) (o : Order) (quantity : Quantity) : Prop :=
  quantity = 0 ∨ quantity = o.quantity ∨
    (∃ o' ∈ orders, o'.side = o.side ∧ o.side.Better o'.price o.price) ∨
    quantity - o.quantity = 2 ^ 31 ∨
    o.quantity < quantity ∧ levelTotal orders o.price % 2 ^ 32 = (quantity - o.quantity).toNat

instance (orders : List Order) (o : Order) (quantity : Quantity) :
    Decidable (UpdateKeepsBest orders o quantity) :=
  inferInstanceAs (Decidable (_ ∨ _ ∨ _ ∨ _ ∨ _ ∧ _))

/-- Every update of the run is one of these when its turn comes. -/
def UpdatesKeepBest (orders : List Order) : List MarketEvent → Prop
  | [] => True
  | event :: events =>
    (event.type = .update → ∀ o ∈ orders, o.orderId = event.order.orderId →
      UpdateKeepsBest orders o event.order.quantity) ∧
    UpdatesKeepBest (event.applyTo orders) events

theorem add_self_eq_zero_iff (delta : Quantity) : delta + delta = 0 ↔ delta = 0 ∨ delta = 2 ^ 31 := by
  rw [← UInt32.toNat_inj, ← UInt32.toNat_inj, ← UInt32.toNat_inj, UInt32.toNat_add]
  have hlt := delta.toNat_lt
  have hzero : (0 : UInt32).toNat = 0 := rfl
  have hhalf : (2 ^ 31 : UInt32).toNat = 2 ^ 31 := rfl
  omega

/-- The price that is best on a side is the one that no order of the side is better than. -/
theorem IsBest.price_ne_iff {book : List Entry} {e : Entry} {info : BestOrderInfo}
    (h : IsBest e.order.side book info) (he : e ∈ book) :
    e.order.price ≠ info.price ↔
      ∃ o ∈ orders book, o.side = e.order.side ∧ e.order.side.Better o.price e.order.price := by
  have hmem : e.order.price ∈ prices e.order.side book := mem_prices.mpr ⟨e, he, rfl, rfl⟩
  obtain ⟨hinfo, hmax, -⟩ := h.ne_empty (Finset.ne_empty_of_mem hmem)
  constructor
  · intro hne
    obtain ⟨e', he', hside, hprice⟩ := mem_prices.mp hinfo
    refine ⟨e'.order, mem_orders.mpr ⟨e', he', rfl⟩, hside, ?_⟩
    rw [hprice]
    rcases Side.better_trichotomy e.order.side e.order.price info.price with hb | heq | hb
    · exact absurd hb (hmax _ hmem)
    · exact absurd heq hne
    · exact hb
  · rintro ⟨o, ho, hside, hb⟩ heq
    obtain ⟨e', he', rfl⟩ := mem_orders.mp ho
    rw [heq] at hb
    exact hmax _ (mem_prices.mpr ⟨e', he', hside, rfl⟩) hb

/-- Where a quantity changes at the best price, only the cached quantity can be wrong. -/
theorem IsBest.resize_at {book : List Entry} {e : Entry} {info : BestOrderInfo}
    (h : IsBest e.order.side book info) (he : e ∈ book) (hp : e.order.price = info.price)
    (quantity cached : Quantity) :
    IsBest e.order.side (resize e.order.orderId quantity book) ⟨info.price, cached⟩ ↔
      cached = UInt32.ofNat (total (resize e.order.orderId quantity (queue book e.order.price))) := by
  have hne : prices e.order.side book ≠ ∅ := Finset.ne_empty_of_mem (mem_prices.mpr ⟨e, he, rfl, rfl⟩)
  obtain ⟨hinfo, hmax, -⟩ := h.ne_empty hne
  rw [IsBest, prices_resize, if_neg hne, queue_resize, hp]
  exact ⟨fun h => h.2.2, fun h => ⟨hinfo, hmax, h⟩⟩

/-- Away from it nothing of the cache is about the order that changes. -/
theorem IsBest.resize_away {book : List Entry} {e : Entry} {info : BestOrderInfo}
    (h : IsBest e.order.side book info) (hids : (ids book).Nodup) (he : e ∈ book)
    (hp : e.order.price ≠ info.price) (quantity : Quantity) :
    IsBest e.order.side (resize e.order.orderId quantity book) info := by
  have hmem : e.order.price ∈ prices e.order.side book := mem_prices.mpr ⟨e, he, rfl, rfl⟩
  obtain ⟨hinfo, hmax, hquantity⟩ := h.ne_empty (Finset.ne_empty_of_mem hmem)
  rw [IsBest, prices_resize, if_neg (Finset.ne_empty_of_mem hmem)]
  rw [queue_resize_of_ne hids he (Ne.symm hp)]
  exact ⟨hinfo, hmax, hquantity⟩

theorem ofNat_total_decrease {before after : Nat} {old new : Quantity} (hle : new ≤ old)
    (h : after + old.toNat = before + new.toNat) :
    UInt32.ofNat after = UInt32.ofNat before - (old - new) := by
  have hsub := UInt32.toNat_sub_of_le _ _ hle
  have hle' := UInt32.le_iff_toNat_le.mp hle
  have hsum : before = after + (old - new).toNat := by omega
  rw [hsum, UInt32.ofNat_add]
  simp

theorem ofNat_total_increase {before after : Nat} {old new : Quantity} (hle : old ≤ new)
    (h : after + old.toNat = before + new.toNat) :
    UInt32.ofNat after = UInt32.ofNat before + (new - old) := by
  have hsub := UInt32.toNat_sub_of_le _ _ hle
  have hle' := UInt32.le_iff_toNat_le.mp hle
  have hsum : after = before + (new - old).toNat := by omega
  rw [hsum, UInt32.ofNat_add]
  simp

/-- What is added where it should be taken off, or the reverse, is off by twice the change. -/
theorem add_eq_sub_iff (cached delta : Quantity) :
    cached + delta = cached - delta ↔ delta = 0 ∨ delta = 2 ^ 31 := by
  rw [← add_self_eq_zero_iff]
  constructor
  · intro h
    have hsub := congrArg (· + delta - cached) h
    simpa [add_assoc, add_sub_cancel_left] using hsub
  · intro h
    rw [eq_sub_iff_add_eq, add_assoc, h, add_zero]

theorem sub_eq_half_comm (a b : Quantity) : a - b = 2 ^ 31 ↔ b - a = 2 ^ 31 := by
  rw [← UInt32.toNat_inj, ← UInt32.toNat_inj, UInt32.toNat_sub, UInt32.toNat_sub]
  have ha := a.toNat_lt
  have hb := b.toNat_lt
  have hhalf : (2 ^ 31 : UInt32).toNat = 2 ^ 31 := rfl
  omega

theorem addBest_at {info : BestOrderInfo} (order : Order) (hp : order.price = info.price) :
    addBest info order = ⟨info.price, info.quantity + order.quantity⟩ := by
  have hnot : ¬ order.side.Better order.price info.price := by
    rw [hp]
    exact Side.better_irrefl _ _
  rw [addBest, if_neg hnot, if_pos hp]

theorem addBest_away {info : BestOrderInfo} (order : Order) (hnot : ¬ order.side.Better order.price info.price)
    (hp : order.price ≠ info.price) : addBest info order = info := by
  rw [addBest, if_neg hnot, if_neg hp]

/-- At the best price a reduction goes unnoticed for half the range of a quantity only. -/
theorem updateKeepsBest_down_iff {orders : List Order} {o : Order} {quantity : Quantity}
    (hbest : ¬ ∃ o' ∈ orders, o'.side = o.side ∧ o.side.Better o'.price o.price) (hzero : quantity ≠ 0)
    (hless : quantity < o.quantity) :
    UpdateKeepsBest orders o quantity ↔ o.quantity - quantity = 2 ^ 31 := by
  have hne : quantity ≠ o.quantity := fun heq => UInt32.lt_irrefl _ (heq ▸ hless)
  have hnot : ¬ o.quantity < quantity := fun hlt => UInt32.lt_asymm hlt hless
  rw [UpdateKeepsBest, sub_eq_half_comm]
  simp [hzero, hne, hbest, hnot]

/-- An increase may also take the whole of the cached quantity, so that the cache is built anew. -/
theorem updateKeepsBest_up_iff {orders : List Order} {o : Order} {quantity : Quantity}
    (hbest : ¬ ∃ o' ∈ orders, o'.side = o.side ∧ o.side.Better o'.price o.price) (hzero : quantity ≠ 0)
    (hne : quantity - o.quantity ≠ UInt32.ofNat (levelTotal orders o.price)) :
    UpdateKeepsBest orders o quantity ↔ quantity - o.quantity = 0 ∨ quantity - o.quantity = 2 ^ 31 := by
  have htotal : levelTotal orders o.price % 2 ^ 32 ≠ (quantity - o.quantity).toNat := by
    intro heq
    exact hne (UInt32.toNat_inj.mp (by rw [UInt32.toNat_ofNat', heq]))
  rw [UpdateKeepsBest, sub_eq_zero]
  simp only [hzero, hbest, htotal, and_false, or_false, false_or]

namespace BookState

variable [StdHash Price] [StdHash ID] {s s' : BookState} {book : List Entry}

/-- The other side does not notice the update of an order. -/
theorem Represents.resize_best_iff (h : s.Represents book) (hb : s.BestShown book) {e : Entry} (he : e ∈ book)
    {quantity : Quantity} {info : BestOrderInfo} (hbbo : s'.bbo = s.bbo.withBest info e.order.side) :
    s'.BestShown (resize e.order.orderId quantity book) ↔
      IsBest e.order.side (resize e.order.orderId quantity book) info := by
  have hinfo : s'.bbo.best e.order.side = info := by rw [hbbo, OrderSnapshot.best_withBest]
  constructor
  · intro hshown
    rw [← hinfo]
    exact hshown e.order.side
  · intro hbest
    refine bestShown_of_sides e.order.side (by rw [hinfo]; exact hbest) ?_
    rw [hbbo]
    refine opposite_isBest e.order.price (hb _) (prices_resize _ _) (h.price_not_opposite he) ?_
    intro p hp
    rw [queue_resize_of_ne h.ids_nodup he hp]

theorem Represents.total_resize_queue (h : s.Represents book) {e : Entry} (he : e ∈ book) (quantity : Quantity) :
    total (resize e.order.orderId quantity (queue book e.order.price)) + e.order.quantity.toNat =
      total (queue book e.order.price) + quantity.toNat :=
  total_resize (h.ids_nodup.sublist ((queue_sublist book _).map _)) (mem_queue.mpr ⟨he, rfl⟩) quantity

/-- A reduction, which `update_bbo_add` adds to the cache. -/
theorem Represents.update_down (h : s.Represents book) (hb : s.BestShown book) {e : Entry} (he : e ∈ book)
    {quantity : Quantity} (hzero : quantity ≠ 0) (hless : quantity < e.order.quantity) :
    ∃ s' u, s.changeQuantity e.slot (s.orderPool.orders e.slot)
        (· - (e.order.quantity - quantity).toUInt64) (e.order.quantity - quantity) quantity
        (fun s order => some (s.updateBboAdd order)) = some (s', u) ∧
      s'.Represents (resize e.order.orderId quantity book) ∧
      (s'.BestShown (resize e.order.orderId quantity book) ↔
        UpdateKeepsBest (orders book) e.order quantity) := by
  have hle := UInt32.le_of_lt hless
  have hsub := UInt32.toNat_sub_of_le _ _ hle
  have hlt := UInt32.lt_iff_toNat_lt.mp hless
  have htotal := h.total_decrease he (e.order.quantity - quantity) quantity (by omega)
  obtain ⟨mid, hmid, hbbo, hchange⟩ := h.changeQuantity_spec he
    (· - (e.order.quantity - quantity).toUInt64) (e.order.quantity - quantity) quantity
    (fun s order => some (s.updateBboAdd order)) hzero htotal
  obtain ⟨s', hs', hbbo', hrep⟩ := hchange _ _ (congrArg some (updateBboAdd_eq mid _))
  refine ⟨s', _, hs', hrep, ?_⟩
  rw [hbbo] at hbbo'
  have hbest := hb e.order.side
  have hmem : e.order.price ∈ prices e.order.side book := mem_prices.mpr ⟨e, he, rfl, rfl⟩
  obtain ⟨-, hmax, hquantity⟩ := hbest.ne_empty (Finset.ne_empty_of_mem hmem)
  have hworse := hbest.price_ne_iff he
  by_cases hp : e.order.price = (s.bbo.best e.order.side).price
  · have hdelta : e.order.quantity - quantity ≠ 0 := fun heq => by
      rw [sub_eq_zero.mp heq] at hless
      exact UInt32.lt_irrefl _ hless
    have hinfo := addBest_at (e.order.withQuantity (e.order.quantity - quantity)) hp
    rw [updateKeepsBest_down_iff (fun hc => hworse.mpr hc hp) hzero hless,
      h.resize_best_iff hb he (hbbo'.trans (congrArg (s.bbo.withBest · _) hinfo)),
      hbest.resize_at he hp, ofNat_total_decrease hle (h.total_resize_queue he quantity), hp, ← hquantity]
    exact (add_eq_sub_iff _ _).trans (or_iff_right hdelta)
  · have hinfo := addBest_away (e.order.withQuantity (e.order.quantity - quantity)) (hmax _ hmem) hp
    rw [h.resize_best_iff hb he (hbbo'.trans (congrArg (s.bbo.withBest · _) hinfo))]
    exact iff_of_true (hbest.resize_away h.ids_nodup he hp quantity) (Or.inr (Or.inr (Or.inl (hworse.mp hp))))

/-- An increase, which `update_bbo_reduce` takes off the cache. -/
theorem Represents.update_up (h : s.Represents book) (hb : s.BestShown book) {e : Entry} (he : e ∈ book)
    {quantity : Quantity} (hzero : quantity ≠ 0) (hle : e.order.quantity ≤ quantity) :
    ∃ s' u, s.changeQuantity e.slot (s.orderPool.orders e.slot)
        (· + (quantity - e.order.quantity).toUInt64) (quantity - e.order.quantity) quantity
        updateBboReduce = some (s', u) ∧
      s'.Represents (resize e.order.orderId quantity book) ∧
      (s'.BestShown (resize e.order.orderId quantity book) ↔
        UpdateKeepsBest (orders book) e.order quantity) := by
  have hsub := UInt32.toNat_sub_of_le _ _ hle
  have hle' := UInt32.le_iff_toNat_le.mp hle
  have htotal := h.total_increase he (quantity - e.order.quantity) quantity (by omega)
  obtain ⟨mid, hmid, hbbo, hchange⟩ := h.changeQuantity_spec he
    (· + (quantity - e.order.quantity).toUInt64) (quantity - e.order.quantity) quantity
    updateBboReduce hzero htotal
  have hbest := hb e.order.side
  have hmem : e.order.price ∈ prices e.order.side book := mem_prices.mpr ⟨e, he, rfl, rfl⟩
  obtain ⟨-, -, hquantity⟩ := hbest.ne_empty (Finset.ne_empty_of_mem hmem)
  have hworse := hbest.price_ne_iff he
  have hlevel : UInt32.ofNat (levelTotal (orders book) e.order.price) =
      UInt32.ofNat (total (queue book e.order.price)) := by
    rw [OrderBookEngine.total_queue, levelTotal]
  by_cases hp : e.order.price = (s.bbo.best e.order.side).price
  · have hp' := hp
    rw [← hbbo] at hp'
    by_cases hq : quantity - e.order.quantity = (s.bbo.best e.order.side).quantity
    · obtain ⟨info, hinfo, hfirst⟩ := hmid.firstOf_eq e.order.side
      obtain ⟨s', hs', hbbo', hrep⟩ := hchange _ _ (updateBboReduce_all
        (e.order.withQuantity (quantity - e.order.quantity)) hp' (by rw [hbbo]; exact hq) hfirst)
      rw [hbbo] at hbbo'
      refine ⟨s', _, hs', hrep, (h.resize_best_iff hb he hbbo').trans (iff_of_true hinfo ?_)⟩
      rw [hquantity, ← hp, ← hlevel] at hq
      by_cases hsame : quantity = e.order.quantity
      · exact Or.inr (Or.inl hsame)
      · refine Or.inr (Or.inr (Or.inr (Or.inr ⟨UInt32.lt_of_le_of_ne hle (Ne.symm hsame), ?_⟩)))
        rw [hq, UInt32.toNat_ofNat']
    · obtain ⟨s', hs', hbbo', hrep⟩ := hchange _ _ (updateBboReduce_part
        (e.order.withQuantity (quantity - e.order.quantity)) hp' (by rw [hbbo]; exact hq))
      rw [hbbo] at hbbo'
      refine ⟨s', _, hs', hrep, (h.resize_best_iff hb he hbbo').trans ?_⟩
      have hne := hq
      rw [hquantity, ← hp, ← hlevel] at hne
      rw [updateKeepsBest_up_iff (fun hc => hworse.mpr hc hp) hzero hne]
      refine (hbest.resize_at he hp quantity _).trans ?_
      rw [ofNat_total_increase hle (h.total_resize_queue he quantity), hp, ← hquantity, eq_comm]
      exact add_eq_sub_iff _ _
  · obtain ⟨s', hs', hbbo', hrep⟩ := hchange _ _ (updateBboReduce_away
      (e.order.withQuantity (quantity - e.order.quantity)) (by rw [hbbo]; exact hp))
    rw [hbbo] at hbbo'
    exact ⟨s', _, hs', hrep, (h.resize_best_iff hb he hbbo').trans (iff_of_true
      (hbest.resize_away h.ids_nodup he hp quantity) (Or.inr (Or.inr (Or.inl (hworse.mp hp)))))⟩

/-- The update of a resting order is carried out, and the cache is right after it exactly
if the update is one of these. -/
theorem Represents.update_best (h : s.Represents book) (hb : s.BestShown book) {event : MarketEvent} {e : Entry}
    (he : e ∈ book) (hid : event.order.orderId = e.order.orderId) :
    ∃ s' u book', s.update event = some (s', u) ∧ s'.Represents book' ∧
      orders book' = amend event.order.orderId (Order.resizeTo event.order.quantity) (orders book) ∧
      (s'.BestShown book' ↔ UpdateKeepsBest (orders book) e.order event.order.quantity) := by
  have heq := h.update_eq event he hid
  rw [hid]
  by_cases hzero : event.order.quantity = 0
  · rw [if_pos hzero] at heq
    obtain ⟨s', u, hs', hrep, hshown, -⟩ := h.purge_best hb he
    refine ⟨s', u, _, heq.trans hs', hrep, ?_, iff_of_true hshown (Or.inl hzero)⟩
    rw [orders_remove]
    exact amend_orders h.ids_nodup he (by rw [Order.resizeTo, if_pos hzero])
  · have horders : orders (resize e.order.orderId event.order.quantity book) =
        amend e.order.orderId (Order.resizeTo event.order.quantity) (orders book) := by
      rw [orders_resize]
      exact amend_orders h.ids_nodup he (by rw [Order.resizeTo, if_neg hzero])
    rw [if_neg hzero] at heq
    by_cases hless : event.order.quantity < e.order.quantity
    · rw [if_pos hless] at heq
      obtain ⟨s', u, hs', hrep, hshown⟩ := h.update_down hb he hzero hless
      exact ⟨s', u, _, heq.trans hs', hrep, horders, hshown⟩
    · rw [if_neg hless] at heq
      obtain ⟨s', u, hs', hrep, hshown⟩ := h.update_up hb he hzero (UInt32.not_lt.mp hless)
      exact ⟨s', u, _, heq.trans hs', hrep, horders, hshown⟩

theorem Represents.bestOpposingOrder_isSome (h : s.Represents book) (hb : s.BestShown book) (side : Side) :
    (s.bestOpposingOrder side).isSome := by
  by_cases hnone : (s.bbo.best side.opposite).price = side.opposite.noPrice
  · rw [bestOpposingOrder_sentinel s hnone]
    rfl
  · obtain ⟨best, -, hbest⟩ := h.bestOpposingOrder_eq hb hnone
    rw [hbest]
    rfl

/-- Along a run whose updates are of these the cache is always right. -/
theorem Represents.executeAll_best (h : s.Represents book) (hb : s.BestShown book) {events : List MarketEvent}
    (hrun : AdmissibleRun (orders book) events) (hkeep : UpdatesKeepBest (orders book) events) :
    ∃ s' book', s.executeAll events = some s' ∧ s'.Represents book' ∧
      orders book' = applyAll (orders book) events ∧ s'.BestShown book' := by
  induction events generalizing s book with
  | nil => exact ⟨s, book, rfl, h, rfl, hb⟩
  | cons event events ih =>
    obtain ⟨hadm, hrun⟩ := hrun
    obtain ⟨hkeeps, hkeep⟩ := hkeep
    obtain ⟨s₁, u, book₁, hs₁, hrep, horders, hshown⟩ : ∃ s₁ u book₁, s.execute event = some (s₁, u) ∧
        s₁.Represents book₁ ∧ orders book₁ = event.applyTo (orders book) ∧ s₁.BestShown book₁ := by
      by_cases hkind : event.type = .update
      · obtain ⟨order, type⟩ := event
        subst hkind
        obtain ⟨e, he, hid⟩ := mem_ids.mp (by rw [ids_eq]; exact hadm)
        obtain ⟨s₁, u, book₁, hs₁, hrep, horders, hiff⟩ := h.update_best hb he hid.symm
        exact ⟨s₁, u, book₁, hs₁, hrep, horders,
          hiff.mpr (hkeeps rfl e.order (mem_orders.mpr ⟨e, he, rfl⟩) hid)⟩
      · obtain ⟨s₁, u, book₁, hs₁, hrep, horders, hshown, -, -⟩ := h.execute_best hb hadm hkind
        exact ⟨s₁, u, book₁, hs₁, hrep, horders, hshown⟩
    rw [← horders] at hrun hkeep
    obtain ⟨s', book', hs', hrep', horders', hshown'⟩ := ih hrep hshown hrun hkeep
    refine ⟨s', book', ?_, hrep', ?_, hshown'⟩
    · rw [executeAll, List.foldlM_cons, hs₁]
      exact hs'
    · rw [horders', horders]
      rfl

/-- From a state whose cache is right, the update of a resting order leaves a state whose
cache is right exactly if it is one of these, whether it comes as an event or as a request;
and as long as all updates are, `best_opposing_order` finds a level. -/
theorem update_keeps_best_iff (h : s.Represents book) (hb : s.BestShown book) :
    (∀ e ∈ book, ∀ event : MarketEvent, event.type = .update → event.order.orderId = e.order.orderId →
      ∃ s' u book', s.execute event = some (s', u) ∧
        (∀ (fuel : Nat) (c : Clob) (request : OrderRequest) (token : StopToken), c.state = s →
          request.type = .update → request.orderId = event.order.orderId →
          request.quantity = event.order.quantity → token ≠ some 0 →
          c.submit fuel request token = some (.ok request.orderId,
            c.publish (Clob.updateEvent request.orderId request.quantity) s')) ∧
        s'.Represents book' ∧ orders book' = event.applyTo (orders book) ∧
        (s'.BestShown book' ↔ UpdateKeepsBest (orders book) e.order event.order.quantity)) ∧
    ∀ events, AdmissibleRun (orders book) events → UpdatesKeepBest (orders book) events →
      ∃ s' book', s.executeAll events = some s' ∧ s'.Represents book' ∧
        orders book' = applyAll (orders book) events ∧ s'.BestShown book' ∧
        ∀ side, (s'.bestOpposingOrder side).isSome := by
  constructor
  · rintro e he ⟨order, _⟩ rfl hid
    obtain ⟨s', u, book', hs', hrep, horders, hiff⟩ := h.update_best hb he hid
    refine ⟨s', u, book', hs', ?_, hrep, horders, hiff⟩
    rintro fuel c request token rfl htype hid' hquantity htoken
    have hexists : c.state.orderExists request.orderId = true := by
      rw [hid', hid, h.orderExists_iff]
      exact mem_ids.mpr ⟨e, he, rfl⟩
    have hgo : token.waitGetHeadRef.1 = true := by
      rcases StopToken.stopRequested_spec token with ⟨hgo, -⟩ | ⟨-, hstop⟩
      · rw [StopToken.waitGetHeadRef, hgo]
        rfl
      · exact absurd hstop htoken
    have hupdate : c.state.update (Clob.updateEvent request.orderId request.quantity) = some (s', u) := by
      rw [hid', hquantity]
      exact hs'
    simp [Clob.submit, htype, Clob.updateOrder, hexists, hgo, hupdate, Except.map]
  · intro events hrun hkeep
    obtain ⟨s', book', hs', hrep, horders, hshown⟩ := h.executeAll_best hb hrun hkeep
    exact ⟨s', book', hs', hrep, horders, hshown, hrep.bestOpposingOrder_isSome hshown⟩

end BookState

section

attribute [local instance] priceHash idHash

/-- Two levels of bids. -/
def twoBids : List MarketEvent := [⟨⟨1, 100, 10, .buy⟩, .add⟩, ⟨⟨2, 99, 5, .buy⟩, .add⟩]

/-- A reduction below the best price leaves the cache right and one at the best price does not. -/
theorem update_keeps_best_iff_twoBids :
    ∃ s book, (BookState.init : BookState).executeAll twoBids = some s ∧
      s.Represents book ∧ s.BestShown book ∧
      (∃ s' u book', s.execute ⟨⟨2, 0, 3, .buy⟩, .update⟩ = some (s', u) ∧ s'.Represents book' ∧
        orders book' = [⟨1, 100, 10, .buy⟩, ⟨2, 99, 3, .buy⟩] ∧ s'.BestShown book') ∧
      ∃ s' u book', s.execute ⟨⟨1, 0, 3, .buy⟩, .update⟩ = some (s', u) ∧ s'.Represents book' ∧
        orders book' = [⟨1, 100, 3, .buy⟩, ⟨2, 99, 5, .buy⟩] ∧ ¬ s'.BestShown book' := by
  obtain ⟨s, book, hs, hrep, horders, hshown⟩ := BookState.represents_init.executeAll_best
    BookState.bestShown_init (show AdmissibleRun [] twoBids by decide) ⟨by decide, by decide, trivial⟩
  have horders : orders book = [⟨1, 100, 10, .buy⟩, ⟨2, 99, 5, .buy⟩] := horders
  obtain ⟨hupdate, -⟩ := BookState.update_keeps_best_iff hrep hshown
  obtain ⟨e₁, he₁, hid₁⟩ := mem_orders.mp (show ⟨1, 100, 10, .buy⟩ ∈ orders book by simp [horders])
  obtain ⟨e₂, he₂, hid₂⟩ := mem_orders.mp (show ⟨2, 99, 5, .buy⟩ ∈ orders book by simp [horders])
  obtain ⟨s₁, u₁, book₁, hs₁, -, hrep₁, horders₁, hiff₁⟩ :=
    hupdate e₁ he₁ ⟨⟨1, 0, 3, .buy⟩, .update⟩ rfl (by rw [hid₁])
  obtain ⟨s₂, u₂, book₂, hs₂, -, hrep₂, horders₂, hiff₂⟩ :=
    hupdate e₂ he₂ ⟨⟨2, 0, 3, .buy⟩, .update⟩ rfl (by rw [hid₂])
  rw [horders] at horders₁ horders₂
  rw [horders, hid₁] at hiff₁
  rw [horders, hid₂] at hiff₂
  exact ⟨s, book, hs, hrep, hshown, ⟨s₂, u₂, book₂, hs₂, hrep₂, horders₂, hiff₂.mpr (by decide)⟩,
    s₁, u₁, book₁, hs₁, hrep₁, horders₁, fun h => absurd (hiff₁.mp h) (by decide)⟩

/-- A reduction from 10 to 4 of the only order makes the cache show 16, and when the order
has left the cached price has no level: `best_opposing_order` would dereference an empty `find`. -/
theorem reduction_grows_best :
    ∃ s book s' u book' s'' u', (BookState.init : BookState).executeAll [⟨⟨1, 100, 10, .buy⟩, .add⟩] = some s ∧
      s.Represents book ∧ s.BestShown book ∧ orders book = [⟨1, 100, 10, .buy⟩] ∧
      s.execute ⟨⟨1, 0, 4, .buy⟩, .update⟩ = some (s', u) ∧ s'.Represents book' ∧
      s'.bbo.bestBid = ⟨100, 16⟩ ∧ ¬ s'.BestShown book' ∧
      s'.execute ⟨⟨1, 0, 0, .buy⟩, .cancel⟩ = some (s'', u') ∧ s''.bestOpposingOrder .sell = none := by
  obtain ⟨s, book, hs, hrep, horders, hshown⟩ := BookState.represents_init.executeAll_best
    BookState.bestShown_init (show AdmissibleRun [] [⟨⟨1, 100, 10, .buy⟩, .add⟩] by decide) ⟨by decide, trivial⟩
  have horders : orders book = [⟨1, 100, 10, .buy⟩] := horders
  obtain ⟨e, he, hid⟩ := mem_orders.mp (show ⟨1, 100, 10, .buy⟩ ∈ orders book by simp [horders])
  obtain ⟨s', u, book', hs', hrep', horders', hiff⟩ := hrep.update_best hshown he
    (show (⟨⟨1, 0, 4, .buy⟩, .update⟩ : MarketEvent).order.orderId = e.order.orderId by rw [hid])
  rw [horders] at horders' hiff
  obtain ⟨s'', u', -, hs'', -⟩ := hrep'.execute_step
    (show MarketEvent.Admissible ⟨⟨1, 0, 0, .buy⟩, .cancel⟩ (orders book') by rw [horders']; decide)
  have hbid : ((BookState.init : BookState).executeAll
      [⟨⟨1, 100, 10, .buy⟩, .add⟩, ⟨⟨1, 0, 4, .buy⟩, .update⟩]).map (·.bbo.bestBid) = some ⟨100, 16⟩ := by
    decide +kernel
  have hnone : ((BookState.init : BookState).executeAll
      [⟨⟨1, 100, 10, .buy⟩, .add⟩, ⟨⟨1, 0, 4, .buy⟩, .update⟩, ⟨⟨1, 0, 0, .buy⟩, .cancel⟩]).map
      (·.bestOpposingOrder .sell) = some none := by
    decide +kernel
  have hs' : s.execute ⟨⟨1, 0, 4, .buy⟩, .update⟩ = some (s', u) := hs'
  have hrun' := BookState.executeAll_snoc hs hs'
  have hrun'' := BookState.executeAll_snoc hrun' hs''
  simp only [List.cons_append, List.nil_append] at hrun' hrun''
  rw [hrun'] at hbid
  rw [hrun''] at hnone
  simp only [Option.map_some, Option.some.injEq] at hbid hnone
  refine ⟨s, book, s', u, book', s'', u', hs, hrep, hshown, horders, hs', hrep', hbid, ?_, hs'', hnone⟩
  rw [hiff, hid]
  decide

end

end HftPipeline
