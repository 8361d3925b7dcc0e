import HftPipeline.BookRuns

/-!
# The cached best prices

The cache is adjusted from the order that came or went alone. It still always
shows the best level of each side: the price exactly, the 64-bit total of the
level cut to 32 bits. When a removal happens to equal the cached quantity the
cache is rebuilt from the price sets, which is right whether or not the level is
empty; when it does not, the level cannot be empty.
-/
namespace HftPipeline

open RestingBook

/-- A resting order of `side` at `p` goes before one at `q`. -/
def Side.Better : Side → Price → Price → Prop
  | .buy, p, q => q < p
  | .sell, p, q => p < q

instance (side : Side) (p q : Price) : Decidable (side.Better p q) :=
  match side with
  | .buy => inferInstanceAs (Decidable (q < p))
  | .sell => inferInstanceAs (Decidable (p < q))

/-- The price that stands for an empty side. -/
def Side.noPrice : Side → Price
  | .buy => noBid
  | .sell => noOffer

theorem Side.better_trichotomy (side : Side) (p q : Price) :
    side.Better p q ∨ p = q ∨ side.Better q p := by
  cases side with
  | buy => exact (lt_trichotomy p q).elim (fun h => Or.inr (Or.inr h)) fun h =>
      h.elim (fun h => Or.inr (Or.inl h)) Or.inl
  | sell => exact lt_trichotomy p q

theorem Side.better_irrefl (side : Side) (p : Price) : ¬ side.Better p p := by
  cases side <;> exact lt_irrefl p

theorem Side.better_trans {side : Side} {p q r : Price} (h : side.Better p q) (h' : side.Better q r) :
    side.Better p r := by
  cases side with
  | buy => exact lt_trans (show r < q from h') h
  | sell => exact lt_trans (show p < q from h) h'

/-- No price is worse than the one of an empty side. -/
theorem Side.not_noPrice_better (side : Side) (p : Price) : ¬ side.Better side.noPrice p := by
  cases side with
  | buy => exact not_lt.mpr (noBid_le p)
  | sell => exact not_lt.mpr (le_noOffer p)

def OrderSnapshot.best (bbo : OrderSnapshot) : Side → BestOrderInfo
  | .buy => bbo.bestBid
  | .sell => bbo.bestOffer

def OrderSnapshot.withBest (bbo : OrderSnapshot) (info : BestOrderInfo) : Side → OrderSnapshot
  | .buy => { bbo with bestBid := info }
  | .sell => { bbo with bestOffer := info }

/-- The update that names a side. -/
def BookUpdate.newBest : Side → BookUpdate
  | .buy => .newBestBid
  | .sell => .newBestOffer

@[simp] theorem OrderSnapshot.best_withBest (bbo : OrderSnapshot) (info : BestOrderInfo) (side : Side) :
    (bbo.withBest info side).best side = info := by
  cases side <;> rfl

@[simp] theorem OrderSnapshot.best_withBest_opposite (bbo : OrderSnapshot) (info : BestOrderInfo)
    (side : Side) : (bbo.withBest info side).best side.opposite = bbo.best side.opposite := by
  cases side <;> rfl

theorem Side.eq_or_eq_opposite (side side' : Side) : side' = side ∨ side' = side.opposite := by
  cases side <;> cases side' <;> simp [Side.opposite]

/-- `info` shows the best level of one side of the book. -/
def IsBest (side : Side) (book : List Entry) (info : BestOrderInfo) : Prop :=
  if prices side book = ∅ then info = ⟨side.noPrice, 0⟩
  else info.price ∈ prices side book ∧ (∀ p ∈ prices side book, ¬ side.Better p info.price) ∧
    info.quantity = UInt32.ofNat (total (queue book info.price))

theorem isBest_bestBid (book : List Entry) : IsBest .buy book (bestBid book) := by
  rw [IsBest, bestBid]
  split
  · rfl
  · next hne =>
    refine ⟨max_unbotD_mem hne noBid, ?_, rfl⟩
    intro p hp
    obtain ⟨m, hm⟩ := Finset.max_of_nonempty (Finset.nonempty_iff_ne_empty.mpr hne)
    simp only [hm, WithBot.unbotD_coe, Side.Better, not_lt]
    exact Finset.le_max_of_eq hp hm

theorem isBest_bestOffer (book : List Entry) : IsBest .sell book (bestOffer book) := by
  rw [IsBest, bestOffer]
  split
  · rfl
  · next hne =>
    refine ⟨min_untopD_mem hne noOffer, ?_, rfl⟩
    intro p hp
    obtain ⟨m, hm⟩ := Finset.min_of_nonempty (Finset.nonempty_iff_ne_empty.mpr hne)
    simp only [hm, WithTop.untopD_coe, Side.Better, not_lt]
    exact Finset.min_le_of_eq hp hm

/-- The best of a side does not see what happens at prices of the other side. -/
theorem IsBest.congr {side : Side} {book book' : List Entry} {info : BestOrderInfo}
    (h : IsBest side book info) (hprices : prices side book' = prices side book)
    (htotal : ∀ p ∈ prices side book, total (queue book' p) = total (queue book p)) :
    IsBest side book' info := by
  rw [IsBest] at h ⊢
  rw [hprices]
  split
  · next he => rwa [if_pos he] at h
  · next he =>
    rw [if_neg he] at h
    exact ⟨h.1, h.2.1, by rw [htotal _ h.1]; exact h.2.2⟩

/-- What the cache of a side becomes when an order joins that side. -/
def addBest (info : BestOrderInfo) (order : Order) : BestOrderInfo :=
  if order.side.Better order.price info.price then ⟨order.price, order.quantity⟩
  else if order.price = info.price then ⟨info.price, info.quantity + order.quantity⟩
  else info

section Add

variable {book : List Entry} {e : Entry} {info : BestOrderInfo}

theorem prices_snoc_self (book : List Entry) (e : Entry) :
    prices e.order.side (book ++ [e]) = insert e.order.price (prices e.order.side book) := by
  rw [prices_append, if_pos rfl]

/-- At a price that is new to its side an order is alone. -/
theorem queue_nil_of_not_mem (hmix : Unmixed (book ++ [e])) (hnot : e.order.price ∉ prices e.order.side book) :
    queue book e.order.price = [] := by
  by_contra hq
  obtain ⟨e', he'⟩ := List.exists_mem_of_ne_nil _ hq
  obtain ⟨hmem, hprice⟩ := mem_queue.mp he'
  exact hnot (mem_prices.mpr ⟨e', hmem, hmix e' (by simp [hmem]) e (by simp) hprice, hprice⟩)

theorem quantity_of_queue_nil (hq : queue book e.order.price = []) :
    e.order.quantity = UInt32.ofNat (total (queue (book ++ [e]) e.order.price)) := by
  rw [queue_snoc, hq, if_pos rfl]
  simp

/-- The first order of a side is its best. -/
theorem IsBest.add_first (h : IsBest e.order.side book info) (he : prices e.order.side book = ∅)
    (hmix : Unmixed (book ++ [e])) : IsBest e.order.side (book ++ [e]) (addBest info e.order) := by
  rw [IsBest, if_pos he] at h
  subst h
  rw [IsBest, prices_snoc_self, if_neg (Finset.insert_ne_empty _ _)]
  have hnew := quantity_of_queue_nil (queue_nil_of_not_mem hmix (by rw [he]; exact Finset.notMem_empty _))
  have hbest : ∀ p ∈ insert e.order.price (prices e.order.side book), ¬ e.order.side.Better p e.order.price := by
    intro p hp
    rw [he, Finset.mem_insert] at hp
    rcases hp with rfl | hp
    · exact Side.better_irrefl _ _
    · cases hp
  rw [addBest]
  split
  · exact ⟨Finset.mem_insert_self _ _, hbest, hnew⟩
  · next hnot =>
    -- only the price that stands for an empty side is not better than itself
    have hp : e.order.price = e.order.side.noPrice := by
      rcases Side.better_trichotomy e.order.side e.order.price e.order.side.noPrice with hb | he | hb
      · exact absurd hb hnot
      · exact he
      · exact absurd hb (Side.not_noPrice_better _ _)
    rw [if_pos hp, ← hp]
    refine ⟨Finset.mem_insert_self _ _, hbest, ?_⟩
    rw [← hnew]
    simp

theorem IsBest.add_behind (h : IsBest e.order.side book info) (he : prices e.order.side book ≠ ∅)
    (hmix : Unmixed (book ++ [e])) : IsBest e.order.side (book ++ [e]) (addBest info e.order) := by
  rw [IsBest, if_neg he] at h
  obtain ⟨hmem, hbest, hquantity⟩ := h
  rw [IsBest, prices_snoc_self, if_neg (Finset.insert_ne_empty _ _), addBest]
  split
  · next hb =>
    have hnot : e.order.price ∉ prices e.order.side book := fun hm => hbest _ hm hb
    refine ⟨Finset.mem_insert_self _ _, ?_, quantity_of_queue_nil (queue_nil_of_not_mem hmix hnot)⟩
    intro p hp
    rcases Finset.mem_insert.mp hp with rfl | hp
    · exact Side.better_irrefl _ _
    · exact fun hb' => hbest p hp (Side.better_trans hb' hb)
  · next hnot =>
    have hbest' : ∀ p ∈ insert e.order.price (prices e.order.side book), ¬ e.order.side.Better p info.price := by
      intro p hp
      rcases Finset.mem_insert.mp hp with rfl | hp
      · exact hnot
      · exact hbest p hp
    split
    · next hp =>
      refine ⟨Finset.mem_insert_of_mem hmem, hbest', ?_⟩
      simp only [queue_snoc, if_pos hp.symm, total_append, UInt32.ofNat_add, ← hquantity]
      simp
    · next hp =>
      refine ⟨Finset.mem_insert_of_mem hmem, hbest', ?_⟩
      rw [queue_snoc, if_neg (Ne.symm hp)]
      exact hquantity

theorem IsBest.add (h : IsBest e.order.side book info) (hmix : Unmixed (book ++ [e])) :
    IsBest e.order.side (book ++ [e]) (addBest info e.order) := by
  by_cases he : prices e.order.side book = ∅
  · exact h.add_first he hmix
  · exact h.add_behind he hmix

end Add

/-- What may happen at one price of a side when quantity leaves it. -/
structure Reduced (book book' : List Entry) (side : Side) (price : Price) (quantity : Quantity) : Prop where
  mem : price ∈ prices side book
  stays : queue book' price ≠ [] → price ∈ prices side book'
  subset : prices side book' ⊆ prices side book
  keeps : ∀ p ∈ prices side book, p ≠ price → p ∈ prices side book'
  others : ∀ p, p ≠ price → total (queue book' p) = total (queue book p)
  total : UInt32.ofNat (total (queue book' price)) = UInt32.ofNat (total (queue book price)) - quantity

theorem IsBest.ne_empty {side : Side} {book : List Entry} {info : BestOrderInfo} (h : IsBest side book info)
    (hne : prices side book ≠ ∅) :
    info.price ∈ prices side book ∧ (∀ p ∈ prices side book, ¬ side.Better p info.price) ∧
      info.quantity = UInt32.ofNat (total (queue book info.price)) := by
  rwa [IsBest, if_neg hne] at h

/-- A partial removal at the best price leaves the level there: its total is not zero modulo 2^32. -/
theorem IsBest.reduce_at {book book' : List Entry} {side : Side} {price : Price} {quantity : Quantity}
    {info : BestOrderInfo} (h : IsBest side book info) (hr : Reduced book book' side price quantity)
    (hp : price = info.price) (hq : quantity ≠ info.quantity) :
    IsBest side book' ⟨info.price, info.quantity - quantity⟩ := by
  obtain ⟨-, hbest, hquantity⟩ := h.ne_empty (Finset.ne_empty_of_mem hr.mem)
  have htotal := hr.total
  rw [hp, ← hquantity] at htotal
  have hne : queue book' price ≠ [] := by
    intro hnil
    rw [hp] at hnil
    rw [hnil, total_nil] at htotal
    exact hq (sub_eq_zero.mp htotal.symm).symm
  have hmem := hr.stays hne
  rw [IsBest, if_neg (Finset.ne_empty_of_mem hmem)]
  exact ⟨hp ▸ hmem, fun p hp => hbest p (hr.subset hp), htotal.symm⟩

/-- A removal away from the best price does not touch the cache. -/
theorem IsBest.reduce_away {book book' : List Entry} {side : Side} {price : Price} {quantity : Quantity}
    {info : BestOrderInfo} (h : IsBest side book info) (hr : Reduced book book' side price quantity)
    (hp : price ≠ info.price) : IsBest side book' info := by
  obtain ⟨hmem, hbest, hquantity⟩ := h.ne_empty (Finset.ne_empty_of_mem hr.mem)
  have hmem' := hr.keeps _ hmem (Ne.symm hp)
  rw [IsBest, if_neg (Finset.ne_empty_of_mem hmem')]
  refine ⟨hmem', fun p hp => hbest p (hr.subset hp), ?_⟩
  rw [hr.others _ (Ne.symm hp)]
  exact hquantity

/-- A rebuilt cache differs from one whose quantity has just been removed. -/
theorem IsBest.reduce_ne {book book' : List Entry} {side : Side} {price : Price} {quantity : Quantity}
    {info info' : BestOrderInfo} (h : IsBest side book info) (h' : IsBest side book' info')
    (hr : Reduced book book' side price quantity) (hp : price = info.price)
    (hq : quantity = info.quantity) (hpos : quantity ≠ 0) : info' ≠ info := by
  rintro rfl
  obtain ⟨-, -, hquantity⟩ := h.ne_empty (Finset.ne_empty_of_mem hr.mem)
  by_cases hne : prices side book' = ∅
  · rw [IsBest, if_pos hne] at h'
    exact hpos (by rw [hq, h'])
  · obtain ⟨-, -, hquantity'⟩ := h'.ne_empty hne
    have htotal := hr.total
    rw [hp, ← hquantity', ← hquantity, hq, sub_self] at htotal
    exact hpos (hq.trans htotal)

/-- An order that leaves takes its quantity off its own level. -/
theorem reduced_remove {book : List Entry} (hids : (ids book).Nodup) (hmix : Unmixed book) {e : Entry}
    (he : e ∈ book) :
    Reduced book (remove e.order.orderId book) e.order.side e.order.price e.order.quantity := by
  have hprices := prices_remove hids hmix he e.order.side
  have hmem : e.order.price ∈ prices e.order.side book := mem_prices.mpr ⟨e, he, rfl, rfl⟩
  refine ⟨hmem, ?_, ?_, ?_, ?_, ?_⟩
  · intro hne
    rw [hprices, if_neg (fun h => hne h.2)]
    exact hmem
  · rw [hprices]
    split
    · exact Finset.erase_subset _ _
    · exact Finset.Subset.refl _
  · intro p hp hne
    rw [hprices]
    split
    · exact Finset.mem_erase.mpr ⟨hne, hp⟩
    · exact hp
  · intro p hp
    rw [queue_eq_of_price_ne hids he hp]
  · obtain ⟨front, back, hq⟩ := exists_split he
    have hsum : total (queue book e.order.price) = total (front ++ back) + e.order.quantity.toNat := by
      simp only [hq, total_append, total_cons]
      omega
    rw [queue_remove_split hids hq, hsum, UInt32.ofNat_add]
    simp

/-- Another quantity for an order is not seen at the prices of others. -/
theorem queue_resize_of_ne {book : List Entry} (hids : (ids book).Nodup) {e : Entry} (he : e ∈ book)
    {p : Price} (hp : p ≠ e.order.price) (quantity : Quantity) :
    queue (resize e.order.orderId quantity book) p = queue book p := by
  rw [queue_resize, resize_of_not_mem]
  intro hm
  obtain ⟨e', he', hid⟩ := mem_ids.mp hm
  obtain ⟨hmem', hprice⟩ := mem_queue.mp he'
  rw [eq_of_id hids hmem' he hid] at hprice
  exact hp hprice.symm

/-- So does an order that shrinks. -/
theorem reduced_resize {book : List Entry} (hids : (ids book).Nodup) {e : Entry} (he : e ∈ book)
    {delta quantity : Quantity} (hsum : delta.toNat + quantity.toNat = e.order.quantity.toNat) :
    Reduced book (resize e.order.orderId quantity book) e.order.side e.order.price delta := by
  have hmem : e.order.price ∈ prices e.order.side book := mem_prices.mpr ⟨e, he, rfl, rfl⟩
  refine ⟨hmem, ?_, ?_, ?_, ?_, ?_⟩
  · intro _
    rw [prices_resize]
    exact hmem
  · rw [prices_resize]
  · intro p hp _
    rw [prices_resize]
    exact hp
  · intro p hp
    rw [queue_resize_of_ne hids he hp]
  · have hresize := total_resize (hids.sublist ((queue_sublist book _).map _))
      (mem_queue.mpr ⟨he, rfl⟩) quantity
    have hsum' : total (queue book e.order.price) =
        total (resize e.order.orderId quantity (queue book e.order.price)) + delta.toNat := by omega
    rw [queue_resize, hsum', UInt32.ofNat_add]
    simp

namespace BookState

variable [StdHash Price] [StdHash ID] {s : BookState} {book book' : List Entry}

/-- The cache shows the best level of both sides. -/
def BestShown (s : BookState) (book : List Entry) : Prop := ∀ side, IsBest side book (s.bbo.best side)

/-- The update returned by a step names the side of the cache that it changed. -/
def Named (bbo bbo' : OrderSnapshot) (u : BookUpdate) : Prop :=
  (u = .noChange ∧ bbo' = bbo) ∨
    ∃ side, u = .newBest side ∧ bbo'.best side ≠ bbo.best side ∧
      bbo'.best side.opposite = bbo.best side.opposite

section

omit [StdHash Price] [StdHash ID]

theorem bestShown_init : (init : BookState).BestShown [] := by
  intro side
  cases side <;> rfl

theorem updateBboAdd_eq (s : BookState) (order : Order) :
    s.updateBboAdd order =
      ({ s with bbo := s.bbo.withBest (addBest (s.bbo.best order.side) order) order.side },
        if order.side.Better order.price (s.bbo.best order.side).price ∨
            order.price = (s.bbo.best order.side).price then .newBest order.side
        else .noChange) := by
  cases hside : order.side with
  | buy =>
    simp only [updateBboAdd, hside, updateBestBidAdd, addBest, Side.Better, OrderSnapshot.best,
      OrderSnapshot.withBest, BookUpdate.newBest, setBestBid]
    split
    · next h => simp [h]
    · next h =>
      split
      · next h' => simp [h']
      · next h' => simp [h, h']
  | sell =>
    simp only [updateBboAdd, hside, updateBestOfferAdd, addBest, Side.Better, OrderSnapshot.best,
      OrderSnapshot.withBest, BookUpdate.newBest, setBestOffer]
    split
    · next h => simp [h]
    · next h =>
      split
      · next h' => simp [h']
      · next h' => simp [h, h']

end

/-- The best level recomputed from the price sets. -/
def firstOf (s : BookState) : Side → Option BestOrderInfo
  | .buy => s.firstBid
  | .sell => s.firstOffer

omit [StdHash ID] in
theorem LevelsShow.firstOf_eq (h : s.LevelsShow book) (side : Side) :
    ∃ info, IsBest side book info ∧ s.firstOf side = some info := by
  cases side with
  | buy => exact ⟨_, isBest_bestBid book, h.firstBid_eq⟩
  | sell => exact ⟨_, isBest_bestOffer book, h.firstOffer_eq⟩

omit [StdHash ID] in
theorem updateBboReduce_eq (s : BookState) (order : Order) :
    s.updateBboReduce order =
      if order.price = (s.bbo.best order.side).price ∧ order.quantity = (s.bbo.best order.side).quantity then
        (s.firstOf order.side).map fun info =>
          ({ s with bbo := s.bbo.withBest info order.side }, .newBest order.side)
      else if order.price = (s.bbo.best order.side).price then
        some ({ s with bbo := s.bbo.withBest ⟨(s.bbo.best order.side).price,
          (s.bbo.best order.side).quantity - order.quantity⟩ order.side }, .newBest order.side)
      else some (s, .noChange) := by
  cases hside : order.side <;>
    simp only [updateBboReduce, hside, updateBestBidReduce, updateBestOfferReduce, OrderSnapshot.best,
      OrderSnapshot.withBest, BookUpdate.newBest, setBestBid, setBestOffer, firstOf] <;>
    congr

omit [StdHash Price] [StdHash ID] in
@[simp] theorem withBest_best (bbo : OrderSnapshot) (side : Side) : bbo.withBest (bbo.best side) side = bbo := by
  cases side <;> rfl

section

omit [StdHash ID]

/-- Taking all of the cached quantity off builds the cache anew. -/
theorem updateBboReduce_all {s : BookState} (order : Order) {info : BestOrderInfo}
    (hp : order.price = (s.bbo.best order.side).price)
    (hq : order.quantity = (s.bbo.best order.side).quantity) (hfirst : s.firstOf order.side = some info) :
    s.updateBboReduce order =
      some ({ s with bbo := s.bbo.withBest info order.side }, .newBest order.side) := by
  rw [updateBboReduce_eq, if_pos ⟨hp, hq⟩, hfirst]
  rfl

theorem updateBboReduce_part {s : BookState} (order : Order)
    (hp : order.price = (s.bbo.best order.side).price)
    (hq : order.quantity ≠ (s.bbo.best order.side).quantity) :
    s.updateBboReduce order =
      some ({ s with bbo := s.bbo.withBest ⟨(s.bbo.best order.side).price,
        (s.bbo.best order.side).quantity - order.quantity⟩ order.side }, .newBest order.side) := by
  rw [updateBboReduce_eq, if_neg (fun h => hq h.2), if_pos hp]

theorem updateBboReduce_away {s : BookState} (order : Order)
    (hp : order.price ≠ (s.bbo.best order.side).price) :
    s.updateBboReduce order =
      some ({ s with bbo := s.bbo.withBest (s.bbo.best order.side) order.side }, .noChange) := by
  rw [updateBboReduce_eq, if_neg (fun h => hp h.1), if_neg hp, withBest_best]

end

omit [StdHash ID] in
/-- Reducing the cache in a state whose levels already show the smaller book. -/
theorem LevelsShow.updateBboReduce_spec (h : s.LevelsShow book') (order : Order)
    (hbest : IsBest order.side book (s.bbo.best order.side))
    (hr : Reduced book book' order.side order.price order.quantity) (hpos : order.quantity ≠ 0) :
    ∃ info u, s.updateBboReduce order = some ({ s with bbo := s.bbo.withBest info order.side }, u) ∧
      IsBest order.side book' info ∧
      (u = .noChange ∧ info = s.bbo.best order.side ∨
        u = .newBest order.side ∧ info ≠ s.bbo.best order.side) := by
  by_cases hp : order.price = (s.bbo.best order.side).price
  · by_cases hq : order.quantity = (s.bbo.best order.side).quantity
    · obtain ⟨info, hinfo, hfirst⟩ := h.firstOf_eq order.side
      exact ⟨info, _, updateBboReduce_all _ hp hq hfirst, hinfo,
        Or.inr ⟨rfl, hbest.reduce_ne hinfo hr hp hq hpos⟩⟩
    · refine ⟨_, _, updateBboReduce_part _ hp hq, hbest.reduce_at hr hp hq, Or.inr ⟨rfl, ?_⟩⟩
      intro heq
      exact hpos (sub_eq_self.mp (congrArg BestOrderInfo.quantity heq))
  · exact ⟨_, _, updateBboReduce_away _ hp, hbest.reduce_away hr hp, Or.inl ⟨rfl, rfl⟩⟩

section

omit [StdHash Price] [StdHash ID]

/-- The other side of the book does not notice what happens at a price it does not have. -/
theorem opposite_isBest {side : Side} (price : Price) {bbo : OrderSnapshot} {info : BestOrderInfo}
    (hbest : IsBest side.opposite book (bbo.best side.opposite))
    (hprices : prices side.opposite book' = prices side.opposite book)
    (hnot : price ∉ prices side.opposite book)
    (hothers : ∀ p, p ≠ price → total (queue book' p) = total (queue book p)) :
    IsBest side.opposite book' ((bbo.withBest info side).best side.opposite) := by
  rw [OrderSnapshot.best_withBest_opposite]
  refine hbest.congr hprices fun p hp => hothers p ?_
  rintro rfl
  exact hnot hp

theorem bestShown_of_sides (side : Side) {bbo : OrderSnapshot}
    (h : IsBest side book' (bbo.best side)) (h' : IsBest side.opposite book' (bbo.best side.opposite)) :
    ∀ side', IsBest side' book' (bbo.best side') := by
  intro side'
  rcases Side.eq_or_eq_opposite side side' with rfl | rfl
  · exact h
  · exact h'

theorem named_withBest {bbo : OrderSnapshot} {info : BestOrderInfo} {side : Side} {u : BookUpdate}
    (h : u = .noChange ∧ info = bbo.best side ∨ u = .newBest side ∧ info ≠ bbo.best side) :
    Named bbo (bbo.withBest info side) u := by
  rcases h with ⟨hu, hinfo⟩ | ⟨hu, hinfo⟩
  · refine Or.inl ⟨hu, ?_⟩
    rw [hinfo]
    cases side <;> rfl
  · exact Or.inr ⟨side, hu, by simpa using hinfo, by simp⟩

theorem Side.ne_opposite (side : Side) : side ≠ side.opposite := by
  cases side <;> simp [Side.opposite]

end

theorem Represents.price_not_opposite (h : s.Represents book) {e : Entry} (he : e ∈ book) :
    e.order.price ∉ prices e.order.side.opposite book := by
  intro hm
  obtain ⟨e', he', hside, hprice⟩ := mem_prices.mp hm
  exact Side.ne_opposite e.order.side ((h.unmixed e he e' he' hprice.symm).trans hside)

/-! ## One event -/

/-- An order leaves the book, by a cancel or by a trade of all that is left of it. -/
theorem Represents.purge_best (h : s.Represents book) (hb : s.BestShown book) {e : Entry} (he : e ∈ book) :
    ∃ s' u, s.purgeOrderAt e.slot (s.orderPool.orders e.slot) = some (s', u) ∧
      s'.Represents (remove e.order.orderId book) ∧ s'.BestShown (remove e.order.orderId book) ∧
      Named s.bbo s'.bbo u := by
  obtain ⟨mid, hmid, hbbo, hpurge⟩ := h.purgeOrderAt_spec he
  have hr := reduced_remove h.ids_nodup h.unmixed he
  obtain ⟨info, u, hu, hinfo, hnamed⟩ :=
    hmid.updateBboReduce_spec e.order (by rw [hbbo]; exact hb e.order.side) hr (h.positive e he)
  obtain ⟨s', hs', hbbo', hrep⟩ := hpurge _ u hu
  rw [hbbo] at hbbo' hnamed
  refine ⟨s', u, hs', hrep, ?_, by rw [hbbo']; exact named_withBest hnamed⟩
  rw [BestShown, hbbo']
  refine bestShown_of_sides e.order.side (by simpa using hinfo) ?_
  refine opposite_isBest e.order.price (hb _) ?_ (h.price_not_opposite he) hr.others
  rw [prices_remove h.ids_nodup h.unmixed he, if_neg fun hc => Side.ne_opposite _ hc.1]

/-- An order shrinks by a trade of a part of it. -/
theorem Represents.shrink_best (h : s.Represents book) (hb : s.BestShown book) {e : Entry} (he : e ∈ book)
    {delta : Quantity} (hpos : delta ≠ 0) (hlt : delta < e.order.quantity) :
    ∃ s' u, s.changeQuantity e.slot (s.orderPool.orders e.slot) (· - delta.toUInt64) delta
        (e.order.quantity - delta) updateBboReduce = some (s', u) ∧
      s'.Represents (resize e.order.orderId (e.order.quantity - delta) book) ∧
      s'.BestShown (resize e.order.orderId (e.order.quantity - delta) book) ∧ Named s.bbo s'.bbo u := by
  have hsub := UInt32.toNat_sub_of_le _ _ (UInt32.le_of_lt hlt)
  have hlt' := UInt32.lt_iff_toNat_lt.mp hlt
  have htotal := h.total_decrease he delta (e.order.quantity - delta) (by omega)
  obtain ⟨mid, hmid, hbbo, hchange⟩ := h.changeQuantity_spec he (· - delta.toUInt64) delta
    (e.order.quantity - delta) updateBboReduce (ne_zero_of_toNat (by omega)) htotal
  have hr := reduced_resize h.ids_nodup he (show delta.toNat + (e.order.quantity - delta).toNat = _ by omega)
  obtain ⟨info, u, hu, hinfo, hnamed⟩ :=
    hmid.updateBboReduce_spec (e.order.withQuantity delta)
      (by rw [hbbo]; exact hb e.order.side) hr hpos
  obtain ⟨s', hs', hbbo', hrep⟩ := hchange _ u hu
  rw [hbbo] at hbbo' hnamed
  refine ⟨s', u, hs', hrep, ?_, by rw [hbbo']; exact named_withBest hnamed⟩
  rw [BestShown, hbbo']
  refine bestShown_of_sides e.order.side (by simpa [Order.withQuantity] using hinfo) ?_
  exact opposite_isBest e.order.price (hb _) (prices_resize _ _) (h.price_not_opposite he) hr.others

/-- An order joins the book. -/
theorem Represents.add_best (h : s.Represents book) (hb : s.BestShown book) (event : MarketEvent)
    (hid : event.order.orderId ∉ ids book) (hpos : event.order.quantity ≠ 0)
    (hside : ∀ e ∈ book, e.order.price = event.order.price → e.order.side = event.order.side)
    (hlen : book.length < maxConcurrentOrders)
    (hlevels : event.order.price ∈ levelPrices book ∨ s.priceLevels.HasRoom) :
    ∃ s' u i, s.add event = some (s', u) ∧ s'.Represents (book ++ [⟨i, event.order⟩]) ∧
      s'.BestShown (book ++ [⟨i, event.order⟩]) ∧ Named s.bbo s'.bbo u ∧
      (book = [] → u = .newBest event.order.side) := by
  obtain ⟨mid, i, hmid, hbbo, hadd⟩ := h.add_spec event hid hpos hside hlen hlevels
  rw [updateBboAdd_eq] at hadd
  have hmem : (⟨i, event.order⟩ : Entry) ∈ book ++ [⟨i, event.order⟩] := by simp
  refine ⟨_, _, i, hadd, hmid.withBbo _, ?_, ?_, ?_⟩
  · rw [hbbo]
    refine bestShown_of_sides event.order.side ?_ ?_
    · rw [OrderSnapshot.best_withBest]
      exact (hb event.order.side).add (e := ⟨i, event.order⟩) hmid.unmixed
    · have hprices := prices_append event.order.side.opposite book ⟨i, event.order⟩
      rw [if_neg (Side.ne_opposite _)] at hprices
      refine opposite_isBest event.order.price (hb _) hprices ?_ ?_
      · rw [← hprices]
        exact hmid.price_not_opposite hmem
      · intro p hp
        simp [queue, Ne.symm hp]
  · rw [hbbo]
    apply named_withBest
    rw [addBest]
    by_cases hbetter : event.order.side.Better event.order.price (s.bbo.best event.order.side).price
    · rw [if_pos hbetter, if_pos (Or.inl hbetter)]
      refine Or.inr ⟨rfl, ?_⟩
      intro heq
      rw [← heq] at hbetter
      exact Side.better_irrefl _ _ hbetter
    · rw [if_neg hbetter]
      by_cases hp : event.order.price = (s.bbo.best event.order.side).price
      · rw [if_pos hp, if_pos (Or.inr hp)]
        refine Or.inr ⟨rfl, ?_⟩
        intro heq
        exact hpos (add_eq_left.mp (congrArg BestOrderInfo.quantity heq))
      · rw [if_neg hp, if_neg (fun hc => hc.elim hbetter hp)]
        exact Or.inl ⟨rfl, rfl⟩
  · rintro rfl
    have hempty := hb event.order.side
    rw [IsBest, if_pos (show prices event.order.side [] = ∅ from rfl)] at hempty
    rw [hbbo, hempty]
    rcases Side.better_trichotomy event.order.side event.order.price event.order.side.noPrice with hc | hc | hc
    · exact if_pos (Or.inl hc)
    · exact if_pos (Or.inr hc)
    · exact absurd hc (Side.not_noPrice_better _ _)

/-- One admissible event that is not an update keeps the cache right and reports it truly. -/
theorem Represents.execute_best (h : s.Represents book) (hb : s.BestShown book) {event : MarketEvent}
    (hadm : event.Admissible (orders book)) (hkind : event.type ≠ .update) :
    ∃ s' u book', s.execute event = some (s', u) ∧ s'.Represents book' ∧
      orders book' = event.applyTo (orders book) ∧ s'.BestShown book' ∧ Named s.bbo s'.bbo u ∧
      (book = [] → u ≠ .noChange) := by
  obtain ⟨order, type⟩ := event
  cases type with
  | add =>
    obtain ⟨hfresh, hpos, hside, hlen, hlevels⟩ := hadm
    obtain ⟨s', u, i, hs', hrep, hbest, hnamed, hfirst⟩ := h.add_best hb ⟨order, .add⟩
      (by rw [ids_eq]; exact hfresh) (UInt32.pos_iff_ne_zero.mp hpos)
      (fun e he => hside e.order (mem_orders.mpr ⟨e, he, rfl⟩))
      (by simpa [orders, maxConcurrentOrders] using hlen) ((room_of_insert hlevels).imp_right h.levels.hasRoom)
    refine ⟨s', u, _, hs', hrep, orders_append book _, hbest, hnamed, ?_⟩
    intro hnil
    rw [hfirst hnil]
    cases order.side <;> simp [BookUpdate.newBest]
  | cancel =>
    obtain ⟨e, he, hid⟩ := mem_ids.mp (by rw [ids_eq]; exact hadm)
    obtain ⟨s', u, hs', hrep, hbest, hnamed⟩ := h.purge_best hb he
    refine ⟨s', u, _, (h.cancel_eq ⟨order, .cancel⟩ he hid.symm).trans hs', hrep, ?_, hbest, hnamed,
      fun hnil => absurd he (by simp [hnil])⟩
    rw [orders_remove, hid]
    rfl
  | trade =>
    obtain ⟨o, ho, hid, hpos, hle⟩ := hadm
    obtain ⟨e, he, rfl⟩ := mem_orders.mp ho
    have heq := h.trade_eq ⟨order, .trade⟩ he hid.symm
    simp only at heq hid hle hpos
    simp only [MarketEvent.applyTo, ← hid]
    by_cases hall : e.order.quantity = order.quantity
    · rw [if_pos hall] at heq
      obtain ⟨s', u, hs', hrep, hbest, hnamed⟩ := h.purge_best hb he
      refine ⟨s', u, _, heq.trans hs', hrep, ?_, hbest, hnamed, fun hnil => absurd he (by simp [hnil])⟩
      rw [orders_remove]
      exact amend_orders h.ids_nodup he (by rw [Order.reduceBy, if_pos hall])
    · rw [if_neg hall] at heq
      have hlt : order.quantity < e.order.quantity :=
        UInt32.lt_of_le_of_ne hle (Ne.symm hall)
      obtain ⟨s', u, hs', hrep, hbest, hnamed⟩ := h.shrink_best hb he (UInt32.pos_iff_ne_zero.mp hpos) hlt
      refine ⟨s', u, _, heq.trans hs', hrep, ?_, hbest, hnamed, fun hnil => absurd he (by simp [hnil])⟩
      rw [orders_resize]
      exact amend_orders h.ids_nodup he (by rw [Order.reduceBy, if_neg hall])
  | update => exact absurd rfl hkind

end BookState

/-! ## The engine that publishes the best prices -/

/-- `OrderBookEngine`: its book, and what it last wrote to `public_bbo_`. -/
structure OrderBookEngine where
  state : BookState
  publicBbo : Option OrderSnapshot

namespace OrderBookEngine

variable [StdHash Price] [StdHash ID]

def init : OrderBookEngine := ⟨.init, none⟩

/-- The body of the loop of `start`. -/
def consume (engine : OrderBookEngine) (event : MarketEvent) : Option OrderBookEngine :=
  (engine.state.execute event).map fun (state, status) =>
    if status = .newBestBid ∨ status = .newBestOffer then ⟨state, some state.snapshot⟩
    else ⟨state, engine.publicBbo⟩

def start (engine : OrderBookEngine) (events : List MarketEvent) : Option OrderBookEngine :=
  events.foldlM consume engine

/-- What holds of the engine after every admissible event. -/
structure Tracks (engine : OrderBookEngine) (book : List Entry) : Prop where
  represents : engine.state.Represents book
  best : engine.state.BestShown book
  published : engine.publicBbo = some engine.state.snapshot ∨ engine.publicBbo = none ∧ book = []

theorem tracks_init : (init : OrderBookEngine).Tracks [] :=
  ⟨BookState.represents_init, BookState.bestShown_init, Or.inr ⟨rfl, rfl⟩⟩

theorem Tracks.consume {engine : OrderBookEngine} {book : List Entry} (h : engine.Tracks book)
    {event : MarketEvent} (hadm : event.Admissible (orders book)) (hkind : event.type ≠ .update) :
    ∃ engine' u book', engine.consume event = some engine' ∧
      engine.state.execute event = some (engine'.state, u) ∧ engine'.Tracks book' ∧
      orders book' = event.applyTo (orders book) ∧
      BookState.Named engine.state.bbo engine'.state.bbo u ∧
      engine'.publicBbo = some engine'.state.snapshot := by
  obtain ⟨s', u, book', hs', hrep, horders, hbest, hnamed, hfirst⟩ :=
    h.represents.execute_best h.best hadm hkind
  by_cases hu : u = .newBestBid ∨ u = .newBestOffer
  · refine ⟨⟨s', some s'.snapshot⟩, u, book', ?_, hs', ⟨hrep, hbest, Or.inl rfl⟩, horders, hnamed, rfl⟩
    simp [OrderBookEngine.consume, hs', hu]
  · have hsame : u = .noChange := by cases u <;> simp_all
    have hbbo : s'.bbo = engine.state.bbo := by
      rcases hnamed with ⟨-, hbbo⟩ | ⟨side, hside, -⟩
      · exact hbbo
      · cases side <;> simp [BookUpdate.newBest, hsame] at hside
    have hpublished : engine.publicBbo = some s'.snapshot := by
      rcases h.published with hp | ⟨-, hnil⟩
      · rw [hp, BookState.snapshot, BookState.snapshot, hbbo]
      · exact absurd hsame (hfirst hnil)
    refine ⟨⟨s', engine.publicBbo⟩, u, book', ?_, hs', ⟨hrep, hbest, Or.inl hpublished⟩, horders, hnamed,
      hpublished⟩
    simp [OrderBookEngine.consume, hs', hu]

theorem start_tracks (events : List MarketEvent) (hrun : AdmissibleRun [] events)
    (hkinds : ∀ event ∈ events, event.type ≠ .update) :
    ∃ engine book, (init : OrderBookEngine).start events = some engine ∧ engine.Tracks book ∧
      orders book = applyAll [] events := by
  induction events using List.reverseRecOn with
  | nil => exact ⟨init, [], rfl, tracks_init, rfl⟩
  | append_singleton events event ih =>
    obtain ⟨hrun, hadm⟩ := admissibleRun_append.mp hrun
    obtain ⟨engine, book, hs, htracks, horders⟩ := ih hrun fun e he => hkinds e (by simp [he])
    rw [← horders] at hadm
    obtain ⟨engine', u, book', hs', -, htracks', horders', -, -⟩ :=
      htracks.consume hadm (hkinds event (by simp))
    refine ⟨engine', book', ?_, htracks', ?_⟩
    · simp only [start] at hs
      simp [start, hs, hs']
    · rw [applyAll_append, ← horders, horders']

/-- The snapshot shows one side of the resting orders: no price and no quantity when the
side is empty, and otherwise the best price with the total of its level modulo 2^32. -/
def QuotesBest (s : BookState) (orders : List Order) (side : Side) : Prop :=
  (∀ o ∈ orders, o.side ≠ side) ∧ s.snapshot.best side = ⟨side.noPrice, 0⟩ ∨
    (∃ o ∈ orders, o.side = side ∧ o.price = (s.snapshot.best side).price) ∧
      (∀ o ∈ orders, o.side = side → ¬ side.Better o.price (s.snapshot.best side).price) ∧
      ∃ level, s.priceLevels.find (s.snapshot.best side).price = some level ∧
        level.totalQuantity.toNat =
          ((orders.filter fun o => o.price = (s.snapshot.best side).price).map (·.quantity.toNat)).sum ∧
        (s.snapshot.best side).quantity.toNat = level.totalQuantity.toNat % 2 ^ 32

omit [StdHash Price] [StdHash ID] in
theorem total_queue (book : List Entry) (p : Price) :
    total (queue book p) = (((orders book).filter fun o => o.price = p).map (·.quantity.toNat)).sum := by
  simp only [total, queue, orders, List.filter_map, List.map_map]
  rfl

theorem Tracks.quotesBest {engine : OrderBookEngine} {book : List Entry} (h : engine.Tracks book)
    (side : Side) : QuotesBest engine.state (orders book) side := by
  have hbest := h.best side
  by_cases hnone : prices side book = ∅
  · rw [IsBest, if_pos hnone] at hbest
    refine Or.inl ⟨?_, hbest⟩
    intro o ho hside
    obtain ⟨e, he, rfl⟩ := mem_orders.mp ho
    have hmem : e.order.price ∈ prices side book := mem_prices.mpr ⟨e, he, hside, rfl⟩
    rw [hnone] at hmem
    cases hmem
  · obtain ⟨hmem, hmax, hquantity⟩ := hbest.ne_empty hnone
    have hfind := h.represents.levels.find (engine.state.bbo.best side).price
    rw [levelOf_of_ne (queue_ne_nil_of_mem_prices hmem)] at hfind
    have hlt : total (queue book (engine.state.bbo.best side).price) < 2 ^ 64 :=
      total_lt _ ((queue_sublist book _).length_le.trans h.represents.length_le)
    refine Or.inr ⟨?_, ?_, _, hfind, ?_, ?_⟩
    · obtain ⟨e, he, hside, hprice⟩ := mem_prices.mp hmem
      exact ⟨e.order, mem_orders.mpr ⟨e, he, rfl⟩, hside, hprice⟩
    · intro o ho hside
      obtain ⟨e, he, rfl⟩ := mem_orders.mp ho
      exact hmax _ (mem_prices.mpr ⟨e, he, hside, rfl⟩)
    · rw [UInt64.toNat_ofNat', Nat.mod_eq_of_lt hlt, total_queue]
      rfl
    · rw [UInt64.toNat_ofNat', Nat.mod_eq_of_lt hlt]
      simp only [BookState.snapshot, hquantity, UInt32.toNat_ofNat']

/-- After every event the snapshot shows the best level of each side, the returned update
names the side that changed, and the published snapshot is the current one. -/
theorem consume_publishes_best (events : List MarketEvent) (event : MarketEvent)
    (hrun : AdmissibleRun [] (events ++ [event]))
    (hkinds : ∀ e ∈ events ++ [event], e.type ≠ .update) :
    ∃ engine engine' u, (init : OrderBookEngine).start events = some engine ∧
      engine.consume event = some engine' ∧ engine.state.execute event = some (engine'.state, u) ∧
      (∀ side, QuotesBest engine'.state (applyAll [] (events ++ [event])) side) ∧
      BookState.Named engine.state.snapshot engine'.state.snapshot u ∧
      engine'.publicBbo = some engine'.state.snapshot := by
  obtain ⟨hrun, hadm⟩ := admissibleRun_append.mp hrun
  obtain ⟨engine, book, hs, htracks, horders⟩ :=
    start_tracks events hrun fun e he => hkinds e (by simp [he])
  rw [← horders] at hadm
  obtain ⟨engine', u, book', hconsume, hexec, htracks', horders', hnamed, hpublished⟩ :=
    htracks.consume hadm (hkinds event (by simp))
  refine ⟨engine, engine', u, hs, hconsume, hexec, ?_, hnamed, hpublished⟩
  rw [applyAll_append, ← horders, ← horders']
  exact htracks'.quotesBest

end OrderBookEngine

section

attribute [local instance] priceHash idHash

/-- The level at 100 holds 2^32 + 5, and removing 5 equals the cached quantity while
2^32 is left on the level. -/
def wrappingRun : List MarketEvent :=
  [⟨⟨1, 100, 4294967295, .buy⟩, .add⟩, ⟨⟨2, 100, 1, .buy⟩, .add⟩, ⟨⟨3, 100, 5, .buy⟩, .add⟩,
    ⟨⟨4, 101, 7, .sell⟩, .add⟩]

theorem consume_publishes_best_wrappingRun :
    AdmissibleRun [] (wrappingRun ++ [⟨⟨3, 100, 5, .buy⟩, .trade⟩]) ∧
      ∃ engine engine' u, (OrderBookEngine.init : OrderBookEngine).start wrappingRun = some engine ∧
        engine.consume ⟨⟨3, 100, 5, .buy⟩, .trade⟩ = some engine' ∧
        (∀ side, OrderBookEngine.QuotesBest engine'.state
          [⟨1, 100, 4294967295, .buy⟩, ⟨2, 100, 1, .buy⟩, ⟨4, 101, 7, .sell⟩] side) ∧
        BookState.Named engine.state.snapshot engine'.state.snapshot u ∧
        engine'.publicBbo = some engine'.state.snapshot := by
  have hrun : AdmissibleRun [] (wrappingRun ++ [⟨⟨3, 100, 5, .buy⟩, .trade⟩]) := by decide
  obtain ⟨engine, engine', u, hs, hconsume, -, hquotes, hnamed, hpublished⟩ :=
    OrderBookEngine.consume_publishes_best wrappingRun ⟨⟨3, 100, 5, .buy⟩, .trade⟩ hrun (by decide)
  have horders : applyAll [] (wrappingRun ++ [⟨⟨3, 100, 5, .buy⟩, .trade⟩]) =
      [⟨1, 100, 4294967295, .buy⟩, ⟨2, 100, 1, .buy⟩, ⟨4, 101, 7, .sell⟩] := by decide
  exact ⟨hrun, engine, engine', u, hs, hconsume, horders ▸ hquotes, hnamed, hpublished⟩

end

end HftPipeline
