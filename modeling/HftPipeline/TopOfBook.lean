import HftPipeline.QuantityUpdate

/-!
# The top of the book

What a snapshot says is a function of the orders at rest: neither the slots of the pool, nor
the chains of the hash maps, nor the events that came before leave a trace in it, and not even
the order in which the resting orders came.
-/
namespace HftPipeline

open RestingBook

/-- The best price of a side and what rests there, modulo 2^32. -/
def bestInfo (side : Side) (orders : List Order) : BestOrderInfo :=
  match bestOf side orders with
  | none => ⟨side.noPrice, 0⟩
  | some best => ⟨best.price, UInt32.ofNat (levelTotal orders best.price)⟩

def topOfBook (orders : List Order) : OrderSnapshot := ⟨bestInfo .buy orders, bestInfo .sell orders⟩

theorem bestInfo_of_none {side : Side} {orders : List Order} (hnone : ∀ o ∈ orders, o.side ≠ side) :
    bestInfo side orders = ⟨side.noPrice, 0⟩ := by
  have hbest : bestOf side orders = none := by
    apply List.find?_eq_none.mpr
    intro o ho
    simp only [decide_eq_true_eq]
    exact fun h => hnone o ho h.1
  rw [bestInfo, hbest]

/-- Any order that no other of its side is better than shows the best price. -/
theorem bestInfo_of_best {side : Side} {orders : List Order} {o : Order} (ho : o ∈ orders) (hside : o.side = side)
    (hbest : ∀ o' ∈ orders, o'.side = side → ¬ side.Better o'.price o.price) :
    bestInfo side orders = ⟨o.price, UInt32.ofNat (levelTotal orders o.price)⟩ := by
  obtain ⟨best, hfound⟩ : ∃ best, bestOf side orders = some best := by
    apply Option.isSome_iff_exists.mp
    apply List.find?_isSome.mpr
    exact ⟨o, ho, decide_eq_true ⟨hside, hbest⟩⟩
  obtain ⟨hmem, hbestSide, hmax⟩ := bestOf_spec hfound
  have hprice : best.price = o.price := by
    rcases Side.better_trichotomy side best.price o.price with hb | heq | hb
    · exact absurd hb (hbest best hmem hbestSide)
    · exact heq
    · exact absurd hb (hmax o ho hside)
  rw [bestInfo, hfound]
  simp only [hprice]

theorem levelTotal_perm {orders orders' : List Order} (h : orders.Perm orders') (price : Price) :
    levelTotal orders price = levelTotal orders' price := by
  rw [levelTotal, levelTotal]
  exact ((h.filter _).map _).sum_eq

/-- The oldest of the best orders may be another one, its price and its level are not. -/
theorem bestInfo_perm {orders orders' : List Order} (h : orders.Perm orders') (side : Side) :
    bestInfo side orders = bestInfo side orders' := by
  cases hbest : bestOf side orders with
  | none =>
    rw [bestInfo, hbest]
    cases hbest' : bestOf side orders' with
    | none => rw [bestInfo, hbest']
    | some best =>
      obtain ⟨hmem, hside, hmax⟩ := bestOf_spec hbest'
      have hnot := List.find?_eq_none.mp hbest best (h.mem_iff.mpr hmem)
      simp only [decide_eq_true_eq] at hnot
      exact absurd ⟨hside, fun o ho => hmax o (h.mem_iff.mp ho)⟩ hnot
  | some best =>
    obtain ⟨hmem, hside, hmax⟩ := bestOf_spec hbest
    rw [bestInfo_of_best hmem hside hmax, levelTotal_perm h]
    exact (bestInfo_of_best (h.mem_iff.mp hmem) hside fun o ho => hmax o (h.mem_iff.mpr ho)).symm

theorem topOfBook_perm {orders orders' : List Order} (h : orders.Perm orders') :
    topOfBook orders = topOfBook orders' := by
  rw [topOfBook, topOfBook, bestInfo_perm h, bestInfo_perm h]

/-- What is cached for a side is what its orders say. -/
theorem IsBest.eq_bestInfo {side : Side} {book : List Entry} {info : BestOrderInfo} (h : IsBest side book info) :
    info = bestInfo side (orders book) := by
  by_cases hnone : prices side book = ∅
  · rw [IsBest, if_pos hnone] at h
    rw [h, bestInfo_of_none]
    intro o ho hside
    obtain ⟨e, he, rfl⟩ := mem_orders.mp ho
    have hmem : e.order.price ∈ prices side book := mem_prices.mpr ⟨e, he, hside, rfl⟩
    rw [hnone] at hmem
    cases hmem
  · obtain ⟨hmem, hmax, hquantity⟩ := h.ne_empty hnone
    obtain ⟨e, he, hside, hprice⟩ := mem_prices.mp hmem
    have hbest : ∀ o ∈ orders book, o.side = side → ¬ side.Better o.price e.order.price := by
      intro o ho hoside
      obtain ⟨e', he', rfl⟩ := mem_orders.mp ho
      rw [hprice]
      exact hmax _ (mem_prices.mpr ⟨e', he', hoside, rfl⟩)
    rw [bestInfo_of_best (mem_orders.mpr ⟨e, he, rfl⟩) hside hbest, hprice, levelTotal,
      ← OrderBookEngine.total_queue, ← hquantity]

namespace BookState

variable {s s' : BookState} {book book' : List Entry}

theorem BestShown.snapshot_eq (h : s.BestShown book) : s.snapshot = topOfBook (orders book) := by
  have hbid : s.bbo.bestBid = bestInfo .buy (orders book) := (h .buy).eq_bestInfo
  have hoffer : s.bbo.bestOffer = bestInfo .sell (orders book) := (h .sell).eq_bestInfo
  rw [topOfBook, ← hbid, ← hoffer, snapshot]

variable [StdHash Price]

/-- The quantity that the level of a price shows, if there is one. -/
def shownTotal (s : BookState) (price : Price) : Option UInt64 :=
  (s.priceLevels.find price).map (·.totalQuantity)

theorem LevelsShow.shownTotal_eq (h : s.LevelsShow book) (price : Price) :
    s.shownTotal price =
      if (orders book).any (·.price = price) then some (UInt64.ofNat (levelTotal (orders book) price)) else none := by
  rw [shownTotal, h.find]
  by_cases hq : queue book price = []
  · have hnone : (orders book).any (·.price = price) = false := by
      apply List.any_eq_false.mpr
      intro o ho
      obtain ⟨e, he, rfl⟩ := mem_orders.mp ho
      simp only [decide_eq_true_eq]
      intro hprice
      have hmem : e ∈ queue book price := mem_queue.mpr ⟨he, hprice⟩
      rw [hq] at hmem
      cases hmem
    rw [hq, levelOf_nil, hnone]
    rfl
  · obtain ⟨e, hmem⟩ := List.exists_mem_of_ne_nil _ hq
    obtain ⟨he, hprice⟩ := mem_queue.mp hmem
    have hsome : (orders book).any (·.price = price) = true :=
      List.any_eq_true.mpr ⟨e.order, mem_orders.mpr ⟨e, he, rfl⟩, decide_eq_true hprice⟩
    rw [levelOf_of_ne hq, hsome, Option.map_some, if_pos rfl, OrderBookEngine.total_queue, levelTotal]

variable [StdHash ID]

/-- Two books that cannot be told apart from outside. -/
structure SameAnswers (s s' : BookState) : Prop where
  snapshot : s.snapshot = s'.snapshot
  shownTotal : ∀ price, s.shownTotal price = s'.shownTotal price
  orderExists : ∀ id, s.orderExists id = s'.orderExists id

/-- Two books with the same orders, in whatever order they came, answer the same. -/
theorem Represents.same_answers (h : s.Represents book) (hb : s.BestShown book) (h' : s'.Represents book')
    (hb' : s'.BestShown book') (hperm : (orders book).Perm (orders book')) : s.SameAnswers s' := by
  refine ⟨?_, ?_, ?_⟩
  · rw [hb.snapshot_eq, hb'.snapshot_eq]
    exact topOfBook_perm hperm
  · intro price
    rw [h.levels.shownTotal_eq, h'.levels.shownTotal_eq, levelTotal_perm hperm]
    have hany : (orders book).any (·.price = price) = (orders book').any (·.price = price) := by
      rw [Bool.eq_iff_iff, List.any_eq_true, List.any_eq_true]
      exact exists_congr fun o => and_congr_left fun _ => hperm.mem_iff
    rw [hany]
  · intro id
    rw [Bool.eq_iff_iff, h.orderExists_iff, h'.orderExists_iff, ids_eq, ids_eq]
    exact (hperm.map _).mem_iff

/-- The book forgets its history: after two runs that leave the same orders at rest, in whatever
order they came, the snapshots, the levels and the orders that exist are the same, and the
snapshot is the top of the book. -/
theorem answers_forget_history (a b : List MarketEvent) (ha : AdmissibleRun [] a) (hb : AdmissibleRun [] b)
    (hkeepA : UpdatesKeepBest [] a) (hkeepB : UpdatesKeepBest [] b)
    (hperm : (applyAll [] a).Perm (applyAll [] b)) :
    ∃ s s', (init : BookState).executeAll a = some s ∧ (init : BookState).executeAll b = some s' ∧
      s.snapshot = topOfBook (applyAll [] a) ∧ s.SameAnswers s' := by
  obtain ⟨s, book, hs, hrep, horders, hshown⟩ := represents_init.executeAll_best bestShown_init ha hkeepA
  obtain ⟨s', book', hs', hrep', horders', hshown'⟩ := represents_init.executeAll_best bestShown_init hb hkeepB
  have horders : orders book = applyAll [] a := horders
  have horders' : orders book' = applyAll [] b := horders'
  rw [← horders, ← horders'] at hperm
  refine ⟨s, s', hs, hs', ?_, hrep.same_answers hshown hrep' hshown' hperm⟩
  rw [← horders]
  exact hshown.snapshot_eq

end BookState

/-! ## The engine -/

namespace OrderBookEngine

variable [StdHash Price] [StdHash ID] {engine : OrderBookEngine} {book : List Entry}

theorem Tracks.snapshot_eq (h : engine.Tracks book) : engine.state.snapshot = topOfBook (orders book) :=
  h.best.snapshot_eq

end OrderBookEngine

section

attribute [local instance] priceHash idHash

/-- Two buys at a price and one below, where the first is reduced before the others come. -/
def oneWay : List MarketEvent :=
  [⟨⟨1, 100, 10, .buy⟩, .add⟩, ⟨⟨1, 0, 4, .buy⟩, .trade⟩, ⟨⟨2, 100, 5, .buy⟩, .add⟩, ⟨⟨3, 99, 8, .buy⟩, .add⟩]

/-- The same orders at rest, after a sell and another buy have come and gone. -/
def anotherWay : List MarketEvent :=
  [⟨⟨9, 120, 7, .sell⟩, .add⟩, ⟨⟨3, 99, 8, .buy⟩, .add⟩, ⟨⟨2, 100, 5, .buy⟩, .add⟩, ⟨⟨4, 110, 2, .buy⟩, .add⟩,
    ⟨⟨9, 0, 0, .sell⟩, .cancel⟩, ⟨⟨4, 110, 2, .buy⟩, .trade⟩, ⟨⟨1, 100, 6, .buy⟩, .add⟩]

theorem answers_forget_history_twoWays :
    ∃ s s', (BookState.init : BookState).executeAll oneWay = some s ∧
      (BookState.init : BookState).executeAll anotherWay = some s' ∧
      s.snapshot = ⟨⟨100, 11⟩, ⟨noOffer, 0⟩⟩ ∧ s.SameAnswers s' := by
  have hperm : (applyAll [] oneWay).Perm (applyAll [] anotherWay) := by decide
  obtain ⟨s, s', hs, hs', hsnapshot, hsame⟩ := BookState.answers_forget_history oneWay anotherWay (by decide)
    (by decide) ⟨by decide, by decide, by decide, by decide, trivial⟩
    ⟨by decide, by decide, by decide, by decide, by decide, by decide, by decide, trivial⟩ hperm
  refine ⟨s, s', hs, hs', ?_, hsame⟩
  rw [hsnapshot]
  decide

end

end HftPipeline
