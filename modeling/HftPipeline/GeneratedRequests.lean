import HftPipeline.OrderGenerator
import HftPipeline.Matching

/-!
# The requests that are generated

The price of a request is drawn around a best price of the book. As long as the orders of
the book are listed, that is priced within the configured range, there is a price to draw
and the new order is listed again.
-/
namespace HftPipeline

open RestingBook

/-- Within the configured range. -/
def Listed (price : Price) : Prop := minPrice ≤ price ∧ price ≤ maxPrice

theorem listed_iff (price : Price) : Listed price ↔ 1 ≤ price.toInt ∧ price.toInt ≤ 1000 := by
  rw [Listed, Int32.le_iff_toInt_le, Int32.le_iff_toInt_le]
  rfl

theorem ofInt_listed {price : Int} (hlow : minPrice.toInt ≤ price) (hhigh : price ≤ maxPrice.toInt) :
    Listed (Int32.ofInt price) := by
  have hmin : minPrice.toInt = 1 := rfl
  have hmax : maxPrice.toInt = 1000 := rfl
  rw [listed_iff, Int32.toInt_ofInt_of_le (by omega) (by omega)]
  omega

theorem Listed.inside {price : Price} (h : Listed price) : noBid < price ∧ price < noOffer :=
  ⟨lt_of_lt_of_le (by decide) h.1, lt_of_le_of_lt h.2 (by decide)⟩

/-- No listed price is near an end of the type. -/
theorem Listed.shift {price : Price} (h : Listed price) (variance : Price) (hlow : 0 ≤ variance.toInt)
    (hhigh : variance.toInt ≤ 20) : price - variance ≤ price ∧ price ≤ price + variance := by
  obtain ⟨hmin, hmax⟩ := (listed_iff price).mp h
  constructor
  · rw [Int32.le_iff_toInt_le, Int32.toInt_sub, Int.bmod_eq_of_le (by omega) (by omega)]
    omega
  · rw [Int32.le_iff_toInt_le, Int32.toInt_add, Int.bmod_eq_of_le (by omega) (by omega)]
    omega

/-- A range around a listed price has a listed part. -/
theorem clamp_listed {low price high : Price} (h : Listed price) (hlow : low ≤ price) (hhigh : price ≤ high) :
    minPrice ≤ max low minPrice ∧ max low minPrice ≤ min high maxPrice ∧ min high maxPrice ≤ maxPrice := by
  refine ⟨le_max_right _ _, ?_, min_le_right _ _⟩
  apply max_le
  · exact le_min (hlow.trans hhigh) (hlow.trans h.2)
  · exact le_min (h.1.trans hhigh) (by decide)

theorem priceRange_listed {snapshot : OrderSnapshot}
    (hbid : snapshot.bestBid.price = noBid ∨ Listed snapshot.bestBid.price)
    (hask : snapshot.bestOffer.price = noOffer ∨ Listed snapshot.bestOffer.price) (side : Side)
    (aggressive : Bool) :
    minPrice ≤ (priceRange snapshot side aggressive).1 ∧
      (priceRange snapshot side aggressive).1 ≤ (priceRange snapshot side aggressive).2 ∧
      (priceRange snapshot side aggressive).2 ≤ maxPrice := by
  have hbid' : Listed (if snapshot.bestBid.price = noBid then defaultBuyPrice else snapshot.bestBid.price) := by
    split
    · exact ⟨by decide, by decide⟩
    · next hne => exact hbid.resolve_left hne
  have hask' : Listed (if snapshot.bestOffer.price = noOffer then defaultSellPrice
      else snapshot.bestOffer.price) := by
    split
    · exact ⟨by decide, by decide⟩
    · next hne => exact hask.resolve_left hne
  cases aggressive with
  | false =>
    cases side with
    | buy =>
      obtain ⟨hlow, hhigh⟩ := hbid'.shift priceVariance (by decide) (by decide)
      exact clamp_listed hbid' hlow hhigh
    | sell =>
      obtain ⟨hlow, hhigh⟩ := hask'.shift priceVariance (by decide) (by decide)
      exact clamp_listed hask' hlow hhigh
  | true =>
    cases side with
    | buy =>
      obtain ⟨-, hhigh⟩ := hask'.shift largePriceVariance (by decide) (by decide)
      exact clamp_listed hask' (le_refl _) hhigh
    | sell =>
      obtain ⟨hlow, -⟩ := hbid'.shift largePriceVariance (by decide) (by decide)
      exact clamp_listed hbid' hlow (le_refl _)

section

variable [StdHash Price] [StdHash ID] {source : RandomSource} {book : List Entry}

omit [StdHash Price] [StdHash ID] in
/-- A best price of listed orders is listed, if there is one. -/
theorem best_listed {s : BookState} (hb : s.BestShown book) (hlisted : ∀ o ∈ orders book, Listed o.price)
    (side : Side) : (s.bbo.best side).price = side.noPrice ∨ Listed (s.bbo.best side).price := by
  by_cases hempty : prices side book = ∅
  · have hbest := hb side
    rw [IsBest, if_pos hempty] at hbest
    rw [hbest]
    exact Or.inl rfl
  · obtain ⟨hmem, -, -⟩ := (hb side).ne_empty hempty
    obtain ⟨e, he, -, hprice⟩ := mem_prices.mp hmem
    rw [← hprice]
    exact Or.inr (hlisted e.order (mem_orders.mpr ⟨e, he, rfl⟩))

namespace MarketRequestGenerator

/-- The book shows listed best prices, or none. -/
def ShowsListed (m : MarketRequestGenerator source) : Prop :=
  (m.clob.state.bbo.bestBid.price = noBid ∨ Listed m.clob.state.bbo.bestBid.price) ∧
    (m.clob.state.bbo.bestOffer.price = noOffer ∨ Listed m.clob.state.bbo.bestOffer.price)

section

omit [StdHash Price] [StdHash ID]

theorem generatePrice_listed {m : MarketRequestGenerator source} (h : m.ShowsListed) (side : Side)
    (aggressive : Bool) : Listed (m.generatePrice side aggressive).1 := by
  obtain ⟨hmin, hle, hmax⟩ := priceRange_listed h.1 h.2 side aggressive
  rw [Int32.le_iff_toInt_le] at hmin hle hmax
  obtain ⟨hlow, hhigh⟩ := source.uniform_mem _ _ m.generator hle
  exact ofInt_listed (hmin.trans hlow) (hhigh.trans hmax)

theorem newRequest_type (m : MarketRequestGenerator source) (side : Side) :
    (m.newRequest side).1.type = side.requestType := by
  rw [newRequest]
  split
  split <;> rfl

end

omit [StdHash Price] [StdHash ID] in
/-- Every new request is for a listed price. -/
theorem newRequest_listed {m : MarketRequestGenerator source} (h : m.ShowsListed) (side : Side) :
    Listed (m.newRequest side).1.price := by
  have hsame : ShowsListed { m with generator := (source.real m.generator).2 } := h
  by_cases hvalue : (source.real m.generator).1 < aggressiveOrderProbability
  · have hrequest : m.newRequest side =
        { m with generator := (source.real m.generator).2 }.generateAggressiveOrderRequest side := if_pos hvalue
    rw [hrequest]
    exact generatePrice_listed hsame side true
  · have hrequest : m.newRequest side =
        { m with generator := (source.real m.generator).2 }.generatePassiveOrderRequest side := if_neg hvalue
    rw [hrequest]
    exact generatePrice_listed hsame side false

end MarketRequestGenerator

end

end HftPipeline
