import HftPipeline.Staging
import HftPipeline.ListedPrices
import HftPipeline.Lib.CheckedInt

/-!
# The arithmetic of the quotes

`get_orders` once more, with every operation on prices checked: the outer `none` is an
overflow. `price_new_order_pair` does not look at the prices that stand for an empty side.
`should_place_new_orders` does, when both orders are placed: their sum with a bid is out of
range if the offers are gone.
-/
namespace HftPipeline

open StrategyConfig

/-- A resting price: two of them can be added. -/
def Quotable (price : Price) : Prop := 1 ≤ price.toInt ∧ price.toInt < 2 ^ 30

instance (price : Price) : Decidable (Quotable price) := inferInstanceAs (Decidable (_ ∧ _))

/-- Each best price is a resting price or stands for an empty side. -/
structure OrderSnapshot.Quotable (bbo : OrderSnapshot) : Prop where
  bid : bbo.bestBid.price = noBid ∨ HftPipeline.Quotable bbo.bestBid.price
  offer : bbo.bestOffer.price = noOffer ∨ HftPipeline.Quotable bbo.bestOffer.price

instance (bbo : OrderSnapshot) : Decidable bbo.Quotable :=
  decidable_of_iff ((bbo.bestBid.price = noBid ∨ Quotable bbo.bestBid.price) ∧
      (bbo.bestOffer.price = noOffer ∨ Quotable bbo.bestOffer.price))
    ⟨fun h => ⟨h.1, h.2⟩, fun h => ⟨h.bid, h.offer⟩⟩

namespace PassiveMarketMaker

def checkedMidpoint (bid offer : Price) : Option Price := do
  let sum ← CheckedInt.add offer bid
  CheckedInt.div sum 2

def checkedPriceNewOrderPair (bbo : OrderSnapshot) : Option (Option (Price × Price)) :=
  if bbo.bestBid.price = noBid ∨ bbo.bestOffer.price = noOffer ∨
      bbo.bestOffer.price ≤ bbo.bestBid.price then some none
  else do
    let potentialOffer ← CheckedInt.sub bbo.bestOffer.price minTickDiff
    let potentialBid ← CheckedInt.add bbo.bestBid.price minTickDiff
    let spread ← CheckedInt.sub potentialOffer potentialBid
    let minSpread ← CheckedInt.mul oneSidedMinSpread 2
    if spread < minSpread then return none
    else do
      let midpoint ← checkedMidpoint bbo.bestBid.price bbo.bestOffer.price
      let lowest ← CheckedInt.sub midpoint oneSidedMaxSpread
      let highest ← CheckedInt.add midpoint oneSidedMaxSpread
      return some (max lowest potentialBid, min highest potentialOffer)

def checkedShouldPlaceNewOrders (m : PassiveMarketMaker) (bbo : OrderSnapshot) : Option Bool :=
  if m.buyOrder.status = .notPlaced ∨ m.sellOrder.status = .notPlaced then some true
  else do
    let midpoint ← checkedMidpoint bbo.bestBid.price bbo.bestOffer.price
    let quotedMidpoint ← checkedMidpoint m.sellOrder.placedOrder.price m.buyOrder.placedOrder.price
    let drift ← CheckedInt.sub midpoint quotedMidpoint
    let distance ← CheckedInt.abs drift
    return decide (maxAllowedDrift < distance)

/-- Beyond the prices, `queue_new_order_pair` computes with ids only. -/
def checkedQueueNewOrderPair (m : PassiveMarketMaker) (bbo : OrderSnapshot) (buffer : StrategyOrderBuffer) :
    Option (Option (Bool × PassiveMarketMaker × StrategyOrderBuffer)) :=
  if m.buyOrder.status = .notPlaced ∧ m.sellOrder.status = .notPlaced then
    (checkedPriceNewOrderPair bbo).map fun _ => m.queueNewOrderPair bbo buffer
  else some none

def checkedGetOrders (m : PassiveMarketMaker) (bbo : OrderSnapshot) (buffer : StrategyOrderBuffer) :
    Option (Option (PassiveMarketMaker × StrategyOrderBuffer)) := do
  let place ← m.checkedShouldPlaceNewOrders bbo
  if ¬ place then return some (m, buffer)
  else if buffer.available < m.placedCount + 2 then return some (m, buffer)
  else
    match m.queueCancelOrders buffer with
    | none => return none
    | some (queued, m, buffer) =>
      if ¬ queued then return some (m, buffer)
      else do
        let pair ← m.checkedQueueNewOrderPair bbo buffer
        return pair.map fun (_, m, buffer) => (m, buffer)

/-! ## What is checked is what is computed -/

variable {m : PassiveMarketMaker} {bbo : OrderSnapshot} {buffer : StrategyOrderBuffer}

theorem midpoint_of_checked {bid offer p : Price} (h : checkedMidpoint bid offer = some p) :
    p = midpoint bid offer := by
  obtain ⟨sum, hsum, hhalf⟩ := Option.bind_eq_some_iff.mp h
  rw [CheckedInt.eq_div hhalf, CheckedInt.eq_add hsum]
  rfl

theorem priceNewOrderPair_of_checked {prices : Option (Price × Price)}
    (h : checkedPriceNewOrderPair bbo = some prices) : prices = priceNewOrderPair bbo := by
  rw [checkedPriceNewOrderPair] at h
  rw [priceNewOrderPair]
  split at h
  · rename_i hempty
    rw [if_pos hempty]
    exact (Option.some.inj h).symm
  · rename_i hempty
    rw [if_neg hempty]
    obtain ⟨potentialOffer, hoffer, h⟩ := Option.bind_eq_some_iff.mp h
    obtain ⟨potentialBid, hbid, h⟩ := Option.bind_eq_some_iff.mp h
    obtain ⟨spread, hspread, h⟩ := Option.bind_eq_some_iff.mp h
    obtain ⟨minSpread, hmin, h⟩ := Option.bind_eq_some_iff.mp h
    obtain rfl := CheckedInt.eq_sub hoffer
    obtain rfl := CheckedInt.eq_add hbid
    obtain rfl := CheckedInt.eq_sub hspread
    obtain rfl := CheckedInt.eq_mul hmin
    simp only
    split at h
    · rename_i hnarrow
      rw [if_pos hnarrow]
      exact (Option.some.inj h).symm
    · rename_i hwide
      rw [if_neg hwide]
      obtain ⟨mid, hmid, h⟩ := Option.bind_eq_some_iff.mp h
      obtain ⟨lowest, hlowest, h⟩ := Option.bind_eq_some_iff.mp h
      obtain ⟨highest, hhighest, h⟩ := Option.bind_eq_some_iff.mp h
      obtain rfl := CheckedInt.eq_sub hlowest
      obtain rfl := CheckedInt.eq_add hhighest
      rw [midpoint_of_checked hmid] at h
      exact (Option.some.inj h).symm

theorem shouldPlaceNewOrders_of_checked {place : Bool} (h : m.checkedShouldPlaceNewOrders bbo = some place) :
    place = m.shouldPlaceNewOrders bbo := by
  rw [checkedShouldPlaceNewOrders] at h
  rw [shouldPlaceNewOrders]
  split at h
  · rename_i hfree
    rw [if_pos hfree]
    exact (Option.some.inj h).symm
  · rename_i hplaced
    rw [if_neg hplaced]
    obtain ⟨mid, hmid, h⟩ := Option.bind_eq_some_iff.mp h
    obtain ⟨quoted, hquoted, h⟩ := Option.bind_eq_some_iff.mp h
    obtain ⟨drift, hdrift, h⟩ := Option.bind_eq_some_iff.mp h
    obtain ⟨distance, hdistance, h⟩ := Option.bind_eq_some_iff.mp h
    rw [CheckedInt.eq_abs hdistance, CheckedInt.eq_sub hdrift, midpoint_of_checked hmid,
      midpoint_of_checked hquoted] at h
    exact (Option.some.inj h).symm

theorem queueNewOrderPair_of_checked {pair : Option (Bool × PassiveMarketMaker × StrategyOrderBuffer)}
    (h : m.checkedQueueNewOrderPair bbo buffer = some pair) : pair = m.queueNewOrderPair bbo buffer := by
  rw [checkedQueueNewOrderPair] at h
  split at h
  · obtain ⟨prices, -, rfl⟩ := Option.map_eq_some_iff.mp h
    rfl
  · rename_i hplaced
    rw [queueNewOrderPair, if_neg hplaced]
    exact (Option.some.inj h).symm

/-- Where no operation overflows, the checked call is the one that wraps. -/
theorem getOrders_of_checked {result : Option (PassiveMarketMaker × StrategyOrderBuffer)}
    (h : m.checkedGetOrders bbo buffer = some result) : result = m.getOrders bbo buffer := by
  obtain ⟨place, hplace, h⟩ := Option.bind_eq_some_iff.mp h
  rw [shouldPlaceNewOrders_of_checked hplace] at h
  rw [getOrders]
  split at h
  · rename_i hstay
    rw [if_pos hstay]
    exact (Option.some.inj h).symm
  · rename_i hgo
    rw [if_neg hgo]
    split at h
    · rename_i hfull
      rw [if_pos hfull]
      exact (Option.some.inj h).symm
    · rename_i hroom
      rw [if_neg hroom]
      split at h
      · rename_i hcancel
        rw [hcancel]
        exact (Option.some.inj h).symm
      · rename_i queued m₁ buffer₁ hcancel
        rw [hcancel]
        show result = if ¬ queued then some (m₁, buffer₁)
          else (m₁.queueNewOrderPair bbo buffer₁).bind fun after => some after.2
        split at h
        · rename_i hqueued
          rw [if_pos hqueued]
          exact (Option.some.inj h).symm
        · rename_i hqueued
          rw [if_neg hqueued]
          obtain ⟨pair, hpair, h⟩ := Option.bind_eq_some_iff.mp h
          rw [← queueNewOrderPair_of_checked hpair, ← Option.some.inj h]
          cases pair <;> rfl

/-! ## What fits -/

theorem checkedMidpoint_fits (bid offer : Price) (hlow : -2 ^ 31 ≤ offer.toInt + bid.toInt)
    (hhigh : offer.toInt + bid.toInt < 2 ^ 31) :
    ∃ p, checkedMidpoint bid offer = some p ∧ p.toInt = (offer.toInt + bid.toInt).tdiv 2 := by
  obtain ⟨sum, hsum, hexact⟩ := CheckedInt.add_fits hlow hhigh
  obtain ⟨p, hp, hhalf⟩ := CheckedInt.div_two_fits sum
  refine ⟨p, ?_, by rw [hhalf, hexact]⟩
  rw [checkedMidpoint, hsum]
  exact hp

/-- A pair is priced within the spread, and at most the one-sided maximum from its middle. -/
structure PairPriced (low high : Int) (bid offer : Price) : Prop where
  wide : low + 8 ≤ high
  bid : bid.toInt = max ((high + low) / 2 - 10) (low + 1)
  offer : offer.toInt = min ((high + low) / 2 + 10) (high - 1)

/-- The pair is only computed from two resting prices. -/
theorem checkedPriceNewOrderPair_fits (h : bbo.Quotable) :
    ∃ prices, checkedPriceNewOrderPair bbo = some prices ∧ ∀ bid offer, prices = some (bid, offer) →
      Quotable bbo.bestBid.price ∧ Quotable bbo.bestOffer.price ∧
      PairPriced bbo.bestBid.price.toInt bbo.bestOffer.price.toInt bid offer := by
  rw [checkedPriceNewOrderPair]
  split
  · exact ⟨none, rfl, nofun⟩
  · rename_i hfull
    push Not at hfull
    obtain ⟨hbid, hoffer, -⟩ := hfull
    obtain ⟨hlow, hlow'⟩ := h.bid.resolve_left hbid
    obtain ⟨hhigh, hhigh'⟩ := h.offer.resolve_left hoffer
    have htick : minTickDiff.toInt = 1 := rfl
    have hmost : oneSidedMaxSpread.toInt = 10 := rfl
    obtain ⟨potentialOffer, hoffer, hoffer'⟩ :=
      CheckedInt.sub_fits (a := bbo.bestOffer.price) (b := minTickDiff) (by omega) (by omega)
    obtain ⟨potentialBid, hbid, hbid'⟩ :=
      CheckedInt.add_fits (a := bbo.bestBid.price) (b := minTickDiff) (by omega) (by omega)
    obtain ⟨spread, hspread, hspread'⟩ :=
      CheckedInt.sub_fits (a := potentialOffer) (b := potentialBid) (by omega) (by omega)
    have hleast : CheckedInt.mul oneSidedMinSpread 2 = some 6 := by decide
    simp only [hoffer, hbid, hspread, hleast, Option.bind_eq_bind, Option.bind_some]
    split
    · exact ⟨none, rfl, nofun⟩
    · rename_i hwide
      have hwide' : 6 ≤ spread.toInt := Int32.le_iff_toInt_le.mp (Int32.not_lt.mp hwide)
      obtain ⟨mid, hmid, hmid'⟩ :=
        checkedMidpoint_fits bbo.bestBid.price bbo.bestOffer.price (by omega) (by omega)
      rw [CheckedInt.tdiv_two_of_nonneg (by omega)] at hmid'
      obtain ⟨lowest, hlowest, hlowest'⟩ :=
        CheckedInt.sub_fits (a := mid) (b := oneSidedMaxSpread) (by omega) (by omega)
      obtain ⟨highest, hhighest, hhighest'⟩ :=
        CheckedInt.add_fits (a := mid) (b := oneSidedMaxSpread) (by omega) (by omega)
      simp only [hmid, hlowest, hhighest, Option.bind_some]
      refine ⟨_, rfl, ?_⟩
      intro bid offer hprices
      cases hprices
      refine ⟨⟨hlow, hlow'⟩, ⟨hhigh, hhigh'⟩, by omega, ?_, ?_⟩
      · rw [CheckedInt.toInt_max, hlowest', hbid', hmid', hmost, htick]
      · rw [CheckedInt.toInt_min, hhighest', hoffer', hmid', hmost, htick]

theorem priceNewOrderPair_priced (h : bbo.Quotable) {bid offer : Price}
    (hprices : priceNewOrderPair bbo = some (bid, offer)) :
    Quotable bbo.bestBid.price ∧ Quotable bbo.bestOffer.price ∧
      PairPriced bbo.bestBid.price.toInt bbo.bestOffer.price.toInt bid offer := by
  obtain ⟨prices, hchecked, hpriced⟩ := checkedPriceNewOrderPair_fits h
  rw [priceNewOrderPair_of_checked hchecked] at hpriced
  exact hpriced bid offer hprices

/-- Where both orders are placed at resting prices, only the sum of the best prices can fail. -/
theorem checkedShouldPlaceNewOrders_fits (hbuy : Quotable m.buyOrder.placedOrder.price)
    (hsell : Quotable m.sellOrder.placedOrder.price)
    (hlow : -2 ^ 31 < bbo.bestOffer.price.toInt + bbo.bestBid.price.toInt)
    (hhigh : bbo.bestOffer.price.toInt + bbo.bestBid.price.toInt < 2 ^ 31) :
    ∃ place, m.checkedShouldPlaceNewOrders bbo = some place := by
  rw [checkedShouldPlaceNewOrders]
  split
  · exact ⟨true, rfl⟩
  · obtain ⟨hbuy, hbuy'⟩ := hbuy
    obtain ⟨hsell, hsell'⟩ := hsell
    obtain ⟨mid, hmid, hmid'⟩ := checkedMidpoint_fits _ _ (Int.le_of_lt hlow) hhigh
    obtain ⟨quoted, hquoted, hquoted'⟩ :=
      checkedMidpoint_fits m.sellOrder.placedOrder.price m.buyOrder.placedOrder.price (by omega) (by omega)
    rw [CheckedInt.tdiv_two_of_nonneg (by omega)] at hquoted'
    have hbound : -2 ^ 30 < mid.toInt ∧ mid.toInt < 2 ^ 30 := by
      rw [hmid']
      rcases lt_or_ge (bbo.bestOffer.price.toInt + bbo.bestBid.price.toInt) 0 with hneg | hpos
      · rw [CheckedInt.tdiv_two_of_neg hneg]
        omega
      · rw [CheckedInt.tdiv_two_of_nonneg hpos]
        omega
    obtain ⟨drift, hdrift, hdrift'⟩ := CheckedInt.sub_fits (a := mid) (b := quoted) (by omega) (by omega)
    obtain ⟨distance, hdistance, -⟩ := CheckedInt.abs_fits (a := drift) (by rw [abs_lt]; omega)
    refine ⟨decide (maxAllowedDrift < distance), ?_⟩
    simp only [hmid, hquoted, hdrift, hdistance, Option.bind_eq_bind, Option.bind_some]
    rfl

theorem checkedQueueNewOrderPair_fits (h : bbo.Quotable) (m : PassiveMarketMaker) (buffer : StrategyOrderBuffer) :
    ∃ pair, m.checkedQueueNewOrderPair bbo buffer = some pair := by
  rw [checkedQueueNewOrderPair]
  split
  · obtain ⟨prices, hprices, -⟩ := checkedPriceNewOrderPair_fits h
    rw [hprices]
    exact ⟨_, rfl⟩
  · exact ⟨none, rfl⟩

/-- Behind `should_place_new_orders` nothing overflows. -/
theorem checkedGetOrders_fits (h : bbo.Quotable) {place : Bool}
    (hplace : m.checkedShouldPlaceNewOrders bbo = some place) (buffer : StrategyOrderBuffer) :
    ∃ result, m.checkedGetOrders bbo buffer = some result := by
  simp only [checkedGetOrders, hplace, Option.bind_eq_bind, Option.bind_some]
  split
  · exact ⟨_, rfl⟩
  · split
    · exact ⟨_, rfl⟩
    · split
      · exact ⟨none, rfl⟩
      · rename_i queued m₁ buffer₁ _
        split
        · exact ⟨_, rfl⟩
        · obtain ⟨pair, hpair⟩ := checkedQueueNewOrderPair_fits h m₁ buffer₁
          rw [hpair]
          exact ⟨_, rfl⟩

/-- The best bid is added to the price that stands for no offer. -/
def AddsNoOffer (m : PassiveMarketMaker) (bbo : OrderSnapshot) : Prop :=
  m.buyOrder.status = .placed ∧ m.sellOrder.status = .placed ∧
    bbo.bestOffer.price = noOffer ∧ bbo.bestBid.price ≠ noBid

instance (m : PassiveMarketMaker) (bbo : OrderSnapshot) : Decidable (m.AddsNoOffer bbo) :=
  inferInstanceAs (Decidable (_ ∧ _))

theorem AddsNoOffer.overflows (hadds : m.AddsNoOffer bbo) (h : bbo.Quotable) (buffer : StrategyOrderBuffer) :
    m.checkedGetOrders bbo buffer = none := by
  obtain ⟨hbuy, hsell, hoffer, hbid⟩ := hadds
  have hlow := (h.bid.resolve_left hbid).1
  have hsum : CheckedInt.add bbo.bestOffer.price bbo.bestBid.price = none := by
    rw [CheckedInt.add, hoffer]
    refine CheckedInt.exact_eq_none ?_
    rw [show noOffer.toInt = 2 ^ 31 - 1 from rfl]
    omega
  have hplace : m.checkedShouldPlaceNewOrders bbo = none := by
    rw [checkedShouldPlaceNewOrders, if_neg (by simp [hbuy, hsell]), checkedMidpoint, hsum]
    rfl
  rw [checkedGetOrders, hplace]
  rfl

/-- The sum of the best prices fits, unless there is a bid and no offer. -/
theorem sum_fits (h : bbo.Quotable) (hsides : bbo.bestOffer.price = noOffer → bbo.bestBid.price = noBid) :
    -2 ^ 31 < bbo.bestOffer.price.toInt + bbo.bestBid.price.toInt ∧
      bbo.bestOffer.price.toInt + bbo.bestBid.price.toInt < 2 ^ 31 := by
  have hnoBid : noBid.toInt = -2 ^ 31 := rfl
  have hnoOffer : noOffer.toInt = 2 ^ 31 - 1 := rfl
  rcases h.offer with hoffer | ⟨hhigh, hhigh'⟩
  · rw [hoffer, hsides hoffer]
    omega
  · rcases h.bid with hbid | ⟨hlow, hlow'⟩
    · rw [hbid]
      omega
    · omega

/-- With quotes at resting prices, that sum is the only one that overflows. -/
theorem checkedGetOrders_isSome_iff (hm : ∀ side, (m.order side).status = .placed →
      Quotable (m.order side).placedOrder.price) (h : bbo.Quotable) (buffer : StrategyOrderBuffer) :
    (m.checkedGetOrders bbo buffer).isSome ↔ ¬ m.AddsNoOffer bbo := by
  constructor
  · intro hsome hadds
    rw [hadds.overflows h buffer] at hsome
    cases hsome
  · intro hadds
    have hplace : ∃ place, m.checkedShouldPlaceNewOrders bbo = some place := by
      by_cases hplaced : m.buyOrder.status = .placed ∧ m.sellOrder.status = .placed
      · obtain ⟨hlow, hhigh⟩ := sum_fits h fun hoffer => not_not.mp fun hbid =>
          hadds ⟨hplaced.1, hplaced.2, hoffer, hbid⟩
        exact checkedShouldPlaceNewOrders_fits (hm .buy hplaced.1) (hm .sell hplaced.2) hlow hhigh
      · refine ⟨true, ?_⟩
        rw [checkedShouldPlaceNewOrders, if_pos]
        cases hbuy : m.buyOrder.status with
        | notPlaced => exact Or.inl rfl
        | placed =>
          cases hsell : m.sellOrder.status with
          | notPlaced => exact Or.inr rfl
          | placed => exact absurd ⟨hbuy, hsell⟩ hplaced
    obtain ⟨place, hplace⟩ := hplace
    obtain ⟨result, hresult⟩ := checkedGetOrders_fits h hplace buffer
    rw [hresult]
    rfl

end PassiveMarketMaker

end HftPipeline
