import HftPipeline.QuoteBounds

/-!
# Quotes on published prices

The best prices that a book publishes, and the states that the trader comes to by reading them.
There `get_orders` overflows in one case: both orders are placed, the offers are gone, and the
best bid is added to the price that stands for no offer.
-/
namespace HftPipeline

section

variable [StdHash Price] [StdHash ID]

/-- A snapshot of a book in which all orders that were added have resting prices. -/
def BookState.Publishes (bbo : OrderSnapshot) : Prop :=
  ∃ events s, (∀ event ∈ events, event.type = .add → Quotable event.order.price) ∧
    (BookState.init : BookState).executeAll events = some s ∧ s.snapshot = bbo

theorem BookState.Publishes.quotable {bbo : OrderSnapshot} (h : BookState.Publishes bbo) : bbo.Quotable := by
  obtain ⟨events, s, hadded, hrun, rfl⟩ := h
  have hprices := (BookState.pricesAre_init (P := Quotable)).executeAll hadded hrun
  exact ⟨hprices.bid, hprices.offer⟩

namespace Trader

section

omit [StdHash Price] [StdHash ID]

theorem Visits.mono {P Q : OrderSnapshot → Prop} (himp : ∀ bbo, P bbo → Q bbo) {t : Trader} (ht : t.Visits P) :
    t.Visits Q := by
  induction ht with
  | start => exact .start
  | snapshot _ hbbo hstage ih => exact ih.snapshot (himp _ hbbo) hstage
  | report _ hstage ih => exact ih.report hstage
  | round _ hbuffer hplace ih => exact ih.round hbuffer hplace

end

/-- In every state that the trader comes to by reading published prices, and for every snapshot
that is published next, no operation of `get_orders` overflows exactly if the best bid is
not added to the price that stands for no offer. -/
theorem getOrders_fits_iff (t : Trader) (ht : t.Visits BookState.Publishes) (bbo : OrderSnapshot)
    (hbbo : BookState.Publishes bbo) :
    (t.strategy.checkedGetOrders bbo t.orderBuffer).isSome ↔ ¬ t.strategy.AddsNoOffer bbo := by
  have hbounded := (ht.mono fun _ h => h.quotable).bounded
  exact PassiveMarketMaker.checkedGetOrders_isSome_iff (fun side hplaced => (hbounded.orders side hplaced).price)
    hbbo.quotable t.orderBuffer

end Trader

end

section

attribute [local instance] priceHash idHash

/-- A bid and an offer come to rest, and then the offer is cancelled. -/
def offerLeaves : List MarketEvent :=
  [⟨⟨1, 100, 10, .buy⟩, .add⟩, ⟨⟨2, 120, 10, .sell⟩, .add⟩, ⟨⟨2, 0, 0, .sell⟩, .cancel⟩]

theorem publishes_offerLeaves : BookState.Publishes ⟨⟨100, 10⟩, ⟨120, 10⟩⟩ ∧
    BookState.Publishes ⟨⟨100, 10⟩, ⟨noOffer, 0⟩⟩ := by
  have hboth : ((BookState.init : BookState).executeAll (offerLeaves.take 2)).map (·.snapshot) =
      some ⟨⟨100, 10⟩, ⟨120, 10⟩⟩ := by
    decide +kernel
  have hone : ((BookState.init : BookState).executeAll offerLeaves).map (·.snapshot) =
      some ⟨⟨100, 10⟩, ⟨noOffer, 0⟩⟩ := by
    decide +kernel
  obtain ⟨s, hrun, hs⟩ := Option.map_eq_some_iff.mp hboth
  obtain ⟨s', hrun', hs'⟩ := Option.map_eq_some_iff.mp hone
  exact ⟨⟨_, s, by decide, hrun, hs⟩, ⟨_, s', by decide, hrun', hs'⟩⟩

/-- The trader quotes 101 and 119 between the bid and the offer. -/
theorem visits_quoted : ∃ t, Trader.init.run [.snapshot ⟨⟨100, 10⟩, ⟨120, 10⟩⟩ openChecks] = some t ∧
    t.Visits BookState.Publishes ∧ t.orderBuffer = [] ∧
    t.strategy.buyOrder = ⟨.placed, ⟨1, 101, 75, .buy⟩⟩ ∧ t.strategy.sellOrder = ⟨.placed, ⟨2, 119, 75, .sell⟩⟩ := by
  have horders : (Trader.init.run [.snapshot ⟨⟨100, 10⟩, ⟨120, 10⟩⟩ openChecks]).map
      (fun t => (t.orderBuffer, t.strategy.buyOrder, t.strategy.sellOrder)) =
        some ([], ⟨.placed, ⟨1, 101, 75, .buy⟩⟩, ⟨.placed, ⟨2, 119, 75, .sell⟩⟩) := by
    decide +kernel
  obtain ⟨t, hrun, ht⟩ := Option.map_eq_some_iff.mp horders
  simp only [Prod.mk.injEq] at ht
  refine ⟨t, hrun, Trader.Visits.start.run ?_ hrun, ht⟩
  intro bbo checks hmem
  simp only [List.mem_singleton, TraderEvent.snapshot.injEq] at hmem
  rw [hmem.1]
  exact publishes_offerLeaves.1

/-- The same snapshot again is compared with the quotes; the next one, without the offer, is not. -/
theorem getOrders_fits_iff_quoted : ∃ t : Trader, t.Visits BookState.Publishes ∧
    (t.strategy.checkedGetOrders ⟨⟨100, 10⟩, ⟨120, 10⟩⟩ t.orderBuffer).isSome ∧
    ¬ (t.strategy.checkedGetOrders ⟨⟨100, 10⟩, ⟨noOffer, 0⟩⟩ t.orderBuffer).isSome := by
  obtain ⟨t, -, hvisits, -, hbuy, hsell⟩ := visits_quoted
  refine ⟨t, hvisits, (Trader.getOrders_fits_iff t hvisits _ publishes_offerLeaves.1).mpr ?_, fun hfits => ?_⟩
  · rintro ⟨-, -, hoffer, -⟩
    exact absurd hoffer (by decide)
  · refine (Trader.getOrders_fits_iff t hvisits _ publishes_offerLeaves.2).mp hfits ⟨?_, ?_, rfl, by decide⟩
    · rw [hbuy]
    · rw [hsell]

/-- With both orders placed and the offer gone, `2 ^ 31 - 1` and 100 are added. -/
theorem getOrders_overflows_quoted :
    ¬ ∀ (t : Trader) (bbo : OrderSnapshot), t.Visits BookState.Publishes → BookState.Publishes bbo →
      (t.strategy.checkedGetOrders bbo t.orderBuffer).isSome := by
  intro h
  obtain ⟨t, -, hvisits, hbuffer, hbuy, hsell⟩ := visits_quoted
  have hfits := h t _ hvisits publishes_offerLeaves.2
  rw [PassiveMarketMaker.AddsNoOffer.overflows ⟨by rw [hbuy], by rw [hsell], rfl, by decide⟩
    publishes_offerLeaves.2.quotable] at hfits
  cases hfits

end

end HftPipeline
