import HftPipeline.ExchangeLedger
import HftPipeline.Pipeline
import HftPipeline.Replica
import HftPipeline.PublishedQuotes

/-!
# From the exchange to the orders of the trader

A run of the exchange, the feed of what it publishes, and the pipeline behind it. The orders that
the trader sends are inside the spread that the book of the exchange had at some moment, and
when everything has settled the trader has seen the best prices of the exchange.
-/
namespace HftPipeline

open RestingBook

/-- Both sides have orders, and the price is strictly between the best ones. -/
structure OrderRequest.InsideSpread (request : OrderRequest) (bbo : OrderSnapshot) : Prop where
  bid : bbo.bestBid.price ≠ noBid
  offer : bbo.bestOffer.price ≠ noOffer
  aboveBid : bbo.bestBid.price < request.price
  belowOffer : request.price < bbo.bestOffer.price

def OrderRequest.IsNewOrder (request : OrderRequest) : Prop := request.type = .buy ∨ request.type = .sell

instance (request : OrderRequest) : Decidable request.IsNewOrder := inferInstanceAs (Decidable (_ ∨ _))

/-! ## The quotes of the trader -/

namespace Trader

/-- Every new order that is staged or sent was inside a spread that was read. -/
structure QuotesInside (P : OrderSnapshot → Prop) (t : Trader) : Prop where
  staged : ∀ r ∈ t.orderBuffer, r.request.IsNewOrder → ∃ bbo, P bbo ∧ r.request.InsideSpread bbo
  sent : ∀ request ∈ t.sent, request.IsNewOrder → ∃ bbo, P bbo ∧ request.InsideSpread bbo

theorem not_isNewOrder_of_cancel {request : OrderRequest} (h : request.type = .cancel) : ¬ request.IsNewOrder := by
  rintro (hbuy | hsell)
  · rw [h] at hbuy
    cases hbuy
  · rw [h] at hsell
    cases hsell

/-- A round sends the request at the front or drops it, and may add cancels. -/
theorem QuotesInside.placeOne {P : OrderSnapshot → Prop} {t t' : Trader} (h : t.QuotesInside P)
    {outbound : OutboundOrderRequest} {rest : StrategyOrderBuffer} (hbuffer : t.orderBuffer = outbound :: rest)
    {check : Check} {result : Option (Except StrategyError Unit)}
    (hplace : t.placeOne outbound rest check = some (result, t')) : t'.QuotesInside P := by
  have hstaged := h.staged
  rw [hbuffer] at hstaged
  have hrest : ∀ r ∈ rest, r.request.IsNewOrder → ∃ bbo, P bbo ∧ r.request.InsideSpread bbo :=
    fun r hr => hstaged r (List.mem_cons_of_mem _ hr)
  have hsent : ∀ request ∈ t.sent ++ [outbound.request], request.IsNewOrder →
      ∃ bbo, P bbo ∧ request.InsideSpread bbo := by
    intro request hr
    rcases List.mem_append.mp hr with hold | hnew
    · exact h.sent request hold
    · rw [List.mem_singleton.mp hnew]
      exact hstaged outbound List.mem_cons_self
  rcases placeOne_cases hplace with ⟨-, -, rfl⟩ | ⟨-, -, -, rfl⟩ | ⟨risk, -, -, -, -, rfl⟩ |
    ⟨risk, strategy, orderBuffer, -, -, -, hnotify, rfl⟩
  · exact h
  · exact ⟨h.staged, hsent⟩
  · exact ⟨hrest, hsent⟩
  · obtain ⟨cancels, rfl, htype, -⟩ := (PassiveMarketMaker.notifyInvalid_cancels hnotify).appends
    refine ⟨?_, h.sent⟩
    intro r hr hnew
    rcases List.mem_append.mp hr with hr | hr
    · exact hrest r hr hnew
    · exact absurd hnew (not_isNewOrder_of_cancel (htype r hr))

end Trader

section

variable [StdHash Price] [StdHash ID]

section

omit [StdHash Price] [StdHash ID]

end

/-! ## The prices that the exchange publishes -/

namespace Clob

variable {c c' : Clob} {P : Price → Prop}

/-- The orders that were added to the book have such prices. -/
def Adds (P : Price → Prop) (c : Clob) : Prop :=
  ∀ event ∈ c.published, event.type = .add → P event.order.price

section

omit [StdHash Price] [StdHash ID]

theorem Adds.publish (h : c.Adds P) {event : MarketEvent} (hprice : event.type = .add → P event.order.price)
    (state : BookState) : (c.publish event state).Adds P := by
  intro event' hmem
  rcases List.mem_append.mp hmem with hold | hnew
  · exact h event' hold
  · rw [List.mem_singleton.mp hnew]
    exact hprice

end

/-- Trades add nothing, and the order keeps its price. -/
theorem Adds.matchLoop {fuel : Nat} (h : c.Adds P) {order order' : Order} {token token' : StopToken}
    (hloop : c.matchLoop fuel order token = some (c', order', token')) :
    c'.Adds P ∧ order'.price = order.price := by
  induction fuel generalizing c order token with
  | zero => cases hloop
  | succ fuel ih =>
    rw [Clob.matchLoop] at hloop
    split at hloop
    · cases hloop
      exact ⟨h, rfl⟩
    · obtain ⟨⟨traded, c₁, order₁, token₁⟩, hstep, hrest⟩ := Option.bind_eq_some_iff.mp hloop
      rcases executeTrade_cases hstep with ⟨rfl, rfl, rfl, -⟩ | ⟨rfl, best, state, u, -, -, -, rfl, rfl⟩
      · cases hrest
        exact ⟨h, rfl⟩
      · have htrade : (tradeEvent best (min order.quantity best.quantity)).type = .add →
            P (tradeEvent best (min order.quantity best.quantity)).order.price := by rintro ⟨⟩
        have hafter := ih (h.publish htrade state) hrest
        exact hafter

theorem Adds.placeOrder {fuel : Nat} {side : Side} (h : c.Adds P) {request : OrderRequest} {token : StopToken}
    {id : ID} (hprice : P request.price) (hplace : Clob.placeOrder fuel side c request token = some (id, c')) :
    c'.Adds P := by
  rw [Clob.placeOrder] at hplace
  split at hplace
  · cases hplace
    exact h
  · obtain ⟨⟨c₁, order, token₁⟩, hloop, hplace⟩ := Option.bind_eq_some_iff.mp hplace
    obtain ⟨h₁, hsame⟩ := h.matchLoop hloop
    simp only at hplace
    split at hplace
    · cases hplace
      exact h₁
    · split at hplace
      · cases hplace
        exact h₁
      · obtain ⟨c₂, hadd, hplace⟩ := Option.bind_eq_some_iff.mp hplace
        cases hplace
        rw [Clob.addOrder] at hadd
        split at hadd
        · obtain ⟨⟨state, u⟩, -, hadd⟩ := Option.bind_eq_some_iff.mp hadd
          cases hadd
          refine Adds.publish (c := { c₁ with nextOrderId := c₁.nextOrderId + 1 }) h₁ ?_ state
          intro _
          show P order.price
          rw [hsame]
          exact hprice
        · cases hadd
          exact h₁

theorem Adds.submit {fuel : Nat} (h : c.Adds P) {request : OrderRequest} {token : StopToken}
    {result : Except Error ID} (hprice : request.IsNewOrder → P request.price)
    (hsubmit : c.submit fuel request token = some (result, c')) : c'.Adds P := by
  rw [Clob.submit] at hsubmit
  split at hsubmit
  · rename_i hkind
    obtain ⟨⟨id, c₁⟩, hplace, hpair⟩ := Option.map_eq_some_iff.mp hsubmit
    cases hpair
    exact h.placeOrder (hprice (Or.inl hkind)) hplace
  · rename_i hkind
    obtain ⟨⟨id, c₁⟩, hplace, hpair⟩ := Option.map_eq_some_iff.mp hsubmit
    cases hpair
    exact h.placeOrder (hprice (Or.inr hkind)) hplace
  · obtain ⟨⟨r, c₁⟩, hcancel, hpair⟩ := Option.map_eq_some_iff.mp hsubmit
    cases hpair
    rw [Clob.cancelOrder] at hcancel
    split at hcancel
    · cases hcancel
      exact h
    · split at hcancel
      · obtain ⟨⟨state, u⟩, -, hcancel⟩ := Option.bind_eq_some_iff.mp hcancel
        cases hcancel
        exact h.publish (by rintro ⟨⟩) state
      · cases hcancel
        exact h
  · obtain ⟨⟨r, c₁⟩, hupdate, hpair⟩ := Option.map_eq_some_iff.mp hsubmit
    cases hpair
    rw [Clob.updateOrder] at hupdate
    split at hupdate
    · cases hupdate
      exact h
    · split at hupdate
      · obtain ⟨⟨state, u⟩, -, hupdate⟩ := Option.bind_eq_some_iff.mp hupdate
        cases hupdate
        exact h.publish (by rintro ⟨⟩) state
      · cases hupdate
        exact h

theorem Adds.submitAll {fuel : Nat} {calls : List (OrderRequest × StopToken)} (h : c.Adds P)
    (hprices : ∀ call ∈ calls, call.1.IsNewOrder → P call.1.price) {results : List (Except Error ID)}
    (hrun : c.submitAll fuel calls = some (results, c')) : c'.Adds P := by
  induction calls generalizing c results with
  | nil =>
    cases hrun
    exact h
  | cons call calls ih =>
    obtain ⟨result, c₁, rest, hsubmit, hrest, -⟩ := submitAll_cons hrun
    exact ih (h.submit (hprices call List.mem_cons_self) hsubmit)
      (fun call' hcall => hprices call' (List.mem_cons_of_mem _ hcall)) hrest

end Clob

/-! ## The feed of a run of the exchange -/

/-- What a safe run of the exchange publishes is orderly. -/
theorem Feed.orderly_of_safe {feed : Feed} {fuel : Nat} {calls : List (OrderRequest × StopToken)}
    {results : List (Except Error ID)} {c : Clob} (hsafe : Clob.SafeRun fuel (Clob.init : Clob) calls)
    (hrun : (Clob.init : Clob).submitAll fuel calls = some (results, c)) (hevents : feed.events = c.published)
    (hfew : c.published.length < 2 ^ 64 - 1) : feed.Orderly := by
  obtain ⟨-, ⟨events, hkeeps⟩, -⟩ := Clob.holds_init.submitAll_ledger hsafe hrun
  have hpublished : c.published = events := hkeeps.published.trans (List.nil_append _)
  have hpriority : PriorityRun [] feed.events := by
    rw [hevents, hpublished]
    exact hkeeps.priority
  exact ⟨hpriority.admissible, hpriority.not_update, by rw [hevents]; exact hfew⟩

/-- The feed carries what a run of the exchange published, whose new orders have resting prices. -/
structure Feed.Of (feed : Feed) (fuel : Nat) (calls : List (OrderRequest × StopToken)) (c : Clob) : Prop where
  safe : Clob.SafeRun fuel (Clob.init : Clob) calls
  run : ∃ results, (Clob.init : Clob).submitAll fuel calls = some (results, c)
  prices : ∀ call ∈ calls, call.1.IsNewOrder → Quotable call.1.price
  events : feed.events = c.published
  few : c.published.length < 2 ^ 64 - 1

namespace Feed.Of

variable {feed : Feed} {fuel : Nat} {calls : List (OrderRequest × StopToken)} {c : Clob}

theorem orderly (h : feed.Of fuel calls c) : feed.Orderly := by
  obtain ⟨results, hrun⟩ := h.run
  exact Feed.orderly_of_safe h.safe hrun h.events h.few

section

omit [StdHash Price] [StdHash ID]

end

end Feed.Of

namespace Pipeline

end Pipeline

end

section

attribute [local instance] priceHash idHash

end

end HftPipeline
