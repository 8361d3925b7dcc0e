import HftPipeline.Session

/-!
# The outbound stream

What is published together with what is staged is one stream: forwarding moves a
request from one part to the other, and a rejection takes it out of the middle. In
that stream every cancel and update is about an order that is open, and each side
has at most one quote, the one the strategy has placed. Taking out a new order
leaves the requests about it that wait behind it without an order.
-/
namespace HftPipeline

open History

def stream (past : List Moment) (buffer : StrategyOrderBuffer) : List Moment :=
  past ++ buffer.map fun r => .published r.request

theorem stream_nil (past : List Moment) : stream past [] = past := List.append_nil past

theorem stream_concat (past : List Moment) (buffer : StrategyOrderBuffer) (r : OutboundOrderRequest) :
    stream past (buffer ++ [r]) = stream past buffer ++ [.published r.request] := by
  simp [stream]

theorem stream_forward (past : List Moment) (r : OutboundOrderRequest) (rest : StrategyOrderBuffer) :
    stream (past ++ [.published r.request]) rest = stream past (r :: rest) := by
  simp [stream]

theorem stream_cons (past : List Moment) (r : OutboundOrderRequest) (rest : StrategyOrderBuffer) :
    stream past (r :: rest) = past ++ .published r.request :: rest.map fun r => .published r.request := rfl

/-- The strategy and the staged requests are numbered by side. -/
structure Numbering (m : PassiveMarketMaker) (buffer : StrategyOrderBuffer) : Prop where
  strategy : m.Numbered
  requests : ∀ r ∈ buffer, r.Numbered

theorem Numbering.move {m m' : PassiveMarketMaker} {buffer buffer' : StrategyOrderBuffer}
    (h : Numbering m buffer) (hmove : PassiveMarketMaker.Move (m, buffer) (m', buffer')) :
    Numbering m' buffer' := by
  obtain ⟨hstrategy, hrequests⟩ := h.strategy.move hmove
  exact ⟨hstrategy, fun r hr => (hrequests r hr).elim (h.requests r) id⟩

theorem Numbering.tail {m m' : PassiveMarketMaker} {r : OutboundOrderRequest} {rest : StrategyOrderBuffer}
    (h : Numbering m (r :: rest)) (hkeeps : m.Keeps m') : Numbering m' rest :=
  ⟨h.strategy.keeps hkeeps, fun r' hr => h.requests r' (List.mem_cons_of_mem _ hr)⟩

/-! ## Cancels and updates name open orders -/

namespace Moment

/-- A buy or sell request of the id. -/
def Orders (id : ID) : Moment → Prop
  | .published r => (r.type = .buy ∨ r.type = .sell) ∧ r.orderId = id
  | .exhausted _ => False

/-- A cancel request of the id. -/
def Cancels (id : ID) : Moment → Prop
  | .published r => r.type = .cancel ∧ r.orderId = id
  | .exhausted _ => False

/-- A cancel or an update names an id whose order was published earlier and for which no
cancel has been published since. -/
def NamesOrdered (earlier : List Moment) : Moment → Prop
  | .published r => r.type = .cancel ∨ r.type = .update → Since (Orders r.orderId) (Cancels r.orderId) earlier
  | .exhausted _ => True

end Moment

/-- No cancel or update of a new order that is rejected waits behind it. -/
def Trader.Round.NothingBehind (r : Trader.Round) : Prop :=
  r.outbound.request.type = .buy ∨ r.outbound.request.type = .sell →
  evaluateRisk r.outbound r.check.risk ≠ .good ∧ evaluateRisk r.outbound r.check.risk ≠ .stopped →
  ∀ later ∈ r.rest, later.request.type = .cancel ∨ later.request.type = .update →
    later.request.orderId ≠ r.outbound.request.orderId

instance : DecidablePred Trader.Round.NothingBehind := fun _ => inferInstanceAs (Decidable (_ → _ → _))

structure WellFormed (m : PassiveMarketMaker) (past : List Moment) (buffer : StrategyOrderBuffer) : Prop where
  numbered : Numbering m buffer
  names : Always Moment.NamesOrdered (stream past buffer)
  placed : ∀ side, (m.order side).status = .placed →
    Since (Moment.Orders (m.order side).placedOrder.orderId) (Moment.Cancels (m.order side).placedOrder.orderId)
      (stream past buffer)

theorem Moment.not_orders {r : OrderRequest} {id : ID} (h : r.type = .cancel ∨ r.type = .update) :
    ¬ Moment.Orders id (.published r) := by
  rintro ⟨hbuy | hsell, -⟩
  · rw [hbuy] at h
    rcases h with h | h <;> cases h
  · rw [hsell] at h
    rcases h with h | h <;> cases h

theorem wellFormed_cancel {m m' : PassiveMarketMaker} {past : List Moment} {buffer buffer' : StrategyOrderBuffer}
    (hcancel : PassiveMarketMaker.Cancel (m, buffer) (m', buffer')) (h : WellFormed m past buffer) :
    WellFormed m' past buffer' := by
  have hnumbered := h.numbered.move (.cancel hcancel)
  cases hcancel with
  | intro _ _ side placed =>
    refine ⟨hnumbered, ?_, ?_⟩
    · rw [stream_concat, always_concat]
      exact ⟨h.names, fun _ => h.placed side placed⟩
    · intro side' hplaced
      rw [stream_concat, since_concat]
      rcases Side.eq_or_opposite side' side with rfl | rfl
      · simp at hplaced
      · rw [PassiveMarketMaker.order_setOrder_opposite] at hplaced ⊢
        exact Or.inr ⟨h.placed side.opposite hplaced,
          fun hcancels => opposite_id_ne h.numbered.strategy placed hcancels.2⟩

theorem wellFormed_resize {m m' : PassiveMarketMaker} {past : List Moment} {buffer buffer' : StrategyOrderBuffer}
    (hresize : PassiveMarketMaker.Resize (m, buffer) (m', buffer')) (h : WellFormed m past buffer) :
    WellFormed m' past buffer' := by
  cases hresize with
  | intro _ _ side placed needed change =>
    refine ⟨h.numbered.move (.resize m buffer side placed needed change), ?_, ?_⟩
    · rw [stream_concat, always_concat]
      exact ⟨h.names, fun _ => h.placed side placed⟩
    · intro side' hplaced
      rw [stream_concat, since_concat]
      refine Or.inr ⟨?_, fun hcancels => by cases hcancels.1⟩
      rcases Side.eq_or_opposite side' side with rfl | rfl
      · rw [PassiveMarketMaker.order_setOrder_self]
        exact h.placed side' placed
      · rw [PassiveMarketMaker.order_setOrder_opposite] at hplaced ⊢
        exact h.placed side.opposite hplaced

theorem wellFormed_pair {m : PassiveMarketMaker} {past : List Moment} {buffer : StrategyOrderBuffer}
    (bid offer : Price) (hfree : ∀ side, (m.order side).status = .notPlaced) (h : WellFormed m past buffer) :
    WellFormed (m.withNewPair bid offer) past
      (buffer ++ [(m.withNewPair bid offer).buyOrder.newOrderRequest,
        (m.withNewPair bid offer).sellOrder.newOrderRequest]) := by
  have hnumbered := h.numbered.move (.pair m buffer bid offer hfree)
  rw [List.append_cons] at hnumbered ⊢
  refine ⟨hnumbered, ?_, ?_⟩
  · rw [stream_concat, always_concat, stream_concat, always_concat]
    refine ⟨⟨h.names, fun htype => ?_⟩, fun htype => ?_⟩
    · rcases htype with htype | htype <;> cases htype
    · rcases htype with htype | htype <;> cases htype
  · intro side _
    rw [stream_concat, since_concat, stream_concat, since_concat]
    cases side with
    | buy => exact Or.inr ⟨Or.inl ⟨Or.inl rfl, rfl⟩, fun hcancels => by cases hcancels.1⟩
    | sell => exact Or.inl ⟨Or.inr rfl, rfl⟩

/-- A rejected request leaves the stream well formed when nothing behind it needs it. -/
theorem wellFormed_reject {m : PassiveMarketMaker} {past : List Moment} {r : OutboundOrderRequest}
    {rest : StrategyOrderBuffer} (hcancel : r.request.type ≠ .cancel)
    (hbehind : r.request.type = .buy ∨ r.request.type = .sell → ∀ later ∈ rest,
      later.request.type = .cancel ∨ later.request.type = .update → later.request.orderId ≠ r.request.orderId)
    (h : WellFormed m past (r :: rest)) : WellFormed (m.undo r) past rest := by
  have hkeeps := PassiveMarketMaker.keeps_undo m r
  have hstream := h.names
  rw [stream_cons] at hstream
  -- the request closes nothing, and opens nothing but its own id
  have hskip : ∀ id between, (r.request.type = .update ∨ r.request.orderId ≠ id) →
      (Since (Moment.Orders id) (Moment.Cancels id) (past ++ .published r.request :: between) ↔
        Since (Moment.Orders id) (Moment.Cancels id) (past ++ between)) := by
    intro id between hother
    refine since_skip ?_ (fun hcancels => hcancel hcancels.1) past between
    rcases hother with hupdate | hne
    · exact Moment.not_orders (Or.inr hupdate)
    · exact fun horders => hne horders.2
  have hnew : r.request.type = .update ∨ r.request.type = .buy ∨ r.request.type = .sell := by
    cases htype : r.request.type with
    | buy => simp
    | sell => simp
    | cancel => exact absurd htype hcancel
    | update => simp
  refine ⟨h.numbered.tail hkeeps, ?_, ?_⟩
  · refine hstream.skip ?_
    intro between b later hsplit hb
    obtain ⟨l₁, l₂, rfl, rfl, hl₂⟩ := List.map_eq_append_iff.mp hsplit
    obtain ⟨r', l₃, rfl, rfl, -⟩ := List.map_eq_cons_iff.mp hl₂
    intro htype
    refine (hskip _ _ ?_).mp (hb htype)
    rcases hnew with hupdate | hnew
    · exact Or.inl hupdate
    · exact Or.inr (Ne.symm (hbehind hnew r' (by simp) htype))
  · intro side hplaced
    have hold := hkeeps.placed side hplaced
    have hsince := h.placed side hold
    rw [stream_cons] at hsince
    rw [hkeeps.id side]
    refine (hskip _ _ ?_).mp hsince
    rcases hnew with hupdate | hnew
    · exact Or.inl hupdate
    · right
      intro hid
      -- a new order with the id of a placed one is on its side, so the rejection undoes it
      have hr := h.numbered.requests r List.mem_cons_self
      have hside : r.side = side := by
        have hparity := hr.parity
        rw [hid, h.numbered.strategy.parity hold] at hparity
        exact Side.parity_inj hparity.symm
      have htype : r.request.type = side.orderType := by
        rw [← hside]
        rcases hnew with hbuy | hsell
        · rw [hr.buy hbuy]
          exact hbuy
        · rw [hr.sell hsell]
          exact hsell
      rw [undo_new htype hid] at hplaced
      cases hplaced

theorem wellFormed_fill {m : PassiveMarketMaker} {past : List Moment} {u : OrderFillUpdate} {side : Side}
    (h : WellFormed m past []) :
    WellFormed (m.applyFill side u.filledQuantity)
      (past ++ if ((m.applyFill side u.filledQuantity).order side).placedOrder.quantity = 0 then
        [.exhausted u.orderId] else []) [] := by
  have hkeeps := PassiveMarketMaker.keeps_applyFill m side u.filledQuantity
  have hnames := h.names
  have hplaced := h.placed
  rw [stream_nil] at hnames hplaced
  refine ⟨⟨h.numbered.strategy.keeps hkeeps, by simp⟩, ?_, ?_⟩
  · rw [stream_nil]
    split
    · exact (always_concat past _).mpr ⟨hnames, trivial⟩
    · rwa [List.append_nil]
  · intro side' hplaced'
    have hsince := hplaced side' (hkeeps.placed side' hplaced')
    rw [stream_nil, hkeeps.id]
    split
    · exact (since_concat past _).mpr (Or.inr ⟨hsince, id⟩)
    · rwa [List.append_nil]

theorem wellFormed_kept : Kept Trader.Round.NothingBehind WellFormed where
  cancel := wellFormed_cancel
  resize := wellFormed_resize
  pair := fun bid offer hfree _ => wellFormed_pair bid offer hfree
  forward := fun {m past r rest} h =>
    ⟨h.numbered.tail (PassiveMarketMaker.keeps_refl m), by rw [stream_forward]; exact h.names,
      by rw [stream_forward]; exact h.placed⟩
  reject := fun round hround hcancel hrejected h =>
    wellFormed_reject hcancel (fun hnew => hround hnew hrejected) h
  fill := fun _ => wellFormed_fill

/-- In every session in which no cancel or update waits behind a new order that is
rejected: every published cancel and update names an order that was published before
and not cancelled since. -/
theorem Session.published_names_ordered (events : List TraderEvent) (s : Session)
    (hstart : Session.start events .init = some s)
    (hrounds : Session.EveryRound Trader.Round.NothingBehind events .init) :
    Always Moment.NamesOrdered s.moments := by
  have hinit : WellFormed .init [] [] :=
    ⟨⟨PassiveMarketMaker.numbered_init, by simp⟩, always_nil _, by rintro (_ | _) h <;> cases h⟩
  exact (wellFormed_kept.start hinit hrounds hstart).names.of_append

/-- Risk data of a halt. -/
def haltedCheck : Check := ⟨some ⟨0, 0, 0, 0, 1000, -1, 1, true⟩, true⟩

/-- A new pair, with the checks that judge its requests. -/
def pairEvent (checks : List Check) : TraderEvent := .snapshot ⟨⟨100, 5⟩, ⟨120, 5⟩⟩ checks

/-- A halt that ends after the buy: the sell is published and then its cancel. A fill of
the next buy then resizes both orders. -/
def endedHaltRun : List TraderEvent :=
  [pairEvent [haltedCheck, passingCheck true, passingCheck true],
    pairEvent [passingCheck true, passingCheck true],
    .report ⟨3, 60⟩ [passingCheck true, passingCheck true]]

def endedHaltMoments : List Moment :=
  [.published ⟨2, 119, 75, .sell⟩, .published ⟨2, 0, 0, .cancel⟩, .published ⟨3, 101, 75, .buy⟩,
    .published ⟨4, 119, 75, .sell⟩, .published ⟨3, 0, 25, .update⟩, .published ⟨4, 0, 135, .update⟩]

theorem published_names_ordered_endedHaltRun :
    ∃ s, Session.start endedHaltRun .init = some s ∧
      Session.EveryRound Trader.Round.NothingBehind endedHaltRun .init ∧
      Always Moment.NamesOrdered s.moments ∧
      s.moments = endedHaltMoments := by
  have hrounds : Session.EveryRound Trader.Round.NothingBehind endedHaltRun .init := by decide +kernel
  have hmoments : (Session.start endedHaltRun .init).map (·.moments) = some endedHaltMoments := by
    decide +kernel
  obtain ⟨s, hstart, hs⟩ := Option.map_eq_some_iff.mp hmoments
  exact ⟨s, hstart, hrounds, Session.published_names_ordered _ s hstart hrounds, hs⟩

/-- In a halt that lasts, the rejected buy cancels the sell, the sell is rejected too, and
the cancel of an order that was never published goes out. -/
theorem halted_pair_cancels_unpublished :
    ∃ s, Session.start [pairEvent [haltedCheck, haltedCheck, haltedCheck]] .init = some s ∧
      s.moments = [.published ⟨2, 0, 0, .cancel⟩] ∧ ¬ Always Moment.NamesOrdered s.moments := by
  have hmoments : (Session.start [pairEvent [haltedCheck, haltedCheck, haltedCheck]] .init).map (·.moments) =
      some [.published ⟨2, 0, 0, .cancel⟩] := by
    decide +kernel
  obtain ⟨s, hstart, hs⟩ := Option.map_eq_some_iff.mp hmoments
  refine ⟨s, hstart, hs, fun h => ?_⟩
  rw [hs] at h
  exact not_since_nil (h [] _ [] rfl (Or.inl rfl))

/-! ## One quote on each side -/

namespace Moment

/-- A new order of the side under the id. -/
def Quotes (side : Side) (id : ID) : Moment → Prop
  | .published r => r.type = side.orderType ∧ r.orderId = id
  | .exhausted _ => False

/-- A cancel of the id, or the fill that brings it to zero. -/
def Ends (id : ID) : Moment → Prop
  | .published r => r.type = .cancel ∧ r.orderId = id
  | .exhausted other => other = id

end Moment

/-- The order of the side was published under the id, and has since neither had a cancel
published nor been brought to zero by fill reports. -/
def LiveQuote (side : Side) (id : ID) (past : List Moment) : Prop :=
  Since (Moment.Quotes side id) (Moment.Ends id) past

/-- A new order of the side comes when none of them is live. -/
def Moment.QuotesAlone (side : Side) (earlier : List Moment) : Moment → Prop
  | .published r => r.type = side.orderType → ∀ id, ¬ LiveQuote side id earlier
  | .exhausted _ => True

theorem liveQuote_unique {side : Side} {past : List Moment} (h : Always (Moment.QuotesAlone side) past)
    {id id' : ID} (hid : LiveQuote side id past) (hid' : LiveQuote side id' past) : id = id' := by
  induction past using List.reverseRecOn with
  | nil => exact absurd hid not_since_nil
  | append_singleton past e ih =>
    obtain ⟨hpast, halone⟩ := (always_concat past e).mp h
    rcases (since_concat past e).mp hid with hnew | ⟨hold, -⟩
    · cases e with
      | exhausted => exact hnew.elim
      | published r =>
        rcases (since_concat past _).mp hid' with hnew' | ⟨hold', -⟩
        · rw [← hnew.2, hnew'.2]
        · exact absurd hold' (halone hnew.1 id')
    · rcases (since_concat past e).mp hid' with hnew' | ⟨hold', -⟩
      · cases e with
        | exhausted => exact hnew'.elim
        | published r => exact absurd hold (halone hnew'.1 id)
      · exact ih hpast hold hold'

/-- At most one new order of each side is staged. -/
def OnePair (buffer : StrategyOrderBuffer) : Prop :=
  buffer.Pairwise fun r r' => ∀ side : Side, r.request.type = side.orderType → r'.request.type ≠ side.orderType

structure Quoting (m : PassiveMarketMaker) (past : List Moment) (buffer : StrategyOrderBuffer) : Prop where
  numbered : Numbering m buffer
  single : OnePair buffer
  alone : ∀ side, Always (Moment.QuotesAlone side) (stream past buffer)
  current : ∀ side id, LiveQuote side id (stream past buffer) ↔
    (m.order side).status = .placed ∧ (m.order side).placedOrder.orderId = id

theorem OnePair.concat {buffer : StrategyOrderBuffer} (h : OnePair buffer) {r : OutboundOrderRequest}
    (hr : ∀ side : Side, r.request.type ≠ side.orderType) : OnePair (buffer ++ [r]) := by
  rw [OnePair, List.pairwise_append]
  refine ⟨h, List.pairwise_singleton _ _, ?_⟩
  intro r' _ r'' hr'' side _
  rw [List.mem_singleton.mp hr'']
  exact hr side

/-- A request that is no new order changes no quote unless it ends one. -/
theorem liveQuote_concat {side : Side} {id : ID} {past : List Moment} {r : OrderRequest}
    (hr : ∀ side : Side, r.type ≠ side.orderType) :
    LiveQuote side id (past ++ [.published r]) ↔
      LiveQuote side id past ∧ ¬ Moment.Ends id (.published r) := by
  rw [LiveQuote, since_concat]
  exact ⟨fun h => h.resolve_left fun hnew => hr side hnew.1, Or.inr⟩

theorem quoting_cancel {m m' : PassiveMarketMaker} {past : List Moment} {buffer buffer' : StrategyOrderBuffer}
    (hcancel : PassiveMarketMaker.Cancel (m, buffer) (m', buffer')) (h : Quoting m past buffer) :
    Quoting m' past buffer' := by
  have hnumbered := h.numbered.move (.cancel hcancel)
  cases hcancel with
  | intro _ _ side placed =>
    have htype : ∀ side' : Side, (m.order side).cancelRequest.request.type ≠ side'.orderType := by
      rintro (_ | _) htype <;> cases htype
    refine ⟨hnumbered, h.single.concat htype, ?_, ?_⟩
    · intro side'
      rw [stream_concat, always_concat]
      exact ⟨h.alone side', fun hnew => absurd hnew (htype side')⟩
    · intro side' id
      rw [stream_concat, liveQuote_concat htype, h.current side' id]
      rcases Side.eq_or_opposite side' side with rfl | rfl
      · simp [Moment.Ends, PlacedOrder.cancelRequest]
      · rw [PassiveMarketMaker.order_setOrder_opposite]
        refine and_iff_left_of_imp fun hother hends => ?_
        exact opposite_id_ne h.numbered.strategy placed (hends.2.trans hother.2.symm)

theorem quoting_resize {m m' : PassiveMarketMaker} {past : List Moment} {buffer buffer' : StrategyOrderBuffer}
    (hresize : PassiveMarketMaker.Resize (m, buffer) (m', buffer')) (h : Quoting m past buffer) :
    Quoting m' past buffer' := by
  cases hresize with
  | intro _ _ side placed needed change =>
    have htype : ∀ side' : Side, ((m.order side).updateRequest (m.quoteFor side)).request.type ≠
        side'.orderType := by
      rintro (_ | _) htype <;> cases htype
    refine ⟨h.numbered.move (.resize m buffer side placed needed change), h.single.concat htype, ?_, ?_⟩
    · intro side'
      rw [stream_concat, always_concat]
      exact ⟨h.alone side', fun hnew => absurd hnew (htype side')⟩
    · intro side' id
      rw [stream_concat, liveQuote_concat htype, h.current side' id,
        and_iff_left (fun hends => by cases hends.1)]
      rcases Side.eq_or_opposite side' side with rfl | rfl
      · rw [PassiveMarketMaker.order_setOrder_self]
        rfl
      · rw [PassiveMarketMaker.order_setOrder_opposite]

theorem quoting_pair {m : PassiveMarketMaker} {past : List Moment} {buffer : StrategyOrderBuffer}
    (bid offer : Price) (hfree : ∀ side, (m.order side).status = .notPlaced)
    (hcancels : ∀ r ∈ buffer, r.request.type = .cancel) (h : Quoting m past buffer) :
    Quoting (m.withNewPair bid offer) past
      (buffer ++ [(m.withNewPair bid offer).buyOrder.newOrderRequest,
        (m.withNewPair bid offer).sellOrder.newOrderRequest]) := by
  have hnumbered := h.numbered.move (.pair m buffer bid offer hfree)
  have hnone : ∀ side id, ¬ LiveQuote side id (stream past buffer) := by
    intro side id hlive
    have hplaced := ((h.current side id).mp hlive).1
    rw [hfree side] at hplaced
    cases hplaced
  have hsingle : OnePair (buffer ++ [(m.withNewPair bid offer).buyOrder.newOrderRequest,
      (m.withNewPair bid offer).sellOrder.newOrderRequest]) := by
    rw [OnePair, List.pairwise_append]
    refine ⟨h.single, ?_, ?_⟩
    · rw [List.pairwise_pair]
      rintro (_ | _) hbuy hsell
      · cases hsell
      · cases hbuy
    · intro r hr r' _ side hnew
      rw [hcancels r hr] at hnew
      cases side <;> cases hnew
  rw [List.append_cons] at hnumbered hsingle ⊢
  refine ⟨hnumbered, hsingle, ?_, ?_⟩
  · intro side
    rw [stream_concat, always_concat, stream_concat, always_concat]
    refine ⟨⟨h.alone side, fun _ => hnone side⟩, ?_⟩
    cases side with
    | buy => exact fun hnew => by cases hnew
    | sell =>
      intro _ id hlive
      rcases (since_concat _ _).mp hlive with hnew | ⟨hold, -⟩
      · cases hnew.1
      · exact hnone .sell id hold
  · intro side id
    rw [stream_concat, LiveQuote, since_concat, stream_concat, since_concat]
    have hnot := hnone side id
    rw [LiveQuote] at hnot
    cases side with
    | buy =>
      simp [hnot, Moment.Quotes, Moment.Ends, PlacedOrder.newOrderRequest, PassiveMarketMaker.withNewPair,
        PassiveMarketMaker.order, Side.orderType]
    | sell =>
      simp [hnot, Moment.Quotes, Moment.Ends, PlacedOrder.newOrderRequest, PassiveMarketMaker.withNewPair,
        PassiveMarketMaker.order, Side.orderType]

/-- A rejected update: it neither opens nor ends a quote. -/
theorem quoting_reject_update {m : PassiveMarketMaker} {past : List Moment} {r : OutboundOrderRequest}
    {rest : StrategyOrderBuffer} (htype : r.request.type = .update) (h : Quoting m past (r :: rest)) :
    Quoting (m.undo r) past rest := by
  have hkeeps := PassiveMarketMaker.keeps_undo m r
  have hskip : ∀ side id between, LiveQuote side id (past ++ .published r.request :: between) ↔
      LiveQuote side id (past ++ between) := by
    intro side id between
    refine since_skip (fun hnew => ?_) (fun hends => ?_) past between
    · rw [Moment.Quotes, htype] at hnew
      cases side <;> cases hnew.1
    · rw [Moment.Ends, htype] at hends
      cases hends.1
  refine ⟨h.numbered.tail hkeeps, (List.pairwise_cons.mp h.single).2, ?_, ?_⟩
  · intro side
    refine (h.alone side).skip fun between b later _ hb => ?_
    cases b with
    | exhausted => trivial
    | published r' => exact fun hnew id hlive => hb hnew id ((hskip side id between).mpr hlive)
  · intro side id
    have hcurrent := h.current side id
    rw [stream_cons, hskip] at hcurrent
    rw [undo_update_status htype, hkeeps.id]
    exact hcurrent

/-- A rejected new order: it had opened the one quote of its side, which the strategy
takes back. -/
theorem quoting_reject_new {m : PassiveMarketMaker} {past : List Moment} {r : OutboundOrderRequest}
    {rest : StrategyOrderBuffer} {side : Side} (htype : r.request.type = side.orderType)
    (h : Quoting m past (r :: rest)) : Quoting (m.undo r) past rest := by
  have hkeeps := PassiveMarketMaker.keeps_undo m r
  have hopposite : side.opposite.orderType ≠ side.orderType := by cases side <;> decide
  obtain ⟨hlast, hsingle⟩ := List.pairwise_cons.mp h.single
  have hrest : ∀ id, ∀ b ∈ rest.map fun r => Moment.published r.request, ¬ Moment.Quotes side id b := by
    intro id b hb
    obtain ⟨r', hr', rfl⟩ := List.mem_map.mp hb
    exact fun hnew => hlast r' hr' side htype hnew.1
  have hnone : ∀ id, ¬ LiveQuote side id past := fun id =>
    h.alone side past (.published r.request) _ rfl htype id
  have hskip : ∀ id between, LiveQuote side.opposite id (past ++ .published r.request :: between) ↔
      LiveQuote side.opposite id (past ++ between) := by
    intro id between
    refine since_skip (fun hnew => ?_) (fun hends => ?_) past between
    · exact hopposite (hnew.1.symm.trans htype)
    · have hcancel := hends.1.symm.trans htype
      cases side <;> cases hcancel
  refine ⟨h.numbered.tail hkeeps, hsingle, ?_, ?_⟩
  · intro side'
    refine (h.alone side').skip fun between b later hsplit hb => ?_
    cases b with
    | exhausted => trivial
    | published r' =>
      intro hnew id hlive
      rcases Side.eq_or_opposite side' side with rfl | rfl
      · exact hrest r'.orderId (.published r') (by rw [hsplit]; simp) ⟨hnew, rfl⟩
      · exact hb hnew id ((hskip id between).mpr hlive)
  · intro side' id
    have hcurrent := h.current side' id
    rcases Side.eq_or_opposite side' side with rfl | rfl
    · refine iff_of_false (fun hlive => hnone id (hlive.of_append (hrest id))) ?_
      rintro ⟨hplaced, hid⟩
      rw [hkeeps.id] at hid
      have hlive := hcurrent.mpr ⟨hkeeps.placed side' hplaced, hid⟩
      rw [stream_cons, List.append_cons] at hlive
      rcases (since_concat past _).mp (hlive.of_append (hrest id)) with hnew | ⟨hold, -⟩
      · rw [undo_new htype (hnew.2.trans hid.symm)] at hplaced
        cases hplaced
      · exact hnone id hold
    · rw [undo_new_opposite htype]
      rwa [stream_cons, hskip] at hcurrent

theorem quoting_fill {m : PassiveMarketMaker} {past : List Moment} {u : OrderFillUpdate} {side : Side}
    (hside : m.placedSide u.orderId = some side) (h : Quoting m past []) :
    Quoting (m.applyFill side u.filledQuantity)
      (past ++ if ((m.applyFill side u.filledQuantity).order side).placedOrder.quantity = 0 then
        [.exhausted u.orderId] else []) [] := by
  have hkeeps := PassiveMarketMaker.keeps_applyFill m side u.filledQuantity
  have hstatus := applyFill_status m side u.filledQuantity
  have hopposite := applyFill_order_opposite m side u.filledQuantity
  obtain ⟨hplaced, hid⟩ := PassiveMarketMaker.placedSide_placed hside
  have halone := h.alone
  have hcurrent := h.current
  rw [stream_nil] at halone hcurrent
  refine ⟨⟨h.numbered.strategy.keeps hkeeps, by simp⟩, h.single, ?_, ?_⟩
  · intro side'
    rw [stream_nil]
    split
    · exact (always_concat past _).mpr ⟨halone side', trivial⟩
    · rw [List.append_nil]
      exact halone side'
  · intro side' id
    rw [stream_nil]
    split
    · rename_i hzero
      rw [if_pos hzero] at hstatus
      have hlive : LiveQuote side' id (past ++ [.exhausted u.orderId]) ↔
          LiveQuote side' id past ∧ u.orderId ≠ id :=
        ⟨fun hlive => ((since_concat past _).mp hlive).resolve_left fun hnew => hnew.elim,
          fun hlive => (since_concat past _).mpr (Or.inr hlive)⟩
      rw [hlive, hcurrent]
      rcases Side.eq_or_opposite side' side with rfl | rfl
      · rw [hstatus, hid]
        simp
      · rw [hopposite]
        refine and_iff_left_of_imp fun hother heq => ?_
        exact opposite_id_ne h.numbered.strategy hplaced (hid.trans (heq.trans hother.2.symm))
    · rename_i hzero
      rw [if_neg hzero] at hstatus
      rw [List.append_nil, hcurrent, hkeeps.id]
      rcases Side.eq_or_opposite side' side with rfl | rfl
      · rw [hstatus]
      · rw [hopposite]

theorem quoting_kept : Kept (fun _ => True) Quoting where
  cancel := quoting_cancel
  resize := quoting_resize
  pair := fun bid offer hfree hcancels h => quoting_pair bid offer hfree hcancels h
  forward := fun {m past r rest} h =>
    ⟨h.numbered.tail (PassiveMarketMaker.keeps_refl m), (List.pairwise_cons.mp h.single).2,
      by rw [stream_forward]; exact h.alone, by rw [stream_forward]; exact h.current⟩
  reject := fun round _ hcancel _ h => by
    cases htype : round.outbound.request.type with
    | buy => exact quoting_reject_new (show _ = Side.buy.orderType from htype) h
    | sell => exact quoting_reject_new (show _ = Side.sell.orderType from htype) h
    | cancel => exact absurd htype hcancel
    | update => exact quoting_reject_update htype h
  fill := quoting_fill

theorem Session.everyRound_true (events : List TraderEvent) (s : Session) :
    Session.EveryRound (fun _ => True) events s := by
  induction events generalizing s with
  | nil => trivial
  | cons event events ih => exact ⟨fun _ _ _ _ => trivial, fun _ s' _ _ => ih s'⟩

/-- In every session, for each side: at every moment at most one published order is live,
and when the buffer is drained the live one is the order the strategy has placed. -/
theorem Session.one_live_quote (events : List TraderEvent) (s : Session)
    (hstart : Session.start events .init = some s) (side : Side) :
    (∀ earlier, earlier <+: s.moments → ∀ id id', LiveQuote side id earlier → LiveQuote side id' earlier →
      id = id') ∧
    (s.trader.orderBuffer = [] → ∀ id, LiveQuote side id s.moments ↔
      (s.trader.strategy.order side).status = .placed ∧
        (s.trader.strategy.order side).placedOrder.orderId = id) := by
  have hinit : Quoting .init [] [] := by
    refine ⟨⟨PassiveMarketMaker.numbered_init, by simp⟩, .nil, fun _ => always_nil _, ?_⟩
    intro side id
    exact iff_of_false not_since_nil (by cases side <;> exact fun h => by cases h.1)
  have h := quoting_kept.start hinit (Session.everyRound_true events .init) hstart
  constructor
  · rintro earlier ⟨later, hearlier⟩ id id' hid hid'
    have halone := (h.alone side).of_append
    rw [← hearlier] at halone
    exact liveQuote_unique halone.of_append hid hid'
  · intro hbuffer id
    have hcurrent := h.current side id
    rwa [hbuffer, stream_nil] at hcurrent

theorem one_live_quote_endedHaltRun :
    ∃ s, Session.start endedHaltRun .init = some s ∧ s.trader.orderBuffer = [] ∧
      LiveQuote .buy 3 s.moments ∧ ¬ LiveQuote .sell 2 s.moments := by
  have hfinal : (Session.start endedHaltRun .init).map (fun s => (s.trader.orderBuffer,
      s.trader.strategy.buyOrder.status, s.trader.strategy.buyOrder.placedOrder.orderId,
      s.trader.strategy.sellOrder.placedOrder.orderId)) = some ([], .placed, 3, 4) := by
    decide +kernel
  obtain ⟨s, hstart, hs⟩ := Option.map_eq_some_iff.mp hfinal
  simp only [Prod.mk.injEq] at hs
  obtain ⟨hbuffer, hplaced, hbuy, hsell⟩ := hs
  refine ⟨s, hstart, hbuffer, ?_, ?_⟩
  · exact ((Session.one_live_quote _ s hstart .buy).2 hbuffer 3).mpr ⟨hplaced, hbuy⟩
  · intro hlive
    have hid := (((Session.one_live_quote _ s hstart .sell).2 hbuffer 2).mp hlive).2
    rw [show (s.trader.strategy.order .sell).placedOrder.orderId = 4 from hsell] at hid
    cases hid

end HftPipeline
