import HftPipeline.Staging
import HftPipeline.Lib.Since

/-!
# A session of the trader

A call of `place_new_orders` taken apart into its rounds, and `start` with what an
observer sees of it. A request is passed to `send_to_exchange` before a slot of the
trade buffer is claimed for it, so that sent and published agree exactly when
every request that passes its check finds a slot.
-/
namespace HftPipeline

namespace Trader

/-- One round of a call: what it finds, and the state it leaves. -/
structure Round where
  before : Trader
  outbound : OutboundOrderRequest
  rest : StrategyOrderBuffer
  check : Check
  after : Trader
  deriving DecidableEq, Repr

/-- The rounds of a call of `place_new_orders`. -/
def rounds : List Check → Trader → List Round
  | [], _ => []
  | check :: checks, t =>
    match t.orderBuffer with
    | [] => []
    | outbound :: rest =>
      match t.placeOne outbound rest check with
      | none => []
      | some (some _, t') => [⟨t, outbound, rest, check, t'⟩]
      | some (none, t') => ⟨t, outbound, rest, check, t'⟩ :: rounds checks t'

/-- A request that passes its check finds a slot in the trade buffer. -/
def Round.HasSlot (r : Round) : Prop :=
  evaluateRisk r.outbound r.check.risk = .good → r.check.room = true

/-- A request that is sent leaves the front of the order buffer. -/
def Round.Dequeues (r : Round) : Prop :=
  r.after.sent ≠ r.before.sent → r.after.orderBuffer = r.rest

instance (r : Round) : Decidable r.HasSlot := inferInstanceAs (Decidable (_ → _))

instance (r : Round) : Decidable r.Dequeues := inferInstanceAs (Decidable (_ → _))

/-- Induction over the rounds of a call: it ends with an empty buffer, with a round that
returns, or goes on after a round. -/
theorem placeNewOrders_induction {P : List Check → Trader → Except StrategyError Unit → Trader → Prop}
    (hempty : ∀ checks t, t.orderBuffer = [] → P checks t (.ok ()) t)
    (hreturn : ∀ check checks t outbound rest result t', t.orderBuffer = outbound :: rest →
      t.placeOne outbound rest check = some (some result, t') → P (check :: checks) t result t')
    (hround : ∀ check checks t outbound rest t₁ result t', t.orderBuffer = outbound :: rest →
      t.placeOne outbound rest check = some (none, t₁) → P checks t₁ result t' →
      P (check :: checks) t result t')
    {checks : List Check} {t t' : Trader} {result : Except StrategyError Unit}
    (h : placeNewOrders checks t = some (result, t')) : P checks t result t' := by
  induction checks generalizing t with
  | nil =>
    rw [placeNewOrders] at h
    split at h
    · rename_i hbuffer
      cases h
      exact hempty [] _ hbuffer
    · cases h
  | cons check checks ih =>
    rw [placeNewOrders] at h
    split at h
    · rename_i hbuffer
      cases h
      exact hempty _ _ hbuffer
    · rename_i outbound rest hbuffer
      split at h
      · cases h
      · rename_i hplace
        cases h
        exact hreturn check checks t outbound rest _ _ hbuffer hplace
      · rename_i hplace
        exact hround check checks t outbound rest _ _ _ hbuffer hplace (ih h)

theorem rounds_empty {checks : List Check} {t : Trader} (h : t.orderBuffer = []) : rounds checks t = [] := by
  cases checks with
  | nil => rfl
  | cons check checks => simp only [rounds, h]

theorem rounds_return {check : Check} {t t' : Trader} {outbound : OutboundOrderRequest}
    {rest : StrategyOrderBuffer} {result : Except StrategyError Unit} (checks : List Check)
    (hbuffer : t.orderBuffer = outbound :: rest)
    (h : t.placeOne outbound rest check = some (some result, t')) :
    rounds (check :: checks) t = [⟨t, outbound, rest, check, t'⟩] := by
  simp only [rounds, hbuffer, h]

theorem rounds_next {check : Check} {t t' : Trader} {outbound : OutboundOrderRequest}
    {rest : StrategyOrderBuffer} (checks : List Check) (hbuffer : t.orderBuffer = outbound :: rest)
    (h : t.placeOne outbound rest check = some (none, t')) :
    rounds (check :: checks) t = ⟨t, outbound, rest, check, t'⟩ :: rounds checks t' := by
  simp only [rounds, hbuffer, h]

/-! ## What is sent and what is published -/

/-- One call sends and publishes some more requests, the same ones exactly when each of
its rounds has a slot. -/
theorem placeNewOrders_sent {checks : List Check} {t t' : Trader} {result : Except StrategyError Unit}
    (h : placeNewOrders checks t = some (result, t')) :
    ∃ sent published, t'.sent = t.sent ++ sent ∧ t'.forwarded = t.forwarded ++ published ∧
      ((sent = published.map (·.1.request) ∧ ∀ r ∈ rounds checks t, r.Dequeues) ↔
        ∀ r ∈ rounds checks t, r.HasSlot) := by
  refine placeNewOrders_induction (P := fun checks t _ t' => ∃ sent published,
    t'.sent = t.sent ++ sent ∧ t'.forwarded = t.forwarded ++ published ∧
      ((sent = published.map (·.1.request) ∧ ∀ r ∈ rounds checks t, r.Dequeues) ↔
        ∀ r ∈ rounds checks t, r.HasSlot)) ?_ ?_ ?_ h
  · intro checks t hbuffer
    exact ⟨[], [], by simp, by simp, by simp [rounds_empty hbuffer]⟩
  · intro check checks t outbound rest result t' hbuffer hplace
    rw [rounds_return checks hbuffer hplace]
    rcases placeOne_cases hplace with ⟨hstopped, -, rfl⟩ | ⟨hgood, hroom, -, rfl⟩ | ⟨_, -, -, -, hresult, -⟩ |
      ⟨_, _, _, -, -, hresult, -⟩
    · exact ⟨[], [], by simp, by simp, by simp [Round.Dequeues, Round.HasSlot, hstopped]⟩
    · exact ⟨[outbound.request], [], rfl, by simp, by simp [Round.HasSlot, hgood, hroom]⟩
    · cases hresult
    · cases hresult
  · intro check checks t outbound rest t₁ result t' hbuffer hplace ih
    rw [rounds_next checks hbuffer hplace]
    obtain ⟨sent, published, hsent, hpublished, hiff⟩ := ih
    rcases placeOne_cases hplace with ⟨-, hresult, -⟩ | ⟨-, -, hresult, -⟩ |
      ⟨risk, hrisk, hgood, hroom, -, hafter⟩ | ⟨risk, strategy, orderBuffer, hrisk, hgood, -, -, hafter⟩
    · cases hresult
    · cases hresult
    · have hdequeues : Round.Dequeues ⟨t, outbound, rest, check, t₁⟩ := fun _ => by rw [hafter]
      have hslot : Round.HasSlot ⟨t, outbound, rest, check, t₁⟩ := fun _ => hroom
      refine ⟨outbound.request :: sent, (outbound, risk) :: published, by simp [hsent, hafter],
        by simp [hpublished, hafter], ?_⟩
      rw [List.forall_mem_cons, List.forall_mem_cons, ← hiff]
      simp [hdequeues, hslot]
    · have hdequeues : Round.Dequeues ⟨t, outbound, rest, check, t₁⟩ := fun h => absurd (by rw [hafter]) h
      have hslot : Round.HasSlot ⟨t, outbound, rest, check, t₁⟩ := fun h => absurd (hrisk ▸ h) hgood
      refine ⟨sent, published, by rw [hsent, hafter], by rw [hpublished, hafter], ?_⟩
      rw [List.forall_mem_cons, List.forall_mem_cons, ← hiff]
      simp [hdequeues, hslot]

/-- In every call of `place_new_orders`, however it returns: the requests it sends are
the requests it publishes, in order, and each of them leaves the front of the buffer,
if and only if the trade buffer has a slot for every request that passes its check. -/
theorem placeNewOrders_sends_published_iff (checks : List Check) (t t' : Trader)
    (result : Except StrategyError Unit) (h : placeNewOrders checks t = some (result, t')) :
    (t'.sent.drop t.sent.length = (t'.forwarded.drop t.forwarded.length).map (·.1.request) ∧
      ∀ r ∈ rounds checks t, r.Dequeues) ↔ ∀ r ∈ rounds checks t, r.HasSlot := by
  obtain ⟨sent, published, hsent, hpublished, hiff⟩ := placeNewOrders_sent h
  rw [hsent, hpublished, List.drop_left, List.drop_left]
  exact hiff

end Trader

/-- Risk data that lets everything pass. -/
def passingCheck (room : Bool) : Check := ⟨some ⟨0, 0, 0, 0, 1000, -1, 1, false⟩, room⟩

/-- A new pair is staged. -/
def stagedPair : Trader where
  orderBuffer :=
    [(PassiveMarketMaker.init.withNewPair 101 119).buyOrder.newOrderRequest,
      (PassiveMarketMaker.init.withNewPair 101 119).sellOrder.newOrderRequest]
  strategy := PassiveMarketMaker.init.withNewPair 101 119
  sent := []
  forwarded := []

theorem placeNewOrders_sends_published_iff_stagedPair :
    ∃ t, Trader.placeNewOrders [passingCheck true, passingCheck true] stagedPair = some (.ok (), t) ∧
      ((t.sent.drop 0 = (t.forwarded.drop 0).map (·.1.request) ∧
        ∀ r ∈ Trader.rounds [passingCheck true, passingCheck true] stagedPair, r.Dequeues) ↔
        ∀ r ∈ Trader.rounds [passingCheck true, passingCheck true] stagedPair, r.HasSlot) ∧
      t.sent.length = 2 :=
  ⟨_, rfl, Trader.placeNewOrders_sends_published_iff _ stagedPair _ _ rfl, rfl⟩

/-- The trade buffer is full when the sell comes: it has been sent, it is not published,
and it stays at the front. -/
theorem fullTradeBuffer_sends_unpublished :
    ∃ t, Trader.placeNewOrders [passingCheck true, passingCheck false] stagedPair =
        some (.error .tradeBufferFull, t) ∧
      t.sent = [⟨1, 101, 75, .buy⟩, ⟨2, 119, 75, .sell⟩] ∧
      t.forwarded.map (·.1.request) = [⟨1, 101, 75, .buy⟩] ∧
      t.orderBuffer.map (·.request) = [⟨2, 119, 75, .sell⟩] ∧
      ¬ (t.sent.drop 0 = (t.forwarded.drop 0).map (·.1.request) ∧
        ∀ r ∈ Trader.rounds [passingCheck true, passingCheck false] stagedPair, r.Dequeues) := by
  refine ⟨_, rfl, rfl, rfl, rfl, fun h => ?_⟩
  exact absurd h.1 (by decide)

/-! ## What an observer sees -/

/-- A request is published to the trade buffer, or a fill report uses up an order. -/
inductive Moment where
  | published (request : OrderRequest)
  | exhausted (id : ID)
  deriving DecidableEq, Repr

/-- The order that a report brings to zero, if it does. -/
def Trader.exhausts (t : Trader) : TraderEvent → List Moment
  | .snapshot _ _ => []
  | .report u _ =>
    match t.strategy.placedSide u.orderId with
    | none => []
    | some side =>
      if ((t.strategy.applyFill side u.filledQuantity).order side).placedOrder.quantity = 0 then
        [.exhausted u.orderId]
      else []

structure Session where
  trader : Trader
  moments : List Moment
  deriving DecidableEq, Repr

namespace Session

def init : Session := ⟨.init, []⟩

/-- One event and the call of `place_new_orders` that follows it. -/
def handle (s : Session) (event : TraderEvent) : Option (Except StrategyError Unit × Session) := do
  let staged ← s.trader.stage event
  let (result, t) ← Trader.placeNewOrders event.checks staged
  let published := (t.forwarded.drop s.trader.forwarded.length).map fun e => .published e.1.request
  return (result, ⟨t, s.moments ++ s.trader.exhausts event ++ published⟩)

/-- `start` goes on while calls succeed and drain the buffer. A call that succeeds and
leaves requests was stopped, and nothing is published after that. -/
def GoesOn (result : Except StrategyError Unit) (s : Session) : Prop :=
  result.isOk = true ∧ s.trader.orderBuffer = []

instance (result : Except StrategyError Unit) (s : Session) : Decidable (GoesOn result s) :=
  inferInstanceAs (Decidable (_ ∧ _))

def start : List TraderEvent → Session → Option Session
  | [], s => some s
  | event :: events, s => do
    let (result, s) ← s.handle event
    if GoesOn result s then start events s else return s

/-- Every round of a session meets a condition. -/
def EveryRound (P : Trader.Round → Prop) : List TraderEvent → Session → Prop
  | [], _ => True
  | event :: events, s =>
    (∀ staged, s.trader.stage event = some staged → ∀ r ∈ Trader.rounds event.checks staged, P r) ∧
    ∀ result s', s.handle event = some (result, s') → GoesOn result s' → EveryRound P events s'

instance decidableEveryRound (P : Trader.Round → Prop) [DecidablePred P] :
    (events : List TraderEvent) → (s : Session) → Decidable (EveryRound P events s)
  | [], _ => .isTrue trivial
  | event :: events, s =>
    match hstage : s.trader.stage event, h : s.handle event with
    | none, none => .isTrue (by simp [EveryRound, hstage, h])
    | none, some (result, s') => .isTrue (by simp [handle, hstage] at h)
    | some staged, none =>
      decidable_of_iff (∀ r ∈ Trader.rounds event.checks staged, P r) (by simp [EveryRound, hstage, h])
    | some staged, some (result, s') =>
      have := decidableEveryRound P events s'
      decidable_of_iff ((∀ r ∈ Trader.rounds event.checks staged, P r) ∧
        (GoesOn result s' → EveryRound P events s')) (by simp [EveryRound, hstage, h])

theorem handle_cases {s s' : Session} {event : TraderEvent} {result : Except StrategyError Unit}
    (h : s.handle event = some (result, s')) :
    ∃ staged, s.trader.stage event = some staged ∧
      Trader.placeNewOrders event.checks staged = some (result, s'.trader) ∧
      s'.moments = s.moments ++ s.trader.exhausts event ++
        (s'.trader.forwarded.drop s.trader.forwarded.length).map fun e => .published e.1.request := by
  obtain ⟨staged, hstage, hrest⟩ := Option.bind_eq_some_iff.mp h
  obtain ⟨⟨result', t⟩, hplace, hreturn⟩ := Option.bind_eq_some_iff.mp hrest
  cases hreturn
  exact ⟨staged, hstage, hplace, rfl⟩

/-- What each event keeps, as long as it finds the buffer drained, every session keeps. -/
theorem start_preserves {P : Session → Prop} {Q : Trader.Round → Prop}
    (hhandle : ∀ s event result s', P s → s.trader.orderBuffer = [] → s.handle event = some (result, s') →
      (∀ staged, s.trader.stage event = some staged → ∀ r ∈ Trader.rounds event.checks staged, Q r) → P s')
    {events : List TraderEvent} {s s' : Session} (hs : P s) (hbuffer : s.trader.orderBuffer = [])
    (hrounds : EveryRound Q events s) (h : start events s = some s') : P s' := by
  induction events generalizing s with
  | nil =>
    cases h
    exact hs
  | cons event events ih =>
    obtain ⟨⟨result, s₁⟩, hevent, hrest⟩ := Option.bind_eq_some_iff.mp h
    have h₁ := hhandle s event result s₁ hs hbuffer hevent hrounds.1
    simp only at hrest
    split at hrest
    · rename_i hgoes
      exact ih h₁ hgoes.2 (hrounds.2 result s₁ hevent hgoes) hrest
    · cases hrest
      exact h₁

end Session

/-! ## The rule for sessions -/

/-- What makes the exposure smaller passes, whatever the risk data say. -/
theorem evaluateRisk_reducing {r : OutboundOrderRequest}
    (h : r.request.type = .cancel ∨ r.request.type = .update ∧ r.quantityChange = .reducing) (risk : RiskData) :
    evaluateRisk r (some risk) = .good := by
  simp [evaluateRisk, h]

theorem evaluateRisk_ne_stopped (r : OutboundOrderRequest) (risk : RiskData) :
    evaluateRisk r (some risk) ≠ .stopped := by
  intro h
  simp only [evaluateRisk] at h
  split_ifs at h

/-- A relation between the strategy, the moments so far and the staged requests that every
single step keeps: staging a cancel, an update or a new pair, forwarding or rejecting
the request at the front in a round with `Q`, and counting a fill. -/
structure Kept (Q : Trader.Round → Prop)
    (I : PassiveMarketMaker → List Moment → StrategyOrderBuffer → Prop) : Prop where
  cancel : ∀ {m past buffer m' buffer'}, PassiveMarketMaker.Cancel (m, buffer) (m', buffer') →
    I m past buffer → I m' past buffer'
  resize : ∀ {m past buffer m' buffer'}, PassiveMarketMaker.Resize (m, buffer) (m', buffer') →
    I m past buffer → I m' past buffer'
  pair : ∀ {m past buffer} bid offer, (∀ side, (m.order side).status = .notPlaced) →
    (∀ r ∈ buffer, r.request.type = .cancel) → I m past buffer →
    I (m.withNewPair bid offer) past (buffer ++ [(m.withNewPair bid offer).buyOrder.newOrderRequest,
      (m.withNewPair bid offer).sellOrder.newOrderRequest])
  forward : ∀ {m past r rest}, I m past (r :: rest) → I m (past ++ [.published r.request]) rest
  reject : ∀ {past} (round : Trader.Round), Q round → round.outbound.request.type ≠ .cancel →
    (evaluateRisk round.outbound round.check.risk ≠ .good ∧
      evaluateRisk round.outbound round.check.risk ≠ .stopped) →
    I round.before.strategy past (round.outbound :: round.rest) →
    I (round.before.strategy.undo round.outbound) past round.rest
  fill : ∀ {m past} {u : OrderFillUpdate} {side}, m.placedSide u.orderId = some side → I m past [] →
    I (m.applyFill side u.filledQuantity)
      (past ++ if ((m.applyFill side u.filledQuantity).order side).placedOrder.quantity = 0 then
        [.exhausted u.orderId] else []) []

namespace Kept

variable {Q : Trader.Round → Prop} {I : PassiveMarketMaker → List Moment → StrategyOrderBuffer → Prop}

theorem cancels (h : Kept Q I) {m m' : PassiveMarketMaker} {past : List Moment}
    {buffer buffer' : StrategyOrderBuffer} (hcancels : PassiveMarketMaker.Cancels (m, buffer) (m', buffer'))
    (hI : I m past buffer) : I m' past buffer' :=
  PassiveMarketMaker.preserves_of_steps hcancels (fun _ _ _ _ hcancel => h.cancel hcancel) hI

theorem stage (h : Kept Q I) {t staged : Trader} {event : TraderEvent} {past : List Moment}
    (hbuffer : t.orderBuffer = []) (hstage : t.stage event = some staged) (hI : I t.strategy past []) :
    I staged.strategy (past ++ t.exhausts event) staged.orderBuffer := by
  cases event with
  | snapshot bbo checks =>
    obtain ⟨⟨strategy, orderBuffer⟩, hget, hreturn⟩ := Option.bind_eq_some_iff.mp hstage
    cases hreturn
    rw [hbuffer] at hget
    show I strategy (past ++ []) orderBuffer
    rw [List.append_nil]
    obtain ⟨m₁, buffer₁, hcancels, hcase⟩ := PassiveMarketMaker.getOrders_cases hget
    have h₁ := h.cancels hcancels hI
    rcases hcase with ⟨rfl, rfl⟩ | ⟨bid, offer, -, hfree, rfl, rfl⟩
    · exact h₁
    · exact h.pair bid offer hfree (PassiveMarketMaker.cancels_type hcancels (by simp)) h₁
  | report u checks =>
    simp only [Trader.stage, PassiveMarketMaker.update, hbuffer] at hstage
    rw [Trader.exhausts]
    cases hside : t.strategy.placedSide u.orderId with
    | none =>
      simp only [hside] at hstage
      cases hstage
      simpa using hI
    | some side =>
      simp only [hside] at hstage
      cases hstage
      exact PassiveMarketMaker.preserves_of_steps (PassiveMarketMaker.rebalanceExposure_resizes _ [])
        (fun _ _ _ _ hresize => h.resize hresize) (h.fill hside hI)

/-- The moments of a call that began with `first` requests forwarded. -/
def publishedSince (first : Nat) (t : Trader) : List Moment :=
  (t.forwarded.drop first).map fun e => .published e.1.request

theorem placeOne (h : Kept Q I) {t t' : Trader} {outbound : OutboundOrderRequest}
    {rest : StrategyOrderBuffer} {check : Check} {result : Option (Except StrategyError Unit)}
    {past : List Moment} {first : Nat} (hfirst : first ≤ t.forwarded.length)
    (hbuffer : t.orderBuffer = outbound :: rest) (hround : Q ⟨t, outbound, rest, check, t'⟩)
    (hplace : t.placeOne outbound rest check = some (result, t'))
    (hI : I t.strategy (past ++ publishedSince first t) t.orderBuffer) :
    first ≤ t'.forwarded.length ∧ I t'.strategy (past ++ publishedSince first t') t'.orderBuffer := by
  rcases Trader.placeOne_cases hplace with ⟨-, -, rfl⟩ | ⟨-, -, -, rfl⟩ | ⟨risk, -, -, -, -, rfl⟩ |
    ⟨risk, strategy, orderBuffer, hrisk, hgood, -, hnotify, hafter⟩
  · exact ⟨hfirst, hI⟩
  · exact ⟨hfirst, hI⟩
  · rw [hbuffer] at hI
    have hpublished := h.forward hI
    refine ⟨by simp; omega, ?_⟩
    rw [publishedSince, List.drop_append_of_le_length hfirst, List.map_append, ← List.append_assoc]
    exact hpublished
  · rw [hbuffer] at hI
    have hcancel : outbound.request.type ≠ .cancel := fun htype => hgood (evaluateRisk_reducing (Or.inl htype) risk)
    have hstatus : evaluateRisk outbound check.risk ≠ .good ∧ evaluateRisk outbound check.risk ≠ .stopped := by
      rw [hrisk]
      exact ⟨hgood, evaluateRisk_ne_stopped outbound risk⟩
    have hundone := h.reject _ hround hcancel hstatus hI
    rw [hafter]
    exact ⟨hfirst, h.cancels (PassiveMarketMaker.notifyInvalid_cancels hnotify) hundone⟩

theorem placeNewOrders (h : Kept Q I) {checks : List Check} {t t' : Trader}
    {result : Except StrategyError Unit} {past : List Moment} {first : Nat}
    (hplace : Trader.placeNewOrders checks t = some (result, t')) (hfirst : first ≤ t.forwarded.length)
    (hrounds : ∀ r ∈ Trader.rounds checks t, Q r)
    (hI : I t.strategy (past ++ publishedSince first t) t.orderBuffer) :
    I t'.strategy (past ++ publishedSince first t') t'.orderBuffer := by
  revert hfirst hrounds hI
  refine Trader.placeNewOrders_induction (P := fun checks t _ t' => first ≤ t.forwarded.length →
    (∀ r ∈ Trader.rounds checks t, Q r) → I t.strategy (past ++ publishedSince first t) t.orderBuffer →
    I t'.strategy (past ++ publishedSince first t') t'.orderBuffer) ?_ ?_ ?_ hplace
  · intro checks t _ _ _ hI
    exact hI
  · intro check checks t outbound rest result t' hbuffer hone hfirst hrounds hI
    rw [Trader.rounds_return checks hbuffer hone] at hrounds
    exact (h.placeOne hfirst hbuffer (hrounds _ (by simp)) hone hI).2
  · intro check checks t outbound rest t₁ result t' hbuffer hone ih hfirst hrounds hI
    rw [Trader.rounds_next checks hbuffer hone] at hrounds
    obtain ⟨hfirst', h₁⟩ := h.placeOne hfirst hbuffer (hrounds _ (by simp)) hone hI
    exact ih hfirst' (fun r hr => hrounds r (List.mem_cons_of_mem _ hr)) h₁

/-- What every step keeps holds after every session. -/
theorem start (h : Kept Q I) {events : List TraderEvent} {s : Session}
    (hinit : I .init [] []) (hrounds : Session.EveryRound Q events .init)
    (hstart : Session.start events .init = some s) : I s.trader.strategy s.moments s.trader.orderBuffer := by
  refine Session.start_preserves (P := fun s => I s.trader.strategy s.moments s.trader.orderBuffer)
    ?_ hinit rfl hrounds hstart
  intro s event result s' hI hbuffer hhandle hrounds
  rw [hbuffer] at hI
  obtain ⟨staged, hstage, hplace, hmoments⟩ := Session.handle_cases hhandle
  have hforwarded : staged.forwarded = s.trader.forwarded := (Trader.stage_moves hstage).2
  have hstaged := h.stage hbuffer hstage hI
  rw [hmoments]
  refine h.placeNewOrders hplace (by rw [hforwarded]) (hrounds staged hstage) ?_
  simpa [publishedSince, hforwarded] using hstaged

end Kept

end HftPipeline
