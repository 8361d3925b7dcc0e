import HftPipeline.MarketMaker

/-!
# The trader

`Trader<PassiveMarketMaker>`: the risk check, the loop that forwards staged requests,
and the two events of the main loop. Each round of `place_new_orders` reads the
risk data and looks for a free slot in the trade buffer; a list of `Check` says what
the rounds find, and a round without one is `none`.
-/
namespace HftPipeline

/-- `strategy::Error`. -/
inductive StrategyError where
  | criticalRiskLimitBreached | tradeBufferFull | tooManyOrders
  deriving DecidableEq, Repr

/-- What one round finds: the latest risk data, none once a stop is requested, and
whether the trade buffer has room. -/
structure Check where
  risk : Option RiskData
  room : Bool
  deriving DecidableEq, Repr

def evaluateRisk (outbound : OutboundOrderRequest) (latest : Option RiskData) : OrderStatus :=
  match latest with
  | none => .stopped
  | some risk =>
    let request := outbound.request
    let reducesExposure := request.type = .cancel ∨
      (request.type = .update ∧ outbound.quantityChange = .reducing)
    if risk.isHalted ∧ ¬ reducesExposure then .halted
    else if ¬ reducesExposure ∧ risk.maxOrdersPerWindow ≤ risk.ordersSentInWindow then .tooManyOrders
    else if reducesExposure then .good
    else
      let signedDelta : Int64 := match request.type with
        | .buy => request.quantity.toPosition
        | .sell => -request.quantity.toPosition
        | .update =>
          if outbound.quantityChange = .increasing then
            let delta := (request.quantity - outbound.previousQuantity).toPosition
            if outbound.side = .buy then delta else -delta
          else 0
        | .cancel => 0
      if risk.maxPosition < (risk.netPosition + signedDelta).abs then .tooMuchExposure
      else if risk.realizedPnl + risk.unrealizedPnl ≤ risk.maxLossAllowed then .tooMuchLoss
      else .good

/-- The trader with a record of what it passed to `send_to_exchange` and of what it
published to the trade buffer, each with the risk data it was judged by. -/
structure Trader where
  orderBuffer : StrategyOrderBuffer
  strategy : PassiveMarketMaker
  sent : List OrderRequest
  forwarded : List (OutboundOrderRequest × RiskData)
  deriving DecidableEq, Repr

namespace Trader

def init : Trader := ⟨[], .init, [], []⟩

/-- One round of the loop for the request at the front: whether to go on, or what the
call returns. -/
def placeOne (t : Trader) (outbound : OutboundOrderRequest) (rest : StrategyOrderBuffer) (check : Check) :
    Option (Option (Except StrategyError Unit) × Trader) :=
  match evaluateRisk outbound check.risk, check.risk with
  | .stopped, _ | _, none => some (some (.ok ()), t)
  | .good, some risk =>
    let t := { t with sent := t.sent ++ [outbound.request] }
    if ¬ check.room then some (some (.error .tradeBufferFull), t)
    else some (none, { t with forwarded := t.forwarded ++ [(outbound, risk)], orderBuffer := rest })
  | status, some _ => do
    let (strategy, orderBuffer) ← t.strategy.notifyInvalid outbound status rest
    return (none, { t with strategy := strategy, orderBuffer := orderBuffer })

/-- What a round can do: stop, find the trade buffer full, forward or reject. -/
theorem placeOne_cases {t t' : Trader} {outbound : OutboundOrderRequest} {rest : StrategyOrderBuffer}
    {check : Check} {result : Option (Except StrategyError Unit)}
    (h : t.placeOne outbound rest check = some (result, t')) :
    (evaluateRisk outbound check.risk = .stopped ∧ result = some (.ok ()) ∧ t' = t) ∨
    (evaluateRisk outbound check.risk = .good ∧ check.room = false ∧
      result = some (.error .tradeBufferFull) ∧ t' = { t with sent := t.sent ++ [outbound.request] }) ∨
    (∃ risk, check.risk = some risk ∧ evaluateRisk outbound (some risk) = .good ∧ check.room = true ∧
      result = none ∧
      t' = { t with
        sent := t.sent ++ [outbound.request]
        forwarded := t.forwarded ++ [(outbound, risk)]
        orderBuffer := rest }) ∨
    ∃ risk strategy orderBuffer, check.risk = some risk ∧ evaluateRisk outbound (some risk) ≠ .good ∧
      result = none ∧
      t.strategy.notifyInvalid outbound (evaluateRisk outbound (some risk)) rest =
        some (strategy, orderBuffer) ∧
      t' = { t with strategy := strategy, orderBuffer := orderBuffer } := by
  obtain ⟨latest, room⟩ := check
  cases latest with
  | none =>
    simp only [placeOne, evaluateRisk] at h
    cases h
    exact Or.inl ⟨rfl, rfl, rfl⟩
  | some risk =>
    rw [placeOne] at h
    split at h
    · rename_i hstopped
      cases h
      exact Or.inl ⟨hstopped, rfl, rfl⟩
    · rename_i hrisk _
      cases hrisk
    · rename_i hgood hrisk
      cases hrisk
      simp only at h
      split at h
      · rename_i hroom
        cases h
        exact Or.inr (Or.inl ⟨hgood, by simpa using hroom, rfl, rfl⟩)
      · rename_i hroom
        cases h
        exact Or.inr (Or.inr (Or.inl ⟨risk, rfl, hgood, by simpa using hroom, rfl, rfl⟩))
    · rename_i hrisk _ hgood
      cases hrisk
      obtain ⟨⟨strategy, orderBuffer⟩, hnotify, hreturn⟩ := Option.bind_eq_some_iff.mp h
      cases hreturn
      exact Or.inr (Or.inr (Or.inr ⟨risk, strategy, orderBuffer, rfl, hgood, rfl, hnotify, rfl⟩))

def placeNewOrders : List Check → Trader → Option (Except StrategyError Unit × Trader)
  | [], t => if t.orderBuffer = [] then some (.ok (), t) else none
  | check :: checks, t =>
    match t.orderBuffer with
    | [] => some (.ok (), t)
    | outbound :: rest =>
      match t.placeOne outbound rest check with
      | none => none
      | some (some result, t) => some (result, t)
      | some (none, t) => placeNewOrders checks t

/-- What every round keeps, whatever the checks, the whole loop keeps. -/
theorem placeNewOrders_preserves {P : Trader → Prop} {checks : List Check}
    (hone : ∀ t outbound rest result t', ∀ check ∈ checks, P t → t.orderBuffer = outbound :: rest →
      t.placeOne outbound rest check = some (result, t') → P t')
    {t t' : Trader} {result : Except StrategyError Unit} (hstart : P t)
    (h : placeNewOrders checks t = some (result, t')) : P t' := by
  induction checks generalizing t with
  | nil =>
    rw [placeNewOrders] at h
    split at h
    · cases h
      exact hstart
    · cases h
  | cons check checks ih =>
    rw [placeNewOrders] at h
    split at h
    · cases h
      exact hstart
    · rename_i outbound rest hbuffer
      split at h
      · cases h
      · rename_i hplace
        cases h
        exact hone _ _ _ _ _ check List.mem_cons_self hstart hbuffer hplace
      · rename_i hplace
        refine ih ?_ (hone _ _ _ _ _ check List.mem_cons_self hstart hbuffer hplace) h
        intro t outbound rest result t' check' hmem
        exact hone t outbound rest result t' check' (List.mem_cons_of_mem _ hmem)

end Trader

/-- A new best bid and offer, or a fill report, with the rounds that follow it. -/
inductive TraderEvent where
  | snapshot (bbo : OrderSnapshot) (checks : List Check)
  | report (update : OrderFillUpdate) (checks : List Check)
  deriving DecidableEq, Repr

def TraderEvent.checks : TraderEvent → List Check
  | .snapshot _ checks | .report _ checks => checks

namespace Trader

/-- What the strategy stages for an event. -/
def stage (t : Trader) : TraderEvent → Option Trader
  | .snapshot bbo _ => do
    let (strategy, orderBuffer) ← t.strategy.getOrders bbo t.orderBuffer
    return { t with strategy := strategy, orderBuffer := orderBuffer }
  | .report update _ =>
    let (strategy, orderBuffer) := t.strategy.update update t.orderBuffer
    some { t with strategy := strategy, orderBuffer := orderBuffer }

def handle (t : Trader) (event : TraderEvent) : Option Trader := do
  let t ← t.stage event
  let (_, t) ← placeNewOrders event.checks t
  return t

def run (t : Trader) (events : List TraderEvent) : Option Trader := events.foldlM handle t

/-- Each event of a run meets a condition in the state it finds. -/
def AllAlong (P : Trader → TraderEvent → Prop) (t : Trader) : List TraderEvent → Prop
  | [] => True
  | event :: events => P t event ∧ ∀ t', t.handle event = some t' → AllAlong P t' events

instance decidableAllAlong (P : Trader → TraderEvent → Prop) [∀ t event, Decidable (P t event)] :
    (t : Trader) → (events : List TraderEvent) → Decidable (AllAlong P t events)
  | _, [] => .isTrue trivial
  | t, event :: events =>
    match h : t.handle event with
    | none => decidable_of_iff (P t event) (by simp [AllAlong, h])
    | some t' =>
      have := decidableAllAlong P t' events
      decidable_of_iff (P t event ∧ AllAlong P t' events) (by simp [AllAlong, h])

end Trader

end HftPipeline
