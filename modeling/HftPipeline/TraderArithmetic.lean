import HftPipeline.QuoteArithmetic

/-!
# The arithmetic of the trader

The steps of the trader once more, with every signed operation checked: the outer `none` is an
overflow. The risk check adds positions and losses of 64 bits, and `update` counts a fill in
`net_filled_quantity_`.
-/
namespace HftPipeline

/-- What a request adds to the position, if all of it is filled. -/
def OutboundOrderRequest.signedDelta (outbound : OutboundOrderRequest) : Int64 :=
  match outbound.request.type with
  | .buy => outbound.request.quantity.toPosition
  | .sell => -outbound.request.quantity.toPosition
  | .update =>
    if outbound.quantityChange = .increasing then
      let delta := (outbound.request.quantity - outbound.previousQuantity).toPosition
      if outbound.side = .buy then delta else -delta
    else 0
  | .cancel => 0

/-- The negations of `signed_delta` are of quantities of 32 bits. -/
def checkedEvaluateRisk (outbound : OutboundOrderRequest) (latest : Option RiskData) : Option OrderStatus :=
  match latest with
  | none => some .stopped
  | some risk =>
    let request := outbound.request
    let reducesExposure := request.type = .cancel ∨
      (request.type = .update ∧ outbound.quantityChange = .reducing)
    if risk.isHalted ∧ ¬ reducesExposure then some .halted
    else if ¬ reducesExposure ∧ risk.maxOrdersPerWindow ≤ risk.ordersSentInWindow then some .tooManyOrders
    else if reducesExposure then some .good
    else do
      let position ← CheckedInt64.add risk.netPosition outbound.signedDelta
      let exposure ← CheckedInt64.abs position
      if risk.maxPosition < exposure then return .tooMuchExposure
      else do
        let pnl ← CheckedInt64.add risk.realizedPnl risk.unrealizedPnl
        return if pnl ≤ risk.maxLossAllowed then .tooMuchLoss else .good

theorem evaluateRisk_of_checked {outbound : OutboundOrderRequest} {latest : Option RiskData} {status : OrderStatus}
    (h : checkedEvaluateRisk outbound latest = some status) : status = evaluateRisk outbound latest := by
  cases latest with
  | none => exact (Option.some.inj h).symm
  | some risk =>
    simp only [checkedEvaluateRisk] at h
    simp only [evaluateRisk]
    split at h
    · rename_i hhalted
      rw [if_pos hhalted]
      exact (Option.some.inj h).symm
    · rename_i hgo
      rw [if_neg hgo]
      split at h
      · rename_i hmany
        rw [if_pos hmany]
        exact (Option.some.inj h).symm
      · rename_i hfew
        rw [if_neg hfew]
        split at h
        · rename_i hreduces
          rw [if_pos hreduces]
          exact (Option.some.inj h).symm
        · rename_i hadds
          rw [if_neg hadds]
          obtain ⟨position, hposition, h⟩ := Option.bind_eq_some_iff.mp h
          obtain ⟨exposure, hexposure, h⟩ := Option.bind_eq_some_iff.mp h
          obtain rfl := CheckedInt64.eq_add hposition
          obtain rfl := CheckedInt64.eq_abs hexposure
          show status = if risk.maxPosition < (risk.netPosition + outbound.signedDelta).abs then .tooMuchExposure
            else _
          split at h
          · rename_i hexposed
            rw [if_pos hexposed]
            exact (Option.some.inj h).symm
          · rename_i hwithin
            rw [if_neg hwithin]
            obtain ⟨pnl, hpnl, h⟩ := Option.bind_eq_some_iff.mp h
            obtain rfl := CheckedInt64.eq_add hpnl
            exact (Option.some.inj h).symm

namespace PassiveMarketMaker

variable {m : PassiveMarketMaker}

def checkedNet (m : PassiveMarketMaker) (side : Side) (filled : Quantity) : Option Int64 :=
  match side with
  | .buy => CheckedInt64.add m.netFilledQuantity filled.toPosition
  | .sell => CheckedInt64.sub m.netFilledQuantity filled.toPosition

/-- The net filled quantity after a fill, whose absolute value `rebalance_exposure` takes. -/
def checkedFill (m : PassiveMarketMaker) (side : Side) (filledQuantity : Quantity) : Option Int64 := do
  let order := (m.order side).placedOrder
  let net ← m.checkedNet order.side (min filledQuantity order.quantity)
  let _ ← CheckedInt64.abs net
  return net

def checkedUpdate (m : PassiveMarketMaker) (u : OrderFillUpdate) (buffer : StrategyOrderBuffer) :
    Option (PassiveMarketMaker × StrategyOrderBuffer) :=
  match m.placedSide u.orderId with
  | none => some (m.update u buffer)
  | some side => (m.checkedFill side u.filledQuantity).map fun _ => m.update u buffer

theorem applyFill_of_checked {side : Side} {filledQuantity : Quantity} {net : Int64}
    (h : m.checkedFill side filledQuantity = some net) :
    net = (m.applyFill side filledQuantity).netFilledQuantity := by
  obtain ⟨net, hnet, h⟩ := Option.bind_eq_some_iff.mp h
  obtain ⟨-, -, h⟩ := Option.bind_eq_some_iff.mp h
  cases h
  have hset : ∀ (m : PassiveMarketMaker) (side : Side) (o : PlacedOrder),
      (m.setOrder side o).netFilledQuantity = m.netFilledQuantity := by
    rintro m (_ | _) o <;> rfl
  rw [applyFill, hset]
  cases hside : (m.order side).placedOrder.side with
  | buy =>
    rw [hside] at hnet
    exact CheckedInt64.eq_add hnet
  | sell =>
    rw [hside] at hnet
    exact CheckedInt64.eq_sub hnet

theorem update_of_checked {u : OrderFillUpdate} {buffer : StrategyOrderBuffer}
    {result : PassiveMarketMaker × StrategyOrderBuffer} (h : m.checkedUpdate u buffer = some result) :
    result = m.update u buffer := by
  rw [checkedUpdate] at h
  split at h
  · exact (Option.some.inj h).symm
  · obtain ⟨net, -, rfl⟩ := Option.map_eq_some_iff.mp h
    rfl

end PassiveMarketMaker

namespace Trader

variable {t : Trader}

/-- The outer `none` is an overflow, the inner one an assertion that fails. -/
def checkedStage (t : Trader) : TraderEvent → Option (Option Trader)
  | .snapshot bbo _ => do
    let staged ← t.strategy.checkedGetOrders bbo t.orderBuffer
    return staged.map fun (strategy, orderBuffer) => { t with strategy := strategy, orderBuffer := orderBuffer }
  | .report update _ => do
    let (strategy, orderBuffer) ← t.strategy.checkedUpdate update t.orderBuffer
    return some { t with strategy := strategy, orderBuffer := orderBuffer }

def checkedPlaceOne (t : Trader) (outbound : OutboundOrderRequest) (rest : StrategyOrderBuffer) (check : Check) :
    Option (Option (Option (Except StrategyError Unit) × Trader)) :=
  (checkedEvaluateRisk outbound check.risk).map fun _ => t.placeOne outbound rest check

theorem stage_of_checked {event : TraderEvent} {staged : Option Trader} (h : t.checkedStage event = some staged) :
    staged = t.stage event := by
  cases event with
  | snapshot bbo checks =>
    obtain ⟨result, hget, hreturn⟩ := Option.bind_eq_some_iff.mp h
    obtain rfl := PassiveMarketMaker.getOrders_of_checked hget
    cases hreturn
    rw [stage]
    cases t.strategy.getOrders bbo t.orderBuffer <;> rfl
  | report update checks =>
    obtain ⟨⟨strategy, orderBuffer⟩, hupdate, hreturn⟩ := Option.bind_eq_some_iff.mp h
    have hsame := PassiveMarketMaker.update_of_checked hupdate
    cases hreturn
    rw [stage, ← hsame]

theorem placeOne_of_checked {outbound : OutboundOrderRequest} {rest : StrategyOrderBuffer} {check : Check}
    {round : Option (Option (Except StrategyError Unit) × Trader)}
    (h : t.checkedPlaceOne outbound rest check = some round) : round = t.placeOne outbound rest check := by
  obtain ⟨status, -, rfl⟩ := Option.map_eq_some_iff.mp h
  rfl

/-- A step that does not overflow is the one that wraps. -/
theorem checkedStage_eq {event : TraderEvent} {t' : Trader} (hfits : t.checkedStage event ≠ none)
    (hstage : t.stage event = some t') : t.checkedStage event = some (some t') := by
  obtain ⟨staged, hchecked⟩ := Option.ne_none_iff_exists'.mp hfits
  rw [hchecked, stage_of_checked hchecked, hstage]

theorem checkedPlaceOne_eq {outbound : OutboundOrderRequest} {rest : StrategyOrderBuffer} {check : Check}
    {round : Option (Except StrategyError Unit) × Trader} (hfits : t.checkedPlaceOne outbound rest check ≠ none)
    (hplace : t.placeOne outbound rest check = some round) :
    t.checkedPlaceOne outbound rest check = some (some round) := by
  obtain ⟨result, hchecked⟩ := Option.ne_none_iff_exists'.mp hfits
  rw [hchecked, placeOne_of_checked hchecked, hplace]

end Trader

end HftPipeline
