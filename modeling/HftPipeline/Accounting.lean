import HftPipeline.Staging

/-!
# The net filled quantity

`update` counts a fill report against the order that is placed under its id, up to
the quantity the strategy has for it. As long as every report is for a placed order
and within that quantity, `net_filled_quantity_` is what was reported for the
forwarded buys less what was reported for the forwarded sells. A report that comes
after the strategy has cancelled or reduced the order is lost, whole or in part.
-/
namespace HftPipeline

/-- The fill reports among the events. -/
def fillReports : List TraderEvent → List OrderFillUpdate
  | [] => []
  | .snapshot _ _ :: events => fillReports events
  | .report u _ :: events => u :: fillReports events

namespace Trader

/-- An order of a type was forwarded under an id. -/
def Forwarded (t : Trader) (type : OrderRequest.Type) (id : ID) : Prop :=
  ∃ e ∈ t.forwarded, e.1.request.type = type ∧ e.1.request.orderId = id

instance (t : Trader) (type : OrderRequest.Type) (id : ID) : Decidable (t.Forwarded type id) :=
  inferInstanceAs (Decidable (∃ e ∈ t.forwarded, e.1.request.type = type ∧ e.1.request.orderId = id))

/-- A reported quantity, positive for a forwarded buy and negative for a forwarded sell. -/
def signedFill (t : Trader) (u : OrderFillUpdate) : Int :=
  if t.Forwarded .buy u.orderId then u.filledQuantity.toNat
  else if t.Forwarded .sell u.orderId then -u.filledQuantity.toNat
  else 0

/-- A report names an id whose order was forwarded. -/
def Named (t : Trader) : TraderEvent → Prop
  | .snapshot _ _ => True
  | .report u _ => t.Forwarded .buy u.orderId ∨ t.Forwarded .sell u.orderId

/-- The strategy still has the order placed, with at least the reported quantity. -/
def Counted (t : Trader) : TraderEvent → Prop
  | .snapshot _ _ => True
  | .report u _ => u.filledQuantity = 0 ∨ ∃ side, t.strategy.placedSide u.orderId = some side ∧
      u.filledQuantity ≤ (t.strategy.order side).placedOrder.quantity

instance (t : Trader) : (event : TraderEvent) → Decidable (t.Named event)
  | .snapshot _ _ => .isTrue trivial
  | .report u _ => inferInstanceAs (Decidable (t.Forwarded .buy u.orderId ∨ t.Forwarded .sell u.orderId))

instance (t : Trader) : (event : TraderEvent) → Decidable (t.Counted event)
  | .snapshot _ _ => .isTrue trivial
  | .report u _ =>
    match h : t.strategy.placedSide u.orderId with
    | none => decidable_of_iff (u.filledQuantity = 0) (by simp [Counted, h])
    | some side =>
      decidable_of_iff
        (u.filledQuantity = 0 ∨ u.filledQuantity ≤ (t.strategy.order side).placedOrder.quantity) (by
          simp [Counted, h])

/-- The quantity with the sign of the side its id belongs to. -/
def numberedFill (u : OrderFillUpdate) : Int :=
  if u.orderId.toNat % 2 = 1 then u.filledQuantity.toNat else -u.filledQuantity.toNat

theorem Numbered.signedFill_eq {t : Trader} (h : t.Numbered) {u : OrderFillUpdate}
    (hforwarded : t.Forwarded .buy u.orderId ∨ t.Forwarded .sell u.orderId) :
    t.signedFill u = numberedFill u := by
  have hbuy : t.Forwarded .buy u.orderId → u.orderId.toNat % 2 = 1 := by
    rintro ⟨e, he, htype, hid⟩
    have hparity := (h.forwarded e he).parity
    rwa [(h.forwarded e he).buy htype, hid] at hparity
  have hsell : t.Forwarded .sell u.orderId → u.orderId.toNat % 2 = 0 := by
    rintro ⟨e, he, htype, hid⟩
    have hparity := (h.forwarded e he).parity
    rwa [(h.forwarded e he).sell htype, hid] at hparity
  rw [signedFill, numberedFill]
  by_cases hb : t.Forwarded .buy u.orderId
  · rw [if_pos hb, if_pos (hbuy hb)]
  · have hs := hforwarded.resolve_left hb
    rw [if_neg hb, if_pos hs, if_neg (by rw [hsell hs]; decide)]

theorem applyFill_netFilledQuantity (m : PassiveMarketMaker) (side : Side) (quantity : Quantity) :
    (m.applyFill side quantity).netFilledQuantity =
      match (m.order side).placedOrder.side with
      | .buy => m.netFilledQuantity + (min quantity (m.order side).placedOrder.quantity).toPosition
      | .sell => m.netFilledQuantity - (min quantity (m.order side).placedOrder.quantity).toPosition := by
  exact PassiveMarketMaker.setOrder_netFilledQuantity _ _ _

/-- A counted report adds its quantity with the sign of its id. -/
theorem stage_netFilledQuantity {t t' : Trader} (h : t.Numbered) {event : TraderEvent}
    (hcounted : t.Counted event) (hstage : t.stage event = some t') :
    t'.strategy.netFilledQuantity =
      t.strategy.netFilledQuantity + Int64.ofInt ((fillReports [event]).map numberedFill).sum := by
  obtain ⟨⟨m, hmoves, hm⟩, -⟩ := stage_moves hstage
  rw [hmoves.netFilledQuantity_eq]
  cases event with
  | snapshot bbo checks =>
    rw [show m = t.strategy from hm]
    simp [fillReports]
  | report u checks =>
    simp only [fillReports, List.map_cons, List.map_nil, List.sum_cons, List.sum_nil, Int.add_zero]
    simp only at hm
    split at hm
    · rename_i hnone
      rcases hcounted with hzero | ⟨side, hside, -⟩
      · rw [hm, numberedFill, hzero]
        simp
      · rw [hnone] at hside
        cases hside
    · rename_i side hside
      obtain ⟨hplaced, hid⟩ := PassiveMarketMaker.placedSide_placed hside
      have hparity := h.strategy.parity hplaced
      have hmin : min u.filledQuantity (t.strategy.order side).placedOrder.quantity = u.filledQuantity := by
        rcases hcounted with hzero | ⟨side', hside', hle⟩
        · rw [hzero]
          exact if_pos UInt32.zero_le
        · rw [hside] at hside'
          cases hside'
          exact if_pos hle
      rw [hm, applyFill_netFilledQuantity, h.strategy.side side hplaced, hmin, numberedFill, ← hid, hparity]
      cases side with
      | buy =>
        simp only [Side.parity, if_true]
        rfl
      | sell =>
        simp only [Side.parity, Nat.zero_ne_one, if_false]
        rw [Int64.sub_eq_add_neg, Int64.ofInt_neg]
        rfl

theorem placeNewOrders_netFilledQuantity {t t' : Trader} {checks : List Check}
    {result : Except StrategyError Unit} (h : placeNewOrders checks t = some (result, t')) :
    t'.strategy.netFilledQuantity = t.strategy.netFilledQuantity := by
  refine placeNewOrders_preserves (P := fun t' => t'.strategy.netFilledQuantity =
    t.strategy.netFilledQuantity) ?_ rfl h
  intro t₁ outbound rest result t₂ check _ h₁ _ hone
  rcases placeOne_cases hone with ⟨-, -, rfl⟩ | ⟨-, -, -, rfl⟩ | ⟨risk, -, -, -, -, rfl⟩ |
    ⟨risk, strategy, orderBuffer, -, -, -, hnotify, rfl⟩
  · exact h₁
  · exact h₁
  · exact h₁
  · have hmoves := (PassiveMarketMaker.notifyInvalid_cancels hnotify).moves
    rw [← h₁, ← PassiveMarketMaker.undo_netFilledQuantity t₁.strategy outbound]
    exact hmoves.netFilledQuantity_eq

/-- What has been forwarded stays so. -/
theorem placeOne_forwarded {t t' : Trader} {outbound : OutboundOrderRequest} {rest : StrategyOrderBuffer}
    {check : Check} {result : Option (Except StrategyError Unit)}
    (h : t.placeOne outbound rest check = some (result, t')) : t.forwarded ⊆ t'.forwarded := by
  rcases placeOne_cases h with ⟨-, -, rfl⟩ | ⟨-, -, -, rfl⟩ | ⟨risk, -, -, -, -, rfl⟩ |
    ⟨risk, strategy, orderBuffer, -, -, -, -, rfl⟩
  · exact fun _ he => he
  · exact fun _ he => he
  · exact fun e he => List.mem_append_left _ he
  · exact fun _ he => he

theorem handle_forwarded {t t' : Trader} {event : TraderEvent} (h : t.handle event = some t') :
    t.forwarded ⊆ t'.forwarded := by
  obtain ⟨staged, result, hstage, hplace⟩ := handle_cases h
  rw [← (stage_moves hstage).2]
  refine placeNewOrders_preserves (P := fun t' => staged.forwarded ⊆ t'.forwarded) ?_ (fun _ he => he) hplace
  intro t₁ outbound rest result t₂ check _ h₁ _ hone
  exact fun e he => placeOne_forwarded hone (h₁ he)

theorem Forwarded.mono {t t' : Trader} {type : OrderRequest.Type} {id : ID} (h : t.Forwarded type id)
    (hsub : t.forwarded ⊆ t'.forwarded) : t'.Forwarded type id := by
  obtain ⟨e, he, hfound⟩ := h
  exact ⟨e, hsub he, hfound⟩

theorem run_cons {t t' : Trader} {event : TraderEvent} {events : List TraderEvent}
    (h : t.run (event :: events) = some t') : ∃ t₁, t.handle event = some t₁ ∧ t₁.run events = some t' := by
  rw [run, List.foldlM_cons] at h
  exact Option.bind_eq_some_iff.mp h

theorem run_forwarded {t t' : Trader} {events : List TraderEvent} (h : t.run events = some t') :
    t.forwarded ⊆ t'.forwarded := by
  induction events generalizing t with
  | nil =>
    cases h
    exact fun _ he => he
  | cons event events ih =>
    obtain ⟨t₁, hhandle, hrest⟩ := run_cons h
    exact fun e he => ih hrest (handle_forwarded hhandle he)

/-- Along a run the net quantity grows by the reports, each with the sign of its id,
and each id stays forwarded. -/
theorem run_netFilledQuantity {t t' : Trader} (h : t.Numbered) {events : List TraderEvent}
    (hrun : t.run events = some t') (hnamed : AllAlong Named t events)
    (hcounted : AllAlong Counted t events) :
    t'.Numbered ∧
    t'.strategy.netFilledQuantity =
      t.strategy.netFilledQuantity + Int64.ofInt ((fillReports events).map numberedFill).sum ∧
    ∀ u ∈ fillReports events, t'.Forwarded .buy u.orderId ∨ t'.Forwarded .sell u.orderId := by
  induction events generalizing t with
  | nil =>
    cases hrun
    exact ⟨h, by simp [fillReports], by simp [fillReports]⟩
  | cons event events ih =>
    obtain ⟨t₁, hhandle, hrest⟩ := run_cons hrun
    obtain ⟨h', hnet, hids⟩ := ih (h.handle hhandle) hrest (hnamed.2 t₁ hhandle) (hcounted.2 t₁ hhandle)
    have hsub := run_forwarded hrun
    obtain ⟨staged, result, hstage, hplace⟩ := handle_cases hhandle
    have hstep := stage_netFilledQuantity h hcounted.1 hstage
    rw [← placeNewOrders_netFilledQuantity hplace] at hstep
    refine ⟨h', ?_, ?_⟩
    · rw [hnet, hstep, Int64.add_assoc, ← Int64.ofInt_add, ← List.sum_append, ← List.map_append]
      cases event <;> rfl
    · cases event with
      | snapshot bbo checks => exact hids
      | report u checks =>
        intro v hv
        rcases List.mem_cons.mp hv with rfl | hv
        · exact hnamed.1.imp (fun hf => hf.mono hsub) (fun hf => hf.mono hsub)
        · exact hids v hv

/-- In every run of snapshots, rejections and reports of forwarded orders: if each
report finds its order placed with at least the reported quantity, the net filled
quantity is the sum reported for buys less the sum reported for sells. -/
theorem net_filled_is_reported (events : List TraderEvent) (t : Trader) (hrun : init.run events = some t)
    (hnamed : AllAlong Named init events) (hcounted : AllAlong Counted init events) :
    t.strategy.netFilledQuantity = Int64.ofInt ((fillReports events).map t.signedFill).sum := by
  obtain ⟨h, hnet, hids⟩ := run_netFilledQuantity numbered_init hrun hnamed hcounted
  have hmap : (fillReports events).map t.signedFill = (fillReports events).map numberedFill :=
    List.map_congr_left fun u hu => h.signedFill_eq (hids u hu)
  rw [hmap, hnet]
  exact Int64.zero_add _

end Trader

/-! ## A run with partial fills, and one with a late fill -/

/-- Risk data that lets everything pass, read in every round. -/
def openChecks : List Check := List.replicate 4 ⟨some ⟨0, 0, 0, 0, 1000, -1, 1, false⟩, true⟩

def narrowMarket (bid offer : Price) : TraderEvent := .snapshot ⟨⟨bid, 5⟩, ⟨offer, 5⟩⟩ openChecks

/-- A pair is placed, partly filled on both sides, and replaced when the market moves. -/
def partialFillRun : List TraderEvent :=
  [narrowMarket 100 120, .report ⟨1, 60⟩ openChecks, .report ⟨2, 100⟩ openChecks, narrowMarket 110 130,
    .report ⟨4, 20⟩ openChecks]

theorem net_filled_is_reported_partialFillRun :
    ∃ t, Trader.init.run partialFillRun = some t ∧ Trader.AllAlong Trader.Named .init partialFillRun ∧
      Trader.AllAlong Trader.Counted .init partialFillRun ∧
      t.strategy.netFilledQuantity = Int64.ofInt ((fillReports partialFillRun).map t.signedFill).sum ∧
      t.strategy.netFilledQuantity = -60 := by
  have hnamed : Trader.AllAlong Trader.Named .init partialFillRun := by decide +kernel
  have hcounted : Trader.AllAlong Trader.Counted .init partialFillRun := by decide +kernel
  have hnet : (Trader.init.run partialFillRun).map (·.strategy.netFilledQuantity) = some (-60) := by
    decide +kernel
  obtain ⟨t, hrun, ht⟩ := Option.map_eq_some_iff.mp hnet
  exact ⟨t, hrun, hnamed, hcounted, Trader.net_filled_is_reported _ t hrun hnamed hcounted, ht⟩

/-- The market moves and the pair is replaced; then a fill of the first buy is
reported, which the exchange made before the cancel reached it. -/
def lateFillRun : List TraderEvent :=
  [narrowMarket 100 120, narrowMarket 110 130, .report ⟨1, 10⟩ openChecks]

/-- Seventy-five of id 1 were forwarded and ten are reported filled, ahead of the
cancel, and the strategy counts nothing. -/
theorem late_fill_not_counted :
    (Trader.init.run lateFillRun).map (fun t => (t.forwarded.map (·.1.request)).take 3) =
      some [⟨1, 101, 75, .buy⟩, ⟨2, 119, 75, .sell⟩, ⟨1, 0, 0, .cancel⟩] ∧
    ¬ ∀ t, Trader.init.run lateFillRun = some t → Trader.AllAlong Trader.Named .init lateFillRun →
      t.strategy.netFilledQuantity = Int64.ofInt ((fillReports lateFillRun).map t.signedFill).sum := by
  refine ⟨by decide +kernel, fun h => ?_⟩
  have hrun : (Trader.init.run lateFillRun).map
      (fun t => (t.strategy.netFilledQuantity, ((fillReports lateFillRun).map t.signedFill).sum)) =
      some (0, 10) := by
    decide +kernel
  obtain ⟨t, hrun, ht⟩ := Option.map_eq_some_iff.mp hrun
  have heq := h t hrun (by decide +kernel)
  rw [Prod.mk.injEq] at ht
  rw [ht.1, ht.2] at heq
  exact absurd heq (by decide)

end HftPipeline
