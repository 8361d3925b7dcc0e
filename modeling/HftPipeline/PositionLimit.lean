import HftPipeline.Accounting

/-!
# The position limit

`evaluate_risk` judges a new order by its whole quantity, but an increasing update by
what it adds, although what is left of the order can be filled too. So a buy or a
sell that is forwarded keeps a complete fill within the limit. An increasing update
does exactly when the position, in the direction of the order, is at least the
minimum quote away from the limit.
-/
namespace HftPipeline

open StrategyConfig

/-! ## Positions as integers -/

theorem toInt_toPosition (quantity : Quantity) : quantity.toPosition.toInt = quantity.toNat := by
  have hlt : quantity.toNat < 2 ^ 32 := quantity.toNat_lt
  rw [Quantity.toPosition, Int64.toInt_ofNat', Int64.size, Int.bmod_eq_of_le (by omega) (by omega)]

theorem toInt_add {a b : Int64} (hlow : -2 ^ 63 ≤ a.toInt + b.toInt) (hhigh : a.toInt + b.toInt < 2 ^ 63) :
    (a + b).toInt = a.toInt + b.toInt := by
  rw [Int64.toInt_add, Int.bmod_eq_of_le (by omega) (by omega)]

theorem toInt_neg {a : Int64} (h : -2 ^ 63 < a.toInt) : (-a).toInt = -a.toInt := by
  have hlt := a.toInt_lt
  rw [Int64.toInt_neg, Int.bmod_eq_of_le (by omega) (by omega)]

theorem toInt_abs {a : Int64} (h : -2 ^ 63 < a.toInt) : a.abs.toInt = |a.toInt| := by
  have hne : a.toBitVec ≠ BitVec.intMin 64 := by
    intro heq
    have hmin : a.toInt = -2 ^ 63 := by
      rw [← Int64.toInt_toBitVec, heq]
      decide
    omega
  rw [Int.abs_eq_natAbs]
  exact BitVec.toInt_abs_eq_natAbs_of_ne_intMin hne

theorem toNat_toUInt64 {a : Int64} (h : 0 ≤ a.toInt) : (a.toUInt64.toNat : Int) = a.toInt := by
  have hlt := a.toInt_lt
  rw [← Int64.toInt_toBitVec] at h ⊢
  show (a.toBitVec.toNat : Int) = _
  rw [BitVec.toInt_eq_toNat_cond] at *
  split at h
  · simp_all
  · have := a.toBitVec.isLt
    omega

theorem entryQuantity_toNat (imbalance : Quantity) :
    (PassiveMarketMaker.entryQuantity imbalance).toNat = max 25 (75 - imbalance.toNat) := by
  rw [PassiveMarketMaker.entryQuantity]
  by_cases hlt : imbalance < marketMakerOrderQuantity
  · have hnat : imbalance.toNat < 75 := hlt
    have hsub : (marketMakerOrderQuantity - imbalance).toNat = 75 - imbalance.toNat :=
      UInt32.toNat_sub_of_le _ _ (UInt32.le_of_lt hlt)
    rw [if_pos hlt]
    by_cases hle : minMarketMakerOrderQuantity ≤ marketMakerOrderQuantity - imbalance
    · have hleNat : 25 ≤ (marketMakerOrderQuantity - imbalance).toNat := hle
      rw [show max minMarketMakerOrderQuantity (marketMakerOrderQuantity - imbalance) = _ from if_pos hle]
      omega
    · have hleNat : ¬ 25 ≤ (marketMakerOrderQuantity - imbalance).toNat := hle
      rw [show max minMarketMakerOrderQuantity (marketMakerOrderQuantity - imbalance) = _ from if_neg hle]
      show 25 = _
      omega
  · have hnat : ¬ imbalance.toNat < 75 := hlt
    rw [if_neg hlt]
    show 25 = _
    omega

theorem exitQuantity_toNat (imbalance : Quantity) (h : imbalance.toNat ≤ 150) :
    (PassiveMarketMaker.exitQuantity imbalance).toNat = 75 + imbalance.toNat := by
  rw [PassiveMarketMaker.exitQuantity, UInt32.toNat_add]
  show (75 + imbalance.toNat) % 2 ^ 32 = _
  omega

/-- A quantity or a position in the direction of a side. -/
def Side.signed (side : Side) (n : Int) : Int :=
  match side with
  | .buy => n
  | .sell => -n

theorem Side.signed_zero (side : Side) : side.signed 0 = 0 := by
  cases side <;> rfl

/-- A fill that keeps the limit leaves the position below it in its own direction. -/
theorem signed_add_le {side : Side} {net quantity limit : Int}
    (h : |net + side.signed quantity| ≤ limit) : side.signed net + quantity ≤ limit := by
  rw [abs_le] at h
  cases side with
  | buy =>
    have h : -limit ≤ net + quantity ∧ net + quantity ≤ limit := h
    show net + quantity ≤ limit
    omega
  | sell =>
    have h : -limit ≤ net + -quantity ∧ net + -quantity ≤ limit := h
    show -net + quantity ≤ limit
    omega

theorem imbalance_toNat {a : Int64} (h : 0 ≤ a.toInt) :
    (((min a maxAdditionalExitQuantity.toPosition).toUInt64.toUInt32.toNat : Nat) : Int) = min a.toInt 150 := by
  have hcap : maxAdditionalExitQuantity.toPosition.toInt = 150 := toInt_toPosition _
  have hmin : (min a maxAdditionalExitQuantity.toPosition).toInt = min a.toInt 150 := by
    by_cases hle : a ≤ maxAdditionalExitQuantity.toPosition
    · have hleInt : a.toInt ≤ 150 := by rw [← hcap]; exact Int64.le_iff_toInt_le.mp hle
      rw [show min a maxAdditionalExitQuantity.toPosition = a from if_pos hle]
      omega
    · have hleInt : ¬ a.toInt ≤ 150 := fun h => hle (Int64.le_iff_toInt_le.mpr (by rw [hcap]; exact h))
      rw [show min a maxAdditionalExitQuantity.toPosition = maxAdditionalExitQuantity.toPosition from
        if_neg hle, hcap]
      omega
  have hwide := toNat_toUInt64 (a := min a maxAdditionalExitQuantity.toPosition) (by omega)
  rw [UInt64.toNat_toUInt32, ← hmin, ← hwide]
  omega

/-- The quote of a side at a position: less in its direction, more against it. -/
def quoteAt (net : Int) (side : Side) : Int :=
  if 0 < side.signed net then max 25 (75 - min |net| 150) else 75 + min |net| 150

theorem quoteFor_toNat {m : PassiveMarketMaker} {net : Int} (hnet : m.netFilledQuantity.toInt = net)
    (hlow : -2 ^ 63 < net) (hzero : net ≠ 0) (side : Side) :
    ((m.quoteFor side).toNat : Int) = quoteAt net side := by
  rw [quoteAt]
  have habs : m.netFilledQuantity.abs.toInt = |net| := by
    rw [toInt_abs (by rw [hnet]; exact hlow), hnet]
  have himbalance := imbalance_toNat (a := m.netFilledQuantity.abs) (by rw [habs]; exact abs_nonneg net)
  rw [habs] at himbalance
  have hentry := entryQuantity_toNat
    (min m.netFilledQuantity.abs maxAdditionalExitQuantity.toPosition).toUInt64.toUInt32
  have hexit := exitQuantity_toNat
    (min m.netFilledQuantity.abs maxAdditionalExitQuantity.toPosition).toUInt64.toUInt32 (by omega)
  have hpos : 0 < m.netFilledQuantity ↔ 0 < net := by
    rw [Int64.lt_iff_toInt_lt, hnet]
    rfl
  cases side with
  | buy =>
    simp only [PassiveMarketMaker.quoteFor, hpos]
    by_cases hcase : 0 < net
    · rw [if_pos hcase, if_pos (show 0 < Side.buy.signed net from hcase)]
      omega
    · rw [if_neg hcase, if_neg (show ¬ 0 < Side.buy.signed net from hcase)]
      omega
  | sell =>
    have hsigned : Side.sell.signed net = -net := rfl
    simp only [PassiveMarketMaker.quoteFor, hpos]
    by_cases hcase : 0 < net
    · rw [if_pos hcase, if_neg (by omega)]
      omega
    · rw [if_neg hcase, if_pos (by omega)]
      omega

/-- A complete fill of a quote stays within the limit exactly when the position leaves
room for the least quote in its direction. -/
theorem quoteAt_within_iff {net limit : Int} (side : Side) (hfar : 25 ≤ |net|) (hnet : |net| ≤ limit)
    (hlimit : 75 ≤ limit) :
    |net + side.signed (quoteAt net side)| ≤ limit ↔ side.signed net + 25 ≤ limit := by
  cases side with
  | buy =>
    show |net + quoteAt net .buy| ≤ limit ↔ net + 25 ≤ limit
    have hbuy : Side.buy.signed net = net := rfl
    rw [quoteAt, hbuy, abs_le]
    by_cases hcase : 0 < net
    · rw [if_pos hcase]
      rw [abs_of_pos hcase] at hfar hnet ⊢
      omega
    · rw [if_neg hcase]
      rw [abs_of_nonpos (by omega)] at hfar hnet ⊢
      omega
  | sell =>
    show |net + -quoteAt net .sell| ≤ limit ↔ -net + 25 ≤ limit
    have hsell : Side.sell.signed net = -net := rfl
    rw [quoteAt, hsell, abs_le]
    by_cases hcase : 0 < -net
    · rw [if_pos hcase]
      rw [abs_of_neg (by omega)] at hfar hnet ⊢
      omega
    · rw [if_neg hcase]
      rw [abs_of_nonneg (by omega)] at hfar hnet ⊢
      omega

/-! ## What is claimed of a forwarded request -/

/-- Buys, sells and increasing updates add to what can be filled. -/
def OutboundOrderRequest.AddsExposure (r : OutboundOrderRequest) : Prop :=
  r.request.type = .buy ∨ r.request.type = .sell ∨
    (r.request.type = .update ∧ r.quantityChange = .increasing)

/-- The side of the order the request is about. -/
def OutboundOrderRequest.direction (r : OutboundOrderRequest) : Side :=
  match r.request.type with
  | .buy => .buy
  | .sell => .sell
  | .cancel | .update => r.side

theorem OutboundOrderRequest.direction_eq (r : OutboundOrderRequest) (h : r.Numbered) :
    r.direction = r.side := by
  rw [direction]
  split
  · rename_i htype
    exact (h.buy htype).symm
  · rename_i htype
    exact (h.sell htype).symm
  · rfl
  · rfl

/-- A complete fill of the order, at the quantity it rests with after the request, keeps
the position within the limit. -/
def KeepsLimit (e : OutboundOrderRequest × RiskData) : Prop :=
  e.1.AddsExposure →
    |e.2.netPosition.toInt + e.1.direction.signed e.1.request.quantity.toNat| ≤ e.2.maxPosition.toInt

/-- An increasing update finds the position at least the minimum quote away from the limit. -/
def HasRoom (e : OutboundOrderRequest × RiskData) : Prop :=
  e.1.request.type = .update → e.1.quantityChange = .increasing →
    e.1.side.signed e.2.netPosition.toInt + minMarketMakerOrderQuantity.toNat ≤ e.2.maxPosition.toInt

/-- The position and the whole quantity of a new order have a sum in 64 bits. -/
def SumFits (e : OutboundOrderRequest × RiskData) : Prop :=
  e.1.request.type = .buy ∨ e.1.request.type = .sell →
    |e.2.netPosition.toInt + e.1.direction.signed e.1.request.quantity.toNat| < 2 ^ 63

theorem KeepsLimit.sumFits {e : OutboundOrderRequest × RiskData} (h : KeepsLimit e) : SumFits e := by
  intro htype
  have hkeeps := h (htype.imp_right Or.inl)
  have hmax := e.2.maxPosition.toInt_lt
  omega

/-! ## Orders and requests between two events -/

/-- The staged requests about an id. -/
def pending (buffer : StrategyOrderBuffer) (id : ID) : StrategyOrderBuffer :=
  buffer.filter fun r => r.request.orderId = id

/-- New orders have the standard quantity, increasing updates the quote at the position. -/
structure Judgeable (limit net : Int) (r : OutboundOrderRequest) : Prop where
  new : r.request.type = .buy ∨ r.request.type = .sell → r.request.quantity = marketMakerOrderQuantity
  update : r.request.type = .update → r.quantityChange = .increasing →
    25 ≤ |net| ∧ 75 ≤ limit ∧ (r.request.quantity.toNat : Int) = quoteAt net r.side

/-- A complete fill of a placed order stays within the limit, or a request is pending
that will be judged or undone. -/
def OrderSettled (limit net : Int) (side : Side) (o : PlacedOrder) (pending : StrategyOrderBuffer) : Prop :=
  (pending = [] ∧ 75 ≤ limit ∧ side.signed net + o.placedOrder.quantity.toNat ≤ limit) ∨
  ∃ r, pending = [r] ∧ r.request.quantity = o.placedOrder.quantity ∧
    (r.request.type = side.orderType ∨
      (r.request.type = .update ∧ 75 ≤ limit ∧ side.signed net + r.previousQuantity.toNat ≤ limit ∧
        (r.quantityChange = .increasing ∨ r.request.quantity.toNat ≤ r.previousQuantity.toNat)))

structure Quoted (limit net : Int) (m : PassiveMarketMaker) (buffer : StrategyOrderBuffer) : Prop where
  numbered : m.Numbered
  requests : ∀ r ∈ buffer, r.Numbered
  judgeable : ∀ r ∈ buffer, Judgeable limit net r
  settled : ∀ side, (m.order side).status = .placed →
    OrderSettled limit net side (m.order side) (pending buffer (m.order side).placedOrder.orderId)

variable {limit net : Int} {m m' : PassiveMarketMaker} {buffer buffer' : StrategyOrderBuffer}

theorem pending_append (buffer more : StrategyOrderBuffer) (id : ID) :
    pending (buffer ++ more) id = pending buffer id ++ pending more id := List.filter_append ..

theorem pending_cons_self (r : OutboundOrderRequest) (rest : StrategyOrderBuffer) :
    pending (r :: rest) r.request.orderId = r :: pending rest r.request.orderId := by
  simp [pending]

theorem pending_cons_of_ne {r : OutboundOrderRequest} {id : ID} (h : r.request.orderId ≠ id)
    (rest : StrategyOrderBuffer) : pending (r :: rest) id = pending rest id := by
  simp [pending, h]

theorem judgeable_cancel (o : PlacedOrder) : Judgeable limit net o.cancelRequest where
  new := by
    rintro (h | h)
    · cases h
    · cases h
  update := fun h => by cases h

theorem Quoted.cancel (h : Quoted limit net m buffer)
    (hcancel : PassiveMarketMaker.Cancel (m, buffer) (m', buffer')) : Quoted limit net m' buffer' := by
  obtain ⟨hnumbered, hrequests⟩ := h.numbered.move (.cancel hcancel)
  refine ⟨hnumbered, fun r hr => (hrequests r hr).elim (h.requests r) id, ?_, ?_⟩
  · cases hcancel with
    | intro _ _ side placed =>
      intro r hr
      rcases List.mem_append.mp hr with hold | hnew
      · exact h.judgeable r hold
      · rw [List.mem_singleton.mp hnew]
        exact judgeable_cancel _
  · cases hcancel with
    | intro _ _ side placed =>
      intro side' hplaced
      rcases Side.eq_or_opposite side' side with rfl | rfl
      · simp at hplaced
      · rw [PassiveMarketMaker.order_setOrder_opposite] at hplaced ⊢
        rw [pending_append, pending_cons_of_ne (opposite_id_ne h.numbered placed)]
        simpa [pending] using h.settled side.opposite hplaced

theorem Quoted.cancels (h : Quoted limit net m buffer)
    (hcancels : PassiveMarketMaker.Cancels (m, buffer) (m', buffer')) : Quoted limit net m' buffer' :=
  PassiveMarketMaker.preserves_of_steps hcancels (fun _ _ _ _ hcancel h => h.cancel hcancel) h

/-- Rejecting the request at the front settles its order again or takes it away. -/
theorem Quoted.undo {r : OutboundOrderRequest} {rest : StrategyOrderBuffer}
    (h : Quoted limit net m (r :: rest)) : Quoted limit net (m.undo r) rest := by
  have hkeeps := PassiveMarketMaker.keeps_undo m r
  refine ⟨h.numbered.keeps hkeeps, fun r' hr => h.requests r' (List.mem_cons_of_mem _ hr),
    fun r' hr => h.judgeable r' (List.mem_cons_of_mem _ hr), ?_⟩
  intro side hplaced
  have hold := hkeeps.placed side hplaced
  have hsettled := h.settled side hold
  by_cases hid : r.request.orderId = (m.order side).placedOrder.orderId
  · rw [← hid, pending_cons_self] at hsettled
    rcases hsettled with ⟨hnil, -⟩ | ⟨r', hone, -, hkind⟩
    · cases hnil
    · obtain ⟨rfl, hnone⟩ := List.cons_eq_cons.mp hone
      rcases hkind with htype | ⟨htype, hlimit, hprevious, -⟩
      · rw [undo_new htype hid] at hplaced
        cases hplaced
      · rw [undo_update h.numbered hold htype hid]
        refine Or.inl ⟨?_, hlimit, hprevious⟩
        show pending rest (m.order side).placedOrder.orderId = []
        rw [← hid, hnone]
  · rw [undo_order_of_ne hid]
    rwa [pending_cons_of_ne hid] at hsettled

/-- Forwarding the request at the front settles its order, if a complete fill keeps the limit. -/
theorem Quoted.forward {r : OutboundOrderRequest} {rest : StrategyOrderBuffer}
    (h : Quoted limit net m (r :: rest)) (hbound : net = 0 ∨ (75 ≤ limit ∧ |net| ≤ limit))
    (hkeeps : r.AddsExposure → |net + r.direction.signed r.request.quantity.toNat| ≤ limit) :
    Quoted limit net m rest := by
  refine ⟨h.numbered, fun r' hr => h.requests r' (List.mem_cons_of_mem _ hr),
    fun r' hr => h.judgeable r' (List.mem_cons_of_mem _ hr), ?_⟩
  intro side hplaced
  have hsettled := h.settled side hplaced
  by_cases hid : r.request.orderId = (m.order side).placedOrder.orderId
  · have hside : r.side = side := by
      have hr := (h.requests r List.mem_cons_self).parity
      rw [hid, h.numbered.parity hplaced] at hr
      exact Side.parity_inj hr.symm
    rw [← hid, pending_cons_self] at hsettled
    rcases hsettled with ⟨hnil, -⟩ | ⟨r', hone, hquantity, hkind⟩
    · cases hnil
    · obtain ⟨rfl, hnone⟩ := List.cons_eq_cons.mp hone
      rw [hid] at hnone
      left
      rw [← hquantity]
      rcases hkind with htype | ⟨htype, hlimit, hprevious, hchange⟩
      · have htypes : r.request.type = .buy ∨ r.request.type = .sell := by
          cases side
          · exact Or.inl htype
          · exact Or.inr htype
        have hnew := (h.judgeable r List.mem_cons_self).new htypes
        have hfill := hkeeps (by rcases htypes with h | h; exacts [Or.inl h, Or.inr (Or.inl h)])
        rw [r.direction_eq (h.requests r List.mem_cons_self), hside, hnew] at hfill
        rw [hnew]
        have hfit := signed_add_le hfill
        have hquantity : marketMakerOrderQuantity.toNat = 75 := rfl
        refine ⟨hnone, ?_, hfit⟩
        rcases hbound with rfl | ⟨hlimit, -⟩
        · rw [Side.signed_zero] at hfit
          omega
        · exact hlimit
      · refine ⟨hnone, hlimit, ?_⟩
        rcases hchange with hincreasing | hreducing
        · have hfill := hkeeps (Or.inr (Or.inr ⟨htype, hincreasing⟩))
          rw [r.direction_eq (h.requests r List.mem_cons_self), hside] at hfill
          exact signed_add_le hfill
        · omega
  · rwa [pending_cons_of_ne hid] at hsettled

/-! ## What an event stages -/

/-- Every cancel staged is for an order that was placed. -/
theorem cancels_buffer (hcancels : PassiveMarketMaker.Cancels (m, buffer) (m', buffer')) :
    m'.nextClientId = m.nextClientId ∧
      ∀ r ∈ buffer', r ∈ buffer ∨ ∃ side, (m.order side).status = .placed ∧
        r.request.orderId = (m.order side).placedOrder.orderId := by
  have hkeeps : m.Keeps m' ∧ ∀ r ∈ buffer', r ∈ buffer ∨ ∃ side, (m.order side).status = .placed ∧
      r.request.orderId = (m.order side).placedOrder.orderId := by
    refine PassiveMarketMaker.preserves_of_steps (P := fun m₁ buffer₁ => m.Keeps m₁ ∧
      ∀ r ∈ buffer₁, r ∈ buffer ∨ ∃ side, (m.order side).status = .placed ∧
        r.request.orderId = (m.order side).placedOrder.orderId) hcancels ?_
      ⟨PassiveMarketMaker.keeps_refl m, fun r hr => Or.inl hr⟩
    intro m₁ buffer₁ m₂ buffer₂ hcancel ⟨hkeeps, hold⟩
    obtain ⟨_, _, side, placed⟩ := hcancel
    refine ⟨hkeeps.trans (PassiveMarketMaker.keeps_setOrder m₁ rfl rfl fun h => by cases h), ?_⟩
    intro r hr
    rcases List.mem_append.mp hr with hr | hr
    · exact hold r hr
    · rw [List.mem_singleton.mp hr]
      exact Or.inr ⟨side, hkeeps.placed side placed, hkeeps.id side⟩
  exact ⟨hkeeps.1.next, hkeeps.2⟩

theorem pending_eq_nil {id : ID} (h : ∀ r ∈ buffer, r.request.orderId ≠ id) : pending buffer id = [] := by
  rw [pending, List.filter_eq_nil_iff]
  intro r hr
  simpa using h r hr

/-- A new pair, when nothing staged has its ids. -/
theorem Quoted.pair (h : Quoted limit net m buffer) (bid offer : Price)
    (hbuy : pending buffer m.nextClientId = []) (hsell : pending buffer (m.nextClientId + 1) = []) :
    Quoted limit net (m.withNewPair bid offer)
      (buffer ++ [(m.withNewPair bid offer).buyOrder.newOrderRequest,
        (m.withNewPair bid offer).sellOrder.newOrderRequest]) := by
  have hnumbered := PassiveMarketMaker.numbered_withNewPair h.numbered bid offer
  have hne := opposite_id_ne hnumbered (show ((m.withNewPair bid offer).order .buy).status = .placed from rfl)
  have hne : m.nextClientId ≠ m.nextClientId + 1 := hne
  have hbuyNumbered : (m.withNewPair bid offer).buyOrder.newOrderRequest.Numbered :=
    hnumbered.request (show ((m.withNewPair bid offer).order .buy).status = .placed from rfl) rfl rfl
      (fun _ => rfl) (fun h => by cases h)
  have hsellNumbered : (m.withNewPair bid offer).sellOrder.newOrderRequest.Numbered :=
    hnumbered.request (show ((m.withNewPair bid offer).order .sell).status = .placed from rfl) rfl rfl
      (fun h => by cases h) (fun _ => rfl)
  have hmem : ∀ r ∈ buffer ++ [(m.withNewPair bid offer).buyOrder.newOrderRequest,
      (m.withNewPair bid offer).sellOrder.newOrderRequest], r ∈ buffer ∨
      r = (m.withNewPair bid offer).buyOrder.newOrderRequest ∨
      r = (m.withNewPair bid offer).sellOrder.newOrderRequest := by
    intro r hr
    simpa using hr
  refine ⟨hnumbered, ?_, ?_, ?_⟩
  · intro r hr
    rcases hmem r hr with hold | rfl | rfl
    · exact h.requests r hold
    · exact hbuyNumbered
    · exact hsellNumbered
  · intro r hr
    rcases hmem r hr with hold | rfl | rfl
    · exact h.judgeable r hold
    · exact ⟨fun _ => rfl, fun h => by cases h⟩
    · exact ⟨fun _ => rfl, fun h => by cases h⟩
  · intro side _
    right
    cases side with
    | buy =>
      refine ⟨(m.withNewPair bid offer).buyOrder.newOrderRequest, ?_, rfl, Or.inl rfl⟩
      rw [pending_append]
      show pending buffer m.nextClientId ++ _ = _
      rw [hbuy]
      simp [pending, PassiveMarketMaker.withNewPair, PlacedOrder.newOrderRequest, PassiveMarketMaker.order]
    | sell =>
      refine ⟨(m.withNewPair bid offer).sellOrder.newOrderRequest, ?_, rfl, Or.inl rfl⟩
      rw [pending_append]
      show pending buffer (m.nextClientId + 1) ++ _ = _
      rw [hsell]
      simp [pending, PassiveMarketMaker.withNewPair, PlacedOrder.newOrderRequest, PassiveMarketMaker.order]

theorem Quoted.getOrders (h : Quoted limit net m []) {bbo : OrderSnapshot}
    (hget : m.getOrders bbo [] = some (m', buffer')) : Quoted limit net m' buffer' := by
  obtain ⟨m₁, buffer₁, hcancels, hcase⟩ := PassiveMarketMaker.getOrders_cases hget
  have h₁ := h.cancels hcancels
  rcases hcase with ⟨rfl, rfl⟩ | ⟨bid, offer, -, -, rfl, rfl⟩
  · exact h₁
  · obtain ⟨hnext, hbuffer⟩ := cancels_buffer hcancels
    -- the ids handed out next are two and three above that of the last buy
    have hids : ∀ r ∈ buffer₁, r.request.orderId ≠ m₁.nextClientId ∧
        r.request.orderId ≠ m₁.nextClientId + 1 := by
      intro r hr
      rw [hnext]
      rcases hbuffer r hr with hnil | ⟨side, hplaced, hid⟩
      · cases hnil
      · obtain ⟨hsell, hlast⟩ := h.numbered.pair side hplaced
        rw [hid, hlast]
        cases side with
        | buy =>
          show m.buyOrder.placedOrder.orderId ≠ _ ∧ m.buyOrder.placedOrder.orderId ≠ _
          exact ⟨(id_ne_later _).2.1, (id_ne_later _).2.2⟩
        | sell =>
          show m.sellOrder.placedOrder.orderId ≠ _ ∧ m.sellOrder.placedOrder.orderId ≠ _
          rw [hsell]
          exact ⟨(id_ne_later _).1, (id_ne_later _).2.1⟩
    exact h₁.pair bid offer (pending_eq_nil fun r hr => (hids r hr).1)
      (pending_eq_nil fun r hr => (hids r hr).2)

/-- An order with nothing pending is resized to the quote at the position. -/
theorem Quoted.resize (h : Quoted limit net m buffer) (hnet : m.netFilledQuantity.toInt = net)
    (hlow : -2 ^ 63 < net) (hneeded : m.NeedsRebalance) (side : Side)
    (hfree : (m.order side).status = .placed → pending buffer (m.order side).placedOrder.orderId = []) :
    Quoted limit net (m.queueQuantityUpdate side (m.quoteFor side) buffer).2.1
      (m.queueQuantityUpdate side (m.quoteFor side) buffer).2.2 := by
  rw [PassiveMarketMaker.queueQuantityUpdate]
  split
  · exact h
  · rename_i hcase
    push Not at hcase
    obtain ⟨hplaced, hchange⟩ := hcase
    split
    · exact h
    · rename_i pushed hpush
      rw [PassiveMarketMaker.tryPush_eq_some hpush]
      obtain ⟨hnumbered, hrequests⟩ := h.numbered.move (.resize m buffer side hplaced hneeded hchange)
      have hfar : 25 ≤ |net| := by
        rw [← hnet, ← toInt_abs (by rw [hnet]; exact hlow)]
        exact Int64.le_iff_toInt_le.mp hneeded
      have hquote := quoteFor_toNat hnet hlow (by intro h0; rw [h0] at hfar; simp at hfar) side
      have hsettled := h.settled side hplaced
      rw [hfree hplaced] at hsettled
      rcases hsettled with ⟨-, hlimit, hfit⟩ | ⟨r, hone, -⟩
      · refine ⟨hnumbered, fun r hr => (hrequests r hr).elim (h.requests r) id, ?_, ?_⟩
        · intro r hr
          rcases List.mem_append.mp hr with hold | hnew
          · exact h.judgeable r hold
          · rw [List.mem_singleton.mp hnew]
            refine ⟨fun h => (by rcases h with h | h <;> cases h), fun _ _ => ⟨hfar, hlimit, ?_⟩⟩
            show ((m.quoteFor side).toNat : Int) = quoteAt net (m.order side).placedOrder.side
            rw [h.numbered.side side hplaced]
            exact hquote
        · intro side' hplaced'
          rcases Side.eq_or_opposite side' side with rfl | rfl
          · rw [PassiveMarketMaker.order_setOrder_self]
            refine Or.inr ⟨(m.order side').updateRequest (m.quoteFor side'), ?_, rfl,
              Or.inr ⟨rfl, hlimit, hfit, ?_⟩⟩
            · rw [pending_append]
              show pending buffer (m.order side').placedOrder.orderId ++ _ = _
              rw [hfree hplaced]
              simp [pending, PlacedOrder.updateRequest, PlacedOrder.withQuantity, Order.withQuantity]
            · rw [PlacedOrder.updateRequest]
              by_cases hincreasing : (m.order side').placedOrder.quantity < m.quoteFor side'
              · exact Or.inl (if_pos hincreasing)
              · exact Or.inr (Nat.le_of_not_lt hincreasing)
          · rw [PassiveMarketMaker.order_setOrder_opposite] at hplaced' ⊢
            rw [pending_append, pending_cons_of_ne (opposite_id_ne h.numbered hplaced)]
            simpa [pending] using h.settled side.opposite hplaced'
      · cases hone

theorem Side.signed_add (side : Side) (a b : Int) : side.signed (a + b) = side.signed a + side.signed b := by
  cases side with
  | buy => rfl
  | sell => exact Int.neg_add

theorem Side.signed_signed (side : Side) (a : Int) : side.signed (side.signed a) = a := by
  cases side with
  | buy => rfl
  | sell => exact Int.neg_neg a

theorem Side.opposite_signed (side : Side) (a : Int) : side.opposite.signed a = -side.signed a := by
  cases side with
  | buy => rfl
  | sell => exact (Int.neg_neg a).symm

theorem Side.abs_signed (side : Side) (a : Int) : |side.signed a| = |a| := by
  cases side with
  | buy => rfl
  | sell => exact abs_neg a

/-- An order that is still placed after a fill has something left. -/
theorem applyFill_order_self (m : PassiveMarketMaker) (side : Side) (quantity : Quantity)
    (hplaced : ((m.applyFill side quantity).order side).status = .placed) :
    (m.applyFill side quantity).order side = (m.order side).withQuantity
        ((m.order side).placedOrder.quantity - min quantity (m.order side).placedOrder.quantity) ∧
      (m.order side).placedOrder.quantity - min quantity (m.order side).placedOrder.quantity ≠ 0 := by
  simp only [PassiveMarketMaker.applyFill, PassiveMarketMaker.order_setOrder_self] at hplaced ⊢
  split at hplaced
  · cases hplaced
  · rename_i hzero
    rw [if_neg hzero]
    exact ⟨rfl, hzero⟩

/-- A fill within the quantity of a placed order moves the position towards its limit
by as much as it takes from the order. -/
theorem Quoted.fill (h : Quoted limit net m []) (hbound : net = 0 ∨ (75 ≤ limit ∧ |net| ≤ limit))
    {side : Side} (hplaced : (m.order side).status = .placed) {quantity : Quantity}
    (hle : quantity ≤ (m.order side).placedOrder.quantity) :
    Quoted limit (net + side.signed quantity.toNat) (m.applyFill side quantity) [] ∧
      75 ≤ limit ∧ |net + side.signed quantity.toNat| ≤ limit := by
  have hkeeps := PassiveMarketMaker.keeps_applyFill m side quantity
  have hleNat : quantity.toNat ≤ (m.order side).placedOrder.quantity.toNat := hle
  have hsigned : side.signed (net + side.signed quantity.toNat) = side.signed net + quantity.toNat := by
    rw [Side.signed_add, Side.signed_signed]
  have hsettled : ∀ side, (m.order side).status = .placed →
      75 ≤ limit ∧ side.signed net + (m.order side).placedOrder.quantity.toNat ≤ limit := by
    intro side hplaced
    rcases h.settled side hplaced with ⟨-, hfit⟩ | ⟨r, hone, -⟩
    · exact hfit
    · cases hone
  obtain ⟨hlimit, hfit⟩ := hsettled side hplaced
  have hnet : -limit ≤ side.signed net := by
    have habs : |side.signed net| ≤ limit := by
      rw [Side.abs_signed]
      rcases hbound with rfl | ⟨-, hnet⟩
      · simpa using by omega
      · exact hnet
    exact (abs_le.mp habs).1
  refine ⟨⟨h.numbered.keeps hkeeps, by simp, by simp, ?_⟩, hlimit, ?_⟩
  · intro side' hplaced'
    have hold := hkeeps.placed side' hplaced'
    refine Or.inl ⟨rfl, hlimit, ?_⟩
    rcases Side.eq_or_opposite side' side with rfl | rfl
    · have hmin : min quantity (m.order side').placedOrder.quantity = quantity := if_pos hle
      rw [(applyFill_order_self m side' quantity hplaced').1, hmin, hsigned]
      show side'.signed net + quantity.toNat +
        ((m.order side').placedOrder.quantity - quantity).toNat ≤ limit
      rw [UInt32.toNat_sub_of_le _ _ hle]
      omega
    · rw [applyFill_order_opposite]
      have hother := (hsettled side.opposite hold).2
      rw [Side.opposite_signed] at hother ⊢
      omega
  · rw [← Side.abs_signed side, hsigned, abs_le]
    omega

/-- Resizing one side stages nothing about the other. -/
theorem queueQuantityUpdate_opposite (h : m.Numbered) (side : Side) (quantity : Quantity) :
    pending (m.queueQuantityUpdate side quantity []).2.2
      ((m.queueQuantityUpdate side quantity []).2.1.order side.opposite).placedOrder.orderId = [] := by
  rw [PassiveMarketMaker.queueQuantityUpdate]
  split
  · rfl
  · rename_i hcase
    push Not at hcase
    split
    · rfl
    · rename_i pushed hpush
      rw [PassiveMarketMaker.tryPush_eq_some hpush, PassiveMarketMaker.order_setOrder_opposite]
      exact pending_cons_of_ne (opposite_id_ne h hcase.1) []

theorem Quoted.rebalance (h : Quoted limit net m []) (hnet : m.netFilledQuantity.toInt = net)
    (hlow : -2 ^ 63 < net) :
    Quoted limit net (m.rebalanceExposure []).1 (m.rebalanceExposure []).2 := by
  by_cases hneeded : m.NeedsRebalance
  · rw [PassiveMarketMaker.rebalanceExposure_eq m [] hneeded]
    have hbuy := h.resize hnet hlow hneeded .buy fun _ => rfl
    have hbuyNet := PassiveMarketMaker.queueQuantityUpdate_netFilledQuantity m .buy (m.quoteFor .buy) []
    have hfree := queueQuantityUpdate_opposite h.numbered .buy (m.quoteFor .buy)
    rcases hbids : (m.queueQuantityUpdate .buy (m.quoteFor .buy) []).2 with ⟨m₁, buffer₁⟩
    simp only [hbids] at hbuy hbuyNet hfree
    have hquote : m₁.quoteFor .sell = m.quoteFor .sell := by
      simp only [PassiveMarketMaker.quoteFor, hbuyNet]
    have hsell := hbuy.resize (by rw [hbuyNet]; exact hnet) hlow
      (by rw [PassiveMarketMaker.NeedsRebalance, hbuyNet]; exact hneeded) .sell fun _ => hfree
    rw [hquote] at hsell
    exact hsell
  · have hlt : m.netFilledQuantity.abs < exposureRebalanceThreshold.toPosition := by
      rw [PassiveMarketMaker.NeedsRebalance, Int64.not_le] at hneeded
      exact hneeded
    rw [PassiveMarketMaker.rebalanceExposure, if_pos hlt]
    exact h

/-! ## Runs with truthful risk data -/

/-- The risk check lets a new order pass only if a complete fill keeps the limit. -/
theorem evaluateRisk_new {r : OutboundOrderRequest} {risk : RiskData} {side : Side}
    (hgood : evaluateRisk r (some risk) = .good) (htype : r.request.type = side.orderType)
    (hlow : -2 ^ 63 < risk.netPosition.toInt + side.signed r.request.quantity.toNat)
    (hhigh : risk.netPosition.toInt + side.signed r.request.quantity.toNat < 2 ^ 63) :
    |risk.netPosition.toInt + side.signed r.request.quantity.toNat| ≤ risk.maxPosition.toInt := by
  have hquantity := toInt_toPosition r.request.quantity
  have hdelta : ∀ delta : Int64, delta.toInt = side.signed r.request.quantity.toNat →
      ¬ risk.maxPosition < (risk.netPosition + delta).abs →
      |risk.netPosition.toInt + side.signed r.request.quantity.toNat| ≤ risk.maxPosition.toInt := by
    intro delta hdelta hnot
    have hsum : (risk.netPosition + delta).toInt =
        risk.netPosition.toInt + side.signed r.request.quantity.toNat := by
      rw [← hdelta]
      exact toInt_add (by omega) (by omega)
    rw [Int64.not_lt, Int64.le_iff_toInt_le, toInt_abs (by omega), hsum] at hnot
    exact hnot
  cases side with
  | buy =>
    have htype : r.request.type = .buy := htype
    simp only [evaluateRisk, htype, reduceCtorEq, false_and, or_self, not_false_eq_true, and_true, true_and,
      if_false] at hgood
    split at hgood
    · cases hgood
    · split at hgood
      · cases hgood
      · split at hgood
        · cases hgood
        · rename_i hnot
          exact hdelta _ hquantity hnot
  | sell =>
    have htype : r.request.type = .sell := htype
    simp only [evaluateRisk, htype, reduceCtorEq, false_and, or_self, not_false_eq_true, and_true, true_and,
      if_false] at hgood
    split at hgood
    · cases hgood
    · split at hgood
      · cases hgood
      · split at hgood
        · cases hgood
        · rename_i hnot
          refine hdelta _ ?_ hnot
          rw [toInt_neg (by rw [hquantity]; omega), hquantity]
          rfl

/-- The state of the trader at a position, with the limit kept so far. -/
structure Limited (limit net : Int) (t : Trader) : Prop where
  filled : t.strategy.netFilledQuantity.toInt = net
  bound : net = 0 ∨ (75 ≤ limit ∧ |net| ≤ limit)
  quoted : Quoted limit net t.strategy t.orderBuffer
  log : ∀ e ∈ t.forwarded, KeepsLimit e ∧ HasRoom e

/-- The risk data is about the true position and the one limit. -/
def Check.Truthful (check : Check) (maxPosition : Int64) (net : Int) : Prop :=
  ∀ risk, check.risk = some risk → risk.netPosition.toInt = net ∧ risk.maxPosition = maxPosition

theorem OutboundOrderRequest.direction_of_new {r : OutboundOrderRequest} {side : Side}
    (htype : r.request.type = side.orderType) : r.direction = side := by
  cases side with
  | buy => rw [direction, show r.request.type = .buy from htype]
  | sell => rw [direction, show r.request.type = .sell from htype]

theorem SumFits.keepsLimit {r : OutboundOrderRequest} {risk : RiskData} (h : SumFits (r, risk))
    (hgood : evaluateRisk r (some risk) = .good) {side : Side} (htype : r.request.type = side.orderType) :
    KeepsLimit (r, risk) := by
  intro _
  have hfits : |risk.netPosition.toInt + r.direction.signed r.request.quantity.toNat| < 2 ^ 63 := by
    apply h
    cases side with
    | buy => exact Or.inl htype
    | sell => exact Or.inr htype
  show |risk.netPosition.toInt + r.direction.signed r.request.quantity.toNat| ≤ risk.maxPosition.toInt
  rw [OutboundOrderRequest.direction_of_new htype] at hfits ⊢
  obtain ⟨hlow, hhigh⟩ := abs_lt.mp hfits
  exact evaluateRisk_new hgood htype hlow hhigh

/-- A position within the limit can be added to, if the limit leaves room for a quote in 64 bits. -/
theorem Limited.sumFits {t : Trader} {maxPosition : Int64} {net : Int}
    (h : Limited maxPosition.toInt net t) (hmax : maxPosition.toInt + 225 < 2 ^ 63)
    {r : OutboundOrderRequest} {risk : RiskData} (hr : r ∈ t.orderBuffer)
    (hnet : risk.netPosition.toInt = net) : SumFits (r, risk) := by
  intro htype
  have hquantity : r.request.quantity.toNat = 75 := by
    rw [(h.quoted.judgeable r hr).new htype]
    rfl
  have hbounds : -maxPosition.toInt ≤ net ∧ net ≤ maxPosition.toInt ∨ net = 0 := by
    rcases h.bound with h0 | ⟨-, habs⟩
    · exact Or.inr h0
    · exact Or.inl (abs_le.mp habs)
  have hsigned : r.direction.signed 75 = 75 ∨ r.direction.signed 75 = -75 := by
    cases r.direction
    · exact Or.inl rfl
    · exact Or.inr rfl
  show |risk.netPosition.toInt + r.direction.signed r.request.quantity.toNat| < 2 ^ 63
  have hcast : ((r.request.quantity.toNat : Nat) : Int) = 75 := by omega
  rw [hnet, hcast, abs_lt]
  omega

/-- The request keeps the limit, or it had room for the minimum quote and no sum overflowed. -/
def KeepsOrFits (maxPosition : Int64) (e : OutboundOrderRequest × RiskData) : Prop :=
  KeepsLimit e ∨ HasRoom e ∧ (SumFits e ∨ maxPosition.toInt + 225 < 2 ^ 63)

/-- For an increasing update, keeping the limit and having room are the same. -/
theorem Limited.update_keepsLimit_iff {t : Trader} {maxPosition : Int64} {net : Int}
    (h : Limited maxPosition.toInt net t) {r : OutboundOrderRequest} {risk : RiskData} (hr : r ∈ t.orderBuffer)
    (hnet : risk.netPosition.toInt = net) (hlimit : risk.maxPosition = maxPosition)
    (htype : r.request.type = .update) (hincreasing : r.quantityChange = .increasing) :
    KeepsLimit (r, risk) ↔ HasRoom (r, risk) := by
  obtain ⟨hfar, hleast, hquantity⟩ := (h.quoted.judgeable r hr).update htype hincreasing
  have hbound : |net| ≤ maxPosition.toInt := by
    rcases h.bound with h0 | ⟨-, habs⟩
    · rw [h0] at hfar
      simp at hfar
    · exact habs
  have hiff := quoteAt_within_iff r.side hfar hbound hleast
  have hdirection := r.direction_eq (h.quoted.requests r hr)
  have hkeeps : KeepsLimit (r, risk) ↔
      |net + r.side.signed (quoteAt net r.side)| ≤ maxPosition.toInt := by
    simp only [KeepsLimit, OutboundOrderRequest.AddsExposure, htype, hincreasing, hdirection, hnet, hlimit,
      hquantity, reduceCtorEq, and_self, or_true, true_implies]
  have hroom : HasRoom (r, risk) ↔ r.side.signed net + 25 ≤ maxPosition.toInt := by
    simp only [HasRoom, htype, hincreasing, hnet, hlimit, true_implies]
    rfl
  rw [hkeeps, hroom, hiff]

/-- A request that adds nothing meets both conditions. -/
theorem keepsLimit_of_not_adds {r : OutboundOrderRequest} (risk : RiskData) (h : ¬ r.AddsExposure) :
    KeepsLimit (r, risk) ∧ HasRoom (r, risk) :=
  ⟨fun hadds => absurd hadds h, fun htype hincreasing => absurd (Or.inr (Or.inr ⟨htype, hincreasing⟩)) h⟩

theorem Limited.forwarded {t : Trader} {maxPosition : Int64} {net : Int}
    (h : Limited maxPosition.toInt net t)
    {r : OutboundOrderRequest} {risk : RiskData} (hr : r ∈ t.orderBuffer)
    (hnet : risk.netPosition.toInt = net) (hlimit : risk.maxPosition = maxPosition)
    (hgood : evaluateRisk r (some risk) = .good) (heither : KeepsOrFits maxPosition (r, risk)) :
    KeepsLimit (r, risk) ∧ HasRoom (r, risk) := by
  have hnotUpdate : r.request.type ≠ .update → HasRoom (r, risk) := fun hne htype => absurd htype hne
  have hnew : ∀ side : Side, r.request.type = side.orderType → KeepsLimit (r, risk) := by
    intro side htype
    rcases heither with hkeeps | ⟨-, hfits | hmax⟩
    · exact hkeeps
    · exact hfits.keepsLimit hgood htype
    · exact (h.sumFits hmax hr hnet).keepsLimit hgood htype
  cases htype : r.request.type with
  | buy => exact ⟨hnew .buy htype, hnotUpdate (by simp [htype])⟩
  | sell => exact ⟨hnew .sell htype, hnotUpdate (by simp [htype])⟩
  | cancel => exact keepsLimit_of_not_adds risk (by simp [OutboundOrderRequest.AddsExposure, htype])
  | update =>
    by_cases hincreasing : r.quantityChange = .increasing
    · have hiff := h.update_keepsLimit_iff hr hnet hlimit htype hincreasing
      rcases heither with hkeeps | ⟨hroom, -⟩
      · exact ⟨hkeeps, hiff.mp hkeeps⟩
      · exact ⟨hiff.mpr hroom, hroom⟩
    · exact keepsLimit_of_not_adds risk (by simp [OutboundOrderRequest.AddsExposure, htype, hincreasing])

theorem Limited.placeOne {t t' : Trader} {maxPosition : Int64} {net : Int}
    (h : Limited maxPosition.toInt net t) {outbound : OutboundOrderRequest} {rest : StrategyOrderBuffer} {check : Check}
    {result : Option (Except StrategyError Unit)} (htruthful : check.Truthful maxPosition net)
    (hbuffer : t.orderBuffer = outbound :: rest) (hplace : t.placeOne outbound rest check = some (result, t'))
    (heither : ∀ e ∈ t'.forwarded, KeepsOrFits maxPosition e) : Limited maxPosition.toInt net t' := by
  have hquoted := h.quoted
  rw [hbuffer] at hquoted
  rcases Trader.placeOne_cases hplace with ⟨-, -, rfl⟩ | ⟨-, -, -, rfl⟩ | ⟨risk, hrisk, hgood, -, -, rfl⟩ |
    ⟨risk, strategy, orderBuffer, -, -, -, hnotify, rfl⟩
  · exact h
  · exact ⟨h.filled, h.bound, h.quoted, h.log⟩
  · obtain ⟨hnet, hlimit⟩ := htruthful risk hrisk
    have hboth := h.forwarded (by rw [hbuffer]; exact List.mem_cons_self) hnet hlimit hgood
      (heither _ (List.mem_append_right _ (List.mem_singleton_self _)))
    refine ⟨h.filled, h.bound, hquoted.forward h.bound ?_, ?_⟩
    · intro hadds
      have hkeeps := hboth.1 hadds
      simp only [hnet, hlimit] at hkeeps
      exact hkeeps
    · intro e he
      rcases List.mem_append.mp he with hold | hnew
      · exact h.log e hold
      · rw [List.mem_singleton.mp hnew]
        exact hboth
  · have hcancels := PassiveMarketMaker.notifyInvalid_cancels hnotify
    refine ⟨?_, h.bound, hquoted.undo.cancels hcancels, h.log⟩
    rw [show strategy.netFilledQuantity = _ from hcancels.moves.netFilledQuantity_eq,
      PassiveMarketMaker.undo_netFilledQuantity]
    exact h.filled

namespace Trader

/-- What an event does to the true position. -/
def positionChange (t : Trader) : TraderEvent → Int
  | .snapshot _ _ => 0
  | .report u _ =>
    match t.strategy.placedSide u.orderId with
    | some side => side.signed u.filledQuantity.toNat
    | none => 0

/-- The strategy has what the exchange has: only a placed order is filled, and by no
more than what is left of it. -/
def FillsPlaced (t : Trader) : TraderEvent → Prop
  | .snapshot _ _ => True
  | .report u _ => ∃ side, t.strategy.placedSide u.orderId = some side ∧
      u.filledQuantity ≤ (t.strategy.order side).placedOrder.quantity

/-- The premises along a run: an event comes when the last one is dealt with, fills are
of placed orders, and all risk data tells the true position and the same limit. -/
def TruthfulRun (maxPosition : Int64) : Int → Trader → List TraderEvent → Prop
  | _, _, [] => True
  | net, t, event :: events =>
    t.orderBuffer = [] ∧ t.FillsPlaced event ∧
    (∀ check ∈ event.checks, check.Truthful maxPosition (net + t.positionChange event)) ∧
    ∀ t', t.handle event = some t' → TruthfulRun maxPosition (net + t.positionChange event) t' events

end Trader

theorem applyFill_toInt (h : m.Numbered) (hnet : m.netFilledQuantity.toInt = net) {side : Side}
    (hplaced : (m.order side).status = .placed) {quantity : Quantity}
    (hle : quantity ≤ (m.order side).placedOrder.quantity)
    (hlow : -2 ^ 63 ≤ net + side.signed quantity.toNat) (hhigh : net + side.signed quantity.toNat < 2 ^ 63) :
    (m.applyFill side quantity).netFilledQuantity.toInt = net + side.signed quantity.toNat := by
  have hmin : min quantity (m.order side).placedOrder.quantity = quantity := if_pos hle
  have hquantity := toInt_toPosition quantity
  rw [Trader.applyFill_netFilledQuantity, h.side side hplaced, hmin]
  cases side with
  | buy =>
    have hhigh : net + quantity.toNat < 2 ^ 63 := hhigh
    have hlow : -2 ^ 63 ≤ net + quantity.toNat := hlow
    show (m.netFilledQuantity + quantity.toPosition).toInt = net + quantity.toNat
    rw [toInt_add (by omega) (by omega), hnet, hquantity]
  | sell =>
    have hhigh : net + -quantity.toNat < 2 ^ 63 := hhigh
    have hlow : -2 ^ 63 ≤ net + -quantity.toNat := hlow
    have hneg := toInt_neg (a := quantity.toPosition) (by omega)
    show (m.netFilledQuantity - quantity.toPosition).toInt = net + -quantity.toNat
    rw [Int64.sub_eq_add_neg, toInt_add (by omega) (by omega), hneg, hnet, hquantity]

theorem Limited.stage {t t' : Trader} {maxPosition : Int64} {net : Int}
    (h : Limited maxPosition.toInt net t) {event : TraderEvent} (hempty : t.orderBuffer = [])
    (hfills : t.FillsPlaced event) (hstage : t.stage event = some t') :
    Limited maxPosition.toInt (net + t.positionChange event) t' := by
  have hquoted := h.quoted
  rw [hempty] at hquoted
  cases event with
  | snapshot bbo checks =>
    obtain ⟨⟨strategy, orderBuffer⟩, hget, hreturn⟩ := Option.bind_eq_some_iff.mp hstage
    cases hreturn
    have hnet := (PassiveMarketMaker.getOrders_moves hget).netFilledQuantity_eq
    rw [hempty] at hget
    show Limited maxPosition.toInt (net + 0) _
    rw [Int.add_zero]
    exact ⟨by rw [show strategy.netFilledQuantity = _ from hnet]; exact h.filled, h.bound,
      hquoted.getOrders hget, h.log⟩
  | report u checks =>
    obtain ⟨side, hside, hle⟩ := hfills
    obtain ⟨hplaced, -⟩ := PassiveMarketMaker.placedSide_placed hside
    obtain ⟨hfill, hlimit, hnet⟩ := hquoted.fill h.bound hplaced hle
    have hchange : t.positionChange (.report u checks) = side.signed u.filledQuantity.toNat := by
      simp only [Trader.positionChange, hside]
    have hmax := maxPosition.toInt_lt
    have hrange := abs_le.mp hnet
    have hfilled := applyFill_toInt h.quoted.numbered h.filled hplaced hle (by omega) (by omega)
    simp only [Trader.stage, PassiveMarketMaker.update, hside, hempty] at hstage
    cases hstage
    rw [hchange]
    refine ⟨?_, Or.inr ⟨hlimit, hnet⟩, hfill.rebalance hfilled (by omega), h.log⟩
    rw [show (PassiveMarketMaker.rebalanceExposure _ []).1.netFilledQuantity = _ from
      (PassiveMarketMaker.rebalanceExposure_moves _ []).netFilledQuantity_eq]
    exact hfilled

theorem Limited.handle {t t' : Trader} {maxPosition : Int64} {net : Int}
    (h : Limited maxPosition.toInt net t) {event : TraderEvent}
    (hempty : t.orderBuffer = []) (hfills : t.FillsPlaced event)
    (htruthful : ∀ check ∈ event.checks, check.Truthful maxPosition (net + t.positionChange event))
    (hhandle : t.handle event = some t') (heither : ∀ e ∈ t'.forwarded, KeepsOrFits maxPosition e) :
    Limited maxPosition.toInt (net + t.positionChange event) t' := by
  obtain ⟨staged, result, hstage, hplace⟩ := Trader.handle_cases hhandle
  -- the records only grow, so what holds of the last one holds of every earlier one
  refine Trader.placeNewOrders_preserves (P := fun t₁ => (∀ e ∈ t₁.forwarded, KeepsOrFits maxPosition e) →
    Limited maxPosition.toInt (net + t.positionChange event) t₁) ?_ (fun _ => h.stage hempty hfills hstage)
    hplace heither
  intro t₁ outbound rest result t₂ check hcheck h₁ hbuffer hone heither₂
  have hsub : t₁.forwarded ⊆ t₂.forwarded := Trader.placeOne_forwarded hone
  exact (h₁ fun e he => heither₂ e (hsub he)).placeOne (htruthful check hcheck) hbuffer hone heither₂

theorem limited_init (maxPosition : Int64) : Limited maxPosition.toInt 0 .init where
  filled := rfl
  bound := Or.inl rfl
  quoted := ⟨PassiveMarketMaker.numbered_init, by simp [Trader.init], by simp [Trader.init], by
    rintro (_ | _) h <;> cases h⟩
  log := by simp [Trader.init]

theorem Limited.run {t t' : Trader} {maxPosition : Int64} {net : Int}
    (h : Limited maxPosition.toInt net t) {events : List TraderEvent}
    (htruthful : Trader.TruthfulRun maxPosition net t events) (hrun : t.run events = some t')
    (heither : ∀ e ∈ t'.forwarded, KeepsOrFits maxPosition e) :
    ∀ e ∈ t'.forwarded, KeepsLimit e ∧ HasRoom e := by
  induction events generalizing t net with
  | nil =>
    cases hrun
    exact h.log
  | cons event events ih =>
    obtain ⟨t₁, hhandle, hrest⟩ := Trader.run_cons hrun
    obtain ⟨hempty, hfills, hchecks, hlater⟩ := htruthful
    have hsub := Trader.run_forwarded hrest
    have h₁ := h.handle hempty hfills hchecks hhandle fun e he => heither e (hsub he)
    exact ih h₁ (hlater t₁ hhandle) hrest

/-- In every run with truthful risk data: all forwarded requests keep the limit if and
only if every increasing update among them had room for the minimum quote and the sum of
no buy or sell overflowed. With 225 to spare below the greatest position none does. -/
theorem Trader.forwarded_keeps_limit_iff (maxPosition : Int64) (events : List TraderEvent) (t : Trader)
    (hrun : Trader.init.run events = some t) (htruthful : Trader.TruthfulRun maxPosition 0 .init events) :
    ((∀ e ∈ t.forwarded, KeepsLimit e) ↔ ∀ e ∈ t.forwarded, HasRoom e ∧ SumFits e) ∧
      (maxPosition.toInt + 225 < 2 ^ 63 →
        ((∀ e ∈ t.forwarded, KeepsLimit e) ↔ ∀ e ∈ t.forwarded, HasRoom e)) := by
  have h := limited_init maxPosition
  have hboth : (∀ e ∈ t.forwarded, KeepsLimit e) → ∀ e ∈ t.forwarded, HasRoom e := fun hkeeps e he =>
    (h.run htruthful hrun (fun e he => Or.inl (hkeeps e he)) e he).2
  refine ⟨⟨?_, ?_⟩, ?_⟩
  · intro hkeeps e he
    exact ⟨hboth hkeeps e he, (hkeeps e he).sumFits⟩
  · intro hfits e he
    exact (h.run htruthful hrun (fun e he => Or.inr ((hfits e he).imp_right Or.inl)) e he).1
  · intro hmax
    refine ⟨hboth, ?_⟩
    intro hroom e he
    exact (h.run htruthful hrun (fun e he => Or.inr ⟨hroom e he, Or.inr hmax⟩) e he).1

/-! ## A run with room, and one at the limit -/

instance (check : Check) (maxPosition : Int64) (net : Int) : Decidable (check.Truthful maxPosition net) :=
  match h : check.risk with
  | none => .isTrue (by simp [Check.Truthful, h])
  | some risk =>
    decidable_of_iff (risk.netPosition.toInt = net ∧ risk.maxPosition = maxPosition) (by
      simp [Check.Truthful, h])

instance (t : Trader) : (event : TraderEvent) → Decidable (t.FillsPlaced event)
  | .snapshot _ _ => .isTrue trivial
  | .report u _ =>
    match h : t.strategy.placedSide u.orderId with
    | none => .isFalse (by simp [Trader.FillsPlaced, h])
    | some side =>
      decidable_of_iff (u.filledQuantity ≤ (t.strategy.order side).placedOrder.quantity) (by
        simp [Trader.FillsPlaced, h])

instance decidableTruthfulRun (maxPosition : Int64) :
    (net : Int) → (t : Trader) → (events : List TraderEvent) →
      Decidable (Trader.TruthfulRun maxPosition net t events)
  | _, _, [] => .isTrue trivial
  | net, t, event :: events =>
    match h : t.handle event with
    | none =>
      decidable_of_iff (t.orderBuffer = [] ∧ t.FillsPlaced event ∧
        ∀ check ∈ event.checks, check.Truthful maxPosition (net + t.positionChange event)) (by
          simp [Trader.TruthfulRun, h])
    | some t' =>
      have := decidableTruthfulRun maxPosition (net + t.positionChange event) t' events
      decidable_of_iff (t.orderBuffer = [] ∧ t.FillsPlaced event ∧
        (∀ check ∈ event.checks, check.Truthful maxPosition (net + t.positionChange event)) ∧
        Trader.TruthfulRun maxPosition (net + t.positionChange event) t' events) (by
          simp [Trader.TruthfulRun, h])

instance (e : OutboundOrderRequest × RiskData) : Decidable (KeepsLimit e) :=
  inferInstanceAs (Decidable ((_ ∨ _ ∨ (_ ∧ _)) → _))

instance (e : OutboundOrderRequest × RiskData) : Decidable (HasRoom e) :=
  inferInstanceAs (Decidable (_ → _ → _))

def positionChecks (maxPosition net : Int64) : List Check :=
  List.replicate 4 ⟨some ⟨net, 0, 0, 0, maxPosition, -1, 1, false⟩, true⟩

/-- A pair is placed and sixty of the buy are filled; the buy is then quoted with 25
again and the sell with 135. -/
def filledBuyRun (maxPosition : Int64) : List TraderEvent :=
  [.snapshot ⟨⟨100, 5⟩, ⟨120, 5⟩⟩ (positionChecks maxPosition 0),
    .report ⟨1, 60⟩ (positionChecks maxPosition 60)]

theorem forwarded_keeps_limit_iff_filledBuyRun :
    ∃ t, Trader.init.run (filledBuyRun 100) = some t ∧ Trader.TruthfulRun 100 0 .init (filledBuyRun 100) ∧
      ((∀ e ∈ t.forwarded, KeepsLimit e) ↔ ∀ e ∈ t.forwarded, HasRoom e ∧ SumFits e) ∧
      ((∀ e ∈ t.forwarded, KeepsLimit e) ↔ ∀ e ∈ t.forwarded, HasRoom e) ∧ t.forwarded.length = 4 := by
  have htruthful : Trader.TruthfulRun 100 0 .init (filledBuyRun 100) := by decide +kernel
  have hlength : (Trader.init.run (filledBuyRun 100)).map (·.forwarded.length) = some 4 := by decide +kernel
  obtain ⟨t, hrun, ht⟩ := Option.map_eq_some_iff.mp hlength
  obtain ⟨hiff, hroom⟩ := Trader.forwarded_keeps_limit_iff 100 _ t hrun htruthful
  exact ⟨t, hrun, htruthful, hiff, hroom (by decide), ht⟩

/-- At a limit of 75 the update of the buy from 15 to 25 is forwarded at position 60,
although a complete fill of the order then makes 85. -/
theorem filledBuyRun_over_limit :
    Trader.TruthfulRun 75 0 .init (filledBuyRun 75) ∧
    (Trader.init.run (filledBuyRun 75)).map (fun t => t.forwarded[2]?.map fun e =>
      (e.1.request, e.1.quantityChange, e.2.netPosition)) =
        some (some (⟨1, 0, 25, .update⟩, .increasing, 60)) ∧
    ¬ ∀ t, Trader.init.run (filledBuyRun 75) = some t → ∀ e ∈ t.forwarded, KeepsLimit e := by
  refine ⟨by decide +kernel, by decide +kernel, fun h => ?_⟩
  have hrun : (Trader.init.run (filledBuyRun 75)).map
      (fun t => decide (∀ e ∈ t.forwarded, KeepsLimit e)) = some false := by
    decide +kernel
  obtain ⟨t, hrun, ht⟩ := Option.map_eq_some_iff.mp hrun
  exact of_decide_eq_false ht (h t hrun)

end HftPipeline
