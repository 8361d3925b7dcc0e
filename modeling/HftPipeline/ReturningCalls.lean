import HftPipeline.ScriptedRuns
import HftPipeline.MixedBook
import HftPipeline.Lib.CallStack

/-!
# The calls of the generator return

A call that populates goes on until it knows enough ids. An order that it posts either rests,
and its id is known, or it is filled, and less is left in the book. A call that cancels drops
ids until it meets one that rests, and a populated set has one. None of this holds any more
once the id counter has come round.
-/
namespace HftPipeline

open RestingBook

/-! ## A posted order rests or takes from the book -/

section

variable [StdHash Price] [StdHash ID]

section

omit [StdHash Price] [StdHash ID]

theorem quantityOf_append (a b : List Order) : quantityOf (a ++ b) = quantityOf a + quantityOf b := by
  rw [quantityOf, List.map_append, List.sum_append]
  rfl

theorem quantityOf_cons (o : Order) (orders : List Order) :
    quantityOf (o :: orders) = o.quantity.toNat + quantityOf orders := rfl

/-- What a trade takes is gone from the order it names. -/
theorem quantityOf_reduceBy {o : Order} {quantity : Quantity} (hle : quantity ≤ o.quantity) :
    quantityOf (o.reduceBy quantity).toList + quantity.toNat = o.quantity.toNat := by
  have hsub := UInt32.toNat_sub_of_le _ _ hle
  have hle' := UInt32.le_iff_toNat_le.mp hle
  rw [Order.reduceBy]
  split
  · next hall => simp [quantityOf, hall]
  · show (o.quantity - quantity).toNat + 0 + quantity.toNat = o.quantity.toNat
    omega

theorem reduceBy_ids_sublist (o : Order) (quantity : Quantity) (front back : List Order) :
    ((front ++ (o.reduceBy quantity).toList ++ back).map Order.orderId).Sublist
      ((front ++ o :: back).map Order.orderId) := by
  simp only [List.append_assoc, List.map_append]
  refine List.Sublist.append_left ?_ _
  rw [Order.reduceBy]
  split
  · exact List.sublist_cons_self _ _
  · exact List.Sublist.refl _

end

omit [StdHash Price] [StdHash ID] in
/-- Each trade takes at least a unit. -/
theorem quantityOf_trades {orders : List Order} {trades : List MarketEvent}
    (hids : (orders.map Order.orderId).Nodup) (htrades : ∀ trade ∈ trades, trade.type = .trade)
    (hadm : AdmissibleRun orders trades) :
    quantityOf (applyAll orders trades) + trades.length ≤ quantityOf orders := by
  induction trades generalizing orders with
  | nil => exact Nat.le_refl _
  | cons trade trades ih =>
    have htype := htrades trade List.mem_cons_self
    obtain ⟨hfirst, hrest⟩ := hadm
    have happly : trade.applyTo orders =
        amend trade.order.orderId (Order.reduceBy trade.order.quantity) orders := by
      simp only [MarketEvent.applyTo, htype]
    simp only [MarketEvent.Admissible, htype] at hfirst
    obtain ⟨o, ho, hid, hpos, hle⟩ := hfirst
    obtain ⟨front, back, rfl⟩ := List.append_of_mem ho
    rw [← hid, amend_mid hids] at happly
    rw [happly] at hrest
    have htail := ih (hids.sublist (reduceBy_ids_sublist o _ front back))
      (fun t ht => htrades t (List.mem_cons_of_mem _ ht)) hrest
    have hone := quantityOf_reduceBy hle
    have hpos' : 0 < trade.order.quantity.toNat := UInt32.lt_iff_toNat_lt.mp hpos
    rw [quantityOf_append, quantityOf_append] at htail
    show quantityOf (applyAll (trade.applyTo (front ++ o :: back)) trades) + (trades.length + 1) ≤ _
    rw [happly, quantityOf_append, quantityOf_cons]
    omega

namespace Clob

variable {c c' : Clob}

/-- The loop publishes nothing only if it leaves the order as it is. -/
theorem matchLoop_publishes {fuel : Nat} {order order' : Order} {token token' : StopToken}
    (h : c.matchLoop fuel order token = some (c', order', token')) :
    (c' = c ∧ order' = order) ∨ c.published.length < c'.published.length := by
  induction fuel generalizing c order token with
  | zero => cases h
  | succ fuel ih =>
    rw [matchLoop] at h
    split at h
    · cases h
      exact Or.inl ⟨rfl, rfl⟩
    · obtain ⟨⟨traded, c₁, order₁, token₁⟩, hstep, hrest⟩ := Option.bind_eq_some_iff.mp h
      rcases executeTrade_cases hstep with ⟨rfl, rfl, rfl, -⟩ | ⟨rfl, best, state, u, -, -, -, rfl, -⟩
      · cases hrest
        exact Or.inl ⟨rfl, rfl⟩
      · have hlength : (c.publish (tradeEvent best (min order.quantity best.quantity)) state).published.length =
            c.published.length + 1 := by
          rw [publish, List.length_append, List.length_singleton]
        rcases ih hrest with ⟨rfl, -⟩ | hmore
        · exact Or.inr (by omega)
        · exact Or.inr (by omega)

/-- Without a stop every order with a quantity is traded or comes to rest. -/
theorem placeOrder_publishes {fuel : Nat} {side : Side} {request : OrderRequest} {id : ID}
    (hq : request.quantity ≠ 0) (h : placeOrder fuel side c request none = some (id, c')) :
    c.published.length < c'.published.length := by
  rw [placeOrder, if_neg hq] at h
  obtain ⟨⟨c₁, order, token⟩, hloop, hrest⟩ := Option.bind_eq_some_iff.mp h
  have htoken := matchLoop_none_token hloop
  have hmore := matchLoop_publishes hloop
  simp only at hrest
  split at hrest
  · next hfilled =>
    cases hrest
    rcases hmore with ⟨-, rfl⟩ | hmore
    · exact absurd hfilled hq
    · exact hmore
  · rw [htoken] at hrest
    simp only [StopToken.stopRequested, Bool.false_eq_true, if_false] at hrest
    obtain ⟨c₂, hadd, hreturn⟩ := Option.bind_eq_some_iff.mp hrest
    cases hreturn
    rw [addOrder] at hadd
    obtain ⟨⟨state, u⟩, -, hpublish⟩ := Option.bind_eq_some_iff.mp hadd
    cases hpublish
    have hlength : c₁.published.length < (c₁.published ++ [(⟨{ order with orderId := c₁.nextOrderId }, .add⟩ :
        MarketEvent)]).length := by
      rw [List.length_append, List.length_singleton]
      omega
    rcases hmore with ⟨rfl, -⟩ | hmore
    · exact hlength
    · exact hmore.trans hlength

end Clob

/-! ## Steps of a run without a stop -/

/-- Exactly one order that rests is cancelled, last of all that is published. -/
def Clob.CancelsOne (c c' : Clob) : Prop :=
  ∃ posted id, c'.published = c.published ++ posted ++ [Clob.cancelEvent id] ∧
    (∀ event ∈ posted, event.type ≠ .cancel) ∧ id ∈ (applyAll c.resting posted).map Order.orderId

/-- More is published, and no cancel. -/
def Clob.Posts (c c' : Clob) : Prop :=
  ∃ posted, c'.published = c.published ++ posted ∧ ∀ event ∈ posted, event.type ≠ .cancel

namespace Clob

variable {c c' c'' : Clob}

section

omit [StdHash Price] [StdHash ID]

theorem Posts.refl (c : Clob) : c.Posts c := ⟨[], (List.append_nil _).symm, nofun⟩

theorem Posts.trans (h : c.Posts c') (h' : c'.Posts c'') : c.Posts c'' := by
  obtain ⟨first, hfirst, hnone⟩ := h
  obtain ⟨second, hsecond, hnone'⟩ := h'
  exact ⟨first ++ second, by rw [hsecond, hfirst, List.append_assoc], List.forall_mem_append.mpr ⟨hnone, hnone'⟩⟩

theorem Posts.cancelsOne (h : c.Posts c') (h' : c'.CancelsOne c'') : c.CancelsOne c'' := by
  obtain ⟨first, hfirst, hnone⟩ := h
  obtain ⟨second, id, hsecond, hnone', hid⟩ := h'
  have hresting : c'.resting = applyAll c.resting first := by
    rw [Clob.resting, hfirst, applyAll_append_all]
    rfl
  refine ⟨first ++ second, id, ?_, List.forall_mem_append.mpr ⟨hnone, hnone'⟩, ?_⟩
  · rw [hsecond, hfirst, List.append_assoc c.published]
  · rw [applyAll_append_all, ← hresting]
    exact hid

end

end Clob

namespace MarketRequestGenerator

variable {source : RandomSource} {generator : source.State} {m m' : MarketRequestGenerator source}

omit [StdHash Price] [StdHash ID] in
theorem generateOrderRequest_quantity (m : MarketRequestGenerator source) (side : Side) (aggressive : Bool)
    {low high : Quantity} (hlow : 0 < low) (hle : low ≤ high) :
    (m.generateOrderRequest side aggressive low high).1.quantity ≠ 0 := by
  have hlow' := UInt32.lt_iff_toNat_lt.mp hlow
  have hle' := UInt32.le_iff_toNat_le.mp hle
  have hhigh := high.toNat_lt
  obtain ⟨hmin, hmax⟩ := source.uniform_mem low.toNat high.toNat (m.generatePrice side aggressive).2
    (Int.ofNat_le.mpr hle')
  intro hzero
  replace hzero : UInt32.ofNat (source.uniform low.toNat high.toNat
    (m.generatePrice side aggressive).2).1.toNat = 0 := hzero
  have htoNat := congrArg UInt32.toNat hzero
  rw [UInt32.toNat_ofNat'] at htoNat
  have hzero' : (0 : UInt32).toNat = 0 := rfl
  omega

omit [StdHash Price] [StdHash ID] in
theorem newRequest_quantity (m : MarketRequestGenerator source) (side : Side) :
    (m.newRequest side).1.quantity ≠ 0 := by
  rw [newRequest]
  split
  split
  · exact generateOrderRequest_quantity _ side true (by decide) (by decide)
  · exact generateOrderRequest_quantity _ side false (by decide) (by decide)

/-- Some id that the generator keeps is that of an order that rests. -/
def SomeRests (m : MarketRequestGenerator source) : Prop :=
  ∃ id ∈ m.activeOrderIds.items, m.clob.state.orderExists id = true

/-- The calls above `below` go on without a stop. -/
abbrev Runs (below : List GeneratorCall) : MarketRequestGenerator source → MarketRequestGenerator source → Prop :=
  CallStack.Runs (fun m => m.calls) (fun m => m.step none) below

/-- They go on until they have returned. -/
abbrev Returns (below : List GeneratorCall) : MarketRequestGenerator source → MarketRequestGenerator source → Prop :=
  CallStack.Returns (fun m => m.calls) (fun m => m.step none) below

/-- At most 2^64 - 1 orders have come to rest as long as the calls above `below` go on. -/
def IdsLast (below : List GeneratorCall) (m : MarketRequestGenerator source) : Prop :=
  ∀ m', m.Runs below m' → m'.clob.rested < 2 ^ 64

namespace IdsLast

variable {mid below : List GeneratorCall}

theorem inner (h : m.IdsLast below) (mid : List GeneratorCall) : m.IdsLast (mid ++ below) :=
  fun m' hruns => h m' (hruns.trans (.refl m'))

theorem next (h : m.IdsLast below) {call : GeneratorCall} {above : List GeneratorCall}
    (hcalls : m.calls = call :: above ++ below) (hstep : m.step none = some m') : m'.IdsLast below :=
  fun _ hruns => h _ (.step hcalls hstep hruns)

theorem first (h : m.IdsLast below) {call : GeneratorCall} (hcalls : m.calls = call :: below)
    (hstep : m.step none = some m') : m'.IdsLast below :=
  h.next (show m.calls = call :: [] ++ below from hcalls) hstep

theorem returned (h : m.IdsLast below) (hreturns : m.Returns (mid ++ below) m') : m'.IdsLast below :=
  fun _ hruns => h _ (hreturns.runs.trans hruns)

end IdsLast

/-- What has come of an order that was posted. -/
structure PostedOrder (m m' : MarketRequestGenerator source) : Prop where
  posts : m.clob.Posts m'.clob
  outcome : (m'.activeOrderIds.size = m.activeOrderIds.size + 1 ∧ m'.SomeRests) ∨
    (m'.activeOrderIds = m.activeOrderIds ∧ quantityOf m'.clob.resting < quantityOf m.clob.resting)

/-- A filled order was traded at least once. -/
theorem quantityOf_filled (h : m.Sound) {side : Side} {id : ID} {c' : Clob} {trades : List MarketEvent}
    (hsubmit : m.submitNewRequest side none = some (.ok id, c'))
    (htrades : ∀ trade ∈ trades, trade.type = .trade) (hextends : m.clob.Extends c' trades) :
    quantityOf c'.resting < quantityOf m.clob.resting := by
  obtain ⟨book, hholds⟩ := h.tracks.holds
  rw [m.submitNewRequest_eq] at hsubmit
  obtain ⟨⟨id', c₁⟩, hplace, hpair⟩ := Option.map_eq_some_iff.mp hsubmit
  cases hpair
  have hmore := Clob.placeOrder_publishes (m.newRequest_quantity side) hplace
  have hquantity := quantityOf_trades hholds.ids_nodup htrades hextends.admissible
  rw [hextends.published, List.length_append] at hmore
  rw [hextends.resting]
  omega

theorem Sound.posts (h : m.Sound) {side : Side} {below : List GeneratorCall}
    (hcalls : m.calls = .postNewOrder side :: below)
    (hfew : ∀ m', m.step none = some m' → m'.clob.rested < 2 ^ 64) :
    ∃ m', m.step none = some m' ∧ m'.calls = below ∧ m.PostedOrder m' := by
  obtain ⟨id, c', hsubmit, -, hplaced⟩ := Tracks.submitNewRequest m h.tracks side none
  have hstep := step_post hcalls hsubmit
  have hsound' : Sound { m with
      calls := below, activeOrderIds := Tracks.keep m.activeOrderIds id, clob := c',
      generator := (m.newRequest side).2 } := by
    obtain ⟨m₁, hstep₁, -, -, hsound₁⟩ := h.step none
    rw [hstep, Option.some.injEq] at hstep₁
    rw [← hstep₁] at hsound₁
    exact hsound₁ rfl (hfew _ hstep)
  refine ⟨_, hstep, rfl, ?_⟩
  cases hplaced with
  | filled trades htrades hextends =>
    refine ⟨⟨trades, hextends.published, fun event he => by rw [htrades event he]; rintro ⟨⟩⟩, Or.inr ⟨?_, ?_⟩⟩
    · show Tracks.keep m.activeOrderIds invalidOrderId = m.activeOrderIds
      rw [Tracks.keep, if_neg (not_not.mpr rfl)]
    · exact quantityOf_filled h hsubmit htrades hextends
  | rested trades left htrades hextends _ _ hnext =>
    have hmem : m.clob.nextOrderId ∈ c'.resting.map Order.orderId := by
      rw [hextends.resting, applyAll_append]
      exact List.mem_map.mpr ⟨_, List.mem_append_right _ (List.mem_singleton_self _), rfl⟩
    have hreal : m.clob.nextOrderId ≠ invalidOrderId := by
      obtain ⟨o, ho, hid⟩ := List.mem_map.mp hmem
      rw [← hid]
      exact (hsound'.tracks.known _ (hsound'.tracks.tracked o ho)).1
    have hitems : (Tracks.keep m.activeOrderIds m.clob.nextOrderId).items =
        m.activeOrderIds.items ++ [m.clob.nextOrderId] := by
      rw [Tracks.keep, if_pos hreal]
      exact (RandomContainer.add_of_lt (h.room side below hcalls) _).2
    refine ⟨⟨_, hextends.published, ?_⟩, Or.inl ⟨?_, m.clob.nextOrderId, ?_, ?_⟩⟩
    · refine List.forall_mem_append.mpr ⟨fun event he => by rw [htrades event he]; rintro ⟨⟩, ?_⟩
      intro event he
      rw [List.mem_singleton.mp he]
      rintro ⟨⟩
    · show (Tracks.keep m.activeOrderIds m.clob.nextOrderId).items.length = m.activeOrderIds.size + 1
      rw [hitems, List.length_append]
      rfl
    · show m.clob.nextOrderId ∈ (Tracks.keep m.activeOrderIds m.clob.nextOrderId).items
      rw [hitems]
      exact List.mem_append_right _ (List.mem_singleton_self _)
    · exact (hsound'.tracks.exists_iff _).mpr hmem
  | stopped _ _ _ _ htoken => exact absurd rfl htoken

/-! ## Where a populating call stands -/

/-- A call that populates is on top, or it has called for one new order; it is never called with
a set that has enough ids. -/
inductive Populating (m : MarketRequestGenerator source) : Prop
  | elsewhere (h : .populateActiveOrders ∉ m.calls)
  | looping {below : List GeneratorCall} (hcalls : m.calls = .populateActiveOrders :: below)
      (hbelow : .populateActiveOrders ∉ below)
      (hready : m.activeOrderIds.size < populateWhenEmpty ∨ m.SomeRests)
  | requesting {side : Side} {below : List GeneratorCall}
      (hcalls : m.calls = .newOrderRequest side :: .populateActiveOrders :: below)
      (hbelow : .populateActiveOrders ∉ below) (hfew : m.activeOrderIds.size < populateWhenEmpty)
  | posting {side : Side} {below : List GeneratorCall}
      (hcalls : m.calls = .postNewOrder side :: .populateActiveOrders :: below)
      (hbelow : .populateActiveOrders ∉ below) (hfew : m.activeOrderIds.size < populateWhenEmpty)

theorem postNewOrder_calls {side : Side} {token : StopToken} (h : m.postNewOrder side token = some m') :
    m'.calls = m.calls := by
  obtain ⟨⟨result, clob⟩, -, hreturn⟩ := Option.bind_eq_some_iff.mp h
  cases hreturn
  rfl

theorem postCancelRequest_calls {token : StopToken} (h : m.postCancelRequest token = some m') :
    m'.calls = m.calls ∨ m'.calls = .cancelRequest :: m.calls := by
  rw [postCancelRequest] at h
  split at h
  · cases h
    exact Or.inl rfl
  · obtain ⟨⟨id, active, g⟩, -, hrest⟩ := Option.bind_eq_some_iff.mp h
    simp only at hrest
    split at hrest
    · obtain ⟨⟨result, clob⟩, -, hreturn⟩ := Option.bind_eq_some_iff.mp hrest
      cases hreturn
      exact Or.inl rfl
    · cases hrest
      exact Or.inr rfl

/-- A step from a call that does not populate begins a populating call only when there is no id. -/
theorem step_elsewhere {call : GeneratorCall} {below : List GeneratorCall} (hcalls : m.calls = call :: below)
    (hcall : call ≠ .populateActiveOrders) (hbelow : .populateActiveOrders ∉ below)
    (hstep : m.step none = some m') : m'.Populating := by
  have hpost : m'.calls = below ∨ m'.calls = .cancelRequest :: below → m'.Populating := by
    rintro (heq | heq)
    · exact .elsewhere (by rw [heq]; exact hbelow)
    · exact .elsewhere (by rw [heq]; simp [hbelow])
  rw [step, hcalls] at hstep
  cases call with
  | start =>
    replace hstep : some (start { m with calls := below } none) = some m' := hstep
    rw [start, generateAndPostRandomOrderRequest] at hstep
    cases hstep
    simp only [StopToken.stopRequested, Bool.false_eq_true, if_false]
    split
    · exact .elsewhere (by simp [hbelow])
    · split
      · exact .elsewhere (by simp [hbelow])
      · exact .elsewhere (by simp [hbelow])
  | populateActiveOrders => exact absurd rfl hcall
  | purgeActiveOrders =>
    replace hstep : some (purgeActiveOrders { m with calls := below } none) = some m' := hstep
    rw [purgeActiveOrders] at hstep
    split at hstep
    · cases hstep
      exact .elsewhere (by simp [hbelow])
    · cases hstep
      exact .elsewhere hbelow
  | cancelRequest =>
    replace hstep : generateAndPostCancelRequest { m with calls := below } none = some m' := hstep
    rw [generateAndPostCancelRequest] at hstep
    simp only [StopToken.stopRequested, Bool.false_eq_true, if_false] at hstep
    split at hstep
    · next hempty =>
      cases hstep
      refine .looping rfl (by simp [hbelow]) (Or.inl ?_)
      show m.activeOrderIds.size < populateWhenEmpty
      rw [of_decide_eq_true hempty]
      decide
    · exact hpost (postCancelRequest_calls hstep)
  | cancelPopulated => exact hpost (postCancelRequest_calls (m := { m with calls := below }) hstep)
  | newOrderRequest side =>
    replace hstep : some (generateAndPostNewOrderRequest { m with calls := below } side) = some m' := hstep
    rw [generateAndPostNewOrderRequest] at hstep
    split at hstep
    · cases hstep
      exact .elsewhere (by simp [hbelow])
    · cases hstep
      exact .elsewhere (by simp [hbelow])
  | postNewOrder side =>
    exact hpost (Or.inl (postNewOrder_calls (m := { m with calls := below }) hstep))

omit [StdHash Price] [StdHash ID] in
theorem populateActiveOrders_none (m : MarketRequestGenerator source) :
    (¬ m.activeOrderIds.size < populateWhenEmpty ∧ m.populateActiveOrders none = m) ∨
      (m.activeOrderIds.size < populateWhenEmpty ∧ ∃ side g, m.populateActiveOrders none =
        { m with calls := .newOrderRequest side :: .populateActiveOrders :: m.calls, generator := g }) := by
  rw [populateActiveOrders]
  by_cases hfew : m.activeOrderIds.size < populateWhenEmpty
  · refine Or.inr ⟨hfew, ?_⟩
    simp only [StopToken.stopRequested, Bool.not_false, Bool.true_and, hfew, decide_true, if_true]
    exact ⟨_, _, rfl⟩
  · refine Or.inl ⟨hfew, ?_⟩
    simp only [StopToken.stopRequested, Bool.not_false, Bool.true_and, hfew, decide_false, Bool.false_eq_true,
      if_false]

/-- With few ids there is no purge. -/
theorem newOrder_of_few {side : Side} {below : List GeneratorCall} (hcalls : m.calls = .newOrderRequest side :: below)
    (hfew : ¬ m.activeOrderIds.isFull = true) :
    m.step none = some { m with calls := .postNewOrder side :: below } := by
  rw [step, hcalls]
  show some (generateAndPostNewOrderRequest { m with calls := below } side) = _
  rw [generateAndPostNewOrderRequest, if_neg hfew]

omit [StdHash Price] [StdHash ID] in
theorem not_full_of_few (hfew : m.activeOrderIds.size < populateWhenEmpty) : ¬ m.activeOrderIds.isFull = true := by
  intro hfull
  have hsize : m.activeOrderIds.size = maxActiveOrders := of_decide_eq_true hfull
  have hless : populateWhenEmpty < maxActiveOrders := by decide
  omega

theorem Populating.next (h : m.Populating) (hsound : m.Sound) (hstep : m.step none = some m')
    (hfew : m'.clob.rested < 2 ^ 64) : m'.Populating := by
  cases h with
  | elsewhere hnone =>
    cases hcalls : m.calls with
    | nil =>
      rw [step, hcalls] at hstep
      cases hstep
      exact .elsewhere hnone
    | cons call below =>
      rw [hcalls] at hnone
      simp only [List.mem_cons, not_or] at hnone
      exact step_elsewhere hcalls (Ne.symm hnone.1) hnone.2 hstep
  | @looping below hcalls hbelow hready =>
    rw [step, hcalls] at hstep
    replace hstep : some (populateActiveOrders { m with calls := below } none) = some m' := hstep
    rcases populateActiveOrders_none { m with calls := below } with ⟨-, hsame⟩ | ⟨hless, side, g, hcall⟩
    · rw [hsame] at hstep
      cases hstep
      exact .elsewhere hbelow
    · rw [hcall] at hstep
      cases hstep
      exact .requesting rfl hbelow hless
  | requesting hcalls hbelow hless =>
    rw [newOrder_of_few hcalls (not_full_of_few hless)] at hstep
    cases hstep
    exact .posting rfl hbelow hless
  | posting hcalls hbelow hless =>
    obtain ⟨m₁, hstep₁, hcalls₁, hposted⟩ := hsound.posts hcalls fun m₁ hstep₁ => by
      rw [hstep, Option.some.injEq] at hstep₁
      rw [← hstep₁]
      exact hfew
    rw [hstep] at hstep₁
    cases hstep₁
    refine .looping hcalls₁ hbelow ?_
    rcases hposted.outcome with ⟨-, hrests⟩ | ⟨hsame, -⟩
    · exact Or.inr hrests
    · exact Or.inl (by rw [hsame]; exact hless)

/-- What holds in every state of a run without a stop, as long as the ids last. -/
structure Live (m : MarketRequestGenerator source) : Prop where
  sound : m.Sound
  populating : m.Populating

namespace Live

variable {below : List GeneratorCall}

theorem new (generator : source.State) : (MarketRequestGenerator.new generator).Live :=
  ⟨new_sound generator, .looping rfl (by simp) (Or.inl (show 0 < populateWhenEmpty by decide))⟩

theorem next (h : m.Live) (hstep : m.step none = some m') (hfew : m'.clob.rested < 2 ^ 64) : m'.Live := by
  refine ⟨?_, h.populating.next h.sound hstep hfew⟩
  obtain ⟨m₁, hstep₁, -, -, hsound⟩ := h.sound.step none
  rw [hstep, Option.some.injEq] at hstep₁
  rw [← hstep₁] at hsound
  exact hsound rfl hfew

theorem runs (h : m.Live) (hids : m.IdsLast below) (hruns : m.Runs below m') : m'.Live := by
  induction hruns with
  | refl => exact h
  | step hcalls hstep _ ih =>
    have hids' := hids.next hcalls hstep
    exact ih (h.next hstep (hids' _ (.refl _))) hids'

theorem after {generator : source.State} {n : Nat} (hn : after generator none n = some m)
    (hids : ∀ i ≤ n, ∀ m : MarketRequestGenerator source, MarketRequestGenerator.after generator none i = some m →
      m.clob.rested < 2 ^ 64) : m.Live := by
  induction n generalizing m with
  | zero =>
    cases hn
    exact new generator
  | succ n ih =>
    obtain ⟨m₀, hn₀, hstep⟩ := Option.bind_eq_some_iff.mp hn
    exact (ih hn₀ fun i hi => hids i (Nat.le_succ_of_le hi)).next hstep (hids _ (Nat.le_refl _) m hn)

end Live

omit [StdHash Price] in
theorem not_empty_of_someRests (h : m.SomeRests) : ¬ m.activeOrderIds.isEmpty = true := by
  obtain ⟨id, hid, -⟩ := h
  intro hempty
  rw [List.eq_nil_of_length_eq_zero (of_decide_eq_true hempty)] at hid
  cases hid

/-! ## The calls return -/

namespace Live

variable {below : List GeneratorCall}

theorem post (h : m.Live) (hids : m.IdsLast below) {side : Side} (hcalls : m.calls = .postNewOrder side :: below) :
    ∃ m', m.Returns below m' ∧ m.PostedOrder m' := by
  obtain ⟨m', hstep, hcalls', hposted⟩ :=
    h.sound.posts hcalls fun m' hstep => hids m' (.first hcalls hstep (.refl m'))
  exact ⟨m', .of_step hcalls hstep hcalls', hposted⟩

/-- A new order that finds room for its id is posted at once. -/
theorem request_of_room (h : m.Live) (hids : m.IdsLast below) {side : Side}
    (hcalls : m.calls = .newOrderRequest side :: below) (hroom : ¬ m.activeOrderIds.isFull = true) :
    ∃ m', m.Returns below m' ∧ m.PostedOrder m' := by
  have hstep := newOrder_of_few hcalls hroom
  have hids₁ := hids.first hcalls hstep
  obtain ⟨m', hpost, hposted⟩ := (h.next hstep h.sound.tracks.few).post hids₁ rfl
  exact ⟨m', hpost.first hcalls hstep, hposted.posts, hposted.outcome⟩

/-- A populating call returns: each order that it posts is one more id, or takes from the book. -/
theorem populate (h : m.Live) (hids : m.IdsLast below) (hcalls : m.calls = .populateActiveOrders :: below) :
    ∃ m', m.Returns below m' ∧ populateWhenEmpty ≤ m'.activeOrderIds.size ∧ m'.SomeRests ∧
      m.clob.Posts m'.clob ∧
      (m.activeOrderIds.size < populateWhenEmpty → m'.activeOrderIds.size ≤ populateWhenEmpty) := by
  have hready : m.activeOrderIds.size < populateWhenEmpty ∨ m.SomeRests := by
    cases h.populating with
    | elsewhere hnone => exact absurd (by rw [hcalls]; exact List.mem_cons_self) hnone
    | looping _ _ hready => exact hready
    | requesting hcalls' => rw [hcalls] at hcalls'; cases hcalls'
    | posting hcalls' => rw [hcalls] at hcalls'; cases hcalls'
  let measure (s : MarketRequestGenerator source) : Nat ×ₗ Nat :=
    toLex (populateWhenEmpty - s.activeOrderIds.size, quantityOf s.clob.resting)
  refine CallStack.Returns.of_measure (wellFounded_lt (α := Nat ×ₗ Nat)) measure
    (I := fun s => s.Live ∧ s.IdsLast below ∧
      (s.activeOrderIds.size < populateWhenEmpty ∨ s.SomeRests) ∧ m.clob.Posts s.clob ∧
      (m.activeOrderIds.size < populateWhenEmpty → s.activeOrderIds.size ≤ populateWhenEmpty)) ?_ m
    ⟨h, hids, hready, Clob.Posts.refl _, Nat.le_of_lt⟩ hcalls
  rintro s ⟨hs, hids, hready, hposts, hmost⟩ hcalls
  have hstep : s.step none = some (populateActiveOrders { s with calls := below } none) := by
    rw [step, hcalls]
    rfl
  rcases populateActiveOrders_none { s with calls := below } with ⟨henough, hsame⟩ | ⟨hfew, side, g, hcall⟩
  · rw [hsame] at hstep
    refine Or.inl ⟨_, .of_step hcalls hstep rfl, ?_⟩
    exact ⟨Nat.le_of_not_lt henough, hready.resolve_left henough, hposts, hmost⟩
  · rw [hcall] at hstep
    have hs₁ := hs.next hstep hs.sound.tracks.few
    have hids₁ := hids.first hcalls hstep
    obtain ⟨s', hback, hposted⟩ :=
      hs₁.request_of_room (hids₁.inner [.populateActiveOrders]) rfl (not_full_of_few hfew)
    have hs' := hs₁.runs (hids₁.inner _) hback.runs
    replace hfew : s.activeOrderIds.size < populateWhenEmpty := hfew
    have hposts' := hposts.trans hposted.posts
    refine Or.inr ⟨_, s', hstep, hback, ?_⟩
    rcases hposted.outcome with ⟨hsize, hrests⟩ | ⟨hsame, hquantity⟩
    · replace hsize : s'.activeOrderIds.size = s.activeOrderIds.size + 1 := hsize
      refine ⟨⟨hs', hids₁.returned hback, Or.inr hrests, hposts', fun _ => by omega⟩, ?_⟩
      exact Prod.Lex.left _ _ (by omega)
    · replace hsame : s'.activeOrderIds = s.activeOrderIds := hsame
      refine ⟨⟨hs', hids₁.returned hback, Or.inl (by rw [hsame]; exact hfew), hposts', ?_⟩, ?_⟩
      · intro _
        rw [hsame]
        exact hfew.le
      · show Prod.Lex _ _ (populateWhenEmpty - s'.activeOrderIds.size, quantityOf s'.clob.resting)
          (populateWhenEmpty - s.activeOrderIds.size, quantityOf s.clob.resting)
        rw [hsame]
        exact Prod.Lex.right _ hquantity

/-- A round of a cancelling call that has an id to take out: its order is cancelled, or it does
not rest any more. -/
theorem cancelRound (h : m.Live)
    (hcalls : m.calls = .cancelRequest :: below ∨ m.calls = .cancelPopulated :: below)
    (hempty : ¬ m.activeOrderIds.isEmpty = true) :
    ∃ m', m.step none = some m' ∧ m'.activeOrderIds.size + 1 = m.activeOrderIds.size ∧
      ((m'.calls = below ∧ m.clob.CancelsOne m'.clob) ∨
        (m'.calls = .cancelRequest :: below ∧ m'.clob = m.clob ∧ (m.SomeRests → m'.SomeRests))) := by
  have htracks := h.sound.tracks
  obtain ⟨book, hholds⟩ := htracks.holds
  obtain ⟨id, active, g, hremove, hperm⟩ :=
    m.activeOrderIds.removeRandom_spec m.generator (m.activeOrderIds.items_ne_nil hempty)
  have hsize : active.size + 1 = m.activeOrderIds.size := hperm.length_eq
  have hstep : m.step none = postCancelRequest { m with calls := below } none := by
    rcases hcalls with hcalls | hcalls
    · rw [step, hcalls]
      show generateAndPostCancelRequest { m with calls := below } none = _
      rw [generateAndPostCancelRequest]
      simp only [StopToken.stopRequested, Bool.false_eq_true, if_false, hempty]
    · rw [step, hcalls]
      rfl
  rw [postCancelRequest, if_neg hempty, hremove] at hstep
  simp only [Option.bind_eq_bind, Option.bind_some] at hstep
  by_cases hexists : m.clob.state.orderExists id = true
  · have hid := (htracks.exists_iff id).mp hexists
    obtain ⟨c', hcancel, ⟨hextends, -⟩ | ⟨hnone, -⟩⟩ := hholds.cancelOrder_progress ⟨id, 0, 0, .cancel⟩ none hid
    · have hsubmit : m.clob.submit 0 ⟨id, 0, 0, .cancel⟩ none = some (.ok invalidOrderId, c') := by
        rw [Clob.submit_cancel, hcancel]
        rfl
      rw [if_pos hexists, hsubmit] at hstep
      refine ⟨_, hstep, hsize, Or.inl ⟨rfl, [], id, ?_, by rintro _ ⟨⟩, hid⟩⟩
      rw [List.append_nil]
      exact hextends.published
    · exact absurd rfl hnone
  · rw [if_neg hexists] at hstep
    refine ⟨_, hstep, hsize, Or.inr ⟨rfl, rfl, ?_⟩⟩
    rintro ⟨live, hlive, hrests⟩
    refine ⟨live, ?_, hrests⟩
    rcases List.mem_cons.mp (hperm.mem_iff.mpr hlive) with heq | hmem
    · exact absurd (heq ▸ hrests) hexists
    · exact hmem

/-- With an id that rests a cancelling call returns. -/
theorem cancel_of_someRests (h : m.Live) (hids : m.IdsLast below)
    (hcalls : m.calls = .cancelRequest :: below ∨ m.calls = .cancelPopulated :: below) (hrests : m.SomeRests) :
    ∃ m', m.Returns below m' ∧ m.clob.CancelsOne m'.clob ∧ m'.activeOrderIds.size < m.activeOrderIds.size := by
  induction hsize : m.activeOrderIds.size generalizing m with
  | zero => exact absurd (decide_eq_true hsize) (not_empty_of_someRests hrests)
  | succ n ih =>
    obtain ⟨m₁, hstep, hless, hcase⟩ := h.cancelRound hcalls (not_empty_of_someRests hrests)
    obtain ⟨call, hcall⟩ : ∃ call, m.calls = call :: below := hcalls.elim (fun heq => ⟨_, heq⟩) fun heq => ⟨_, heq⟩
    rcases hcase with ⟨hcalls₁, hcancels⟩ | ⟨hcalls₁, hclob, hrests₁⟩
    · exact ⟨m₁, .of_step hcall hstep hcalls₁, hcancels, by omega⟩
    · have hids₁ := hids.first hcall hstep
      obtain ⟨m', hreturns, hcancels, hless'⟩ :=
        ih (h.next hstep (hids₁ _ (.refl _))) hids₁ (Or.inl hcalls₁) (hrests₁ hrests) (by omega)
      rw [hclob] at hcancels
      exact ⟨m', hreturns.first hcall hstep, hcancels, by omega⟩

/-- A cancelling call returns: it drops ids until it finds one that rests, and populates once at
most. -/
theorem cancel (h : m.Live) (hids : m.IdsLast below) (hcalls : m.calls = .cancelRequest :: below) :
    ∃ m', m.Returns below m' ∧ m.clob.CancelsOne m'.clob ∧
      (m'.activeOrderIds.size < m.activeOrderIds.size ∨ m'.activeOrderIds.size < populateWhenEmpty) := by
  induction hsize : m.activeOrderIds.size generalizing m with
  | zero =>
    have hempty : m.activeOrderIds.isEmpty = true := decide_eq_true hsize
    have hstep : m.step none =
        some { m with calls := .populateActiveOrders :: .cancelPopulated :: below } := by
      rw [step, hcalls]
      show generateAndPostCancelRequest { m with calls := below } none = _
      rw [generateAndPostCancelRequest]
      simp only [StopToken.stopRequested, Bool.false_eq_true, if_false, hempty, if_true]
    have h₁ := h.next hstep h.sound.tracks.few
    have hids₁ := hids.first hcalls hstep
    obtain ⟨m₁, hpopulate, -, hrests, hposts, hmost⟩ :=
      h₁.populate (hids₁.inner [.cancelPopulated]) rfl
    obtain ⟨m', hcancel, hcancels, hless⟩ := (h₁.runs (hids₁.inner _) hpopulate.runs).cancel_of_someRests
      (hids₁.returned hpopulate) (Or.inr hpopulate.calls_eq) hrests
    have hfew := hmost (show m.activeOrderIds.size < populateWhenEmpty by rw [hsize]; decide)
    have hpopulate' : Returns ([.cancelPopulated] ++ below) _ m₁ := hpopulate
    exact ⟨m', (hpopulate'.trans hcancel).first hcalls hstep, hposts.cancelsOne hcancels, Or.inr (by omega)⟩
  | succ n ih =>
    have hempty : ¬ m.activeOrderIds.isEmpty = true := by
      intro hempty
      have hzero : m.activeOrderIds.size = 0 := of_decide_eq_true hempty
      omega
    obtain ⟨m₁, hstep, hless, hcase⟩ := h.cancelRound (Or.inl hcalls) hempty
    rcases hcase with ⟨hcalls₁, hcancels⟩ | ⟨hcalls₁, hclob, -⟩
    · exact ⟨m₁, .of_step hcalls hstep hcalls₁, hcancels, Or.inl (by omega)⟩
    · have hids₁ := hids.first hcalls hstep
      obtain ⟨m', hreturns, hcancels, hless'⟩ :=
        ih (h.next hstep (hids₁ _ (.refl _))) hids₁ hcalls₁ (by omega)
      rw [hclob] at hcancels
      exact ⟨m', hreturns.first hcalls hstep, hcancels, by omega⟩

/-- A purging call returns, since every cancel leaves fewer ids. -/
theorem purge (h : m.Live) (hids : m.IdsLast below) (hcalls : m.calls = .purgeActiveOrders :: below) :
    ∃ m', m.Returns below m' := by
  have hsmall : populateWhenEmpty < purgeUntilWhenFull := by decide
  refine (CallStack.Returns.of_measure (wellFounded_lt (α := Nat))
    (fun s : MarketRequestGenerator source => s.activeOrderIds.size) (I := fun s => s.Live ∧ s.IdsLast below)
    (Q := fun _ => True) ?_ m ⟨h, hids⟩ hcalls).imp fun _ => And.left
  rintro s ⟨hs, hids⟩ hcalls
  have hstep : s.step none = some (purgeActiveOrders { s with calls := below } none) := by
    rw [step, hcalls]
    rfl
  rw [purgeActiveOrders] at hstep
  split at hstep
  · next hlarge =>
    have hlarge' : purgeUntilWhenFull < s.activeOrderIds.size := by
      simpa [StopToken.stopRequested] using hlarge
    have hs₁ := hs.next hstep hs.sound.tracks.few
    have hids₁ := hids.first hcalls hstep
    obtain ⟨s', hback, -, hless⟩ := hs₁.cancel (hids₁.inner [.purgeActiveOrders]) rfl
    replace hless : s'.activeOrderIds.size < s.activeOrderIds.size ∨
      s'.activeOrderIds.size < populateWhenEmpty := hless
    exact Or.inr ⟨_, s', hstep, hback, ⟨hs₁.runs (hids₁.inner _) hback.runs, hids₁.returned hback⟩, by omega⟩
  · exact Or.inl ⟨_, .of_step hcalls hstep rfl, trivial⟩

/-- A call that posts a new order returns, after a purge if the ids are full. -/
theorem request (h : m.Live) (hids : m.IdsLast below) {side : Side}
    (hcalls : m.calls = .newOrderRequest side :: below) : ∃ m', m.Returns below m' := by
  by_cases hfull : m.activeOrderIds.isFull = true
  · have hstep : m.step none = some { m with calls := .purgeActiveOrders :: .postNewOrder side :: below } := by
      rw [step, hcalls]
      show some (generateAndPostNewOrderRequest { m with calls := below } side) = _
      rw [generateAndPostNewOrderRequest, if_pos hfull]
    have h₁ := h.next hstep h.sound.tracks.few
    have hids₁ := hids.first hcalls hstep
    obtain ⟨m₁, hpurge⟩ := h₁.purge (hids₁.inner [.postNewOrder side]) rfl
    obtain ⟨m', hpost, -⟩ :=
      (h₁.runs (hids₁.inner _) hpurge.runs).post (hids₁.returned hpurge) hpurge.calls_eq
    have hpurge' : Returns ([.postNewOrder side] ++ below) _ m₁ := hpurge
    exact ⟨m', (hpurge'.trans hpost).first hcalls hstep⟩
  · obtain ⟨m', hreturns, -⟩ := h.request_of_room hids hcalls hfull
    exact ⟨m', hreturns⟩

end Live

/-- In a run without a stop each of the four calls returns, if no more than 2^64 - 1 orders have come
to rest until then. A cancelling call has then cancelled exactly one order, and a populating one
leaves enough ids, of which one rests. -/
theorem generator_calls_return (generator : source.State) (n : Nat) (m : MarketRequestGenerator source)
    (hm : after generator none n = some m)
    (hpast : ∀ i ≤ n, ∀ m : MarketRequestGenerator source, after generator none i = some m →
      m.clob.rested < 2 ^ 64)
    (below : List GeneratorCall) (hids : m.IdsLast below) :
    (m.calls = .populateActiveOrders :: below → ∃ m', m.Returns below m' ∧
      populateWhenEmpty ≤ m'.activeOrderIds.size ∧ m'.SomeRests) ∧
    (m.calls = .cancelRequest :: below → ∃ m', m.Returns below m' ∧ m.clob.CancelsOne m'.clob) ∧
    (m.calls = .purgeActiveOrders :: below → ∃ m', m.Returns below m') ∧
    ∀ side, m.calls = .newOrderRequest side :: below → ∃ m', m.Returns below m' := by
  have h := Live.after hm hpast
  refine ⟨fun hcalls => ?_, fun hcalls => ?_, fun hcalls => h.purge hids hcalls, fun side hcalls =>
    h.request hids hcalls⟩
  · obtain ⟨m', hreturns, henough, hrests, -⟩ := h.populate hids hcalls
    exact ⟨m', hreturns, henough, hrests⟩
  · obtain ⟨m', hreturns, hcancels, -⟩ := h.cancel hids hcalls
    exact ⟨m', hreturns, hcancels⟩

/-- A script populates the book and comes to a cancel, which takes an order out that rests. -/
theorem exists_cancelling : ∃ (script : List Draw) (n : Nat) (m : ScriptedGenerator),
    after script none n = some m ∧ m.calls = [.cancelRequest, .start] ∧
      m.activeOrderIds.size = populateWhenEmpty ∧
      (∀ i ≤ n, ∀ m : ScriptedGenerator, after script none i = some m → m.clob.rested < 2 ^ 64) ∧
      m.IdsLast [.start] := by
  obtain ⟨active, clob, hstocked, -, hsize⟩ := Stocked.exists_populated populateWhenEmpty (Nat.le_refl _)
  obtain ⟨id, rest, hitems⟩ : ∃ id rest, active.items = id :: rest := by
    refine List.exists_cons_of_ne_nil fun hnil => ?_
    rw [RandomContainer.size, hnil] at hsize
    cases hsize
  have hcancelling : Stocked [.cancelRequest, .start] active clob :=
    (hstocked.move [] fun later => step_populated (by omega) later).move [.low] fun later => step_start .low later
  obtain ⟨active', clob', hstep, -, hrested, -⟩ := hcancelling.cancel_step hitems
  obtain ⟨script, n, hafter⟩ := hcancelling.reaches
  obtain ⟨hm, hpast⟩ := hafter [.low]
  refine ⟨script ++ [.low], n, _, hm, rfl, hsize, hpast, ?_⟩
  intro m' hruns
  have hfew := hpast n (Nat.le_refl n) _ hm
  rcases hruns.cases_next with rfl | ⟨m₁, hstep₁, hruns₁, -⟩
  · exact hfew
  · have heq := Option.some.inj ((hstep []).symm.trans hstep₁)
    rcases hruns₁.cases_next with rfl | ⟨m₂, -, -, hgoes⟩
    · rw [← heq]
      exact hrested ▸ hfew
    · rw [← heq] at hgoes
      exact absurd rfl hgoes

end MarketRequestGenerator

end

section

attribute [local instance] priceHash idHash

/-- The first order of a run, which is posted while the call that populates waits, and the first
cancel behind it. -/
theorem generator_calls_return_firstOrder :
    (∃ m m' : MarketRequestGenerator buyingSource, MarketRequestGenerator.after () none 1 = some m ∧
      m.calls = [.newOrderRequest .buy, .populateActiveOrders, .start] ∧
      m.Returns [.populateActiveOrders, .start] m') ∧
    ∃ m m' : ScriptedGenerator, m.calls = [.cancelRequest, .start] ∧
      m.activeOrderIds.size = populateWhenEmpty ∧ m.Returns [.start] m' ∧ m.clob.CancelsOne m'.clob := by
  have hsome : ∀ i ≤ 3, ((MarketRequestGenerator.after () none i :
      Option (MarketRequestGenerator buyingSource)).all fun m => decide (m.clob.rested < 2 ^ 64)) = true := by
    decide +kernel
  have hcalls : ∀ i ∈ [(1, [GeneratorCall.newOrderRequest .buy, .populateActiveOrders, .start]),
      (3, [.populateActiveOrders, .start])],
      (MarketRequestGenerator.after () none i.1 : Option (MarketRequestGenerator buyingSource)).map
        MarketRequestGenerator.calls = some i.2 := by
    decide +kernel
  have hfew : ∀ i ≤ 3, ∀ m : MarketRequestGenerator buyingSource,
      MarketRequestGenerator.after () none i = some m → m.clob.rested < 2 ^ 64 := by
    intro i hi m hm
    have hi' := hsome i hi
    rw [hm] at hi'
    exact of_decide_eq_true hi'
  have hnext : ∀ {i : Nat} {m m' : MarketRequestGenerator buyingSource},
      MarketRequestGenerator.after () none i = some m → m.step none = some m' →
        MarketRequestGenerator.after () none (i + 1) = some m' := by
    intro i m m' hm hstep
    show (MarketRequestGenerator.after () none i).bind (fun m => m.step none) = some m'
    rw [hm]
    exact hstep
  obtain ⟨m, hm, hcalls₁⟩ := Option.map_eq_some_iff.mp (hcalls (1, _) List.mem_cons_self)
  have hids : m.IdsLast [.populateActiveOrders, .start] := by
    intro m' hruns
    rcases hruns.cases_next with rfl | ⟨m₁, hstep₁, hruns₁, -⟩
    · exact hfew 1 (by omega) _ hm
    · have hm₁ := hnext hm hstep₁
      rcases hruns₁.cases_next with rfl | ⟨m₂, hstep₂, hruns₂, -⟩
      · exact hfew 2 (by omega) _ hm₁
      · have hm₂ := hnext hm₁ hstep₂
        rcases hruns₂.cases_next with rfl | ⟨m₃, -, -, hgoes⟩
        · exact hfew 3 (by omega) _ hm₂
        · have hcalls₃ := hcalls (3, _) (List.mem_cons_of_mem _ List.mem_cons_self)
          rw [hm₂] at hcalls₃
          exact absurd (Option.some.inj hcalls₃) hgoes
  obtain ⟨-, -, -, hrequest⟩ := MarketRequestGenerator.generator_calls_return () 1 m hm
    (fun i hi m hm => hfew i (by omega) m hm) [.populateActiveOrders, .start] hids
  obtain ⟨m', hreturns⟩ := hrequest .buy hcalls₁
  refine ⟨⟨m, m', hm, hcalls₁, hreturns⟩, ?_⟩
  obtain ⟨script, n, m₁, hm₁, hcancelling, hsize, hpast, hids₁⟩ := MarketRequestGenerator.exists_cancelling
  obtain ⟨-, hcancel, -⟩ :=
    MarketRequestGenerator.generator_calls_return (script : List Draw) n m₁ hm₁ hpast [.start] hids₁
  obtain ⟨m₂, hreturns₁, hcancels⟩ := hcancel hcancelling
  exact ⟨m₁, m₂, hcancelling, hsize, hreturns₁, hcancels⟩

end

/-! ## The order without an id

The id counter comes round, and an order rests under the id that stands for no order. It is
never traded and never cancelled, so orders of both sides come to rest behind it at one price,
and a price stays in a price set after its level has gone.
-/

/-- The order that rests under the last id, and the one that comes to rest behind it. -/
def lastOrder : Order := ⟨18446744073709551615, 650, 100, .buy⟩
def strayOrder : Order := ⟨invalidOrderId, 660, 10, .sell⟩

/-- Orders that come to rest at their prices, and on the other sides. -/
def buyBehind : Order := ⟨1, 660, 100, .buy⟩
def sellBehind : Order := ⟨2, 650, 10, .sell⟩

namespace MarketRequestGenerator

variable [StdHash Price] [StdHash ID] {calls calls' : List GeneratorCall}
  {active active' : RandomContainer ID maxActiveOrders} {clob clob' : Clob}

namespace Stocked

/-- Before the counter comes round the last order rests alone. -/
theorem exists_last : ∃ active clob, Stocked [.start] active clob ∧ clob.nextOrderId = invalidOrderId ∧
    active.items = [lastOrder.orderId] ∧ clob.resting = [lastOrder] := by
  obtain ⟨active₀, clob₀, h₀, hrested₀, hsize₀⟩ := exists_turned (2 ^ 64 - 2 - populateWhenEmpty) (by decide)
  have hrested : clob₀.rested = 2 ^ 64 - 2 := hrested₀.trans (by decide)
  obtain ⟨active, clob, h, hrested', hitems⟩ := h₀.turn hsize₀ (by omega)
  have hid : clob₀.nextOrderId = lastOrder.orderId := by
    rw [h₀.sound.tracks.next, hrested]
    rfl
  rw [hid] at hitems
  refine ⟨active, clob, h, ?_, hitems, ?_⟩
  · rw [h.sound.tracks.next, hrested', hrested]
    rfl
  · obtain ⟨book, hholds⟩ := h.sound.tracks.holds
    have hlength := h.sound.tracks.resting_le
    obtain ⟨o, ho, hoid⟩ := List.mem_map.mp (h.rests lastOrder.orderId (by rw [hitems]; exact List.mem_cons_self))
    have hone : clob.resting.length = 1 := by
      have hpos := List.length_pos_of_mem ho
      replace hlength : clob.resting.length ≤ active.items.length := hlength
      rw [hitems, List.length_singleton] at hlength
      omega
    obtain ⟨o', hresting⟩ := List.length_eq_one_iff.mp hone
    rw [hresting, List.mem_singleton] at ho
    obtain ⟨hside, hprice, hquantity⟩ := h.buys o (by rw [hresting, ho]; exact List.mem_cons_self)
    rw [hresting, ← ho]
    obtain ⟨id, price, quantity, side⟩ := o
    cases hside
    cases hprice
    cases hquantity
    cases hoid
    rfl

/-- The next order rests under the id that stands for no order. -/
theorem exists_stray : ∃ active clob book, Arrives [.start] active clob ∧ clob.nextOrderId = 1 ∧
    active.items = [lastOrder.orderId] ∧ clob.state.Represents book ∧ clob.state.BestShown book ∧
    orders book = [lastOrder, strayOrder] := by
  obtain ⟨active, clob, h, hnext, hitems, hresting⟩ := exists_last
  have hroom : active.size < maxActiveOrders := by
    rw [RandomContainer.size, hitems]
    decide
  have hposting := (h.move [.high] fun later => step_start .high later).move [] fun later =>
    step_request hroom .sell later
  have htracks := h.sound.tracks
  obtain ⟨book, hholds⟩ := htracks.holds
  have hrequest : ∀ later : List Draw, (⟨.postNewOrder .sell :: [.start], active, clob,
      [.high, .high, .low] ++ later⟩ : ScriptedGenerator).newRequest .sell = (⟨0, 660, 10, .sell⟩, later) := by
    intro later
    have hrange : (priceRange clob.state.snapshot .sell false).2 = 660 := by
      simp only [priceRange, BookState.snapshot, h.noOffer, if_true]
      rfl
    refine (newRequest_passive .high .low later .sell).trans ?_
    rw [Draw.pick, if_pos rfl, hrange]
    rfl
  obtain ⟨clob', hplace, hnext', hextends, book', hrep, horders, hshown⟩ :=
    hholds.placeOrder_alone htracks.inside 10 .sell ⟨0, 660, 10, .sell⟩ (by rintro ⟨⟩)
      (fun o ho _ => by rw [(h.buys o ho).2.1]; decide) htracks.next_not_resting htracks.resting_lt
  rw [hnext] at hplace
  have hstep : ∀ later : List Draw, (⟨.postNewOrder .sell :: [.start], active, clob,
      [.high, .high, .low] ++ later⟩ : ScriptedGenerator).step none = some ⟨[.start], active, clob', later⟩ :=
    fun later => step_placed (hrequest later) hplace
  refine ⟨active, clob', book', hposting.arrives.step _ hstep, ?_, hitems, hrep, hshown, ?_⟩
  · rw [hnext', hnext]
    rfl
  · rw [horders, hextends.resting, hresting, hnext]
    rfl

end Stocked

/-! ## If every call returns -/

/-- What is asked of every state that a scripted run reaches. -/
def CallReturns (m : ScriptedGenerator) : Prop := ∀ below,
  (m.calls = .cancelRequest :: below → ∃ m', m.Returns below m') ∧
  ∀ side, m.calls = .newOrderRequest side :: below → ∃ m', m.Returns below m'

theorem step_of_returns {below : List GeneratorCall} {m m' : ScriptedGenerator} {call : GeneratorCall}
    (hcalls : m.calls = call :: below) (h : m.Returns below m') :
    ∃ m₁, m.step none = some m₁ ∧ m₁.Returns below m' := by
  rcases h.runs.cases_next with rfl | ⟨m₁, hstep, hruns, -⟩
  · exact absurd (hcalls.symm.trans h.calls_eq) (List.cons_ne_self _ _)
  · exact ⟨m₁, hstep, hruns, h.calls_eq⟩

namespace Arrives

variable (hreturns : ∀ draws n m, after draws none n = some m → CallReturns m)

include hreturns

/-- A new order that meets the stray one joins the book. -/
theorem joins {side : Side} (h : Arrives (.newOrderRequest side :: calls) active clob)
    (hroom : active.size < maxActiveOrders) (draws : List Draw) {request : OrderRequest}
    (hrequest : ∀ later : List Draw, (⟨.postNewOrder side :: calls, active, clob, draws ++ later⟩ :
      ScriptedGenerator).newRequest side = (request, later))
    (hq : request.quantity ≠ 0) {best : Order} (hopp : clob.state.bestOpposingOrder side = some best)
    (hstray : best.orderId = invalidOrderId) (hreal : clob.nextOrderId ≠ invalidOrderId) :
    ∃ active' clob' u, Arrives calls active' clob' ∧ active'.items = active.items ++ [clob.nextOrderId] ∧
      clob'.nextOrderId = clob.nextOrderId + 1 ∧
      clob.state.add ⟨⟨clob.nextOrderId, request.price, request.quantity, side⟩, .add⟩ = some (clob'.state, u) := by
  have hposting := h.step [] fun later => step_request hroom side later
  obtain ⟨script, n, hafter⟩ := h
  obtain ⟨m', hreturn⟩ := (hreturns _ n _ (hafter draws) calls).2 side rfl
  obtain ⟨m₁, hstep₁, hreturn₁⟩ := step_of_returns rfl hreturn
  rw [step_request hroom, Option.some.injEq] at hstep₁
  rw [← hstep₁] at hreturn₁
  obtain ⟨m₂, hstep₂, -⟩ := step_of_returns rfl hreturn₁
  obtain ⟨_, hsubmit, -⟩ := Option.bind_eq_some_iff.mp
    (show ((⟨.postNewOrder side :: calls, active, clob, draws⟩ : ScriptedGenerator).submitNewRequest side none).bind _ =
      some m₂ from hstep₂)
  have hdraws := hrequest []
  rw [List.append_nil] at hdraws
  rw [submitNewRequest_eq, hdraws] at hsubmit
  obtain ⟨⟨id, clob'⟩, hplace, -⟩ := Option.map_eq_some_iff.mp hsubmit
  have hadds := hplace
  rw [clob.placeOrder_noTrade _ side request hq hopp (Or.inl hstray)] at hadds
  obtain ⟨_, hadd, hpair⟩ := Option.map_eq_some_iff.mp hadds
  cases hpair
  have hstep : ∀ later : List Draw, (⟨.postNewOrder side :: calls, active, clob, draws ++ later⟩ :
      ScriptedGenerator).step none = some ⟨calls, Tracks.keep active clob.nextOrderId, clob', later⟩ :=
    fun later => step_placed (hrequest later) hplace
  obtain ⟨⟨state, u⟩, hstate, hpublish⟩ := Option.bind_eq_some_iff.mp
    (show (clob.state.add ⟨⟨clob.nextOrderId, request.price, request.quantity, side⟩, .add⟩).bind _ = some clob'
      from hadd)
  cases hpublish
  refine ⟨_, _, u, hposting.step draws hstep, ?_, rfl, hstate⟩
  rw [Tracks.keep, if_pos hreal]
  exact (RandomContainer.add_of_lt hroom _).2

/-- The first order that is known leaves the book. -/
theorem leaves (h : Arrives (.cancelRequest :: calls) active clob) {id : ID} {rest : List ID}
    (hitems : active.items = id :: rest) (hexists : clob.state.orderExists id = true) :
    ∃ active' clob' u, Arrives calls active' clob' ∧
      active'.items = (if rest = [] then [] else (rest.getLastD id :: rest).dropLast) ∧
      clob.state.purgeOrder id = some (clob'.state, u) := by
  obtain ⟨active', hremove, -, hitems'⟩ := removeRandom_low hitems
  have harrives := h
  obtain ⟨script, n, hafter⟩ := h
  obtain ⟨m', hreturn⟩ := (hreturns _ n _ (hafter [.low]) calls).1 rfl
  obtain ⟨m₁, hstep₁, -⟩ := step_of_returns rfl hreturn
  have hcancel : clob.cancelOrder ⟨id, 0, 0, .cancel⟩ none =
      (clob.state.purgeOrder id).map fun result => (.ok (), clob.publish (Clob.cancelEvent id) result.1) := by
    rw [Clob.cancelOrder, hexists]
    show (clob.state.purgeOrder id).bind _ = _
    cases clob.state.purgeOrder id with
    | none => rfl
    | some result => rfl
  have hstep : ∀ later : List Draw, (⟨.cancelRequest :: calls, active, clob, [.low] ++ later⟩ :
      ScriptedGenerator).step none = (clob.state.purgeOrder id).map fun result =>
        ⟨calls, active', clob.publish (Clob.cancelEvent id) result.1, later⟩ := by
    intro later
    refine (step_cancel rfl (hremove later) hexists).trans ?_
    rw [hcancel, Option.map_map]
    rfl
  have hfirst := hstep₁.symm.trans (hstep [])
  obtain ⟨⟨state, u⟩, hpurge, -⟩ := Option.map_eq_some_iff.mp hfirst.symm
  rw [hpurge] at hstep
  exact ⟨active', _, u, harrives.step [.low] hstep, hitems', hpurge⟩

end Arrives

end MarketRequestGenerator

/-! ## Orders behind the stray one -/

section

variable [StdHash Price] [StdHash ID] {s s' s'' : BookState} {book : List Entry} {first stray i j : Nat}

/-- Both orders are alone in their levels. -/
structure StrayBook (s : BookState) (first stray : Nat) : Prop where
  wf : s.MapsWf
  free : s.orderPool.FreeExcept [first, stray]
  stray_lt : stray < maxConcurrentOrders
  first_eq : s.orderAt first = lastOrder
  stray_eq : s.orderAt stray = strayOrder
  slot : s.orderMap.find lastOrder.orderId = some first
  fresh : ∀ id, id ≠ lastOrder.orderId → id ≠ invalidOrderId → s.orderMap.find id = none
  low : s.priceLevels.find 650 = some ⟨first, first, 100⟩
  high : s.priceLevels.find 660 = some ⟨stray, stray, 10⟩
  bids : s.bids = {650}
  bbo : s.bbo = ⟨⟨650, 100⟩, ⟨660, 10⟩⟩

theorem strayBook_of_represents (h : s.Represents book) (hb : s.BestShown book)
    (horders : orders book = [lastOrder, strayOrder]) : ∃ first stray, StrayBook s first stray := by
  obtain ⟨e, rest, rfl, he, hrest⟩ := List.map_eq_cons_iff.mp horders
  obtain ⟨e', rest', rfl, he', hrest'⟩ := List.map_eq_cons_iff.mp hrest
  rw [List.map_eq_nil_iff.mp hrest'] at h hb
  obtain ⟨first, order⟩ := e
  obtain ⟨stray, order'⟩ := e'
  replace he : order = lastOrder := he
  replace he' : order' = strayOrder := he'
  subst he he'
  have hbid := hb .buy
  have hoffer := hb .sell
  have hbids : prices .buy [⟨first, lastOrder⟩, ⟨stray, strayOrder⟩] = {650} := rfl
  have hoffers : prices .sell [⟨first, lastOrder⟩, ⟨stray, strayOrder⟩] = {660} := rfl
  have hfirst : (⟨first, lastOrder⟩ : Entry) ∈ [⟨first, lastOrder⟩, (⟨stray, strayOrder⟩ : Entry)] :=
    List.mem_cons_self
  have hstray : (⟨stray, strayOrder⟩ : Entry) ∈ [(⟨first, lastOrder⟩ : Entry), ⟨stray, strayOrder⟩] :=
    List.mem_cons_of_mem _ List.mem_cons_self
  refine ⟨first, stray, ⟨h.levels.wf, h.orderMap_wf⟩, h.free, h.slots_lt _ hstray, h.stored _ hfirst,
    h.stored _ hstray, (h.orderMap_iff _ _).mpr ⟨_, hfirst, rfl, rfl⟩, ?_, ?_, ?_, ?_, ?_⟩
  · intro id hlast hinvalid
    refine Option.eq_none_iff_forall_ne_some.mpr fun i hi => ?_
    obtain ⟨e, he, hid, -⟩ := (h.orderMap_iff id i).mp hi
    rcases List.mem_cons.mp he with rfl | hrest
    · exact hlast hid.symm
    · rw [List.mem_singleton] at hrest
      subst hrest
      exact hinvalid hid.symm
  · rw [h.levels.find]
    rfl
  · rw [h.levels.find]
    rfl
  · rw [h.levels.bids, hbids]
  · obtain ⟨hmem, -, hquantity⟩ := hbid.ne_empty (by rw [hbids]; exact Finset.singleton_ne_empty _)
    obtain ⟨hmem', -, hquantity'⟩ := hoffer.ne_empty (by rw [hoffers]; exact Finset.singleton_ne_empty _)
    rw [hbids, Finset.mem_singleton] at hmem
    rw [hoffers, Finset.mem_singleton] at hmem'
    rw [hmem] at hquantity
    rw [hmem'] at hquantity'
    show (⟨⟨(s.bbo.best .buy).price, (s.bbo.best .buy).quantity⟩,
      ⟨(s.bbo.best .sell).price, (s.bbo.best .sell).quantity⟩⟩ : OrderSnapshot) = _
    rw [hmem, hmem', hquantity, hquantity']
    rfl

omit [StdHash ID] in
/-- A side whose cached price is that of the stray order's level shows it as the best order. -/
theorem bestOpposingOrder_stray {level : PriceLevel} (side : Side)
    (hprice : (s.bbo.best side.opposite).price = 660) (hlevel : s.priceLevels.find 660 = some level)
    (hlt : level.head < maxConcurrentOrders) (hstray : s.orderAt level.head = strayOrder) :
    ∃ best, s.bestOpposingOrder side = some best ∧ best.orderId = invalidOrderId := by
  have hhead : s.headOrder 660 = some strayOrder := by
    rw [BookState.headOrder, hlevel]
    show ((s.orderPool.get level.head).bind fun head => some head.order) = _
    rw [OrderPool.get_of_lt _ hlt]
    exact congrArg some hstray
  cases side with
  | buy =>
    replace hprice : s.bbo.bestOffer.price = 660 := hprice
    refine ⟨⟨invalidOrderId, 660, 10, .sell⟩, ?_, rfl⟩
    simp only [BookState.bestOpposingOrder, hprice, hhead]
    rfl
  | sell =>
    replace hprice : s.bbo.bestBid.price = 660 := hprice
    refine ⟨⟨invalidOrderId, 660, 10, .buy⟩, ?_, rfl⟩
    simp only [BookState.bestOpposingOrder, hprice, hhead]
    rfl

/-- The buy rests behind the stray order, and no bid is known at its price. -/
structure BuyBehind (s : BookState) (i : Nat) (total : Option UInt64) : Prop where
  wf : s.MapsWf
  slot : s.orderMap.find buyBehind.orderId = some i
  order : s.orderAt i = buyBehind
  low : (s.priceLevels.find 650).map PriceLevel.totalQuantity = total
  high : (s.priceLevels.find 660).map PriceLevel.totalQuantity = some 110
  bids : s.bids = {650}
  bestBid : s.bbo.bestBid = ⟨660, 100⟩

/-- An order leaves the other level. If it was the last one it was no bid. -/
theorem BuyBehind.leave {total : UInt64} (h : BuyBehind s i (some total)) {order : Order} {level : PriceLevel}
    (hlevel : s.priceLevels.find 650 = some level) (hprice : order.price = 650)
    (hid : order.orderId ≠ buyBehind.orderId)
    (hleft : s.Left order level s') (hside : total - order.quantity.toUInt64 = 0 → order.side = .sell) :
    BuyBehind s' i (if total - order.quantity.toUInt64 = 0 then none
      else some (total - order.quantity.toUInt64)) := by
  have htotal : level.totalQuantity = total := by
    have hlow := h.low
    rw [hlevel] at hlow
    exact Option.some.inj hlow
  have hbids : s'.bids = {650} ∧ (∀ p, p ≠ 650 → s'.priceLevels.find p = s.priceLevels.find p) ∧
      (s'.priceLevels.find 650).map PriceLevel.totalQuantity = (if total - order.quantity.toUInt64 = 0 then none
        else some (total - order.quantity.toUInt64)) := by
    by_cases hzero : total - order.quantity.toUInt64 = 0
    · obtain ⟨hfind, hbids, -⟩ := hleft.reduced.goes (by rw [htotal]; exact hzero)
      rw [hprice] at hfind
      refine ⟨?_, fun p hp => by rw [hfind, Function.update_of_ne hp], ?_⟩
      · rw [hbids, BookState.removeBidOrOffer, hside hzero]
        exact h.bids
      · rw [hfind, Function.update_self, if_pos hzero]
        rfl
    · obtain ⟨hbids, -, head, tail, hfind⟩ := hleft.reduced.stays (by rw [htotal]; exact hzero)
      rw [hprice, htotal] at hfind
      refine ⟨hbids.trans h.bids, fun p hp => by rw [hfind, Function.update_of_ne hp], ?_⟩
      rw [hfind, Function.update_self, if_neg hzero]
      rfl
  obtain ⟨hbids, hfind, hlow⟩ := hbids
  refine ⟨⟨hleft.reduced.wf, hleft.ids⟩, ?_, ?_, hlow, ?_, hbids, ?_⟩
  · rw [hleft.orderMap, Function.update_of_ne (Ne.symm hid)]
    exact h.slot
  · rw [hleft.orderAt]
    exact h.order
  · rw [hfind 660 (by decide)]
    exact h.high
  · obtain ⟨info, hbbo, haway, -⟩ := hleft.bbo
    rw [hbbo]
    cases horder : order.side with
    | buy =>
      rw [horder] at haway
      have hne : order.price ≠ (s.bbo.best .buy).price := by
        show order.price ≠ s.bbo.bestBid.price
        rw [hprice, h.bestBid]
        decide
      rw [haway hne]
      exact h.bestBid
    | sell => exact h.bestBid

/-- Then the first bid is looked up in a level that has gone. -/
theorem BuyBehind.purgeOrder_undefined (h : BuyBehind s i none) : s.purgeOrder buyBehind.orderId = none := by
  obtain ⟨level, hlevel, htotal⟩ := Option.map_eq_some_iff.mp h.high
  refine Option.eq_none_iff_forall_ne_some.mpr ?_
  rintro ⟨s', u⟩ hpurge
  have hleft := BookState.left_of_purgeOrder h.wf h.slot h.order hlevel hpurge
  obtain ⟨hbids, -, head, tail, hfind⟩ := hleft.reduced.stays (by rw [htotal]; decide)
  obtain ⟨info, -, -, hall⟩ := hleft.bbo
  have hfirst : s'.firstBid = some info := by
    refine hall ?_ ?_
    · show _ = s.bbo.bestBid.price
      rw [h.bestBid]
      rfl
    · show _ = s.bbo.bestBid.quantity
      rw [h.bestBid]
      rfl
  have hgone : s'.priceLevels.find 650 = none := by
    rw [hfind, Function.update_of_ne (by decide)]
    exact Option.map_eq_none_iff.mp h.low
  have hone : s'.bids = {650} := hbids.trans h.bids
  rw [BookState.firstBid, hone, if_neg (Finset.singleton_ne_empty _), Finset.max_singleton, WithBot.unbotD_coe,
    BookState.levelQuantity, hgone] at hfirst
  cases hfirst

/-- The sell rests in front of the buy in time, and both have orders of the other side before them. -/
theorem StrayBook.join (h : StrayBook s first stray)
    (hbuy : s.Joined buyBehind ⟨stray, stray, 10⟩ i s') (hi : i ∉ [first, stray])
    (hsell : s'.Joined sellBehind ⟨first, first, 100⟩ j s'') (hj : j ∉ [i, first, stray]) :
    BuyBehind s'' i (some 110) ∧ s''.orderMap.find lastOrder.orderId = some first ∧
      s''.orderAt first = lastOrder ∧ s''.orderMap.find sellBehind.orderId = some j ∧
      s''.orderAt j = sellBehind ∧ s''.priceLevels.find 650 = some ⟨first, j, 110⟩ := by
  have hslots : s''.orderMap.find =
      Function.update (Function.update s.orderMap.find buyBehind.orderId (some i)) sellBehind.orderId (some j) := by
    rw [hsell.orderMap, hbuy.orderMap]
  have horders : s''.orderAt = Function.update (Function.update s.orderAt i buyBehind) j sellBehind := by
    rw [hsell.orderAt, hbuy.orderAt]
  have hlevels : s''.priceLevels.find = Function.update (Function.update s.priceLevels.find 660
      (some ⟨stray, i, 110⟩)) 650 (some ⟨first, j, 110⟩) := by
    rw [hsell.priceLevels, hbuy.priceLevels]
    rfl
  have hbbo : s''.bbo = ⟨⟨660, 100⟩, ⟨650, 10⟩⟩ := by
    rw [hsell.bbo, hbuy.bbo, h.bbo]
    rfl
  have hfi : first ≠ i := fun heq => hi (heq ▸ List.mem_cons_self)
  have hfj : first ≠ j := fun heq => hj (heq ▸ List.mem_cons_of_mem _ List.mem_cons_self)
  have hij : i ≠ j := fun heq => hj (heq ▸ List.mem_cons_self)
  have hlow : s''.priceLevels.find 650 = some ⟨first, j, 110⟩ := by rw [hlevels, Function.update_self]
  refine ⟨⟨hsell.wf, ?_, ?_, ?_, ?_, ?_, ?_⟩, ?_, ?_, ?_, ?_, hlow⟩
  · rw [hslots, Function.update_of_ne (by decide), Function.update_self]
  · rw [horders, Function.update_of_ne hij, Function.update_self]
  · rw [hlow]
    rfl
  · rw [hlevels, Function.update_of_ne (by decide), Function.update_self]
    rfl
  · rw [hsell.bids, hbuy.bids, h.bids]
  · rw [hbbo]
  · rw [hslots, Function.update_of_ne (by decide), Function.update_of_ne (by decide), h.slot]
  · rw [horders, Function.update_of_ne hfj, Function.update_of_ne hfi, h.first_eq]
  · rw [hslots, Function.update_self]
  · rw [horders, Function.update_self]

end

namespace MarketRequestGenerator

variable [StdHash Price] [StdHash ID]

/-- In a run in which all calls return the buy comes to rest behind the stray order. -/
theorem exists_buyJoined (hreturns : ∀ draws n m, after draws none n = some m → CallReturns m) :
    ∃ active clob s i first stray, Arrives [.start] active clob ∧
      active.items = [lastOrder.orderId, buyBehind.orderId] ∧ clob.nextOrderId = 2 ∧ StrayBook s first stray ∧
      i ∉ [first, stray] ∧ clob.state.orderPool.FreeExcept [i, first, stray] ∧
      s.Joined buyBehind ⟨stray, stray, 10⟩ i clob.state := by
  obtain ⟨active, clob, book, harrives, hnext, hitems, hrep, hshown, horders⟩ := Stocked.exists_stray
  obtain ⟨first, stray, hbook⟩ := strayBook_of_represents hrep hshown horders
  have hroom : active.size < maxActiveOrders := by
    rw [RandomContainer.size, hitems]
    decide
  -- It meets the stray order at the best offer.
  obtain ⟨best, hopp, hstray⟩ :=
    bestOpposingOrder_stray .buy (by rw [hbook.bbo]; rfl) hbook.high hbook.stray_lt hbook.stray_eq
  have hrequest : ∀ later : List Draw, (⟨.postNewOrder .buy :: [.start], active, clob, [.low, .low, .low] ++ later⟩ :
      ScriptedGenerator).newRequest .buy = (⟨0, 660, 100, .buy⟩, later) := by
    intro later
    refine (newRequest_aggressive .low .low later .buy).trans ?_
    rw [BookState.snapshot, hbook.bbo]
    rfl
  obtain ⟨active', clob', u, harrives', hitems', hnext', hadd⟩ :=
    (harrives.step [.middle] fun later => step_start .middle later).joins hreturns hroom [.low, .low, .low] hrequest
      (by rintro ⟨⟩) hopp hstray (by rw [hnext]; decide)
  rw [hitems, hnext] at hitems'
  rw [hnext] at hnext' hadd
  obtain ⟨i, -, hi, hfree, hjoined⟩ := BookState.joined_of_add hbook.wf hbook.high
    (hbook.fresh _ (by decide) (by decide)) hbook.free (show 2 < maxConcurrentOrders by decide)
    (show clob.state.add ⟨buyBehind, .add⟩ = some (clob'.state, u) from hadd)
  exact ⟨active', clob', clob.state, i, first, stray, harrives', hitems', hnext', hbook, hi, hfree, hjoined⟩

/-- The sell meets it at the best bid then, and comes to rest as well. -/
theorem exists_buyBehind (hreturns : ∀ draws n m, after draws none n = some m → CallReturns m) :
    ∃ active clob i j first, Arrives [.start] active clob ∧
      active.items = [lastOrder.orderId, buyBehind.orderId, sellBehind.orderId] ∧
      BuyBehind clob.state i (some 110) ∧ clob.state.orderMap.find lastOrder.orderId = some first ∧
      clob.state.orderAt first = lastOrder ∧ clob.state.orderMap.find sellBehind.orderId = some j ∧
      clob.state.orderAt j = sellBehind ∧ clob.state.priceLevels.find 650 = some ⟨first, j, 110⟩ := by
  obtain ⟨active, clob, s, i, first, stray, harrives, hitems, hnext, hbook, hi, hfree, hjoined⟩ :=
    exists_buyJoined hreturns
  have hroom : active.size < maxActiveOrders := by
    rw [RandomContainer.size, hitems]
    decide
  have horder : clob.state.orderAt stray = strayOrder := by
    have hne : stray ≠ i := fun heq => hi (heq ▸ List.mem_cons_of_mem _ List.mem_cons_self)
    rw [hjoined.orderAt, Function.update_of_ne hne, hbook.stray_eq]
  have hhigh : clob.state.priceLevels.find 660 = some ⟨stray, i, 110⟩ := by
    rw [hjoined.priceLevels]
    exact Function.update_self _ _ _
  have hlow : clob.state.priceLevels.find sellBehind.price = some ⟨first, first, 100⟩ := by
    rw [hjoined.priceLevels, Function.update_of_ne (by decide)]
    exact hbook.low
  have hfresh : clob.state.orderMap.find sellBehind.orderId = none := by
    rw [hjoined.orderMap, Function.update_of_ne (by decide)]
    exact hbook.fresh _ (by decide) (by decide)
  have hbbo : clob.state.bbo = ⟨⟨660, 100⟩, ⟨660, 10⟩⟩ := by
    rw [hjoined.bbo, hbook.bbo]
    rfl
  obtain ⟨best, hopp, hstray⟩ := bestOpposingOrder_stray .sell (by rw [hbbo]; rfl) hhigh hbook.stray_lt horder
  have hrequest : ∀ later : List Draw, (⟨.postNewOrder .sell :: [.start], active, clob,
      [.high, .low, .low] ++ later⟩ : ScriptedGenerator).newRequest .sell = (⟨0, 650, 10, .sell⟩, later) := by
    intro later
    refine (newRequest_passive .low .low later .sell).trans ?_
    rw [BookState.snapshot, hbbo]
    rfl
  obtain ⟨active', clob', u, harrives', hitems', -, hadd⟩ :=
    (harrives.step [.high] fun later => step_start .high later).joins hreturns hroom [.high, .low, .low] hrequest
      (by rintro ⟨⟩) hopp hstray (by rw [hnext]; decide)
  rw [hitems, hnext] at hitems'
  rw [hnext] at hadd
  obtain ⟨j, -, hj, -, hjoined'⟩ := BookState.joined_of_add hjoined.wf hlow hfresh hfree
    (show 3 < maxConcurrentOrders by decide)
    (show clob.state.add ⟨sellBehind, .add⟩ = some (clob'.state, u) from hadd)
  exact ⟨active', clob', i, j, first, harrives', hitems', hbook.join hjoined hi hjoined' hj⟩

/-- A cancel finds the book in a state where it has no defined effect. -/
theorem not_calls_return : ¬ ∀ draws n m, after draws none n = some m → CallReturns m := by
  intro hreturns
  obtain ⟨active, clob, i, j, first, harrives, hitems, hbuy, hlast, hfirst, hslot, horder, hlevel⟩ :=
    exists_buyBehind hreturns
  have hexists : ∀ {s : BookState} {id : ID} {i : Nat}, s.orderMap.find id = some i → s.orderExists id = true := by
    intro s id i hfind
    rw [BookState.orderExists, hfind]
    rfl
  have hcancelling : ∀ {active : RandomContainer ID maxActiveOrders} {clob : Clob}, Arrives [.start] active clob →
      Arrives [.cancelRequest, .start] active clob :=
    fun h => h.step [.low] fun later => step_start .low later
  -- The order that rested alone leaves the level of the sell.
  obtain ⟨active₁, clob₁, u₁, harrives₁, hitems₁, hpurge₁⟩ :=
    (hcancelling harrives).leaves hreturns hitems (hexists hlast)
  replace hitems₁ : active₁.items = [sellBehind.orderId, buyBehind.orderId] := hitems₁
  have hleft₁ := BookState.left_of_purgeOrder hbuy.wf hlast hfirst hlevel hpurge₁
  have hbuy₁ : BuyBehind clob₁.state i (some 10) :=
    hbuy.leave hlevel rfl (by decide) hleft₁ fun hzero => absurd hzero (by decide)
  have hslot₁ : clob₁.state.orderMap.find sellBehind.orderId = some j := by
    rw [hleft₁.orderMap, Function.update_of_ne (by decide)]
    exact hslot
  have horder₁ : clob₁.state.orderAt j = sellBehind := by
    rw [hleft₁.orderAt]
    exact horder
  obtain ⟨level₁, hlevel₁, -⟩ := Option.map_eq_some_iff.mp hbuy₁.low
  -- The sell leaves, and its level goes, but it does not go from the bids.
  obtain ⟨active₂, clob₂, u₂, harrives₂, hitems₂, hpurge₂⟩ :=
    (hcancelling harrives₁).leaves hreturns hitems₁ (hexists hslot₁)
  replace hitems₂ : active₂.items = [buyBehind.orderId] := hitems₂
  have hleft₂ := BookState.left_of_purgeOrder hbuy₁.wf hslot₁ horder₁ hlevel₁ hpurge₂
  have hbuy₂ : BuyBehind clob₂.state i none := hbuy₁.leave hlevel₁ rfl (by decide) hleft₂ fun _ => rfl
  -- The buy cannot leave.
  obtain ⟨active₃, clob₃, u₃, -, -, hpurge₃⟩ :=
    (hcancelling harrives₂).leaves hreturns hitems₂ (hexists hbuy₂.slot)
  rw [hbuy₂.purgeOrder_undefined] at hpurge₃
  cases hpurge₃

end MarketRequestGenerator

section

attribute [local instance] priceHash idHash

/-- Once the id counter has come round, the calls do not return in every run. -/
theorem calls_end_undefined :
    ¬ ∀ (source : RandomSource) (generator : source.State) (n : Nat) (m : MarketRequestGenerator source),
      MarketRequestGenerator.after generator none n = some m → ∀ below,
        (m.calls = .populateActiveOrders :: below → ∃ m', m.Returns below m' ∧
          populateWhenEmpty ≤ m'.activeOrderIds.size ∧ m'.SomeRests) ∧
        (m.calls = .cancelRequest :: below → ∃ m', m.Returns below m' ∧ m.clob.CancelsOne m'.clob) ∧
        (m.calls = .purgeActiveOrders :: below → ∃ m', m.Returns below m') ∧
        ∀ side, m.calls = .newOrderRequest side :: below → ∃ m', m.Returns below m' := by
  intro h
  refine MarketRequestGenerator.not_calls_return ?_
  intro draws n m hm below
  obtain ⟨-, hcancel, -, hrequest⟩ := h scriptedSource draws n m hm below
  exact ⟨fun hcalls => (hcancel hcalls).imp fun _ => And.left, hrequest⟩

end

end HftPipeline
