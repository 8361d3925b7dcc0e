import HftPipeline.Capacity

/-!
# Runs with scripted draws

A source whose draws are written down beforehand, and runs that any script may follow. One of
them brings any number of orders to rest while a single one is not cancelled.
-/
namespace HftPipeline

open RestingBook

/-! ## Scripted draws -/

/-- A draw at one of the ends of its range, or a real number between. -/
inductive Draw where
  | low | middle | high
  deriving DecidableEq, Repr

namespace Draw

def real : Draw → ℚ
  | .low => 0
  | .middle => 9 / 20
  | .high => 9 / 10

def pick {α : Type} (draw : Draw) (low high : α) : α := if draw = .high then high else low

/-- The request that the loop of the generator makes of a draw. -/
def request : Draw → GeneratorCall
  | .low => .cancelRequest
  | .middle => .newOrderRequest .buy
  | .high => .newOrderRequest .sell

end Draw

/-- The draws of a list, and the lowest ones behind its end. -/
def scriptedSource : RandomSource where
  State := List Draw
  real draws := ((draws.headD .low).real, draws.tail)
  uniform low high draws := ((draws.headD .low).pick low high, draws.tail)
  real_mem draws := by cases draws.headD .low <;> norm_num [Draw.real]
  uniform_mem low high draws h := by
    rw [Draw.pick]
    split
    · exact ⟨h, le_refl _⟩
    · exact ⟨le_refl _, h⟩

abbrev ScriptedGenerator := MarketRequestGenerator scriptedSource

namespace MarketRequestGenerator

variable [StdHash Price] [StdHash ID] {calls calls' : List GeneratorCall}
  {active active' : RandomContainer ID maxActiveOrders} {clob clob' : Clob}

omit [StdHash Price] [StdHash ID] in
theorem generateOrderRequest_scripted (price quantity : Draw) (later : List Draw) (side : Side)
    (aggressive : Bool) (low high : Quantity) :
    (⟨calls, active, clob, price :: quantity :: later⟩ : ScriptedGenerator).generateOrderRequest side aggressive
        low high =
      (⟨0, price.pick (priceRange clob.state.snapshot side aggressive).1
        (priceRange clob.state.snapshot side aggressive).2, quantity.pick low high, side.requestType⟩, later) := by
  have hprice : ∀ l h : Price, Int32.ofInt (price.pick l.toInt h.toInt) = price.pick l h := by
    intro l h
    rw [Draw.pick, Draw.pick]
    split <;> exact Int32.ofInt_toInt _
  have hquantity : UInt32.ofNat (quantity.pick (low.toNat : Int) (high.toNat : Int)).toNat =
      quantity.pick low high := by
    rw [Draw.pick, Draw.pick]
    split <;> exact UInt32.ofNat_toNat
  rw [← hprice, ← hquantity]
  rfl

section

omit [StdHash Price] [StdHash ID]

theorem newRequest_aggressive (price quantity : Draw) (later : List Draw) (side : Side) :
    (⟨calls, active, clob, .low :: price :: quantity :: later⟩ : ScriptedGenerator).newRequest side =
      (⟨0, price.pick (priceRange clob.state.snapshot side true).1 (priceRange clob.state.snapshot side true).2,
        quantity.pick minLargeQuantity maxLargeQuantity, side.requestType⟩, later) := by
  have haggressive : (0 : ℚ) < aggressiveOrderProbability := by norm_num [aggressiveOrderProbability]
  exact (if_pos haggressive).trans (generateOrderRequest_scripted price quantity later side true _ _)

theorem newRequest_passive (price quantity : Draw) (later : List Draw) (side : Side) :
    (⟨calls, active, clob, .high :: price :: quantity :: later⟩ : ScriptedGenerator).newRequest side =
      (⟨0, price.pick (priceRange clob.state.snapshot side false).1 (priceRange clob.state.snapshot side false).2,
        quantity.pick minQuantity maxQuantity, side.requestType⟩, later) := by
  have hpassive : ¬ (9 / 10 : ℚ) < aggressiveOrderProbability := by norm_num [aggressiveOrderProbability]
  exact (if_neg hpassive).trans (generateOrderRequest_scripted price quantity later side false _ _)

end

theorem step_start (draw : Draw) (later : List Draw) :
    (⟨.start :: calls, active, clob, draw :: later⟩ : ScriptedGenerator).step none =
      some ⟨draw.request :: .start :: calls, active, clob, later⟩ := by
  cases draw with
  | low =>
    have hcancel : (0 : ℚ) < cancelProbability := by norm_num [cancelProbability]
    exact congrArg some (if_pos hcancel)
  | middle =>
    have hkeep : ¬ (9 / 20 : ℚ) < cancelProbability := by norm_num [cancelProbability]
    have hbuy : (9 / 20 : ℚ) < cancelOrBuyProbability := by norm_num [cancelOrBuyProbability]
    exact congrArg some ((if_neg hkeep).trans (if_pos hbuy))
  | high =>
    have hkeep : ¬ (9 / 10 : ℚ) < cancelProbability := by norm_num [cancelProbability]
    have hsell : ¬ (9 / 10 : ℚ) < cancelOrBuyProbability := by norm_num [cancelOrBuyProbability]
    exact congrArg some ((if_neg hkeep).trans (if_neg hsell))

theorem step_populate (hfew : active.size < populateWhenEmpty) (later : List Draw) :
    (⟨.populateActiveOrders :: calls, active, clob, .low :: later⟩ : ScriptedGenerator).step none =
      some ⟨.newOrderRequest .buy :: .populateActiveOrders :: calls, active, clob, later⟩ := by
  have hbuy : (0 : ℚ) < normalizedBuySellProbability := by norm_num [normalizedBuySellProbability]
  show some (populateActiveOrders (⟨calls, active, clob, .low :: later⟩ : ScriptedGenerator) none) = _
  rw [populateActiveOrders]
  simp only [StopToken.stopRequested, Bool.not_false, Bool.true_and, decide_eq_true_eq, hfew, if_true]
  show some (⟨.newOrderRequest (if (0 : ℚ) < normalizedBuySellProbability then .buy else .sell) ::
    .populateActiveOrders :: calls, active, clob, later⟩ : ScriptedGenerator) = _
  rw [if_pos hbuy]

theorem step_populated (henough : ¬ active.size < populateWhenEmpty) (later : List Draw) :
    (⟨.populateActiveOrders :: calls, active, clob, later⟩ : ScriptedGenerator).step none =
      some ⟨calls, active, clob, later⟩ := by
  show some (populateActiveOrders (⟨calls, active, clob, later⟩ : ScriptedGenerator) none) = _
  rw [populateActiveOrders]
  simp only [StopToken.stopRequested, Bool.not_false, Bool.true_and, decide_eq_true_eq, henough, if_false]

theorem step_request (hroom : active.size < maxActiveOrders) (side : Side) (later : List Draw) :
    (⟨.newOrderRequest side :: calls, active, clob, later⟩ : ScriptedGenerator).step none =
      some ⟨.postNewOrder side :: calls, active, clob, later⟩ := by
  have hfull : ¬ active.isFull = true := fun hfull => Nat.ne_of_lt hroom (of_decide_eq_true hfull)
  show some (generateAndPostNewOrderRequest (⟨calls, active, clob, later⟩ : ScriptedGenerator) side) = _
  rw [generateAndPostNewOrderRequest, if_neg hfull]

theorem step_placed {side : Side} {draws later : List Draw} {request : OrderRequest} {id : ID}
    (hrequest : (⟨.postNewOrder side :: calls, active, clob, draws⟩ : ScriptedGenerator).newRequest side =
      (request, later))
    (hplace : Clob.placeOrder (request.quantity.toNat + 1) side clob request none = some (id, clob')) :
    (⟨.postNewOrder side :: calls, active, clob, draws⟩ : ScriptedGenerator).step none =
      some ⟨calls, Tracks.keep active id, clob', later⟩ := by
  have hsubmit : (⟨.postNewOrder side :: calls, active, clob, draws⟩ : ScriptedGenerator).submitNewRequest side
      none = some (.ok id, clob') := by
    rw [submitNewRequest_eq, hrequest, hplace]
    rfl
  rw [step_post rfl hsubmit, hrequest]

omit [StdHash Price] [StdHash ID] in
/-- The lowest draw takes the first id out, and the last one takes its place. -/
theorem removeRandom_low {id : ID} {rest : List ID} (hitems : active.items = id :: rest) :
    ∃ active' : RandomContainer ID maxActiveOrders,
      (∀ later : List Draw, (active.removeRandom (.low :: later : List Draw) :
        Option (ID × RandomContainer ID maxActiveOrders × scriptedSource.State)) = some (id, active', later)) ∧
      (id :: active'.items).Perm active.items ∧
      active'.items = (if rest = [] then [] else (rest.getLastD id :: rest).dropLast) := by
  have hlast : active.items.getLast? = some (rest.getLastD id) := by
    rw [hitems, List.getLast?_cons, List.getLastD_eq_getLast?]
  have hfirst : active.items[0]? = some id := by rw [hitems, List.getElem?_cons_zero]
  refine ⟨active.removeAt 0 (rest.getLastD id), fun later => ?_, RandomContainer.removeAt_perm hfirst hlast, ?_⟩
  · show (active.items.getLast?).bind (fun last => (active.items[(0 : Int).toNat]?).bind fun item =>
      some (item, active.removeAt (0 : Int).toNat last, later)) = _
    rw [hlast, Int.toNat_zero, Option.bind_some, hfirst]
    rfl
  · show (if 0 ≠ active.items.length - 1 then active.items.set 0 (rest.getLastD id) else active.items).dropLast = _
    rw [hitems]
    cases rest with
    | nil => rfl
    | cons next rest => rfl

/-! ## Runs with scripted draws -/

/-- A script leads here, whatever is drawn later. -/
def Arrives (calls : List GeneratorCall) (active : RandomContainer ID maxActiveOrders) (clob : Clob) : Prop :=
  ∃ (script : List Draw) (n : Nat), ∀ later : List Draw,
    after (script ++ later : List Draw) none n = some (⟨calls, active, clob, later⟩ : ScriptedGenerator)

theorem Arrives.step (h : Arrives calls active clob) (draws : List Draw)
    (hstep : ∀ later : List Draw, (⟨calls, active, clob, draws ++ later⟩ : ScriptedGenerator).step none =
      some ⟨calls', active', clob', later⟩) : Arrives calls' active' clob' := by
  obtain ⟨script, n, hafter⟩ := h
  refine ⟨script ++ draws, n + 1, fun later => ?_⟩
  show (after (script ++ draws ++ later : List Draw) none n : Option ScriptedGenerator).bind (fun m => m.step none) = _
  rw [List.append_assoc, hafter]
  exact hstep later

/-- A script leads here, and fewer than 2^64 orders have come to rest on the way. -/
def Reaches (calls : List GeneratorCall) (active : RandomContainer ID maxActiveOrders) (clob : Clob) : Prop :=
  ∃ (script : List Draw) (n : Nat), ∀ later : List Draw,
    after (script ++ later : List Draw) none n = some (⟨calls, active, clob, later⟩ : ScriptedGenerator) ∧
      ∀ i ≤ n, ∀ m : ScriptedGenerator, after (script ++ later : List Draw) none i = some m → m.clob.rested < 2 ^ 64

theorem Reaches.arrives (h : Reaches calls active clob) : Arrives calls active clob := by
  obtain ⟨script, n, hafter⟩ := h
  exact ⟨script, n, fun later => (hafter later).1⟩

theorem reaches_new : Reaches [.populateActiveOrders, .start] .empty .init := by
  refine ⟨[], 0, fun later => ⟨rfl, ?_⟩⟩
  intro i hi m hm
  rw [Nat.le_zero.mp hi] at hm
  cases hm
  exact (Nat.two_pow_pos 64)

theorem Reaches.step (h : Reaches calls active clob) (draws : List Draw)
    (hstep : ∀ later : List Draw, (⟨calls, active, clob, draws ++ later⟩ : ScriptedGenerator).step none =
      some ⟨calls', active', clob', later⟩) (hfew : clob'.rested < 2 ^ 64) : Reaches calls' active' clob' := by
  obtain ⟨script, n, hafter⟩ := h
  refine ⟨script ++ draws, n + 1, fun later => ?_⟩
  have hbefore := hafter (draws ++ later)
  have hlast : (after (script ++ (draws ++ later) : List Draw) none (n + 1) : Option ScriptedGenerator) =
      some ⟨calls', active', clob', later⟩ := by
    show (after (script ++ (draws ++ later) : List Draw) none n : Option ScriptedGenerator).bind _ = _
    rw [hbefore.1]
    exact hstep later
  rw [List.append_assoc]
  refine ⟨hlast, ?_⟩
  intro i hi m hm
  rcases Nat.lt_or_eq_of_le hi with hless | rfl
  · exact hbefore.2 i (Nat.le_of_lt_succ hless) m hm
  · rw [hlast] at hm
    cases hm
    exact hfew

/-- Only large buys at the best default price rest, and all that the generator knows. -/
structure Stocked (calls : List GeneratorCall) (active : RandomContainer ID maxActiveOrders) (clob : Clob) :
    Prop where
  reaches : Reaches calls active clob
  sound : (⟨calls, active, clob, []⟩ : ScriptedGenerator).Sound
  buys : ∀ o ∈ clob.resting, o.side = .buy ∧ o.price = 650 ∧ o.quantity = 100
  rests : ∀ id ∈ active.items, id ∈ clob.resting.map Order.orderId

/-- Soundness does not look at the draws. -/
theorem Sound.withDraws {draws : List Draw} (h : (⟨calls, active, clob, draws⟩ : ScriptedGenerator).Sound)
    (later : List Draw) : (⟨calls, active, clob, later⟩ : ScriptedGenerator).Sound :=
  ⟨h.tracks, h.nested, h.room⟩

theorem Sound.of_step {draws later : List Draw} (h : (⟨calls, active, clob, draws⟩ : ScriptedGenerator).Sound)
    (hstep : (⟨calls, active, clob, draws⟩ : ScriptedGenerator).step none = some ⟨calls', active', clob', later⟩)
    (hfew : clob'.rested < 2 ^ 64) : (⟨calls', active', clob', later⟩ : ScriptedGenerator).Sound := by
  obtain ⟨m, hm, -, -, hsound⟩ := h.step none
  rw [hstep, Option.some.injEq] at hm
  rw [← hm] at hsound
  exact hsound rfl hfew

namespace Stocked

theorem arrives (h : Stocked calls active clob) : Arrives calls active clob := h.reaches.arrives

/-- A step that leaves the book alone. -/
theorem move (h : Stocked calls active clob) (draws : List Draw)
    (hstep : ∀ later : List Draw, (⟨calls, active, clob, draws ++ later⟩ : ScriptedGenerator).step none =
      some ⟨calls', active, clob, later⟩) : Stocked calls' active clob where
  reaches := h.reaches.step draws hstep h.sound.tracks.few
  sound := ((h.sound.withDraws _).of_step (hstep []) h.sound.tracks.few)
  buys := h.buys
  rests := h.rests

theorem new : Stocked [.populateActiveOrders, .start] .empty .init :=
  ⟨reaches_new, @new_sound _ _ scriptedSource [], nofun, nofun⟩

theorem noOffer (h : Stocked calls active clob) : clob.state.bbo.bestOffer.price = noOffer := by
  obtain ⟨book, hholds⟩ := h.sound.tracks.holds
  have hnone : prices .sell book = ∅ := by
    rw [Finset.eq_empty_iff_forall_notMem]
    intro p hp
    obtain ⟨e, he, hside, -⟩ := mem_prices.mp hp
    have ho : e.order ∈ clob.resting := hholds.orders_eq ▸ mem_orders.mpr ⟨e, he, rfl⟩
    rw [(h.buys _ ho).1] at hside
    cases hside
  have hbest := hholds.best .sell
  rw [IsBest, if_pos hnone] at hbest
  exact congrArg BestOrderInfo.price hbest

/-- A large buy comes to rest at the best default price. -/
theorem post (h : Stocked (.newOrderRequest .buy :: calls) active clob) (hroom : active.size < maxActiveOrders)
    (hfew : clob.rested + 1 < 2 ^ 64) :
    ∃ active' clob', Stocked calls active' clob' ∧ clob'.rested = clob.rested + 1 ∧
      active'.items = active.items ++ [clob.nextOrderId] := by
  have hposting := h.move [] fun later => step_request hroom .buy later
  have htracks := h.sound.tracks
  obtain ⟨book, hholds⟩ := htracks.holds
  have hrequest : ∀ later : List Draw,
      (⟨.postNewOrder .buy :: calls, active, clob, [.low, .low, .low] ++ later⟩ : ScriptedGenerator).newRequest .buy =
        (⟨0, 650, 100, .buy⟩, later) := by
    intro later
    have hrange : (priceRange clob.state.snapshot .buy true).1 = 650 := by
      simp only [priceRange, BookState.snapshot, h.noOffer, if_true]
      rfl
    refine (newRequest_aggressive .low .low later .buy).trans ?_
    rw [Draw.pick, if_neg (by rintro ⟨⟩), hrange]
    rfl
  obtain ⟨clob', hplace, -, hextends, -⟩ := hholds.placeOrder_alone htracks.inside 100 .buy ⟨0, 650, 100, .buy⟩
    (by rintro ⟨⟩) (fun o ho hside => by rw [(h.buys o ho).1] at hside; cases hside) htracks.next_not_resting
    htracks.resting_lt
  have hstep : ∀ later : List Draw, (⟨.postNewOrder .buy :: calls, active, clob, [.low, .low, .low] ++ later⟩ :
      ScriptedGenerator).step none = some ⟨calls, Tracks.keep active clob.nextOrderId, clob', later⟩ :=
    fun later => step_placed (hrequest later) hplace
  have hresting : clob'.resting = clob.resting ++ [⟨clob.nextOrderId, 650, 100, .buy⟩] := hextends.resting
  have hrested : clob'.rested = clob.rested + 1 := Clob.rested_extends hextends
  have hsound := (hposting.sound.withDraws _).of_step (hstep []) (by rw [hrested]; exact hfew)
  have hreal : clob.nextOrderId ≠ invalidOrderId := by
    have hmem : (⟨clob.nextOrderId, 650, 100, .buy⟩ : Order) ∈ clob'.resting := by
      rw [hresting]
      exact List.mem_append_right _ (List.mem_singleton_self _)
    exact (hsound.tracks.known _ (hsound.tracks.tracked _ hmem)).1
  have hitems : (Tracks.keep active clob.nextOrderId).items = active.items ++ [clob.nextOrderId] := by
    rw [Tracks.keep, if_pos hreal]
    exact (RandomContainer.add_of_lt hroom _).2
  have hreaches := hposting.reaches.step _ hstep (by rw [hrested]; exact hfew)
  refine ⟨Tracks.keep active clob.nextOrderId, clob', ⟨hreaches, hsound, ?_, ?_⟩, hrested, hitems⟩
  · intro o ho
    rw [hresting, List.mem_append, List.mem_singleton] at ho
    rcases ho with hold | rfl
    · exact h.buys o hold
    · exact ⟨rfl, rfl, rfl⟩
  · intro id hid
    rw [hitems] at hid
    rw [hresting, List.map_append]
    rcases List.mem_append.mp hid with hold | hlast
    · exact List.mem_append_left _ (h.rests id hold)
    · exact List.mem_append_right _ hlast

/-- The first order that is known is cancelled. -/
theorem cancel_step (h : Stocked (.cancelRequest :: calls) active clob) {id : ID} {rest : List ID}
    (hitems : active.items = id :: rest) :
    ∃ active' clob', (∀ later : List Draw, (⟨.cancelRequest :: calls, active, clob, [.low] ++ later⟩ :
        ScriptedGenerator).step none = some ⟨calls, active', clob', later⟩) ∧
      Stocked calls active' clob' ∧ clob'.rested = clob.rested ∧
      active'.items = if rest = [] then [] else (rest.getLastD id :: rest).dropLast := by
  have htracks := h.sound.tracks
  obtain ⟨active', hremove, hperm, hitems'⟩ := removeRandom_low hitems
  have hid : id ∈ clob.resting.map Order.orderId := h.rests id (by rw [hitems]; exact List.mem_cons_self)
  have hexists : clob.state.orderExists id = true := (htracks.exists_iff id).mpr hid
  obtain ⟨clob', hcancel, -, -, hcancelled⟩ := htracks.cancelled none hperm hid
  obtain ⟨-, hrested, hresting⟩ := hcancelled rfl
  have hstep : ∀ later : List Draw, (⟨.cancelRequest :: calls, active, clob, [.low] ++ later⟩ :
      ScriptedGenerator).step none = some ⟨calls, active', clob', later⟩ := by
    intro later
    refine (step_cancel rfl (hremove later) hexists).trans ?_
    rw [hcancel]
    rfl
  have hsound := (h.sound.withDraws _).of_step (hstep []) (by rw [hrested]; exact htracks.few)
  refine ⟨active', clob', hstep, ⟨h.reaches.step _ hstep (by rw [hrested]; exact htracks.few), hsound, ?_, ?_⟩,
    hrested, hitems'⟩
  · intro o ho
    rw [hresting] at ho
    exact h.buys o (List.mem_filter.mp ho).1
  · intro id' hid'
    have hne : id' ≠ id := by
      intro heq
      have hnodup := hperm.nodup_iff.mpr htracks.nodup
      exact (List.nodup_cons.mp hnodup).1 (heq ▸ hid')
    obtain ⟨o, ho, heq⟩ := List.mem_map.mp (h.rests id' (hperm.mem_iff.mp (List.mem_cons_of_mem _ hid')))
    refine List.mem_map.mpr ⟨o, ?_, heq⟩
    rw [hresting, List.mem_filter, heq]
    exact ⟨ho, decide_eq_true hne⟩

theorem cancel (h : Stocked (.cancelRequest :: calls) active clob) {id : ID} {rest : List ID}
    (hitems : active.items = id :: rest) :
    ∃ active' clob', Stocked calls active' clob' ∧ clob'.rested = clob.rested ∧
      active'.items = if rest = [] then [] else (rest.getLastD id :: rest).dropLast := by
  obtain ⟨active', clob', -, hcancelled⟩ := h.cancel_step hitems
  exact ⟨active', clob', hcancelled⟩

/-- As many orders rest as the call that populates asks for. -/
theorem exists_populated (k : Nat) (hk : k ≤ populateWhenEmpty) :
    ∃ active clob, Stocked [.populateActiveOrders, .start] active clob ∧ clob.rested = k ∧ active.size = k := by
  induction k with
  | zero => exact ⟨_, _, new, rfl, rfl⟩
  | succ k ih =>
    obtain ⟨active, clob, h, hrested, hsize⟩ := ih (Nat.le_of_succ_le hk)
    have hmost : populateWhenEmpty < maxActiveOrders := by decide
    have hlast : populateWhenEmpty < 2 ^ 64 := by decide
    obtain ⟨active', clob', h', hrested', hitems'⟩ :=
      (h.move [.low] fun later => step_populate (by omega) later).post (by omega) (by omega)
    refine ⟨active', clob', h', by omega, ?_⟩
    rw [RandomContainer.size, hitems', List.length_append, List.length_singleton]
    exact congrArg Nat.succ hsize

omit [StdHash Price] [StdHash ID] in
theorem size_cancelled {id : ID} {rest : List ID} :
    (if rest = [] then [] else (rest.getLastD id :: rest).dropLast).length = rest.length := by
  split
  · next hnil => rw [hnil]
  · rw [List.length_dropLast, List.length_cons, Nat.add_sub_cancel]

/-- Then they are cancelled but for one. -/
theorem exists_drained (k : Nat) (hk : k < populateWhenEmpty) :
    ∃ active clob, Stocked [.start] active clob ∧ clob.rested = populateWhenEmpty ∧
      active.size = populateWhenEmpty - k := by
  induction k with
  | zero =>
    obtain ⟨active, clob, h, hrested, hsize⟩ := exists_populated populateWhenEmpty (Nat.le_refl _)
    exact ⟨active, clob, h.move [] fun later => step_populated (by omega) later, hrested, hsize⟩
  | succ k ih =>
    obtain ⟨active, clob, h, hrested, hsize⟩ := ih (Nat.lt_of_succ_lt hk)
    obtain ⟨id, rest, hitems⟩ : ∃ id rest, active.items = id :: rest := by
      refine List.exists_cons_of_ne_nil fun hnil => ?_
      rw [RandomContainer.size, hnil, List.length_nil] at hsize
      omega
    obtain ⟨active', clob', h', hrested', hitems'⟩ :=
      (h.move [.low] fun later => step_start .low later).cancel hitems
    refine ⟨active', clob', h', hrested'.trans hrested, ?_⟩
    rw [RandomContainer.size, hitems, List.length_cons] at hsize
    rw [RandomContainer.size, hitems', size_cancelled]
    omega

/-- One order comes to rest and the other that rests is cancelled. -/
theorem turn (h : Stocked [.start] active clob) (hsize : active.size = 1) (hfew : clob.rested + 1 < 2 ^ 64) :
    ∃ active' clob', Stocked [.start] active' clob' ∧ clob'.rested = clob.rested + 1 ∧
      active'.items = [clob.nextOrderId] := by
  obtain ⟨id, hid⟩ := List.length_eq_one_iff.mp hsize
  have hmost : 2 < maxActiveOrders := by decide
  obtain ⟨active₁, clob₁, h₁, hrested₁, hitems₁⟩ :=
    (h.move [.middle] fun later => step_start .middle later).post (by omega) hfew
  rw [hid, List.singleton_append] at hitems₁
  obtain ⟨active₂, clob₂, h₂, hrested₂, hitems₂⟩ :=
    (h₁.move [.low] fun later => step_start .low later).cancel hitems₁
  exact ⟨active₂, clob₂, h₂, hrested₂.trans hrested₁, hitems₂⟩

/-- Any number of orders comes to rest while only the last of them is not cancelled. -/
theorem exists_turned (k : Nat) (hk : populateWhenEmpty + k < 2 ^ 64) :
    ∃ active clob, Stocked [.start] active clob ∧ clob.rested = populateWhenEmpty + k ∧ active.size = 1 := by
  induction k with
  | zero => exact exists_drained (populateWhenEmpty - 1) (by decide)
  | succ k ih =>
    obtain ⟨active, clob, h, hrested, hsize⟩ := ih (by omega)
    obtain ⟨active', clob', h', hrested', hitems'⟩ := h.turn hsize (by omega)
    exact ⟨active', clob', h', by omega, by rw [RandomContainer.size, hitems']; rfl⟩

end Stocked

end MarketRequestGenerator

end HftPipeline
