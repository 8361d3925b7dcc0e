import HftPipeline.ListedPrices
import HftPipeline.EndToEnd

/-!
# The generated feed

Every run of the order generator is a safe run of the exchange, so what the exchange publishes
for it keeps price-time priority, whatever is drawn and whenever the stop comes. The pipeline
behind it quotes within the configured prices and ends with the book of the exchange.
-/
namespace HftPipeline

open RestingBook

section

variable [StdHash Price] [StdHash ID]

namespace Clob

variable {c c' : Clob}

/-! ## More fuel -/

theorem matchLoop_more {fuel fuel' : Nat} (hle : fuel ≤ fuel') {order order' : Order} {token token' : StopToken}
    (h : c.matchLoop fuel order token = some (c', order', token')) :
    c.matchLoop fuel' order token = some (c', order', token') := by
  induction fuel generalizing fuel' c order token with
  | zero => cases h
  | succ fuel ih =>
    obtain ⟨more, rfl⟩ : ∃ more, fuel' = more + 1 := ⟨fuel' - 1, by omega⟩
    rw [matchLoop] at h ⊢
    by_cases hzero : order.quantity = 0
    · rw [if_pos hzero] at h ⊢
      exact h
    · rw [if_neg hzero] at h ⊢
      obtain ⟨⟨traded, c₁, order₁, token₁⟩, hstep, hrest⟩ := Option.bind_eq_some_iff.mp h
      simp only [hstep, Option.bind_eq_bind, Option.bind_some]
      cases traded with
      | false => exact hrest
      | true => exact ih (Nat.le_of_succ_le_succ hle) hrest

theorem placeOrder_more {fuel fuel' : Nat} (hle : fuel ≤ fuel') {side : Side} {request : OrderRequest}
    {token : StopToken} {id : ID} (h : placeOrder fuel side c request token = some (id, c')) :
    placeOrder fuel' side c request token = some (id, c') := by
  rw [placeOrder] at h ⊢
  by_cases hzero : request.quantity = 0
  · rw [if_pos hzero] at h ⊢
    exact h
  · rw [if_neg hzero] at h ⊢
    obtain ⟨⟨c₁, order₁, token₁⟩, hloop, hrest⟩ := Option.bind_eq_some_iff.mp h
    simp only [matchLoop_more hle hloop, Option.bind_eq_bind, Option.bind_some]
    exact hrest

theorem submit_more {fuel fuel' : Nat} (hle : fuel ≤ fuel') {request : OrderRequest} {token : StopToken}
    {result : Except Error ID} (h : c.submit fuel request token = some (result, c')) :
    c.submit fuel' request token = some (result, c') := by
  rw [submit] at h ⊢
  cases hkind : request.type with
  | cancel | update =>
    rw [hkind] at h
    exact h
  | buy | sell =>
    rw [hkind] at h
    obtain ⟨⟨id, c₁⟩, hplace, hpair⟩ := Option.map_eq_some_iff.mp h
    apply Option.map_eq_some_iff.mpr
    exact ⟨(id, c₁), placeOrder_more hle hplace, hpair⟩

/-! ## One call more -/

theorem SafeRun.snoc {fuel : Nat} {calls : List (OrderRequest × StopToken)} {results : List (Except Error ID)}
    (h : c.SafeRun fuel calls) (hrun : c.submitAll fuel calls = some (results, c'))
    {call : OrderRequest × StopToken} (hsafe : c'.Safe call.1) : c.SafeRun fuel (calls ++ [call]) := by
  induction calls generalizing c results with
  | nil =>
    cases hrun
    refine ⟨hsafe, ?_⟩
    cases c'.submit fuel call.1 call.2 with
    | none => trivial
    | some after => trivial
  | cons first calls ih =>
    obtain ⟨result, c₁, rest, hsubmit, hrest, -⟩ := submitAll_cons hrun
    obtain ⟨hfirst, hafter⟩ := h
    refine ⟨hfirst, ?_⟩
    simp only [hsubmit] at hafter ⊢
    exact ih hafter hrest

theorem submitAll_snoc {fuel : Nat} {calls : List (OrderRequest × StopToken)} {results : List (Except Error ID)}
    (hrun : c.submitAll fuel calls = some (results, c')) {call : OrderRequest × StopToken}
    {result : Except Error ID} {c'' : Clob} (hsubmit : c'.submit fuel call.1 call.2 = some (result, c'')) :
    c.submitAll fuel (calls ++ [call]) = some (results ++ [result], c'') := by
  induction calls generalizing c results with
  | nil =>
    cases hrun
    simp only [List.nil_append, submitAll, hsubmit, Option.bind_eq_bind, Option.bind_some]
    rfl
  | cons first calls ih =>
    obtain ⟨result₁, c₁, rest, hfirst, hrest, rfl⟩ := submitAll_cons hrun
    simp only [List.cons_append, submitAll, hfirst, ih hrest, Option.bind_eq_bind, Option.bind_some]
    rfl

end Clob

/-! ## The requests of the generator -/

/-- A request as the generator makes it: of an order that it knows, or drawn from the configured
prices and quantities. -/
def OrderRequest.Generated (request : OrderRequest) : Prop :=
  request.type = .cancel ∨
    request.IsNewOrder ∧ Listed request.price ∧ minQuantity ≤ request.quantity ∧
      request.quantity ≤ maxLargeQuantity

/-- Enough for each of its requests. -/
def generatedFuel : Nat := maxLargeQuantity.toNat + 1

variable {source : RandomSource}

/-- Whatever is left of a new order may rest as long as the ids last. -/
theorem Tracks.mayRest {c : Clob} {active : RandomContainer ID maxActiveOrders} (h : Tracks c active)
    (hfew : c.rested + 1 < 2 ^ 64) (side : Side) (price : Price) : c.MayRest side price := by
  have hnumber : c.nextOrderId.toNat = c.rested + 1 := by
    rw [h.next, UInt64.toNat_ofNat', Nat.mod_eq_of_lt hfew]
  refine ⟨?_, ?_, h.next_not_resting⟩
  · intro o ho _ hprice
    obtain ⟨hlow, hhigh⟩ := (h.listed o ho).inside
    rw [hprice] at hlow hhigh
    cases side with
    | buy => exact absurd hhigh (by decide)
    | sell => exact absurd hlow (by decide)
  · intro hzero
    rw [hzero] at hnumber
    have : invalidOrderId.toNat = 0 := rfl
    omega

namespace MarketRequestGenerator

variable {m m' : MarketRequestGenerator source}

section

omit [StdHash Price] [StdHash ID]

theorem generateOrderRequest_within (m : MarketRequestGenerator source) (side : Side) (aggressive : Bool)
    (low high : Quantity) (hle : low ≤ high) :
    low ≤ (m.generateOrderRequest side aggressive low high).1.quantity ∧
      (m.generateOrderRequest side aggressive low high).1.quantity ≤ high := by
  have hle' := UInt32.le_iff_toNat_le.mp hle
  have hhigh := high.toNat_lt
  obtain ⟨hmin, hmax⟩ := source.uniform_mem low.toNat high.toNat (m.generatePrice side aggressive).2
    (Int.ofNat_le.mpr hle')
  have hquantity : (m.generateOrderRequest side aggressive low high).1.quantity.toNat =
      (source.uniform low.toNat high.toNat (m.generatePrice side aggressive).2).1.toNat := by
    have hfits : (source.uniform low.toNat high.toNat (m.generatePrice side aggressive).2).1.toNat < 2 ^ 32 := by
      omega
    exact (UInt32.toNat_ofNat' ..).trans (Nat.mod_eq_of_lt hfits)
  rw [UInt32.le_iff_toNat_le, UInt32.le_iff_toNat_le, hquantity]
  omega

theorem newRequest_within (m : MarketRequestGenerator source) (side : Side) :
    minQuantity ≤ (m.newRequest side).1.quantity ∧ (m.newRequest side).1.quantity ≤ maxLargeQuantity := by
  by_cases hvalue : (source.real m.generator).1 < aggressiveOrderProbability
  · have hrequest : m.newRequest side =
        { m with generator := (source.real m.generator).2 }.generateAggressiveOrderRequest side := if_pos hvalue
    obtain ⟨hlow, hhigh⟩ := generateOrderRequest_within { m with generator := (source.real m.generator).2 } side
      true minLargeQuantity maxLargeQuantity (by decide)
    rw [hrequest]
    exact ⟨UInt32.le_trans (by decide) hlow, hhigh⟩
  · have hrequest : m.newRequest side =
        { m with generator := (source.real m.generator).2 }.generatePassiveOrderRequest side := if_neg hvalue
    obtain ⟨hlow, hhigh⟩ := generateOrderRequest_within { m with generator := (source.real m.generator).2 } side
      false minQuantity maxQuantity (by decide)
    rw [hrequest]
    exact ⟨hlow, UInt32.le_trans hhigh (by decide)⟩

end

theorem Sound.newRequest_generated (h : m.Sound) (side : Side) : (m.newRequest side).1.Generated := by
  refine Or.inr ⟨?_, newRequest_listed (h.tracks.showsListed rfl) side, m.newRequest_within side⟩
  rw [OrderRequest.IsNewOrder, m.newRequest_type side]
  cases side with
  | buy => exact Or.inl rfl
  | sell => exact Or.inr rfl

/-- A step that has left the book, or has submitted a request that is safe. -/
def Submits (m : MarketRequestGenerator source) (token : StopToken) (m' : MarketRequestGenerator source) : Prop :=
  m'.clob = m.clob ∨ ∃ call : OrderRequest × StopToken, ∃ result, call.1.Generated ∧
    (token = none → call.2 = none) ∧ m.clob.Safe call.1 ∧
    m.clob.submit generatedFuel call.1 call.2 = some (result, m'.clob)

theorem Sound.postNewOrder_submits (h : m.Sound) (hfew : m.clob.rested + 1 < 2 ^ 64) {side : Side} {token : StopToken}
    (hpost : m.postNewOrder side token = some m') : m.Submits token m' := by
  obtain ⟨⟨result, clob⟩, hsubmit, heq⟩ := Option.bind_eq_some_iff.mp hpost
  cases heq
  have hle : (m.newRequest side).1.quantity.toNat ≤ maxLargeQuantity.toNat :=
    UInt32.le_iff_toNat_le.mp (m.newRequest_within side).2
  refine Or.inr ⟨((m.newRequest side).1, token), result, h.newRequest_generated side, id, ?_,
    Clob.submit_more (Nat.succ_le_succ hle) hsubmit⟩
  rw [Clob.Safe, m.newRequest_type side]
  cases side with
  | buy => exact fun _ => h.tracks.mayRest hfew _ _
  | sell => exact fun _ => h.tracks.mayRest hfew _ _

/-- The question for the stop comes first. -/
theorem Submits.of_stopRequested {token : StopToken} (h : m.Submits token.stopRequested.2 m') : m.Submits token m' := by
  rcases h with hsame | ⟨call, result, hgenerated, htoken, hsafe, hsubmit⟩
  · exact Or.inl hsame
  · refine Or.inr ⟨call, result, hgenerated, ?_, hsafe, hsubmit⟩
    rintro rfl
    exact htoken rfl

theorem postCancelRequest_submits {token : StopToken} (hpost : m.postCancelRequest token = some m') :
    m.Submits token m' := by
  rw [postCancelRequest] at hpost
  split at hpost
  · cases hpost
    exact Or.inl rfl
  · obtain ⟨⟨id, active, g⟩, -, hpost⟩ := Option.bind_eq_some_iff.mp hpost
    dsimp only at hpost
    split at hpost
    · obtain ⟨⟨result, clob⟩, hsubmit, heq⟩ := Option.bind_eq_some_iff.mp hpost
      cases heq
      exact Or.inr ⟨(⟨id, 0, 0, .cancel⟩, token), result, Or.inl rfl, fun hnone => hnone, trivial, hsubmit⟩
    · cases hpost
      exact Or.inl rfl

/-- One step: only the calls that submit a request touch the book. -/
theorem Sound.step_submits (h : m.Sound) (hfew : m.clob.rested + 1 < 2 ^ 64) {token : StopToken}
    (hstep : m.step token = some m') : m.Submits token m' := by
  rw [MarketRequestGenerator.step] at hstep
  split at hstep
  · cases hstep
    exact Or.inl rfl
  · rename_i call calls hcalls
    cases call with
    | start =>
      cases hstep
      obtain ⟨pushed, hmoves⟩ := start_moves { m with calls } token
      exact Or.inl hmoves.clob
    | populateActiveOrders =>
      cases hstep
      obtain ⟨pushed, hmoves⟩ := populateActiveOrders_moves { m with calls } token
      exact Or.inl hmoves.clob
    | purgeActiveOrders =>
      cases hstep
      exact Or.inl (purgeActiveOrders_clob { m with calls } token)
    | cancelRequest =>
      rw [resume, MarketRequestGenerator.generateAndPostCancelRequest] at hstep
      rcases StopToken.stopRequested_spec token with ⟨hgo, -⟩ | ⟨hstop, -⟩
      · rw [hgo] at hstep
        simp only [Bool.false_eq_true, if_false] at hstep
        split at hstep
        · cases hstep
          exact Or.inl rfl
        · exact Submits.of_stopRequested (postCancelRequest_submits (m := { m with calls }) hstep)
      · rw [hstop] at hstep
        cases hstep
        exact Or.inl rfl
    | cancelPopulated => exact postCancelRequest_submits (m := { m with calls }) hstep
    | newOrderRequest side =>
      cases hstep
      rw [MarketRequestGenerator.generateAndPostNewOrderRequest]
      split <;> exact Or.inl rfl
    | postNewOrder side =>
      have hpurge : GeneratorCall.postNewOrder side ≠ .purgeActiveOrders := by rintro ⟨⟩
      exact (h.pop hcalls hpurge).1.postNewOrder_submits hfew hstep

/-! ## Whole runs -/

/-- The generator has made these calls of `submit`, and the book is what came of them. -/
structure HasSubmitted (m : MarketRequestGenerator source) (calls : List (OrderRequest × StopToken)) : Prop where
  safe : Clob.SafeRun generatedFuel (Clob.init : Clob) calls
  run : ∃ results, (Clob.init : Clob).submitAll generatedFuel calls = some (results, m.clob)
  generated : ∀ call ∈ calls, call.1.Generated

theorem HasSubmitted.submits {calls : List (OrderRequest × StopToken)} (h : m.HasSubmitted calls) {token : StopToken}
    (hsubmits : m.Submits token m') :
    ∃ more, m'.HasSubmitted (calls ++ more) ∧ (token = none → ∀ call ∈ more, call.2 = none) := by
  obtain ⟨results, hrun⟩ := h.run
  rcases hsubmits with hsame | ⟨call, result, hgenerated, htoken, hsafe, hsubmit⟩
  · refine ⟨[], ?_, fun _ call hcall => by cases hcall⟩
    rw [List.append_nil]
    refine ⟨h.safe, ⟨results, ?_⟩, h.generated⟩
    rw [hsame]
    exact hrun
  · refine ⟨[call], ⟨h.safe.snoc hrun hsafe, ⟨_, Clob.submitAll_snoc hrun hsubmit⟩, ?_⟩, ?_⟩
    · intro call' hcall'
      rcases List.mem_append.mp hcall' with hold | hnew
      · exact h.generated call' hold
      · rw [List.mem_singleton.mp hnew]
        exact hgenerated
    · intro hnone call' hcall'
      rw [List.mem_singleton.mp hcall']
      exact htoken hnone

theorem after_hasSubmitted (generator : source.State) (moment : StopMoment) (n : Nat)
    (hids : ∀ i ≤ n, ∀ m : MarketRequestGenerator source, after generator moment i = some m →
      m.clob.rested + 1 < 2 ^ 64) :
    ∃ (m : MarketRequestGenerator source) (calls : List (OrderRequest × StopToken)),
      after generator moment n = some m ∧ m.HasSubmitted calls ∧
        (moment = none → ∀ call ∈ calls, call.2 = none) := by
  induction n with
  | zero =>
    exact ⟨new generator, [], rfl, ⟨trivial, ⟨[], rfl⟩, fun call hcall => by cases hcall⟩,
      fun _ call hcall => by cases hcall⟩
  | succ n ih =>
    have hbefore : ∀ i ≤ n, ∀ m : MarketRequestGenerator source, after generator moment i = some m →
        m.clob.rested + 1 < 2 ^ 64 := fun i hi => hids i (Nat.le_succ_of_le hi)
    obtain ⟨m, calls, hm, hsubmitted, hgo⟩ := ih hbefore
    obtain ⟨m', hm', -, hsound⟩ := after_spec generator moment n fun i hi m hi' =>
      Nat.lt_of_succ_lt (hbefore i hi m hi')
    rw [hm] at hm'
    cases hm'
    have hnext : ∀ {m' : MarketRequestGenerator source}, m.step (moment.token n) = some m' →
        after generator moment (n + 1) = some m' := by
      intro m' hstep
      rw [after, hm]
      exact hstep
    obtain ⟨m', hstep, hsubmits⟩ : ∃ m', m.step (moment.token n) = some m' ∧ m.Submits (moment.token n) m' := by
      rcases moment.token_cases n with ⟨hlater, -⟩ | ⟨-, htoken⟩
      · obtain ⟨m', hstep, -⟩ := (hsound hlater).step (moment.token n)
        exact ⟨m', hstep, (hsound hlater).step_submits (hbefore n (Nat.le_refl n) m hm) hstep⟩
      · obtain ⟨m', hstep, hsame⟩ := m.step_stopped
        rw [htoken]
        exact ⟨m', hstep, Or.inl hsame⟩
    obtain ⟨more, hsubmitted', hgo'⟩ := hsubmitted.submits hsubmits
    refine ⟨m', calls ++ more, hnext hstep, hsubmitted', ?_⟩
    rintro rfl call hcall
    exact (List.mem_append.mp hcall).elim (hgo rfl call) (hgo' rfl call)

/-- Whatever is drawn and whenever the stop comes: the generator makes safe calls of `submit`, each
as it is configured, what is published keeps price-time priority, and the units it asked for are
traded, cancelled or at rest, without a stop all of them. -/
theorem generated_run_is_safe (generator : source.State) (moment : StopMoment) (n : Nat)
    (hids : ∀ i ≤ n, ∀ m : MarketRequestGenerator source, after generator moment i = some m →
      m.clob.rested + 1 < 2 ^ 64) :
    ∃ (m : MarketRequestGenerator source) (calls : List (OrderRequest × StopToken)),
      after generator moment n = some m ∧ m.HasSubmitted calls ∧ PriorityRun [] m.clob.published ∧
        ∀ side, m.clob.accounted side ≤ Clob.asked calls side ∧
          (moment = none → m.clob.accounted side = Clob.asked calls side) := by
  obtain ⟨m, calls, hm, h, hgo⟩ := after_hasSubmitted generator moment n hids
  obtain ⟨results, hrun⟩ := h.run
  obtain ⟨-, ⟨events, hkeeps⟩, hle, heq⟩ := Clob.holds_init.submitAll_ledger h.safe hrun
  have hpublished : m.clob.published = events := hkeeps.published.trans (List.nil_append _)
  have hzero : ∀ side, (Clob.init : Clob).accounted side = 0 := fun _ => rfl
  refine ⟨m, calls, hm, h, ?_, fun side => ⟨?_, fun hnone => ?_⟩⟩
  · rw [hpublished]
    exact hkeeps.priority
  · rw [← Nat.zero_add (Clob.asked calls side), ← hzero side]
    exact hle side
  · rw [← Nat.zero_add (Clob.asked calls side), ← hzero side]
    exact heq (hgo hnone) side

/-! ## The pipeline behind the generator -/

theorem HasSubmitted.prices {calls : List (OrderRequest × StopToken)} (h : m.HasSubmitted calls) :
    ∀ call ∈ calls, call.1.IsNewOrder → Listed call.1.price := by
  intro call hcall hnew
  rcases h.generated call hcall with hcancel | ⟨-, hlisted, -⟩
  · exact absurd hnew (Trader.not_isNewOrder_of_cancel hcancel)
  · exact hlisted

end MarketRequestGenerator

end

/-! ## A short simulation -/

/-- Draws that make a small buy and a small sell in turn. -/
def tradingSource : RandomSource where
  State := Nat
  real g := (if g % 4 = 2 then 3 / 4 else 9 / 20, g + 1)
  uniform low _ g := (low, g)
  real_mem g := by
    split
    · exact ⟨by norm_num, by norm_num⟩
    · exact ⟨by norm_num, by norm_num⟩
  uniform_mem _ _ _ h := ⟨le_refl _, h⟩

section

attribute [local instance] priceHash idHash

def tradingRun (n : Nat) : Option (MarketRequestGenerator tradingSource) :=
  MarketRequestGenerator.after (0 : Nat) none n

def tradingEvents : List MarketEvent := [⟨⟨1, 340, 10, .buy⟩, .add⟩, ⟨⟨2, 640, 10, .sell⟩, .add⟩]

theorem tradingEvents_fit : tradingEvents.length < 2 ^ 64 := by decide

/-- What it publishes first. -/
def tradingOrders : Feed := { twoOrders with events := tradingEvents, fits := tradingEvents_fit }

theorem tradingRun_publishes : (tradingRun 6).map (fun m => m.clob.published) = some tradingOrders.events := by
  decide +kernel

theorem tradingRun_few : ∀ i ≤ 6, ((tradingRun i).all fun m => decide (m.clob.published.length < 3)) = true := by
  decide +kernel

theorem generated_run_is_safe_tradingRun :
    ∃ m calls, tradingRun 6 = some m ∧ m.clob.published = tradingOrders.events ∧ m.HasSubmitted calls ∧
      PriorityRun [] m.clob.published ∧ ∀ side, m.clob.accounted side = Clob.asked calls side := by
  obtain ⟨m, calls, hm, h, hpriority, hunits⟩ := @MarketRequestGenerator.generated_run_is_safe _ _ tradingSource
    (0 : Nat) none 6 (by
      intro i hi m hm
      have hi' := tradingRun_few i hi
      rw [tradingRun, hm] at hi'
      have hpublished : m.clob.published.length < 3 := of_decide_eq_true hi'
      have hrested : m.clob.rested ≤ m.clob.published.length := List.countP_le_length
      omega)
  have hpublished := tradingRun_publishes
  rw [tradingRun, hm, Option.map_some, Option.some.injEq] at hpublished
  exact ⟨m, calls, hm, hpublished, h, hpriority, fun side => (hunits side).2 rfl⟩

end

end HftPipeline
