import HftPipeline.Submission
import HftPipeline.Replica
import HftPipeline.GeneratedRequests

/-!
# The capacity of the exchange

The generator knows every order that rests, and it knows at most `maxActiveOrders` ids. The
book is larger than that, so none of its structures runs full.
-/
namespace HftPipeline

open RestingBook

/-- No more orders than that rest. -/
def BookState.RestingAtMost [StdHash ID] (s : BookState) (n : Nat) : Prop :=
  ∀ ids : List ID, ids.Nodup → (∀ id ∈ ids, s.orderExists id = true) → ids.length ≤ n

/-- A prefix of two lists in a row ends in the first or in the second. -/
theorem prefix_append_split {α : Type} {events before after : List α} (h : events <+: before ++ after) :
    events <+: before ∨ ∃ more, more <+: after ∧ events = before ++ more := by
  rcases List.prefix_or_prefix_of_prefix h (List.prefix_append before after) with hfirst | ⟨more, hmore⟩
  · exact Or.inl hfirst
  · rw [← hmore] at h
    exact Or.inr ⟨more, (List.prefix_append_right_inj before).mp h, hmore.symm⟩

section

variable [StdHash Price] [StdHash ID] {source : RandomSource} {book : List Entry}

namespace Clob

variable {c c' : Clob}

/-- How many orders have come to rest so far. -/
def rested (c : Clob) : Nat := c.published.countP fun event => event.type = .add

/-- What the events published so far say: each could be executed, the book is what they make
of an empty one, and never did too many orders rest. -/
structure Logged (c : Clob) : Prop where
  admissible : AdmissibleRun [] c.published
  synced : c.Synced
  peak : ∀ events, events <+: c.published → (applyAll [] events).length ≤ maxActiveOrders

theorem logged_init : (init : Clob).Logged := by
  refine ⟨trivial, synced_init, ?_⟩
  intro events hevents
  rw [List.prefix_nil.mp hevents]
  exact Nat.zero_le _

/-- At every moment the book held what a prefix of the events makes of an empty one. -/
theorem Logged.restingAtMost (h : c.Logged) {events : List MarketEvent} (hevents : events <+: c.published) :
    ∃ s, (BookState.init : BookState).executeAll events = some s ∧ s.RestingAtMost maxActiveOrders := by
  have hadm : AdmissibleRun [] events := by
    obtain ⟨rest, hrest⟩ := hevents
    have hall := h.admissible
    rw [← hrest] at hall
    exact (admissibleRun_append_all.mp hall).1
  obtain ⟨s, book, hs, hrep, horders⟩ := BookState.executeAll_represents events hadm
  refine ⟨s, hs, ?_⟩
  intro ids hnodup hids
  have hsub : ids ⊆ RestingBook.ids book := fun id hid => (hrep.orderExists_iff id).mp (hids id hid)
  have hlength := (hnodup.subperm hsub).length_le
  rw [ids_eq, List.length_map, horders] at hlength
  exact Nat.le_trans hlength (h.peak events hevents)

theorem Logged.extend {events : List MarketEvent} (h : c.Logged) (hextends : c.Extends c' events)
    (hsynced : c'.Synced)
    (hpeak : ∀ more, more <+: events → (applyAll c.resting more).length ≤ maxActiveOrders) : c'.Logged := by
  refine ⟨?_, hsynced, ?_⟩
  · rw [hextends.published]
    exact admissibleRun_append_all.mpr ⟨h.admissible, hextends.admissible⟩
  · intro some' hsome
    rw [hextends.published] at hsome
    rcases prefix_append_split hsome with hfirst | ⟨more, hmore, rfl⟩
    · exact h.peak some' hfirst
    · rw [applyAll_append_all]
      exact hpeak more hmore

/-- Only trades, and at most one order that comes to rest where there is room for it. -/
theorem Logged.place (h : c.Logged) (trades adds : List MarketEvent)
    (htrades : ∀ trade ∈ trades, trade.type = .trade) (hextends : c.Extends c' (trades ++ adds))
    (hsynced : c'.Synced) (hfew : c.resting.length ≤ maxActiveOrders)
    (hroom : adds = [] ∨ c.resting.length < maxActiveOrders ∧ ∃ order, adds = [⟨order, .add⟩]) : c'.Logged := by
  have htraded : ∀ more, more <+: trades → (applyAll c.resting more).length ≤ c.resting.length := by
    intro more hmore
    exact (shrinks_applyAll c.resting fun trade htrade => htrades trade (hmore.subset htrade)).2
  refine h.extend hextends hsynced ?_
  intro more hmore
  rcases hroom with hnone | ⟨hroom, order, hadds⟩
  · rw [hnone, List.append_nil] at hmore
    exact Nat.le_trans (htraded more hmore) hfew
  · rw [hadds] at hmore
    rcases List.prefix_concat_iff.mp hmore with hall | htrading
    · rw [hall, applyAll_append]
      have hbefore := htraded trades (List.prefix_refl trades)
      show (applyAll c.resting trades ++ [order]).length ≤ maxActiveOrders
      rw [List.length_append, List.length_singleton]
      omega
    · exact Nat.le_trans (htraded more htrading) hfew

omit [StdHash Price] [StdHash ID] in
theorem rested_extends {events : List MarketEvent} (h : c.Extends c' events) :
    c'.rested = c.rested + events.countP fun event => event.type = .add := by
  rw [rested, h.published, List.countP_append]
  rfl

omit [StdHash Price] [StdHash ID] in
theorem rested_trades {trades : List MarketEvent} (htrades : ∀ trade ∈ trades, trade.type = .trade)
    (h : c.Extends c' trades) : c'.rested = c.rested := by
  rw [rested_extends h, List.countP_eq_zero.mpr]
  · rfl
  · intro trade htrade
    rw [htrades trade htrade]
    decide

end Clob

/-- Both sides are placed alike. -/
theorem MarketRequestGenerator.submitNewRequest_eq (m : MarketRequestGenerator source) (side : Side)
    (token : StopToken) :
    m.submitNewRequest side token =
      (Clob.placeOrder ((m.newRequest side).1.quantity.toNat + 1) side m.clob (m.newRequest side).1 token).map
        fun (id, c) => (.ok id, c) := by
  rw [submitNewRequest, Clob.submit, m.newRequest_type side]
  cases side <;> rfl

omit [StdHash Price] [StdHash ID] in
/-- Either the stop is not requested before a step, or the token says so from the start. -/
theorem StopMoment.token_cases (moment : StopMoment) (n : Nat) :
    moment.Later n ∧ (moment.Later (n + 1) → moment.token n = none) ∨
      ¬ moment.Later (n + 1) ∧ moment.token n = some 0 := by
  cases moment with
  | none => exact Or.inl ⟨trivial, fun _ => rfl⟩
  | some moment =>
    obtain ⟨stopped, questions⟩ := moment
    by_cases hlater : n ≤ stopped
    · exact Or.inl ⟨hlater, fun hlt => if_pos hlt⟩
    · refine Or.inr ⟨fun hlt => hlater (Nat.le_of_succ_le hlt), ?_⟩
      rw [token, if_neg (by omega), if_neg (by omega)]

theorem Clob.submit_cancel (c : Clob) (fuel : Nat) (id : ID) (token : StopToken) :
    c.submit fuel ⟨id, 0, 0, .cancel⟩ token =
      (c.cancelOrder ⟨id, 0, 0, .cancel⟩ token).map fun (result, c) => (result.map fun _ => invalidOrderId, c) :=
  rfl

/-! ## What the generator knows -/

/-- The ids that the generator keeps, and the orders that rest. -/
structure Tracks (c : Clob) (active : RandomContainer ID maxActiveOrders) : Prop where
  holds : ∃ book, c.Holds book
  logged : c.Logged
  listed : ∀ o ∈ c.resting, Listed o.price
  next : c.nextOrderId = UInt64.ofNat (c.rested + 1)
  few : c.rested < 2 ^ 64
  known : ∀ id ∈ active.items, id ≠ invalidOrderId ∧ id.toNat ≤ c.rested
  nodup : active.items.Nodup
  tracked : ∀ o ∈ c.resting, o.orderId ∈ active.items

namespace Tracks

variable {c c' : Clob} {active active' : RandomContainer ID maxActiveOrders}

theorem inside (h : Tracks c active) : ∀ o ∈ c.resting, o.Inside := by
  intro o ho
  exact ⟨(h.known _ (h.tracked o ho)).1, (h.listed o ho).inside⟩

/-- The orders that rest are no more than the ids. -/
theorem resting_le (h : Tracks c active) : c.resting.length ≤ active.size := by
  obtain ⟨book, hholds⟩ := h.holds
  have hsub : c.resting.map Order.orderId ⊆ active.items := by
    intro id hid
    obtain ⟨o, ho, rfl⟩ := List.mem_map.mp hid
    exact h.tracked o ho
  have hlength := (hholds.ids_nodup.subperm hsub).length_le
  rw [List.length_map] at hlength
  exact hlength

theorem resting_lt (h : Tracks c active) : c.resting.length < 2 ^ 14 :=
  Nat.lt_of_le_of_lt (Nat.le_trans h.resting_le active.size_le) (by decide)

/-- The next id is not in use, also when the counter has come round to no id at all. -/
theorem next_fresh (h : Tracks c active) : c.nextOrderId ∉ active.items := by
  intro hmem
  obtain ⟨hreal, hle⟩ := h.known _ hmem
  have hfew := h.few
  rw [h.next] at hreal hle
  rw [UInt64.toNat_ofNat'] at hle
  by_cases hlast : c.rested + 1 = 2 ^ 64
  · rw [hlast] at hreal
    exact hreal rfl
  · rw [Nat.mod_eq_of_lt (by omega)] at hle
    omega

theorem next_not_resting (h : Tracks c active) : c.nextOrderId ∉ c.resting.map Order.orderId := by
  intro hmem
  obtain ⟨o, ho, heq⟩ := List.mem_map.mp hmem
  exact h.next_fresh (heq ▸ h.tracked o ho)

theorem exists_iff (h : Tracks c active) (id : ID) :
    c.state.orderExists id = true ↔ id ∈ c.resting.map Order.orderId := by
  obtain ⟨book, hholds⟩ := h.holds
  rw [hholds.represents.orderExists_iff, ids_eq, hholds.orders_eq]

theorem showsListed (h : Tracks c active) {m : MarketRequestGenerator source} (hclob : m.clob = c) :
    m.ShowsListed := by
  obtain ⟨book, hholds⟩ := h.holds
  have hlisted : ∀ o ∈ orders book, Listed o.price := by
    rw [hholds.orders_eq]
    exact h.listed
  rw [MarketRequestGenerator.ShowsListed, hclob]
  exact ⟨best_listed hholds.best hlisted .buy, best_listed hholds.best hlisted .sell⟩

/-- What is true of the orders that rest is true of what trades leave of them. -/
theorem of_shrinks (h : Tracks c active) {orders : List Order} (hshrinks : Shrinks orders c.resting) :
    ∀ o ∈ orders, Listed o.price ∧ o.orderId ∈ active.items := by
  intro o ho
  obtain ⟨o₀, ho₀, hid, hprice, -⟩ := hshrinks o ho
  rw [hid, hprice]
  exact ⟨h.listed o₀ ho₀, h.tracked o₀ ho₀⟩

/-- Orders may be traded or cancelled, and ids of orders that do not rest may be dropped. -/
theorem shrink (h : Tracks c active) (hholds : ∃ book, c'.Holds book) (hlogged : c'.Logged)
    (hnext : c'.nextOrderId = c.nextOrderId) (hrested : c'.rested = c.rested)
    (hshrinks : Shrinks c'.resting c.resting)
    (hsub : active'.items.Subperm active.items)
    (htracked : ∀ o ∈ c'.resting, o.orderId ∈ active'.items) : Tracks c' active' where
  holds := hholds
  logged := hlogged
  listed := fun o ho => (h.of_shrinks hshrinks o ho).1
  next := by rw [hnext, hrested]; exact h.next
  few := by rw [hrested]; exact h.few
  known := by
    intro id hid
    rw [hrested]
    exact h.known id (hsub.subset hid)
  nodup := by
    obtain ⟨front, hperm, hsublist⟩ := hsub
    exact hperm.nodup_iff.mp (hsublist.nodup h.nodup)
  tracked := htracked

/-! ## One request -/

/-- A new order is placed. -/
theorem submitNewRequest (m : MarketRequestGenerator source) (h : Tracks m.clob m.activeOrderIds) (side : Side)
    (token : StopToken) :
    ∃ id c', m.submitNewRequest side token = some (.ok id, c') ∧ c'.Synced ∧
      Clob.Placed m.clob side (m.newRequest side).1.price token id c' := by
  obtain ⟨book, hholds⟩ := h.holds
  obtain ⟨id, c', hplace, hplaced⟩ := hholds.placeOrder_progress h.inside side (m.newRequest side).1 token
    (Nat.lt_succ_self _) h.next_not_resting h.resting_lt
  have hsubmit : m.submitNewRequest side token = some (.ok id, c') := by
    rw [m.submitNewRequest_eq, hplace]
    rfl
  exact ⟨id, c', hsubmit, h.logged.synced.submit hsubmit, hplaced⟩

/-- The ids after a call of `submit` that has returned one. -/
def keep (active : RandomContainer ID maxActiveOrders) (id : ID) : RandomContainer ID maxActiveOrders :=
  if id ≠ invalidOrderId then (active.add id).2 else active

/-- An order comes to rest, and its id is kept. -/
theorem join {side : Side} {price : Price} {trades : List MarketEvent} {left : Quantity} (h : Tracks c active)
    (hroom : active.size < maxActiveOrders) (hlogged : c'.Logged) (hlisted : Listed price)
    (htrades : ∀ trade ∈ trades, trade.type = .trade)
    (hextends : c.Extends c' (trades ++ [⟨⟨c.nextOrderId, price, left, side⟩, .add⟩]))
    (hrested : c'.rested = c.rested + 1) (hholds : c.nextOrderId ≠ invalidOrderId → ∃ book, c'.Holds book)
    (hnext : c'.nextOrderId = c.nextOrderId + 1) (hfew : c'.rested < 2 ^ 64) :
    Tracks c' (keep active c.nextOrderId) := by
  have hnumber : c.nextOrderId.toNat = c.rested + 1 := by
    rw [h.next, UInt64.toNat_ofNat', Nat.mod_eq_of_lt (by omega)]
  have hreal : c.nextOrderId ≠ invalidOrderId := by
    intro hzero
    rw [hzero] at hnumber
    have : invalidOrderId.toNat = 0 := rfl
    omega
  have hitems : (keep active c.nextOrderId).items = active.items ++ [c.nextOrderId] := by
    rw [keep, if_pos hreal]
    exact (RandomContainer.add_of_lt hroom _).2
  have hshrinks := (shrinks_applyAll c.resting htrades).1
  have hresting : c'.resting = applyAll c.resting trades ++ [⟨c.nextOrderId, price, left, side⟩] := by
    rw [hextends.resting, applyAll_append]
    rfl
  refine ⟨hholds hreal, hlogged, ?_, ?_, hfew, ?_, ?_, ?_⟩
  · intro o ho
    rw [hresting, List.mem_append, List.mem_singleton] at ho
    rcases ho with hold | rfl
    · exact (h.of_shrinks hshrinks o hold).1
    · exact hlisted
  · rw [hnext, h.next, hrested, UInt64.ofNat_add (c.rested + 1) 1]
    rfl
  · intro id hid
    rw [hitems, List.mem_append, List.mem_singleton] at hid
    rw [hrested]
    rcases hid with hold | rfl
    · exact ⟨(h.known id hold).1, Nat.le_succ_of_le (h.known id hold).2⟩
    · exact ⟨hreal, Nat.le_of_eq hnumber⟩
  · rw [hitems]
    exact List.nodup_append.mpr ⟨h.nodup, List.nodup_singleton _, fun id hid id' hid' heq =>
      h.next_fresh (by rw [← List.mem_singleton.mp hid', ← heq]; exact hid)⟩
  · intro o ho
    rw [hresting, List.mem_append, List.mem_singleton] at ho
    rw [hitems]
    rcases ho with hold | rfl
    · exact List.mem_append_left _ (h.of_shrinks hshrinks o hold).2
    · exact List.mem_append_right _ (List.mem_singleton_self _)

theorem placed {side : Side} {price : Price} {token : StopToken} {id : ID} (h : Tracks c active)
    (hroom : active.size < maxActiveOrders) (hsynced : c'.Synced) (hlisted : Listed price)
    (hplaced : c.Placed side price token id c') :
    c'.Logged ∧ c.rested ≤ c'.rested ∧ (token = none → c'.rested < 2 ^ 64 → Tracks c' (keep active id)) := by
  have hless : c.resting.length < maxActiveOrders := Nat.lt_of_le_of_lt h.resting_le hroom
  cases hplaced with
  | filled trades htrades hextends hholds hnext =>
    have hrested := Clob.rested_trades htrades hextends
    have hshrinks := (shrinks_applyAll c.resting htrades).1
    rw [← hextends.resting] at hshrinks
    have hlogged := h.logged.place trades [] htrades (by rw [List.append_nil]; exact hextends) hsynced
      (Nat.le_of_lt hless) (Or.inl rfl)
    refine ⟨hlogged, Nat.le_of_eq hrested.symm, fun _ _ => ?_⟩
    exact h.shrink hholds hlogged hnext hrested hshrinks (List.Subperm.refl _)
      fun o ho => (h.of_shrinks hshrinks o ho).2
  | rested trades left htrades hextends hrepresents hholds hnext =>
    have hrested : c'.rested = c.rested + 1 := by
      rw [Clob.rested_extends hextends, List.countP_append, List.countP_eq_zero.mpr]
      · rfl
      · intro trade htrade
        rw [htrades trade htrade]
        decide
    have hlogged := h.logged.place trades _ htrades hextends hsynced (Nat.le_of_lt hless) (Or.inr ⟨hless, _, rfl⟩)
    refine ⟨hlogged, by omega, fun _ hfew => ?_⟩
    exact h.join hroom hlogged hlisted htrades hextends hrested hholds hnext hfew
  | stopped trades htrades hextends hholds htoken =>
    have hlogged := h.logged.place trades [] htrades (by rw [List.append_nil]; exact hextends) hsynced
      (Nat.le_of_lt hless) (Or.inl rfl)
    exact ⟨hlogged, Nat.le_of_eq (Clob.rested_trades htrades hextends).symm, fun hnone => absurd hnone htoken⟩

/-- An id is taken out, and its order is cancelled if it rests. -/
theorem cancelled {id : ID} (h : Tracks c active) (token : StopToken)
    (hperm : (id :: active'.items).Perm active.items) (hrests : id ∈ c.resting.map Order.orderId) :
    ∃ c', c.cancelOrder ⟨id, 0, 0, .cancel⟩ token = some (.ok (), c') ∧ c'.Logged ∧ c.rested ≤ c'.rested ∧
      (token = none → Tracks c' active' ∧ c'.rested = c.rested ∧
        c'.resting = c.resting.filter fun o => o.orderId ≠ id) := by
  obtain ⟨book, hholds⟩ := h.holds
  obtain ⟨c', hcancel, hafter⟩ := hholds.cancelOrder_progress ⟨id, 0, 0, .cancel⟩ token hrests
  refine ⟨c', hcancel, ?_⟩
  rcases hafter with ⟨hextends, hnext, hholds'⟩ | ⟨htoken, hsame⟩
  · have hresting : c'.resting = c.resting.filter fun o => o.orderId ≠ id := by
      rw [hextends.resting]
      exact amend_none id c.resting
    have hshrinks : Shrinks c'.resting c.resting := by
      rw [hresting]
      exact fun o ho => ⟨o, (List.mem_filter.mp ho).1, rfl, rfl, rfl⟩
    have hrested : c'.rested = c.rested := Clob.rested_extends hextends
    have hlogged : c'.Logged := by
      refine h.logged.extend hextends (h.logged.synced.cancelOrder hcancel) ?_
      intro more hmore
      have hfew := Nat.le_trans h.resting_le active.size_le
      rcases List.prefix_cons_iff.mp hmore with hnil | ⟨rest, hrest, hnil⟩
      · rw [hnil]
        exact hfew
      · rw [hrest, List.prefix_nil.mp hnil, ← hextends.resting, hresting]
        exact Nat.le_trans (List.length_filter_le _ _) hfew
    refine ⟨hlogged, Nat.le_of_eq hrested.symm, fun _ => ⟨?_, hrested, hresting⟩⟩
    refine h.shrink hholds' hlogged hnext hrested hshrinks ?_ ?_
    · exact (List.sublist_cons_self id active'.items).subperm.trans hperm.subperm
    · intro o ho
      rw [hresting, List.mem_filter] at ho
      rcases List.mem_cons.mp (hperm.mem_iff.mpr (h.tracked o ho.1)) with heq | hmem
      · exact absurd heq (of_decide_eq_true ho.2)
      · exact hmem
  · rw [hsame]
    exact ⟨h.logged, Nat.le_refl _, fun hnone => absurd hnone htoken⟩

/-- An id whose order does not rest any more is dropped. -/
theorem dropped {id : ID} (h : Tracks c active) (hperm : (id :: active'.items).Perm active.items)
    (hgone : id ∉ c.resting.map Order.orderId) : Tracks c active' := by
  refine h.shrink h.holds h.logged rfl rfl (Shrinks.refl _) ?_ ?_
  · exact (List.sublist_cons_self id active'.items).subperm.trans hperm.subperm
  · intro o ho
    rcases List.mem_cons.mp (hperm.mem_iff.mpr (h.tracked o ho)) with heq | hmem
    · exact absurd (List.mem_map.mpr ⟨o, ho, heq⟩) hgone
    · exact hmem

end Tracks

/-! ## One step -/

namespace MarketRequestGenerator

variable {m m' : MarketRequestGenerator source}

/-- A new order waits only for the purge that it has called. -/
def Serves (callee caller : GeneratorCall) : Prop :=
  ∀ side, caller = .postNewOrder side → callee = .purgeActiveOrders

structure Sound (m : MarketRequestGenerator source) : Prop where
  tracks : Tracks m.clob m.activeOrderIds
  nested : m.calls.IsChain Serves
  room : ∀ side calls, m.calls = .postNewOrder side :: calls → m.activeOrderIds.size < maxActiveOrders

theorem new_sound (generator : source.State) : (new generator : MarketRequestGenerator source).Sound := by
  have hfew : (Clob.init : Clob).rested < 2 ^ 64 := by
    rw [show (Clob.init : Clob).rested = 0 from rfl]
    decide
  refine ⟨⟨⟨[], Clob.holds_init⟩, Clob.logged_init, nofun, rfl, hfew, nofun, List.nodup_nil, nofun⟩, ?_, nofun⟩
  exact List.isChain_cons_cons.mpr ⟨nofun, List.isChain_singleton _⟩

/-- The call on top is not a new order. -/
def Idle (calls : List GeneratorCall) : Prop := ∀ side rest, calls ≠ .postNewOrder side :: rest

omit [StdHash Price] [StdHash ID] in
theorem nested_push (callee : GeneratorCall) {calls : List GeneratorCall} (h : calls.IsChain Serves)
    (hidle : Idle calls) : (callee :: calls).IsChain Serves := by
  cases calls with
  | nil => exact List.isChain_singleton _
  | cons caller calls =>
    exact List.isChain_cons_cons.mpr ⟨fun side heq => absurd (by rw [heq]) (hidle side calls), h⟩

/-- Another call than the purge returns. -/
theorem Sound.pop (h : m.Sound) {call : GeneratorCall} {calls : List GeneratorCall}
    (hcalls : m.calls = call :: calls) (hcall : call ≠ .purgeActiveOrders) : Sound { m with calls } ∧ Idle calls := by
  have hnested := h.nested
  rw [hcalls] at hnested
  have hidle : Idle calls := by
    intro side rest heq
    rw [heq] at hnested
    exact hcall ((List.isChain_cons_cons.mp hnested).1 side rfl)
  exact ⟨⟨h.tracks, hnested.tail, fun side rest heq => absurd heq (hidle side rest)⟩, hidle⟩

/-- A step with nothing to do for the book. -/
theorem Sound.moves (h : m.Sound) (hclob : m'.clob = m.clob) (hactive : m'.activeOrderIds = m.activeOrderIds)
    (hnested : m'.calls.IsChain Serves) (hidle : Idle m'.calls) : m'.Sound := by
  refine ⟨?_, hnested, fun side calls heq => absurd heq (hidle side calls)⟩
  rw [hclob, hactive]
  exact h.tracks

/-- What a step leaves, whether or not the stop comes in it. -/
def Leaves (m : MarketRequestGenerator source) (token : StopToken) (m' : MarketRequestGenerator source) : Prop :=
  m'.clob.Logged ∧ m.clob.rested ≤ m'.clob.rested ∧ (token = none → m'.clob.rested < 2 ^ 64 → m'.Sound)

theorem Sound.leaves_same (h : m.Sound) {token : StopToken} (hclob : m'.clob = m.clob)
    (hsound : token = none → m'.Sound) : m.Leaves token m' := by
  rw [Leaves, hclob]
  exact ⟨h.tracks.logged, Nat.le_refl _, fun hnone _ => hsound hnone⟩

theorem Sound.postNewOrder (h : m.Sound) (side : Side) (token : StopToken)
    (hroom : m.activeOrderIds.size < maxActiveOrders) (hidle : Idle m.calls) :
    ∃ m', m.postNewOrder side token = some m' ∧ m.Leaves token m' := by
  obtain ⟨id, c', hsubmit, hsynced, hplaced⟩ := Tracks.submitNewRequest m h.tracks side token
  have hlisted := newRequest_listed (h.tracks.showsListed rfl) side
  obtain ⟨hlogged, hrested, htracks⟩ := h.tracks.placed hroom hsynced hlisted hplaced
  refine ⟨{ m with
    activeOrderIds := Tracks.keep m.activeOrderIds id, clob := c', generator := (m.newRequest side).2 }, ?_, ?_⟩
  · rw [MarketRequestGenerator.postNewOrder, hsubmit]
    rfl
  · refine ⟨hlogged, hrested, fun hnone hfew => ⟨htracks hnone hfew, h.nested, ?_⟩⟩
    exact fun side calls heq => absurd heq (hidle side calls)

theorem Sound.postCancelRequest (h : m.Sound) (token : StopToken)
    (hidle : Idle m.calls) :
    ∃ m', m.postCancelRequest token = some m' ∧ m.Leaves token m' := by
  rw [MarketRequestGenerator.postCancelRequest]
  by_cases hempty : m.activeOrderIds.isEmpty = true
  · rw [if_pos hempty]
    exact ⟨m, rfl, h.leaves_same rfl fun _ => h⟩
  · obtain ⟨id, active, g, hremove, hperm⟩ :=
      m.activeOrderIds.removeRandom_spec m.generator (m.activeOrderIds.items_ne_nil hempty)
    rw [if_neg hempty, hremove]
    simp only [Option.bind_eq_bind, Option.bind_some]
    by_cases hexists : m.clob.state.orderExists id = true
    · obtain ⟨c', hcancel, hlogged, hrested, htracks⟩ :=
        h.tracks.cancelled token hperm ((h.tracks.exists_iff id).mp hexists)
      have hsubmit : m.clob.submit 0 ⟨id, 0, 0, .cancel⟩ token = some (.ok invalidOrderId, c') := by
        rw [Clob.submit_cancel, hcancel]
        rfl
      rw [if_pos hexists, hsubmit]
      refine ⟨{ m with activeOrderIds := active, clob := c', generator := g }, rfl, hlogged, hrested, ?_⟩
      exact fun hnone _ => ⟨(htracks hnone).1, h.nested, fun side calls heq => absurd heq (hidle side calls)⟩
    · rw [if_neg hexists]
      refine ⟨{ m with calls := .cancelRequest :: m.calls, activeOrderIds := active, generator := g }, rfl,
        h.leaves_same rfl fun _ => ?_⟩
      have hgone : id ∉ m.clob.resting.map Order.orderId :=
        fun hmem => hexists ((h.tracks.exists_iff id).mpr hmem)
      exact ⟨h.tracks.dropped hperm hgone, nested_push _ h.nested hidle, nofun⟩

/-- Calls are made, none of which posts a new order. -/
structure Moves (m m' : MarketRequestGenerator source) (pushed : List GeneratorCall) : Prop where
  clob : m'.clob = m.clob
  activeOrderIds : m'.activeOrderIds = m.activeOrderIds
  calls : m'.calls = pushed ++ m.calls
  idle : ∀ call ∈ pushed, ∀ side, call ≠ .postNewOrder side

section

omit [StdHash Price] [StdHash ID]

theorem start_moves (m : MarketRequestGenerator source) (token : StopToken) :
    ∃ pushed, Moves m (m.start token) pushed := by
  rw [start]
  split
  · exact ⟨[], rfl, rfl, rfl, nofun⟩
  · rw [generateAndPostRandomOrderRequest]
    split
    split
    · exact ⟨[.cancelRequest, .start], rfl, rfl, rfl, by simp⟩
    · split
      · exact ⟨[.newOrderRequest .buy, .start], rfl, rfl, rfl, by simp⟩
      · exact ⟨[.newOrderRequest .sell, .start], rfl, rfl, rfl, by simp⟩

theorem populateActiveOrders_moves (m : MarketRequestGenerator source) (token : StopToken) :
    ∃ pushed, Moves m (m.populateActiveOrders token) pushed := by
  rw [populateActiveOrders]
  split
  · exact ⟨[.newOrderRequest _, .populateActiveOrders], rfl, rfl, rfl, by simp⟩
  · exact ⟨[], rfl, rfl, rfl, nofun⟩

end

theorem Sound.of_moves (h : m.Sound) (hidle : Idle m.calls) {pushed : List GeneratorCall}
    (hmoves : Moves m m' pushed) : m'.Sound := by
  have hcalls : (pushed ++ m.calls).IsChain Serves ∧ Idle (pushed ++ m.calls) := by
    have hpushed := hmoves.idle
    clear hmoves
    induction pushed with
    | nil => exact ⟨h.nested, hidle⟩
    | cons call pushed ih =>
      obtain ⟨hnested, hidle'⟩ := ih fun x hx => hpushed x (List.mem_cons_of_mem _ hx)
      refine ⟨nested_push call hnested hidle', fun side rest heq => ?_⟩
      exact hpushed call List.mem_cons_self side (List.cons.inj heq).1
  rw [← hmoves.calls] at hcalls
  exact h.moves hmoves.clob hmoves.activeOrderIds hcalls.1 hcalls.2

theorem Sound.generateAndPostCancelRequest (h : m.Sound) (token : StopToken) (hidle : Idle m.calls) :
    ∃ m', m.generateAndPostCancelRequest token = some m' ∧ m.Leaves token m' := by
  rw [MarketRequestGenerator.generateAndPostCancelRequest]
  rcases StopToken.stopRequested_spec token with ⟨hgo, -⟩ | ⟨hstop, -⟩
  · rw [hgo]
    by_cases hempty : m.activeOrderIds.isEmpty = true
    · have hmoves : Moves m { m with calls := .populateActiveOrders :: .cancelPopulated :: m.calls }
          [.populateActiveOrders, .cancelPopulated] := ⟨rfl, rfl, rfl, by simp⟩
      exact ⟨_, if_pos hempty, h.leaves_same rfl fun _ => h.of_moves hidle hmoves⟩
    · obtain ⟨m', hpost, hlogged, hrested, hsound⟩ := h.postCancelRequest token.stopRequested.2 hidle
      refine ⟨m', (if_neg hempty).trans hpost, hlogged, hrested, fun hnone => hsound ?_⟩
      rw [hnone]
      rfl
  · rw [hstop]
    exact ⟨m, rfl, h.leaves_same rfl fun _ => h⟩

/-- A new order that finds the ids full calls for a purge. -/
theorem Sound.generateAndPostNewOrderRequest (h : m.Sound) (hidle : Idle m.calls) (side : Side) :
    (m.generateAndPostNewOrderRequest side).Sound := by
  rw [MarketRequestGenerator.generateAndPostNewOrderRequest]
  have hnested := nested_push (.postNewOrder side) h.nested hidle
  split
  · exact ⟨h.tracks, List.isChain_cons_cons.mpr ⟨fun _ _ => rfl, hnested⟩, nofun⟩
  · next hfull =>
    refine ⟨h.tracks, hnested, fun _ _ _ => ?_⟩
    have hne : m.activeOrderIds.size ≠ maxActiveOrders := fun heq => hfull (decide_eq_true heq)
    exact Nat.lt_of_le_of_ne m.activeOrderIds.size_le hne

/-- The purge returns only when there is room, unless the stop comes. -/
theorem Sound.purgeActiveOrders (h : m.Sound) {calls : List GeneratorCall}
    (hcalls : m.calls = .purgeActiveOrders :: calls) :
    (purgeActiveOrders { m with calls } none).Sound := by
  have hnested := h.nested
  rw [hcalls] at hnested
  rw [MarketRequestGenerator.purgeActiveOrders]
  split
  · exact h.moves rfl rfl (nested_push .cancelRequest hnested nofun) nofun
  · next hend =>
    refine ⟨h.tracks, hnested.tail, fun _ _ _ => ?_⟩
    have hle : ¬ purgeUntilWhenFull < m.activeOrderIds.size := fun hlt => hend (by
      simp only [StopToken.stopRequested, Bool.not_false, Bool.true_and]
      exact decide_eq_true hlt)
    have hsmall : purgeUntilWhenFull < maxActiveOrders := by decide
    show m.activeOrderIds.size < maxActiveOrders
    omega

omit [StdHash Price] [StdHash ID] in
theorem purgeActiveOrders_clob (m : MarketRequestGenerator source) (token : StopToken) :
    (m.purgeActiveOrders token).clob = m.clob := by
  rw [purgeActiveOrders]
  split <;> rfl

theorem Sound.step (h : m.Sound) (token : StopToken) : ∃ m', m.step token = some m' ∧ m.Leaves token m' := by
  cases hcalls : m.calls with
  | nil =>
    have hstep : m.step token = some m := by rw [MarketRequestGenerator.step, hcalls]
    exact ⟨m, hstep, h.leaves_same rfl fun _ => h⟩
  | cons call calls =>
    have hstep : m.step token = resume { m with calls } token call := by
      rw [MarketRequestGenerator.step, hcalls]
    rw [hstep]
    cases call with
    | start =>
      obtain ⟨hpop, hidle⟩ := h.pop hcalls nofun
      obtain ⟨pushed, hmoves⟩ := start_moves { m with calls } token
      exact ⟨_, rfl, h.leaves_same hmoves.clob fun _ => hpop.of_moves hidle hmoves⟩
    | populateActiveOrders =>
      obtain ⟨hpop, hidle⟩ := h.pop hcalls nofun
      obtain ⟨pushed, hmoves⟩ := populateActiveOrders_moves { m with calls } token
      exact ⟨_, rfl, h.leaves_same hmoves.clob fun _ => hpop.of_moves hidle hmoves⟩
    | purgeActiveOrders =>
      refine ⟨_, rfl, h.leaves_same (purgeActiveOrders_clob { m with calls } token) fun hnone => ?_⟩
      rw [hnone]
      exact h.purgeActiveOrders hcalls
    | cancelRequest =>
      obtain ⟨hpop, hidle⟩ := h.pop hcalls nofun
      exact hpop.generateAndPostCancelRequest token hidle
    | cancelPopulated =>
      obtain ⟨hpop, hidle⟩ := h.pop hcalls nofun
      exact hpop.postCancelRequest token hidle
    | newOrderRequest side =>
      obtain ⟨hpop, hidle⟩ := h.pop hcalls nofun
      refine ⟨_, rfl, h.leaves_same ?_ fun _ => hpop.generateAndPostNewOrderRequest hidle side⟩
      rw [MarketRequestGenerator.generateAndPostNewOrderRequest]
      split <;> rfl
    | postNewOrder side =>
      obtain ⟨hpop, hidle⟩ := h.pop hcalls nofun
      exact hpop.postNewOrder side token (h.room side calls hcalls) hidle

theorem step_post {side : Side} {calls : List GeneratorCall} {id : ID} {c' : Clob}
    (hcalls : m.calls = .postNewOrder side :: calls) (hsubmit : m.submitNewRequest side none = some (.ok id, c')) :
    m.step none = some { m with
      calls, activeOrderIds := Tracks.keep m.activeOrderIds id, clob := c',
      generator := (m.newRequest side).2 } := by
  rw [MarketRequestGenerator.step, hcalls]
  show MarketRequestGenerator.postNewOrder { m with calls } side none = _
  rw [MarketRequestGenerator.postNewOrder]
  show (m.submitNewRequest side none).bind _ = _
  rw [hsubmit]
  rfl

theorem step_cancel {calls : List GeneratorCall} {id : ID} {active : RandomContainer ID maxActiveOrders}
    {g : source.State} (hcalls : m.calls = .cancelRequest :: calls)
    (hremove : m.activeOrderIds.removeRandom m.generator = some (id, active, g))
    (hexists : m.clob.state.orderExists id = true) :
    m.step none = (m.clob.cancelOrder ⟨id, 0, 0, .cancel⟩ none).map fun result =>
      { m with calls, activeOrderIds := active, clob := result.2, generator := g } := by
  have hempty : ¬ m.activeOrderIds.isEmpty = true := by
    intro hempty
    have hnil : m.activeOrderIds.items = [] := List.eq_nil_of_length_eq_zero (of_decide_eq_true hempty)
    rw [RandomContainer.removeRandom, hnil] at hremove
    cases hremove
  rw [MarketRequestGenerator.step, hcalls]
  show MarketRequestGenerator.generateAndPostCancelRequest { m with calls } none = _
  rw [MarketRequestGenerator.generateAndPostCancelRequest]
  simp only [StopToken.stopRequested, Bool.false_eq_true, if_false, hempty]
  rw [MarketRequestGenerator.postCancelRequest, if_neg hempty, hremove]
  simp only [Option.bind_eq_bind, Option.bind_some, hexists, if_true, Clob.submit_cancel]
  cases m.clob.cancelOrder ⟨id, 0, 0, .cancel⟩ none with
  | none => rfl
  | some result => rfl

/-! ## Whole runs -/

theorem submitNewRequest_stopped (m : MarketRequestGenerator source) (side : Side) :
    m.submitNewRequest side (some 0) = some (.ok invalidOrderId, m.clob) := by
  rw [m.submitNewRequest_eq, Clob.placeOrder_stopped]
  rfl

theorem postCancelRequest_stopped (m : MarketRequestGenerator source) :
    ∃ m', m.postCancelRequest (some 0) = some m' ∧ m'.clob = m.clob := by
  rw [postCancelRequest]
  by_cases hempty : m.activeOrderIds.isEmpty = true
  · exact ⟨m, if_pos hempty, rfl⟩
  · obtain ⟨id, active, g, hremove, -⟩ :=
      m.activeOrderIds.removeRandom_spec m.generator (m.activeOrderIds.items_ne_nil hempty)
    rw [if_neg hempty, hremove]
    simp only [Option.bind_eq_bind, Option.bind_some]
    split
    · obtain ⟨result, hcancel⟩ := m.clob.cancelOrder_stopped ⟨id, 0, 0, .cancel⟩
      rw [Clob.submit_cancel, hcancel]
      exact ⟨_, rfl, rfl⟩
    · exact ⟨_, rfl, rfl⟩

/-- After the stop no step changes the book. -/
theorem step_stopped (m : MarketRequestGenerator source) :
    ∃ m', m.step (some 0) = some m' ∧ m'.clob = m.clob := by
  rw [MarketRequestGenerator.step]
  split
  · exact ⟨m, rfl, rfl⟩
  · next call calls _ =>
    cases call with
    | start | populateActiveOrders | purgeActiveOrders | cancelRequest => exact ⟨{ m with calls }, rfl, rfl⟩
    | cancelPopulated => exact postCancelRequest_stopped { m with calls }
    | newOrderRequest side =>
      refine ⟨_, rfl, ?_⟩
      rw [generateAndPostNewOrderRequest]
      split <;> rfl
    | postNewOrder side =>
      show ∃ m', postNewOrder { m with calls } side (some 0) = some m' ∧ _
      rw [MarketRequestGenerator.postNewOrder, submitNewRequest_stopped]
      exact ⟨_, rfl, rfl⟩

theorem after_spec (generator : source.State) (moment : StopMoment) (n : Nat)
    (hids : ∀ i ≤ n, ∀ m : MarketRequestGenerator source, after generator moment i = some m →
      m.clob.rested < 2 ^ 64) :
    ∃ m : MarketRequestGenerator source, after generator moment n = some m ∧ m.clob.Logged ∧
      (moment.Later n → m.Sound) := by
  induction n with
  | zero => exact ⟨new generator, rfl, Clob.logged_init, fun _ => new_sound generator⟩
  | succ n ih =>
    obtain ⟨m, hm, hlogged, hsound⟩ := ih fun i hi => hids i (Nat.le_succ_of_le hi)
    have hnext : ∀ {m' : MarketRequestGenerator source}, m.step (moment.token n) = some m' →
        after generator moment (n + 1) = some m' := by
      intro m' hstep
      rw [after, hm]
      exact hstep
    rcases moment.token_cases n with ⟨hlater, htoken⟩ | ⟨hlater, htoken⟩
    · obtain ⟨m', hstep, hlogged', -, hsound'⟩ := (hsound hlater).step (moment.token n)
      exact ⟨m', hnext hstep, hlogged', fun hlater' =>
        hsound' (htoken hlater') (hids (n + 1) (Nat.le_refl _) m' (hnext hstep))⟩
    · obtain ⟨m', hstep, hclob⟩ := m.step_stopped
      rw [← htoken] at hstep
      refine ⟨m', hnext hstep, ?_, fun hlater' => absurd hlater' hlater⟩
      rw [hclob]
      exact hlogged

/-- The generator knows every order that rests, and no id twice. -/
def Known (m : MarketRequestGenerator source) : Prop :=
  (∀ id, m.clob.state.orderExists id = true → id ∈ m.activeOrderIds.items) ∧ m.activeOrderIds.items.Nodup

/-- The book is what the published events make of an empty one, and after each of them at most
`maxActiveOrders` orders rest. -/
def NeverFull (m : MarketRequestGenerator source) : Prop :=
  m.clob.Synced ∧ ∀ events, events <+: m.clob.published →
    ∃ s, (BookState.init : BookState).executeAll events = some s ∧ s.RestingAtMost maxActiveOrders

/-- If the next step posts a new order that rests then its id is added. -/
def AddsFit (m : MarketRequestGenerator source) (token : StopToken) : Prop :=
  ∀ side calls, m.calls = .postNewOrder side :: calls → ∀ id c, m.submitNewRequest side token = some (.ok id, c) →
    id ≠ invalidOrderId → c.state.orderExists id = true → (m.activeOrderIds.add id).1 = true

/-- As long as at most 2^64 - 1 orders come to rest, no access is undefined, the generator knows
the orders that rest until the stop is requested, and there are never too many of them. -/
theorem generator_keeps_to_capacity (generator : source.State) (moment : StopMoment) (n : Nat)
    (hids : ∀ i ≤ n, ∀ m : MarketRequestGenerator source, after generator moment i = some m →
      m.clob.rested < 2 ^ 64) :
    ∃ m : MarketRequestGenerator source, after generator moment n = some m ∧ m.NeverFull ∧
      m.AddsFit (moment.token n) ∧ (moment.Later n → m.Known) := by
  obtain ⟨m, hm, hlogged, hsound⟩ := after_spec generator moment n hids
  refine ⟨m, hm, ⟨hlogged.synced, fun events hevents => hlogged.restingAtMost hevents⟩, ?_, ?_⟩
  · intro side calls hcalls id c hsubmit hreal _
    rcases moment.token_cases n with ⟨hlater, -⟩ | ⟨-, htoken⟩
    · exact (RandomContainer.add_of_lt ((hsound hlater).room side calls hcalls) id).1
    · rw [htoken, submitNewRequest_stopped] at hsubmit
      cases hsubmit
      exact absurd rfl hreal
  · intro hlater
    refine ⟨fun id hexists => ?_, (hsound hlater).tracks.nodup⟩
    obtain ⟨o, ho, hid⟩ := List.mem_map.mp (((hsound hlater).tracks.exists_iff id).mp hexists)
    rw [← hid]
    exact (hsound hlater).tracks.tracked o ho

end MarketRequestGenerator

end

/-! ## The id counter comes round -/

/-- Draws that make every request a small buy. -/
def buyingSource : RandomSource where
  State := Unit
  real g := (9 / 20, g)
  uniform low _ g := (low, g)
  real_mem _ := ⟨by norm_num, by norm_num⟩
  uniform_mem _ _ _ h := ⟨le_refl _, h⟩

/-- The loops in which the buying generator can be. -/
def Outer (calls : List GeneratorCall) : Prop := calls = [.start] ∨ calls = [.populateActiveOrders, .start]

inductive BuyingCalls (size : Nat) : List GeneratorCall → Prop
  | loop {outer : List GeneratorCall} (h : Outer outer) : BuyingCalls size outer
  | newOrder {outer : List GeneratorCall} (h : Outer outer) : BuyingCalls size (.newOrderRequest .buy :: outer)
  | post {outer : List GeneratorCall} (h : Outer outer) : BuyingCalls size (.postNewOrder .buy :: outer)
  | purge {outer : List GeneratorCall} (h : Outer outer) :
      BuyingCalls size (.purgeActiveOrders :: .postNewOrder .buy :: outer)
  | cancel {outer : List GeneratorCall} (h : Outer outer) (hsize : purgeUntilWhenFull < size) :
      BuyingCalls size (.cancelRequest :: .purgeActiveOrders :: .postNewOrder .buy :: outer)

/-- At most that many steps before the next order is posted. -/
def GeneratorCall.distance (size : Nat) : List GeneratorCall → Nat
  | .postNewOrder _ :: _ => 0
  | .cancelRequest :: _ => 2 * (size - purgeUntilWhenFull)
  | .purgeActiveOrders :: _ => 2 * (size - purgeUntilWhenFull) + 1
  | .newOrderRequest _ :: _ => 2 * (maxActiveOrders - purgeUntilWhenFull) + 2
  | .start :: _ => 2 * (maxActiveOrders - purgeUntilWhenFull) + 3
  | _ => 2 * (maxActiveOrders - purgeUntilWhenFull) + 4

namespace MarketRequestGenerator

variable [StdHash Price] [StdHash ID] {m m' : MarketRequestGenerator buyingSource}

/-- Only buys rest, and all that the generator has not cancelled. -/
structure Buying (m : MarketRequestGenerator buyingSource) : Prop where
  sound : m.Sound
  buys : ∀ o ∈ m.clob.resting, o.side = .buy
  rests : ∀ id ∈ m.activeOrderIds.items, id ∈ m.clob.resting.map Order.orderId
  calls : BuyingCalls m.activeOrderIds.size m.calls

/-- A step that leaves the book alone. -/
theorem Buying.move (h : m.Buying) (hstep : m.step none = some m') (hclob : m'.clob = m.clob)
    (hactive : m'.activeOrderIds = m.activeOrderIds) (hcalls : BuyingCalls m.activeOrderIds.size m'.calls) :
    m'.Buying := by
  obtain ⟨m₁, hstep₁, -, -, hsound⟩ := h.sound.step none
  rw [hstep, Option.some.injEq] at hstep₁
  refine ⟨?_, ?_, ?_, ?_⟩
  · rw [← hstep₁] at hsound
    exact hsound rfl (by rw [hclob]; exact h.sound.tracks.few)
  · rw [hclob]
    exact h.buys
  · rw [hclob, hactive]
    exact h.rests
  · rw [hactive]
    exact hcalls

section

omit [StdHash Price] [StdHash ID]

theorem start_buying (m : MarketRequestGenerator buyingSource) :
    m.start none = { m with calls := .newOrderRequest .buy :: .start :: m.calls } := by
  have hkeep : ¬ (9 / 20 : ℚ) < cancelProbability := by norm_num [cancelProbability]
  have hbuy : (9 / 20 : ℚ) < cancelOrBuyProbability := by norm_num [cancelOrBuyProbability]
  exact (if_neg hkeep).trans (if_pos hbuy)

theorem populateActiveOrders_buying (m : MarketRequestGenerator buyingSource) :
    m.populateActiveOrders none =
      if m.activeOrderIds.size < populateWhenEmpty then
        { m with calls := .newOrderRequest .buy :: .populateActiveOrders :: m.calls }
      else m := by
  have hbuy : (buyingSource.real m.generator).1 < normalizedBuySellProbability := by
    show (9 / 20 : ℚ) < normalizedBuySellProbability
    norm_num [normalizedBuySellProbability]
  rw [populateActiveOrders]
  simp only [StopToken.stopRequested, Bool.not_false, Bool.true_and, decide_eq_true_eq, hbuy, if_true]
  rfl

theorem purgeActiveOrders_none (m : MarketRequestGenerator buyingSource) :
    m.purgeActiveOrders none =
      if purgeUntilWhenFull < m.activeOrderIds.size then
        { m with calls := .cancelRequest :: .purgeActiveOrders :: m.calls }
      else m := by
  rw [purgeActiveOrders]
  simp only [StopToken.stopRequested, Bool.not_false, Bool.true_and, decide_eq_true_eq]

end

/-- One order is cancelled for the purge. -/
theorem Buying.cancel (h : m.Buying) {calls : List GeneratorCall} (hcalls : m.calls = .cancelRequest :: calls)
    (hafter : BuyingCalls (m.activeOrderIds.size - 1) calls) (hsize : m.activeOrderIds.size ≠ 0) :
    ∃ m', m.step none = some m' ∧ m'.Buying ∧ m'.clob.rested = m.clob.rested ∧ m'.calls = calls ∧
      m'.activeOrderIds.size = m.activeOrderIds.size - 1 := by
  have htracks := h.sound.tracks
  obtain ⟨hpop, hidle⟩ := h.sound.pop hcalls nofun
  have hempty : ¬ m.activeOrderIds.isEmpty = true := fun he => hsize (of_decide_eq_true he)
  obtain ⟨id, active, g, hremove, hperm⟩ :=
    m.activeOrderIds.removeRandom_spec m.generator (m.activeOrderIds.items_ne_nil hempty)
  have hid : id ∈ m.clob.resting.map Order.orderId :=
    h.rests id (hperm.mem_iff.mp List.mem_cons_self)
  obtain ⟨c', hcancel, -, -, htracks'⟩ := htracks.cancelled none hperm hid
  obtain ⟨htracks', hrested, hresting⟩ := htracks' rfl
  have hstep := step_cancel hcalls hremove ((htracks.exists_iff id).mpr hid)
  rw [hcancel, Option.map_some] at hstep
  have hlength : active.size = m.activeOrderIds.size - 1 := by
    have hcount := hperm.length_eq
    rw [List.length_cons] at hcount
    rw [RandomContainer.size, RandomContainer.size, ← hcount]
    rfl
  refine ⟨_, hstep, ⟨⟨htracks', hpop.nested, fun side rest heq => absurd heq (hidle side rest)⟩, ?_, ?_, ?_⟩,
    hrested, rfl, hlength⟩
  · intro o ho
    rw [hresting] at ho
    exact h.buys o (List.mem_filter.mp ho).1
  · intro id' hid'
    have hne : id' ≠ id := by
      intro heq
      have hnodup := hperm.nodup_iff.mpr htracks.nodup
      exact (List.nodup_cons.mp hnodup).1 (heq ▸ hid')
    obtain ⟨o, ho, heq⟩ := List.mem_map.mp (h.rests id' (hperm.mem_iff.mp (List.mem_cons_of_mem _ hid')))
    refine List.mem_map.mpr ⟨o, ?_, heq⟩
    show o ∈ c'.resting
    rw [hresting, List.mem_filter, heq]
    exact ⟨ho, decide_eq_true hne⟩
  · show BuyingCalls active.size calls
    rw [hlength]
    exact hafter

/-- Before an order is posted no order rests, and the post comes nearer. -/
theorem Buying.approach (h : m.Buying) (hfar : ∀ side calls, m.calls ≠ .postNewOrder side :: calls) :
    ∃ m', m.step none = some m' ∧ m'.Buying ∧ m'.clob.rested = m.clob.rested ∧
      GeneratorCall.distance m'.activeOrderIds.size m'.calls <
        GeneratorCall.distance m.activeOrderIds.size m.calls := by
  have hbuying := h.calls
  have hsize : m.activeOrderIds.size ≤ maxActiveOrders := m.activeOrderIds.size_le
  generalize hcalls : m.calls = calls at hbuying hfar
  have hstep : ∀ {call rest}, calls = call :: rest → m.step none = resume { m with calls := rest } none call := by
    intro call rest heq
    rw [step, hcalls, heq]
  cases hbuying with
  | loop houter =>
    rcases houter with rfl | rfl
    · have hnext : m.step none = some { m with calls := [.newOrderRequest .buy, .start] } :=
        (hstep rfl).trans (congrArg some (start_buying { m with calls := [] }))
      exact ⟨_, hnext, h.move hnext rfl rfl (.newOrder (Or.inl rfl)), rfl, Nat.lt_succ_self _⟩
    · have hnext := (hstep rfl).trans (congrArg some (populateActiveOrders_buying { m with calls := [.start] }))
      by_cases hfew : m.activeOrderIds.size < populateWhenEmpty
      · rw [if_pos hfew] at hnext
        refine ⟨_, hnext, h.move hnext rfl rfl (.newOrder (Or.inr rfl)), rfl, ?_⟩
        show 2 * (maxActiveOrders - purgeUntilWhenFull) + 2 < 2 * (maxActiveOrders - purgeUntilWhenFull) + 4
        omega
      · rw [if_neg hfew] at hnext
        exact ⟨_, hnext, h.move hnext rfl rfl (.loop (Or.inl rfl)), rfl, Nat.lt_succ_self _⟩
  | @newOrder outer houter =>
    have hnext : m.step none = some (generateAndPostNewOrderRequest { m with calls := outer } .buy) := hstep rfl
    rw [generateAndPostNewOrderRequest] at hnext
    by_cases hfull : m.activeOrderIds.isFull = true
    · rw [if_pos hfull] at hnext
      refine ⟨_, hnext, h.move hnext rfl rfl (.purge houter), rfl, ?_⟩
      show 2 * (m.activeOrderIds.size - purgeUntilWhenFull) + 1 < 2 * (maxActiveOrders - purgeUntilWhenFull) + 2
      omega
    · rw [if_neg hfull] at hnext
      exact ⟨_, hnext, h.move hnext rfl rfl (.post houter), rfl, Nat.succ_pos _⟩
  | post houter => exact absurd rfl (hfar .buy _)
  | @purge outer houter =>
    have hnext := (hstep rfl).trans
      (congrArg some (purgeActiveOrders_none { m with calls := .postNewOrder .buy :: outer }))
    by_cases hlarge : purgeUntilWhenFull < m.activeOrderIds.size
    · rw [if_pos hlarge] at hnext
      exact ⟨_, hnext, h.move hnext rfl rfl (.cancel houter hlarge), rfl, Nat.lt_succ_self _⟩
    · rw [if_neg hlarge] at hnext
      exact ⟨_, hnext, h.move hnext rfl rfl (.post houter), rfl, Nat.succ_pos _⟩
  | cancel houter hlarge =>
    obtain ⟨m', hnext, hbuying, hrested, hcalls', hsize'⟩ := h.cancel hcalls (.purge houter) (by omega)
    refine ⟨m', hnext, hbuying, hrested, ?_⟩
    rw [hcalls', hsize']
    show 2 * (m.activeOrderIds.size - 1 - purgeUntilWhenFull) + 1 <
      2 * (m.activeOrderIds.size - purgeUntilWhenFull)
    omega

/-- The next order rests under the next id, whatever that is. -/
theorem Buying.post (h : m.Buying) {calls : List GeneratorCall} (hcalls : m.calls = .postNewOrder .buy :: calls) :
    ∃ c' order, order.orderId = m.clob.nextOrderId ∧ order.side = .buy ∧
      m.step none = some { m with
        calls, activeOrderIds := Tracks.keep m.activeOrderIds m.clob.nextOrderId, clob := c',
        generator := (m.newRequest .buy).2 } ∧
      c'.resting = m.clob.resting ++ [order] ∧ c'.rested = m.clob.rested + 1 ∧
      c'.state.orderExists m.clob.nextOrderId = true := by
  have htracks := h.sound.tracks
  obtain ⟨book, hholds⟩ := htracks.holds
  have hq : (m.newRequest .buy).1.quantity ≠ 0 := by
    have hpassive : ¬ (9 / 20 : ℚ) < aggressiveOrderProbability := by norm_num [aggressiveOrderProbability]
    have hrequest : m.newRequest .buy = m.generatePassiveOrderRequest .buy := if_neg hpassive
    rw [hrequest]
    show (10 : Quantity) ≠ 0
    decide
  obtain ⟨c', hplace, -, hextends, book', hrep, horders, -⟩ := hholds.placeOrder_alone htracks.inside
    (m.newRequest .buy).1.quantity.toNat .buy (m.newRequest .buy).1 hq
    (fun o ho hside => by rw [h.buys o ho] at hside; cases hside) htracks.next_not_resting htracks.resting_lt
  refine ⟨c', ⟨m.clob.nextOrderId, (m.newRequest .buy).1.price, (m.newRequest .buy).1.quantity, .buy⟩, rfl, rfl,
    ?_, hextends.resting, Clob.rested_extends hextends, ?_⟩
  · have hsubmit : m.submitNewRequest .buy none = some (.ok m.clob.nextOrderId, c') := by
      rw [m.submitNewRequest_eq, hplace]
      rfl
    exact step_post hcalls hsubmit
  · rw [hrep.orderExists_iff, ids_eq, horders, hextends.resting]
    exact List.mem_map.mpr ⟨_, List.mem_append_right _ (List.mem_singleton_self _), rfl⟩

theorem Buying.outer (h : m.Buying) {side : Side} {calls : List GeneratorCall}
    (hcalls : m.calls = .postNewOrder side :: calls) : side = .buy ∧ Outer calls := by
  have hbuying := h.calls
  rw [hcalls] at hbuying
  cases hbuying with
  | loop houter =>
    rcases houter with heq | heq
    · cases heq
    · cases heq
  | post houter => exact ⟨rfl, houter⟩

/-- After the post the generator goes on, unless the counter has come round. -/
theorem Buying.posted (h : m.Buying) {calls : List GeneratorCall} (hcalls : m.calls = .postNewOrder .buy :: calls)
    (hfew : m.clob.rested + 1 < 2 ^ 64) :
    ∃ m', m.step none = some m' ∧ m'.Buying ∧ m'.clob.rested = m.clob.rested + 1 := by
  obtain ⟨c', order, hid, hside, hstep, hresting, hrested, -⟩ := h.post hcalls
  obtain ⟨m₁, hstep₁, -, -, hsound⟩ := h.sound.step none
  rw [hstep, Option.some.injEq] at hstep₁
  rw [← hstep₁] at hsound
  have hsound' := hsound rfl (by rw [hrested]; exact hfew)
  refine ⟨_, hstep, ⟨hsound', ?_, ?_, .loop (h.outer hcalls).2⟩, hrested⟩
  · intro o ho
    replace ho : o ∈ c'.resting := ho
    rw [hresting, List.mem_append, List.mem_singleton] at ho
    rcases ho with hold | rfl
    · exact h.buys o hold
    · exact hside
  · intro id hid'
    show id ∈ c'.resting.map Order.orderId
    rw [hresting, List.map_append, List.mem_append]
    have hitems : id ∈ m.activeOrderIds.items ∨ id = m.clob.nextOrderId := by
      replace hid' : id ∈ (Tracks.keep m.activeOrderIds m.clob.nextOrderId).items := hid'
      rw [Tracks.keep] at hid'
      split at hid'
      · rw [(RandomContainer.add_of_lt (h.sound.room _ _ hcalls) _).2, List.mem_append,
          List.mem_singleton] at hid'
        exact hid'
      · exact Or.inl hid'
    rcases hitems with hold | heq
    · exact Or.inl (h.rests id hold)
    · exact Or.inr (by rw [heq, ← hid]; exact List.mem_singleton_self _)

/-- A state of the run of the buying generator. -/
def Reached (m : MarketRequestGenerator buyingSource) : Prop := ∃ n, after () none n = some m

theorem Reached.step (h : m.Reached) (hstep : m.step none = some m') : m'.Reached := by
  obtain ⟨n, hn⟩ := h
  refine ⟨n + 1, ?_⟩
  show (after () none n).bind (fun m => m.step none) = some m'
  rw [hn]
  exact hstep

theorem Reached.toPost (h : m.Reached) (hbuying : m.Buying) :
    ∃ m' : MarketRequestGenerator buyingSource, m'.Reached ∧ m'.Buying ∧ m'.clob.rested = m.clob.rested ∧
      ∃ calls, m'.calls = .postNewOrder .buy :: calls := by
  generalize hd : GeneratorCall.distance m.activeOrderIds.size m.calls = d
  induction d using Nat.strong_induction_on generalizing m with
  | _ d ih =>
    by_cases hpost : ∃ side calls, m.calls = .postNewOrder side :: calls
    · obtain ⟨side, calls, hcalls⟩ := hpost
      exact ⟨m, h, hbuying, rfl, calls, (hbuying.outer hcalls).1 ▸ hcalls⟩
    · obtain ⟨m₁, hstep, hbuying₁, hrested, hless⟩ :=
        hbuying.approach fun side calls heq => hpost ⟨side, calls, heq⟩
      obtain ⟨m', h', hbuying', hrested', hcalls⟩ := ih _ (hd ▸ hless) (h.step hstep) hbuying₁ rfl
      exact ⟨m', h', hbuying', hrested'.trans hrested, hcalls⟩

/-- Any number of orders comes to rest. -/
theorem exists_posting (r : Nat) (hr : r < 2 ^ 64) :
    ∃ m : MarketRequestGenerator buyingSource, m.Reached ∧ m.Buying ∧ m.clob.rested = r ∧
      ∃ calls, m.calls = .postNewOrder .buy :: calls := by
  induction r with
  | zero =>
    have hnew : (new () : MarketRequestGenerator buyingSource).Buying :=
      ⟨new_sound _, nofun, nofun, .loop (Or.inr rfl)⟩
    exact Reached.toPost ⟨0, rfl⟩ hnew
  | succ r ih =>
    obtain ⟨m, h, hbuying, hrested, calls, hcalls⟩ := ih (Nat.lt_of_succ_lt hr)
    obtain ⟨m₁, hstep, hbuying₁, hrested₁⟩ := hbuying.posted hcalls (by rw [hrested]; exact hr)
    obtain ⟨m', h', hbuying', hrested', hcalls'⟩ := (h.step hstep).toPost hbuying₁
    exact ⟨m', h', hbuying', by omega, hcalls'⟩

end MarketRequestGenerator

section

attribute [local instance] priceHash idHash

/-- Two buys have come to rest when the stop is requested, while the third is posted. -/
def stoppedBuying (n : Nat) : Option (MarketRequestGenerator buyingSource) :=
  MarketRequestGenerator.after () (some (8, 1)) n

theorem generator_keeps_to_capacity_stoppedBuying :
    (stoppedBuying 9).map (fun m => m.clob.rested) = some 2 ∧
      ∃ m, stoppedBuying 9 = some m ∧ m.NeverFull ∧ m.AddsFit (some 0) ∧
        (StopMoment.Later (some (8, 1)) 9 → m.Known) := by
  have hall : ∀ i ≤ 9, ((stoppedBuying i).all fun m => decide (m.clob.rested < 2 ^ 64)) = true := by
    decide +kernel
  refine ⟨by decide +kernel, ?_⟩
  refine @MarketRequestGenerator.generator_keeps_to_capacity _ _ buyingSource () (some (8, 1)) 9 ?_
  intro i hi m hm
  have hi' := hall i hi
  rw [stoppedBuying, hm] at hi'
  exact of_decide_eq_true hi'

/-- After 2^64 - 1 orders the next one rests under the id that means "no order", and the
generator does not keep it. -/
theorem generator_loses_order :
    ¬ ∀ (source : RandomSource) (generator : source.State) (moment : StopMoment) (n : Nat),
      ∃ m, MarketRequestGenerator.after generator moment n = some m ∧ m.NeverFull ∧
        m.AddsFit (moment.token n) ∧ (moment.Later n → m.Known) := by
  intro h
  obtain ⟨m, hreached, hbuying, hrested, calls, hcalls⟩ :=
    MarketRequestGenerator.exists_posting (2 ^ 64 - 1) (by decide)
  have hzero : m.clob.nextOrderId = invalidOrderId := by
    rw [hbuying.sound.tracks.next, hrested]
    rfl
  obtain ⟨c', order, -, -, hstep, -, -, hexists⟩ := hbuying.post hcalls
  obtain ⟨n, hn⟩ := hreached.step hstep
  obtain ⟨m', hm', -, -, hknown⟩ := h buyingSource () none n
  rw [hn, Option.some.injEq] at hm'
  rw [← hm'] at hknown
  have hmem := (hknown trivial).1 _ hexists
  replace hmem : m.clob.nextOrderId ∈ (Tracks.keep m.activeOrderIds m.clob.nextOrderId).items := hmem
  rw [hzero, Tracks.keep, if_neg (not_not.mpr rfl)] at hmem
  exact (hbuying.sound.tracks.known _ hmem).1 rfl

end

end HftPipeline
