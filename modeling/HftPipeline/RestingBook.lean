import HftPipeline.BookState

/-!
# The resting orders as one list

What a book is for: the list of the resting orders in arrival order, here with
the pool slot of each. The queue of a price is the part of the list at that
price, and everything the book caches (level ends and totals, price sets, best
prices) is a function of the list.
-/
namespace HftPipeline

/-- A resting order and the pool slot it lives in. -/
structure Entry where
  slot : Nat
  order : Order
  deriving DecidableEq, Repr

namespace RestingBook

def ids (book : List Entry) : List ID := book.map (·.order.orderId)

def slots (book : List Entry) : List Nat := book.map Entry.slot

/-- The resting orders at one price, oldest first. -/
def queue (book : List Entry) (price : Price) : List Entry :=
  book.filter fun e => e.order.price = price

def total (book : List Entry) : Nat := (book.map (·.order.quantity.toNat)).sum

def remove (id : ID) (book : List Entry) : List Entry :=
  book.filter fun e => e.order.orderId ≠ id

def resize (id : ID) (quantity : Quantity) (book : List Entry) : List Entry :=
  book.map fun e => if e.order.orderId = id then ⟨e.slot, e.order.withQuantity quantity⟩ else e

/-- The prices at which orders of one side rest. -/
def prices (side : Side) (book : List Entry) : Finset Price :=
  ((book.filter fun e => e.order.side = side).map (·.order.price)).toFinset

/-- The price level a nonempty queue has. -/
def levelOf (q : List Entry) : Option PriceLevel :=
  if q = [] then none
  else some ⟨(slots q).headD nullIndex, (slots q).getLastD nullIndex, UInt64.ofNat (total q)⟩

def bestBid (book : List Entry) : BestOrderInfo :=
  if prices .buy book = ∅ then ⟨noBid, 0⟩
  else
    let price := (prices .buy book).max.unbotD noBid
    ⟨price, UInt32.ofNat (total (queue book price))⟩

def bestOffer (book : List Entry) : BestOrderInfo :=
  if prices .sell book = ∅ then ⟨noOffer, 0⟩
  else
    let price := (prices .sell book).min.untopD noOffer
    ⟨price, UInt32.ofNat (total (queue book price))⟩

/-- The prices at which orders rest, one level each. -/
def levelPrices (book : List Entry) : Finset Price := (book.map (·.order.price)).toFinset

/-- No price has orders of both sides. -/
def Unmixed (book : List Entry) : Prop :=
  ∀ e ∈ book, ∀ e' ∈ book, e.order.price = e'.order.price → e.order.side = e'.order.side

@[simp] theorem ids_append (a b : List Entry) : ids (a ++ b) = ids a ++ ids b := by simp [ids]
@[simp] theorem ids_cons (e : Entry) (b : List Entry) : ids (e :: b) = e.order.orderId :: ids b := rfl
@[simp] theorem ids_nil : ids [] = [] := rfl
@[simp] theorem slots_append (a b : List Entry) : slots (a ++ b) = slots a ++ slots b := by simp [slots]
@[simp] theorem slots_cons (e : Entry) (b : List Entry) : slots (e :: b) = e.slot :: slots b := rfl
@[simp] theorem slots_nil : slots [] = [] := rfl
@[simp] theorem total_append (a b : List Entry) : total (a ++ b) = total a + total b := by simp [total]
@[simp] theorem total_cons (e : Entry) (b : List Entry) :
    total (e :: b) = e.order.quantity.toNat + total b := by simp [total]
@[simp] theorem total_nil : total [] = 0 := rfl
@[simp] theorem queue_append (a b : List Entry) (p : Price) :
    queue (a ++ b) p = queue a p ++ queue b p := by simp [queue]

theorem queue_snoc (book : List Entry) (e : Entry) (p : Price) :
    queue (book ++ [e]) p = if p = e.order.price then queue book p ++ [e] else queue book p := by
  rw [queue_append]
  by_cases hp : p = e.order.price
  · simp [queue, hp]
  · simp [queue, hp, Ne.symm hp]

@[simp] theorem mem_ids {id : ID} {book : List Entry} :
    id ∈ ids book ↔ ∃ e ∈ book, e.order.orderId = id := by simp [ids]

@[simp] theorem mem_slots {i : Nat} {book : List Entry} : i ∈ slots book ↔ ∃ e ∈ book, e.slot = i := by
  simp [slots]

@[simp] theorem mem_queue {e : Entry} {book : List Entry} {p : Price} :
    e ∈ queue book p ↔ e ∈ book ∧ e.order.price = p := by simp [queue]

@[simp] theorem mem_remove {e : Entry} {book : List Entry} {id : ID} :
    e ∈ remove id book ↔ e ∈ book ∧ e.order.orderId ≠ id := by simp [remove]

@[simp] theorem mem_prices {p : Price} {side : Side} {book : List Entry} :
    p ∈ prices side book ↔ ∃ e ∈ book, e.order.side = side ∧ e.order.price = p := by
  simp [prices, and_assoc]

@[simp] theorem mem_levelPrices {p : Price} {book : List Entry} :
    p ∈ levelPrices book ↔ ∃ e ∈ book, e.order.price = p := by simp [levelPrices]

theorem queue_sublist (book : List Entry) (p : Price) : (queue book p).Sublist book :=
  List.filter_sublist

theorem remove_sublist (id : ID) (book : List Entry) : (remove id book).Sublist book :=
  List.filter_sublist

theorem queue_remove (id : ID) (book : List Entry) (p : Price) :
    queue (remove id book) p = remove id (queue book p) := by
  simp only [queue, remove, List.filter_filter]
  congr 1
  funext e
  rw [Bool.and_comm]

theorem remove_of_not_mem {id : ID} {book : List Entry} (h : id ∉ ids book) : remove id book = book := by
  apply List.filter_eq_self.mpr
  intro e he
  simp only [decide_eq_true_eq]
  rintro rfl
  exact h (mem_ids.mpr ⟨e, he, rfl⟩)

@[simp] theorem remove_append (id : ID) (a b : List Entry) :
    remove id (a ++ b) = remove id a ++ remove id b := by simp [remove]

/-- Removing an entry of a list without repeated ids cuts it out. -/
theorem remove_mid {front back : List Entry} {e : Entry} (h : (ids (front ++ e :: back)).Nodup) :
    remove e.order.orderId (front ++ e :: back) = front ++ back := by
  simp only [ids_append, ids_cons, List.nodup_append, List.nodup_cons] at h
  have hfront : e.order.orderId ∉ ids front := fun hm => h.2.2 _ hm _ (by simp) rfl
  have hcons : remove e.order.orderId (e :: back) = remove e.order.orderId back := by
    simp [remove]
  rw [remove_append, hcons, remove_of_not_mem hfront, remove_of_not_mem h.2.1.1]

/-- The entry of an id, with what stands before and after it in its queue. -/
theorem exists_split {book : List Entry} {e : Entry} (he : e ∈ book) :
    ∃ front back, queue book e.order.price = front ++ e :: back :=
  List.append_of_mem (mem_queue.mpr ⟨he, rfl⟩)

theorem eq_of_id {book : List Entry} (h : (ids book).Nodup) {e e' : Entry} (he : e ∈ book)
    (he' : e' ∈ book) (hid : e.order.orderId = e'.order.orderId) : e = e' :=
  List.inj_on_of_nodup_map h he he' hid

theorem eq_of_slot {book : List Entry} (h : (slots book).Nodup) {e e' : Entry} (he : e ∈ book)
    (he' : e' ∈ book) (hslot : e.slot = e'.slot) : e = e' :=
  List.inj_on_of_nodup_map h he he' hslot

theorem queue_eq_of_price_ne {book : List Entry} {e : Entry} (hids : (ids book).Nodup) (he : e ∈ book)
    {p : Price} (hp : p ≠ e.order.price) :
    queue (remove e.order.orderId book) p = queue book p := by
  rw [queue_remove]
  apply remove_of_not_mem
  intro hm
  obtain ⟨e', he', hid⟩ := mem_ids.mp hm
  obtain ⟨hmem, hprice⟩ := mem_queue.mp he'
  rw [eq_of_id hids hmem he hid] at hprice
  exact hp hprice.symm

theorem queue_remove_split {book front back : List Entry} {e : Entry} (hids : (ids book).Nodup)
    (hq : queue book e.order.price = front ++ e :: back) :
    queue (remove e.order.orderId book) e.order.price = front ++ back := by
  rw [queue_remove, hq]
  apply remove_mid
  rw [← hq]
  exact hids.sublist ((queue_sublist book _).map _)

/-- A level whose every order has a positive quantity is empty exactly when its total is zero. -/
theorem total_eq_zero {book : List Entry} (hpos : ∀ e ∈ book, e.order.quantity ≠ 0) :
    total book = 0 ↔ book = [] := by
  cases book with
  | nil => simp
  | cons e b =>
    have hne : e.order.quantity.toNat ≠ 0 := fun h =>
      hpos e (by simp) (UInt32.toNat_inj.mp (by simpa using h))
    simp only [total_cons, reduceCtorEq, iff_false]
    omega

theorem total_lt (book : List Entry) (hlen : book.length ≤ maxConcurrentOrders) : total book < 2 ^ 64 := by
  have hbound : total book ≤ book.length * (2 ^ 32 - 1) := by
    clear hlen
    induction book with
    | nil => simp
    | cons e b ih =>
      have := e.order.quantity.toNat_lt
      simp only [total_cons, List.length_cons]
      omega
  simp only [maxConcurrentOrders] at hlen
  omega

theorem ne_nullIndex_of_lt {i : Nat} (h : i < maxConcurrentOrders) : i ≠ nullIndex := by
  simp only [maxConcurrentOrders, nullIndex] at *
  omega

theorem queue_ne_nil_of_mem_prices {book : List Entry} {side : Side} {p : Price} (h : p ∈ prices side book) :
    queue book p ≠ [] := by
  obtain ⟨e, he, -, hprice⟩ := mem_prices.mp h
  exact List.ne_nil_of_mem (mem_queue.mpr ⟨he, hprice⟩)

theorem max_unbotD_mem {t : Finset Price} (h : t ≠ ∅) (d : Price) : t.max.unbotD d ∈ t := by
  obtain ⟨p, hp⟩ := Finset.max_of_nonempty (Finset.nonempty_iff_ne_empty.mpr h)
  rw [hp]
  exact Finset.mem_of_max hp

theorem min_untopD_mem {t : Finset Price} (h : t ≠ ∅) (d : Price) : t.min.untopD d ∈ t := by
  obtain ⟨p, hp⟩ := Finset.min_of_nonempty (Finset.nonempty_iff_ne_empty.mpr h)
  rw [hp]
  exact Finset.mem_of_min hp

theorem queue_eq_nil_iff {book : List Entry} {p : Price} : queue book p = [] ↔ p ∉ levelPrices book := by
  simp [queue, List.filter_eq_nil_iff]

theorem levelOf_nil : levelOf [] = none := rfl

theorem levelOf_of_ne {q : List Entry} (h : q ≠ []) :
    levelOf q =
      some ⟨(slots q).headD nullIndex, (slots q).getLastD nullIndex, UInt64.ofNat (total q)⟩ := if_neg h

section resize

variable {id : ID} {quantity : Quantity}

@[simp] theorem slots_resize (book : List Entry) : slots (resize id quantity book) = slots book := by
  simp only [slots, resize, List.map_map]
  apply List.map_congr_left
  intro e _
  simp only [Function.comp_apply]
  split <;> rfl

@[simp] theorem ids_resize (book : List Entry) : ids (resize id quantity book) = ids book := by
  simp only [ids, resize, List.map_map]
  apply List.map_congr_left
  intro e _
  simp only [Function.comp_apply]
  split <;> rfl

theorem mem_resize {e : Entry} {book : List Entry} :
    e ∈ resize id quantity book ↔
      ∃ e' ∈ book, e = if e'.order.orderId = id then ⟨e'.slot, e'.order.withQuantity quantity⟩ else e' := by
  simp only [resize, List.mem_map]
  exact exists_congr fun e' => and_congr_right fun _ => eq_comm

theorem queue_resize (book : List Entry) (p : Price) :
    queue (resize id quantity book) p = resize id quantity (queue book p) := by
  simp only [queue, resize, List.filter_map]
  congr 1
  apply List.filter_congr
  intro e _
  simp only [Function.comp_apply]
  split <;> rfl

theorem prices_resize (side : Side) (book : List Entry) :
    prices side (resize id quantity book) = prices side book := by
  ext p
  simp only [mem_prices, mem_resize]
  constructor
  · rintro ⟨e, ⟨e', he', rfl⟩, hside, hprice⟩
    refine ⟨e', he', ?_, ?_⟩
    · rw [← hside]; split <;> rfl
    · rw [← hprice]; split <;> rfl
  · rintro ⟨e, he, hside, hprice⟩
    refine ⟨_, ⟨e, he, rfl⟩, ?_, ?_⟩
    · rw [← hside]; split <;> rfl
    · rw [← hprice]; split <;> rfl

theorem resize_of_not_mem {book : List Entry} (h : id ∉ ids book) :
    resize id quantity book = book := by
  conv_rhs => rw [← List.map_id book]
  apply List.map_congr_left
  intro e he
  rw [if_neg, id_eq]
  rintro rfl
  exact h (mem_ids.mpr ⟨e, he, rfl⟩)

theorem resize_append (a b : List Entry) :
    resize id quantity (a ++ b) = resize id quantity a ++ resize id quantity b := by
  simp [resize]

theorem resize_cons (e : Entry) (b : List Entry) :
    resize id quantity (e :: b) =
      (if e.order.orderId = id then ⟨e.slot, e.order.withQuantity quantity⟩ else e) ::
        resize id quantity b := rfl

theorem resize_eq_nil {book : List Entry} : resize id quantity book = [] ↔ book = [] := by
  simp [resize]

/-- Only the named order's share of the total changes. -/
theorem total_resize {book : List Entry} (hids : (ids book).Nodup) {e : Entry} (he : e ∈ book)
    (quantity : Quantity) :
    total (resize e.order.orderId quantity book) + e.order.quantity.toNat =
      total book + quantity.toNat := by
  obtain ⟨front, back, rfl⟩ := List.append_of_mem he
  simp only [ids_append, ids_cons, List.nodup_append, List.nodup_cons] at hids
  have hfront : e.order.orderId ∉ ids front := fun hm => hids.2.2 _ hm _ (by simp) rfl
  rw [resize_append, resize_cons, resize_of_not_mem hfront,
    resize_of_not_mem hids.2.1.1, if_pos rfl]
  simp only [total_append, total_cons, Order.withQuantity]
  omega

end resize

/-- `bids` and `offers` after an order joins. -/
theorem prices_append (side : Side) (book : List Entry) (e : Entry) :
    prices side (book ++ [e]) =
      if e.order.side = side then insert e.order.price (prices side book) else prices side book := by
  ext p
  by_cases h : e.order.side = side
  · rw [if_pos h]
    simp only [mem_prices, List.mem_append, List.mem_singleton, Finset.mem_insert]
    constructor
    · rintro ⟨e', he' | rfl, hside, hprice⟩
      · exact Or.inr ⟨e', he', hside, hprice⟩
      · exact Or.inl hprice.symm
    · rintro (rfl | ⟨e', he', hside, hprice⟩)
      · exact ⟨e, Or.inr rfl, h, rfl⟩
      · exact ⟨e', Or.inl he', hside, hprice⟩
  · rw [if_neg h]
    simp only [mem_prices, List.mem_append, List.mem_singleton]
    constructor
    · rintro ⟨e', he' | rfl, hside, hprice⟩
      · exact ⟨e', he', hside, hprice⟩
      · exact absurd hside h
    · rintro ⟨e', he', hside, hprice⟩
      exact ⟨e', Or.inl he', hside, hprice⟩

/-- The price sets keep a price as long as its queue is not empty. -/
theorem prices_remove {book : List Entry} (hids : (ids book).Nodup) (hmix : Unmixed book) {e : Entry}
    (he : e ∈ book) (side : Side) :
    prices side (remove e.order.orderId book) =
      if e.order.side = side ∧ queue (remove e.order.orderId book) e.order.price = [] then
        (prices side book).erase e.order.price
      else prices side book := by
  ext p
  by_cases hp : p = e.order.price
  · subst hp
    by_cases hq : queue (remove e.order.orderId book) e.order.price = []
    · have hnone : e.order.price ∉ prices side (remove e.order.orderId book) := by
        intro hm
        obtain ⟨e', he', -, hprice⟩ := mem_prices.mp hm
        have : e' ∈ queue (remove e.order.orderId book) e.order.price := mem_queue.mpr ⟨he', hprice⟩
        rw [hq] at this
        cases this
      by_cases hs : e.order.side = side
      · simp [hnone, hs, hq]
      · simp only [hnone, false_iff, if_neg (fun h : _ ∧ _ => hs h.1)]
        intro hm
        obtain ⟨e', he', hside, hprice⟩ := mem_prices.mp hm
        exact hs ((hmix e he e' he' hprice.symm).trans hside)
    · rw [if_neg (fun h : _ ∧ _ => hq h.2)]
      constructor
      · intro hm
        obtain ⟨e', he', hside, hprice⟩ := mem_prices.mp hm
        exact mem_prices.mpr ⟨e', (mem_remove.mp he').1, hside, hprice⟩
      · intro hm
        obtain ⟨e', he', hside, hprice⟩ := mem_prices.mp hm
        obtain ⟨e'', hmem⟩ := List.exists_mem_of_ne_nil _ hq
        obtain ⟨hmem, hprice''⟩ := mem_queue.mp hmem
        have hs := hmix e' he' e'' (mem_remove.mp hmem).1 (hprice.trans hprice''.symm)
        exact mem_prices.mpr ⟨e'', hmem, hs ▸ hside, hprice''⟩
  · have hiff : p ∈ prices side (remove e.order.orderId book) ↔ p ∈ prices side book := by
      simp only [mem_prices, mem_remove]
      constructor
      · rintro ⟨e', ⟨he', -⟩, hside, hprice⟩
        exact ⟨e', he', hside, hprice⟩
      · rintro ⟨e', he', hside, hprice⟩
        by_cases hid : e'.order.orderId = e.order.orderId
        · exact absurd (by rw [← hprice, eq_of_id hids he' he hid]) hp
        · exact ⟨e', ⟨he', hid⟩, hside, hprice⟩
    rw [hiff]
    split
    · simp [hp]
    · rfl

end RestingBook

end HftPipeline
