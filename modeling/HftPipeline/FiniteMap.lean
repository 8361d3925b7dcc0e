import HftPipeline.ClosedHashMap

/-!
# The table over a history of calls

What the hash map is for: a finite map from keys to values. Any sequence of calls that
keeps to the contract of `add` gives the results the finite map gives, and nothing of
hashes, probes and tombstones shows.
-/
namespace HftPipeline

/-- `modify` is a `find` whose reference is then assigned through. -/
inductive TableCall (Key Value : Type) where
  | add (key : Key) (value : Value)
  | remove (key : Key)
  | find (key : Key)
  | modify (key : Key) (change : Value → Value)

/-- What a call returns. -/
inductive TableResult (Value : Type) where
  | added
  | removed (present : Bool)
  | found (value : Option Value)
  deriving DecidableEq, Repr

variable {Key Value : Type} {bits : Nat} [DecidableEq Key]

namespace ClosedHashMap

variable [StdHash Key]

def call (m : ClosedHashMap Key Value bits) :
    TableCall Key Value → Option (ClosedHashMap Key Value bits × TableResult Value)
  | .add key value => (m.add key value).map fun m => (m, .added)
  | .remove key => some ((m.remove key).2, .removed (m.remove key).1)
  | .find key => some (m, .found (m.find key))
  | .modify key change =>
    match m.find key with
    | none => some (m, .found none)
    | some value => some (m.set key (change value), .found (some value))

/-- The calls one after another; `none` once an `add` finds the table full. -/
def calls (m : ClosedHashMap Key Value bits) :
    List (TableCall Key Value) → Option (ClosedHashMap Key Value bits × List (TableResult Value))
  | [] => some (m, [])
  | c :: cs => do
    let (m, result) ← m.call c
    let (m, results) ← m.calls cs
    return (m, result :: results)

end ClosedHashMap

/-! ## The finite map -/

namespace FiniteMap

abbrev Contents (Key Value : Type) := Finmap fun _ : Key => Value

def call (contents : Contents Key Value) :
    TableCall Key Value → Contents Key Value × TableResult Value
  | .add key value => (contents.insert key value, .added)
  | .remove key => (contents.erase key, .removed (decide (key ∈ contents)))
  | .find key => (contents, .found (contents.lookup key))
  | .modify key change =>
    match contents.lookup key with
    | none => (contents, .found none)
    | some value => (contents.insert key (change value), .found (some value))

def calls (contents : Contents Key Value) :
    List (TableCall Key Value) → Contents Key Value × List (TableResult Value)
  | [] => (contents, [])
  | c :: cs =>
    let (contents, result) := call contents c
    let (contents, results) := calls contents cs
    (contents, result :: results)

/-- `add` is for a key that is not there, while fewer than `capacity` keys are. -/
def Keeps (capacity : Nat) (contents : Contents Key Value) : TableCall Key Value → Prop
  | .add key _ => key ∉ contents ∧ contents.keys.card < capacity
  | _ => True

def KeepsAll (capacity : Nat) : Contents Key Value → List (TableCall Key Value) → Prop
  | _, [] => True
  | contents, c :: cs => Keeps capacity contents c ∧ KeepsAll capacity (call contents c).1 cs

instance (capacity : Nat) (contents : Contents Key Value) :
    (c : TableCall Key Value) → Decidable (Keeps capacity contents c)
  | .add key _ => inferInstanceAs (Decidable (key ∉ contents ∧ contents.keys.card < capacity))
  | .remove _ | .find _ | .modify _ _ => .isTrue trivial

instance decidableKeepsAll (capacity : Nat) :
    (contents : Contents Key Value) → (cs : List (TableCall Key Value)) →
      Decidable (KeepsAll capacity contents cs)
  | _, [] => .isTrue trivial
  | contents, c :: cs =>
    have := decidableKeepsAll capacity (call contents c).1 cs
    inferInstanceAs (Decidable (Keeps capacity contents c ∧ KeepsAll capacity (call contents c).1 cs))

end FiniteMap

/-! ## The table refines the finite map -/

namespace ClosedHashMap

open FiniteMap

variable [StdHash Key] {m : ClosedHashMap Key Value bits} {contents : Contents Key Value}

/-- The table stores exactly these pairs. -/
structure Stores (m : ClosedHashMap Key Value bits) (contents : Contents Key Value) : Prop where
  wf : m.Wf
  find : ∀ key, m.find key = contents.lookup key

theorem stores_init [Inhabited Key] [Inhabited Value] :
    (init : ClosedHashMap Key Value bits).Stores (∅ : Contents Key Value) :=
  ⟨wf_init, fun key => by rw [find_init, Finmap.lookup_empty]⟩

/-- One key changed in both is the same change. -/
theorem find_insert (hm : ∀ k, m.find k = contents.lookup k) {m' : ClosedHashMap Key Value bits} {key : Key}
    {value : Value} (hfind : ∀ k, m'.find k = if k = key then some value else m.find k) (k : Key) :
    m'.find k = (contents.insert key value).lookup k := by
  rw [hfind]
  by_cases hk : k = key
  · rw [if_pos hk, hk, Finmap.lookup_insert]
  · rw [if_neg hk, hm, Finmap.lookup_insert_of_ne _ hk]

theorem Stores.hasRoom (h : m.Stores contents) (hroom : contents.keys.card < capacity bits) : m.HasRoom := by
  refine h.wf.hasRoom contents.keys ?_ hroom
  intro key hpresent
  rw [h.find] at hpresent
  exact Finmap.mem_keys.mpr (Finmap.lookup_isSome.mp (Option.isSome_iff_ne_none.mpr hpresent))

/-- One call: the table does what the finite map does, and `add` finds a slot. -/
theorem Stores.call (h : m.Stores contents) {c : TableCall Key Value} (hc : Keeps (capacity bits) contents c) :
    ∃ m', m.call c = some (m', (FiniteMap.call contents c).2) ∧ m'.Stores (FiniteMap.call contents c).1 := by
  cases c with
  | add key value =>
    obtain ⟨habsent, hcard⟩ := hc
    have hnone : m.find key = none := by rw [h.find, Finmap.lookup_eq_none.mpr habsent]
    obtain ⟨m', hadd, hwf, hfind⟩ := h.wf.add_spec value hnone (h.hasRoom hcard)
    refine ⟨m', ?_, hwf, find_insert h.find hfind⟩
    simp only [ClosedHashMap.call, hadd, Option.map_some, FiniteMap.call]
  | remove key =>
    obtain ⟨hwf, hresult, hfind⟩ := h.wf.remove_spec key
    refine ⟨(m.remove key).2, ?_, hwf, ?_⟩
    · have hpresent : (m.remove key).1 = decide (key ∈ contents) := by
        rw [hresult, h.find]
        exact Bool.eq_iff_iff.mpr (by rw [Finmap.lookup_isSome, decide_eq_true_iff])
      simp only [ClosedHashMap.call, FiniteMap.call, hpresent]
    · intro k
      rw [hfind]
      by_cases hk : k = key
      · rw [if_pos hk, hk]
        exact (Finmap.lookup_erase key contents).symm
      · rw [if_neg hk, h.find]
        exact (Finmap.lookup_erase_ne hk).symm
  | find key =>
    refine ⟨m, ?_, h⟩
    simp only [ClosedHashMap.call, FiniteMap.call, h.find]
  | modify key change =>
    have hlookup := h.find key
    cases hfound : contents.lookup key with
    | none =>
      rw [hfound] at hlookup
      simp only [ClosedHashMap.call, FiniteMap.call, hlookup, hfound]
      exact ⟨m, rfl, h⟩
    | some value =>
      rw [hfound] at hlookup
      have hpresent : m.find key ≠ none := by rw [hlookup]; simp
      obtain ⟨hwf, hfind⟩ := h.wf.set_spec (change value) hpresent
      simp only [ClosedHashMap.call, FiniteMap.call, hlookup, hfound]
      exact ⟨_, rfl, hwf, find_insert h.find hfind⟩

theorem Stores.calls (h : m.Stores contents) {cs : List (TableCall Key Value)}
    (hcs : KeepsAll (capacity bits) contents cs) :
    ∃ m', m.calls cs = some (m', (FiniteMap.calls contents cs).2) ∧
      m'.Stores (FiniteMap.calls contents cs).1 := by
  induction cs generalizing m contents with
  | nil => exact ⟨m, rfl, h⟩
  | cons c cs ih =>
    obtain ⟨hc, hcs⟩ := hcs
    obtain ⟨m₁, hcall, h₁⟩ := h.call hc
    obtain ⟨m', hcalls, h'⟩ := ih h₁ hcs
    refine ⟨m', ?_, h'⟩
    simp only [ClosedHashMap.calls, hcall, hcalls, FiniteMap.calls, Option.bind_eq_bind, Option.bind_some]
    rfl

/-- Whatever the hash function: from the empty table, every call of a sequence that keeps to
the contract of `add` returns what the finite map returns, no `add` finds the table full, and
in the end `find` reads the finite map. -/
theorem calls_refine_finite_map [Inhabited Key] [Inhabited Value] (cs : List (TableCall Key Value))
    (hcs : KeepsAll (capacity bits) (∅ : Contents Key Value) cs) :
    ∃ m', (init : ClosedHashMap Key Value bits).calls cs =
        some (m', (FiniteMap.calls (∅ : Contents Key Value) cs).2) ∧
      ∀ key, m'.find key = (FiniteMap.calls (∅ : Contents Key Value) cs).1.lookup key := by
  obtain ⟨m', hcalls, h'⟩ := (stores_init : (init : ClosedHashMap Key Value bits).Stores ∅).calls hcs
  exact ⟨m', hcalls, h'.find⟩

end ClosedHashMap

/-- Two slots and one hash: the third key takes over a tombstone, and no slot is empty. -/
def collidingCalls : List (TableCall Bool Nat) :=
  [.add false 10, .add true 11, .remove false, .modify true (· + 1), .add false 12, .find true]

@[reducible] def sameHash : StdHash Bool := ⟨fun _ => 1⟩

theorem calls_refine_finite_map_collidingCalls :
    let _ := sameHash
    FiniteMap.KeepsAll (ClosedHashMap.capacity 1) (∅ : FiniteMap.Contents Bool Nat) collidingCalls ∧
    ∃ m', (ClosedHashMap.init : ClosedHashMap Bool Nat 1).calls collidingCalls =
        some (m', (FiniteMap.calls (∅ : FiniteMap.Contents Bool Nat) collidingCalls).2) ∧
      ∀ key, m'.find key = (FiniteMap.calls (∅ : FiniteMap.Contents Bool Nat) collidingCalls).1.lookup key := by
  have hcs : FiniteMap.KeepsAll (ClosedHashMap.capacity 1) (∅ : FiniteMap.Contents Bool Nat) collidingCalls := by
    decide
  let _ := sameHash
  exact ⟨hcs, ClosedHashMap.calls_refine_finite_map collidingCalls hcs⟩

end HftPipeline
