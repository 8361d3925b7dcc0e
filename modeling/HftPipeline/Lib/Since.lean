import Mathlib

/-!
# Since

Past-time operators over a finite history whose latest entry is the last:
`Since opens closes past` says that some entry opens and that no later one closes,
and `Always P past` that every entry has a property relative to what came before it.
-/
namespace History

variable {α : Type} {opens closes : α → Prop}

def Since (opens closes : α → Prop) (past : List α) : Prop :=
  ∃ earlier a later, past = earlier ++ a :: later ∧ opens a ∧ ∀ b ∈ later, ¬ closes b

theorem not_since_nil : ¬ Since opens closes [] := by
  rintro ⟨earlier, a, later, h, -⟩
  simp at h

/-- What the latest entry does. -/
theorem since_concat (past : List α) (a : α) :
    Since opens closes (past ++ [a]) ↔ opens a ∨ (Since opens closes past ∧ ¬ closes a) := by
  constructor
  · rintro ⟨earlier, b, later, h, hopens, hcloses⟩
    rcases List.eq_nil_or_concat later with rfl | ⟨later, c, rfl⟩
    · obtain ⟨-, hab⟩ := List.append_inj' h rfl
      cases hab
      exact Or.inl hopens
    · have h : past ++ [a] = (earlier ++ b :: later) ++ [c] := by simpa using h
      obtain ⟨rfl, hac⟩ := List.append_inj' h rfl
      cases hac
      exact Or.inr ⟨⟨earlier, b, later, rfl, hopens, fun d hd => hcloses d (by simp [hd])⟩,
        hcloses a (by simp)⟩
  · rintro (hopens | ⟨⟨earlier, b, later, rfl, hopens, hcloses⟩, ha⟩)
    · exact ⟨past, a, [], rfl, hopens, by simp⟩
    · refine ⟨earlier, b, later ++ [a], by simp, hopens, ?_⟩
      intro d hd
      rcases List.mem_append.mp hd with hold | hnew
      · exact hcloses d hold
      · rw [List.mem_singleton.mp hnew]
        exact ha

/-- An entry that neither opens nor closes can be left out anywhere. -/
theorem since_skip {a : α} (hopens : ¬ opens a) (hcloses : ¬ closes a) (past more : List α) :
    Since opens closes (past ++ a :: more) ↔ Since opens closes (past ++ more) := by
  induction more using List.reverseRecOn with
  | nil =>
    rw [since_concat, List.append_nil]
    simp [hopens, hcloses]
  | append_singleton more b ih =>
    rw [show past ++ a :: (more ++ [b]) = (past ++ a :: more) ++ [b] by simp, since_concat, ih,
      show past ++ (more ++ [b]) = (past ++ more) ++ [b] by simp, since_concat]

/-- Without a new opening, what is open was open before. -/
theorem Since.of_append {past more : List α} (h : Since opens closes (past ++ more))
    (hmore : ∀ b ∈ more, ¬ opens b) : Since opens closes past := by
  induction more using List.reverseRecOn with
  | nil => simpa using h
  | append_singleton more b ih =>
    rw [show past ++ (more ++ [b]) = (past ++ more) ++ [b] by simp, since_concat] at h
    rcases h with hopens | ⟨h, -⟩
    · exact absurd hopens (hmore b (by simp))
    · exact ih h fun c hc => hmore c (by simp [hc])

def Always (P : List α → α → Prop) (past : List α) : Prop :=
  ∀ earlier a later, past = earlier ++ a :: later → P earlier a

theorem always_nil (P : List α → α → Prop) : Always P [] := by
  intro earlier a later h
  simp at h

theorem always_concat {P : List α → α → Prop} (past : List α) (a : α) :
    Always P (past ++ [a]) ↔ Always P past ∧ P past a := by
  constructor
  · intro h
    refine ⟨?_, h past a [] rfl⟩
    rintro earlier b later rfl
    exact h earlier b (later ++ [a]) (by simp)
  · rintro ⟨hpast, ha⟩ earlier b later h
    rcases List.eq_nil_or_concat later with rfl | ⟨later, c, rfl⟩
    · obtain ⟨rfl, hab⟩ := List.append_inj' h rfl
      cases hab
      exact ha
    · have h : past ++ [a] = (earlier ++ b :: later) ++ [c] := by simpa using h
      obtain ⟨hpast', -⟩ := List.append_inj' h rfl
      exact hpast earlier b later hpast'

theorem Always.of_append {P : List α → α → Prop} {past more : List α} (h : Always P (past ++ more)) :
    Always P past := by
  rintro earlier a later rfl
  exact h earlier a (later ++ more) (by simp)

/-- An entry can be left out when those after it do not depend on it. -/
theorem Always.skip {P : List α → α → Prop} {past more : List α} {a : α} (h : Always P (past ++ a :: more))
    (hskip : ∀ between b later, more = between ++ b :: later → P (past ++ a :: between) b →
      P (past ++ between) b) : Always P (past ++ more) := by
  induction more using List.reverseRecOn with
  | nil =>
    rw [List.append_nil]
    exact h.of_append
  | append_singleton more b ih =>
    rw [show past ++ a :: (more ++ [b]) = (past ++ a :: more) ++ [b] by simp, always_concat] at h
    rw [show past ++ (more ++ [b]) = (past ++ more) ++ [b] by simp, always_concat]
    refine ⟨ih h.1 ?_, hskip more b [] (by simp) h.2⟩
    rintro between c later rfl
    exact hskip between c (later ++ [b]) (by simp)

instance [DecidablePred opens] [DecidablePred closes] (past : List α) :
    Decidable (Since opens closes past) :=
  decidable_of_iff (past.foldl (fun isOpen a => decide (opens a) || (isOpen && !decide (closes a))) false) (by
    induction past using List.reverseRecOn with
    | nil => simpa using not_since_nil
    | append_singleton past a ih =>
      rw [List.foldl_append, List.foldl_cons, List.foldl_nil, since_concat, ← ih]
      simp)

end History
