import Mathlib.Data.Fintype.Card
import Mathlib.Logic.Function.Basic

/-! # Places for what was seen last

A shelf has a fixed number of places, each for one item and the time at which the item was seen
last. What was not seen for `life` counts as absent but stays until its place is needed. -/
namespace Recency

variable {ι α : Type*} {life now : ℕ}

abbrev Shelf (ι α : Type*) := ι → Option (α × ℕ)

namespace Shelf

def Stale (s : Shelf ι α) (life now : ℕ) (i : ι) : Prop :=
  ∀ a t, s i = some (a, t) → t + life ≤ now

/-- Everything in the shelf counts, and nothing in it was seen before what is in the place. -/
def Oldest (s : Shelf ι α) (life now : ℕ) (i : ι) : Prop :=
  ∃ a t, s i = some (a, t) ∧ ∀ j, ∃ b u, s j = some (b, u) ∧ now < u + life ∧ t ≤ u

/-- A place for an item that is seen now: its own, else one without use, else the oldest. -/
def Choice (s : Shelf ι α) (life now : ℕ) (a : α) (i : ι) : Prop :=
  (∃ t, s i = some (a, t)) ∨
    (∀ j t, s j ≠ some (a, t)) ∧ (s.Stale life now i ∨ s.Oldest life now i)

def put [DecidableEq ι] (s : Shelf ι α) (i : ι) (a : α) (now : ℕ) : Shelf ι α :=
  Function.update s i (some (a, now))

/-- What counts leaves its place only for want of places, and then the oldest does. -/
def Spares (s s' : Shelf ι α) (life now : ℕ) : Prop :=
  ∀ i a t, s i = some (a, t) → now < t + life → (∀ u, s' i ≠ some (a, u)) → s.Oldest life now i

/-- Items have one place each, with the time at which they were seen last. -/
structure Tracks (s : Shelf ι α) (last : α → Option ℕ) : Prop where
  once : ∀ {i j a t u}, s i = some (a, t) → s j = some (a, u) → i = j
  seen : ∀ {i a t}, s i = some (a, t) → last a = some t

def Complete (s : Shelf ι α) (last : α → Option ℕ) (life now : ℕ) : Prop :=
  ∀ a t, last a = some t → now < t + life → ∃ i, s i = some (a, t)

variable {s : Shelf ι α} {last : α → Option ℕ} {a : α} {i : ι}

theorem spares_refl (s : Shelf ι α) : s.Spares s life now :=
  fun _ _ t hi _ hgone => absurd hi (hgone t)

theorem Complete.later {now' : ℕ} (h : s.Complete last life now) (hle : now ≤ now') :
    s.Complete last life now' :=
  fun a t hlast hlive => h a t hlast (by omega)

theorem Choice.apart (h : s.Tracks last) (hc : s.Choice life now a i) {j : ι} {t : ℕ}
    (hj : s j = some (a, t)) : j = i := by
  rcases hc with ⟨u, hi⟩ | ⟨hno, -⟩
  · exact h.once hj hi
  · exact absurd hj (hno j t)

variable [DecidableEq ι]

theorem put_self : s.put i a now i = some (a, now) := Function.update_self ..

theorem put_of_ne {j : ι} (h : j ≠ i) : s.put i a now j = s j := Function.update_of_ne h ..

theorem put_eq_some {j : ι} {b : α} {t : ℕ} (h : s.put i a now j = some (b, t)) :
    j = i ∧ b = a ∧ t = now ∨ j ≠ i ∧ s j = some (b, t) := by
  by_cases hj : j = i
  · subst hj
    rw [put_self] at h
    cases h
    exact .inl ⟨rfl, rfl, rfl⟩
  · rw [put_of_ne hj] at h
    exact .inr ⟨hj, h⟩

theorem Tracks.put [DecidableEq α] (h : s.Tracks last) (hc : s.Choice life now a i) :
    (s.put i a now).Tracks (Function.update last a (some now)) where
  once := by
    intro j k b t u hj hk
    rcases put_eq_some hj with ⟨rfl, rfl, -⟩ | ⟨hji, hj'⟩
    · rcases put_eq_some hk with ⟨rfl, -, -⟩ | ⟨hki, hk'⟩
      · rfl
      · exact absurd (hc.apart h hk') hki
    · rcases put_eq_some hk with ⟨-, rfl, -⟩ | ⟨-, hk'⟩
      · exact absurd (hc.apart h hj') hji
      · exact h.once hj' hk'
  seen := by
    intro j b t hj
    rcases put_eq_some hj with ⟨-, rfl, rfl⟩ | ⟨hji, hj'⟩
    · exact Function.update_self ..
    · rw [Function.update_of_ne, h.seen hj']
      rintro rfl
      exact hji (hc.apart h hj')

theorem Choice.spares (hc : s.Choice life now a i) : s.Spares (s.put i a now) life now := by
  intro j b t hj hlive hgone
  by_cases hji : j = i
  · subst hji
    rcases hc with ⟨u, hi⟩ | ⟨-, hstale | holdest⟩
    · rw [hi] at hj
      cases hj
      exact absurd put_self (hgone now)
    · have := hstale b t hj
      omega
    · exact holdest
  · exact absurd ((put_of_ne hji).trans hj) (hgone t)

/-- With at most as many items that count as there are places, none of them is lost. -/
theorem Complete.put [DecidableEq α] [Fintype ι] (h : s.Tracks last)
    (hcomplete : s.Complete last life now) (hlife : 0 < life) (hc : s.Choice life now a i)
    (hfew : ∀ S : Finset α, (∀ b ∈ S, ∃ t, Function.update last a (some now) b = some t ∧
      now < t + life) → S.card ≤ Fintype.card ι) :
    (s.put i a now).Complete (Function.update last a (some now)) life now := by
  intro b t hlast hlive
  by_cases hba : b = a
  · subst hba
    rw [Function.update_self] at hlast
    cases hlast
    exact ⟨i, put_self⟩
  · rw [Function.update_of_ne hba] at hlast
    obtain ⟨j, hj⟩ := hcomplete b t hlast hlive
    by_cases hji : j = i
    swap
    · exact ⟨j, (put_of_ne hji).trans hj⟩
    subst hji
    rcases hc with ⟨u, hi⟩ | ⟨hno, hstale | ⟨_, _, -, hall⟩⟩
    · rw [hi] at hj
      cases hj
      exact absurd rfl hba
    · have := hstale b t hj
      omega
    · -- all places are taken by other items that count
      choose item time hitem hcounts using hall
      have hinj : Function.Injective item := fun k l hkl => h.once (hitem k) (hkl ▸ hitem l)
      have hnew : a ∉ Finset.univ.image item := by
        intro hmem
        obtain ⟨k, -, hk⟩ := Finset.mem_image.mp hmem
        exact hno k (time k) (hk ▸ hitem k)
      have hcard := hfew (insert a (Finset.univ.image item)) ?_
      · rw [Finset.card_insert_of_notMem hnew, Finset.card_image_of_injective _ hinj,
          Finset.card_univ] at hcard
        omega
      · intro c hc
        rcases Finset.mem_insert.mp hc with rfl | hc
        · exact ⟨now, Function.update_self .., by omega⟩
        · obtain ⟨k, -, rfl⟩ := Finset.mem_image.mp hc
          refine ⟨time k, ?_, (hcounts k).1⟩
          rw [Function.update_of_ne, h.seen (hitem k)]
          rintro rfl
          exact hno k _ (hitem k)

theorem tracks_put_empty [DecidableEq α] :
    (Shelf.put (fun _ => none) i a now).Tracks (Function.update last a (some now)) where
  once := by
    intro j k b t u hj hk
    rcases put_eq_some hj with ⟨rfl, -, -⟩ | ⟨-, hj⟩
    · rcases put_eq_some hk with ⟨rfl, -, -⟩ | ⟨-, hk⟩
      · rfl
      · cases hk
    · cases hj
  seen := by
    intro j b t hj
    rcases put_eq_some hj with ⟨-, rfl, rfl⟩ | ⟨-, hj⟩
    · exact Function.update_self ..
    · cases hj

end Shelf

theorem le_foldl_largest {β : Type*} [LinearOrder β] (f : ι → β) (l : List ι) (i : ι) :
    ∀ j ∈ i :: l, f j ≤ f (l.foldl (fun best k => if f best < f k then k else best) i) := by
  induction l generalizing i with
  | nil => simp
  | cons k l ih =>
    intro j hj
    rw [List.foldl_cons]
    have hbest := ih (if f i < f k then k else i) _ List.mem_cons_self
    rcases List.mem_cons.mp hj with rfl | hj
    · refine le_trans ?_ hbest
      split_ifs with hlt
      · exact hlt.le
      · exact le_rfl
    · rcases List.mem_cons.mp hj with rfl | hj
      · refine le_trans ?_ hbest
        split_ifs with hlt
        · exact le_rfl
        · exact not_lt.mp hlt
      · exact ih _ j (List.mem_cons_of_mem _ hj)

end Recency
