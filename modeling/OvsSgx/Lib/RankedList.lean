/-
OvsSgx.Lib.RankedList — lists kept in non-increasing order of a rank.

Three things are done with such a list. One element whose rank has
changed is moved to its place (`raise`, `lower`); the maximum rank of a
collection is kept together with its multiplicity (`MaxCount`, updated by
`bump`); and the list is searched for the best answer of a probe, giving
up as soon as the ranks show that nothing better can follow (`search`).

The search threads a state through the elements it looks at, so that two
facts can be told apart: what it returns (`search_sound`,
`search_eq_none`) and what it looked at (`visited`, `search_congr`).
-/
import Mathlib.Data.List.Basic
import Mathlib.Data.List.Perm.Basic
import Mathlib.Data.List.Count
import Mathlib.Data.List.TakeWhile
import Mathlib.Tactic

namespace RankedList

/-! ## Moving one element -/

section Move

variable {α : Type} [DecidableEq α] (rank : α → Nat)

/-- Non-increasing order of rank. -/
def Ranked (l : List α) : Prop := l.Pairwise (fun a b => rank b ≤ rank a)

/-- Move `t` towards the front, past the elements of smaller rank right before it. -/
def raise (l : List α) (t : α) : List α :=
  let before := (l.takeWhile (· ≠ t)).reverse
  let after := (l.dropWhile (· ≠ t)).drop 1
  (before.dropWhile (fun b => rank b < rank t)).reverse ++
    t :: ((before.takeWhile (fun b => rank b < rank t)).reverse ++ after)

/-- Move `t` towards the back, past the elements of larger rank right after it. -/
def lower (l : List α) (t : α) : List α :=
  let before := l.takeWhile (· ≠ t)
  let after := (l.dropWhile (· ≠ t)).drop 1
  before ++ (after.takeWhile (fun b => rank t < rank b) ++
    t :: after.dropWhile (fun b => rank t < rank b))

theorem takeWhile_ne_split {pre : List α} (post : List α) {t : α} (h : t ∉ pre) :
    (pre ++ t :: post).takeWhile (· ≠ t) = pre ∧
      ((pre ++ t :: post).dropWhile (· ≠ t)).drop 1 = post := by
  induction pre with
  | nil => simp
  | cons a pre ih =>
    have hne : a ≠ t := fun h' => h (by simp [h'])
    have ih := ih (fun h' => h (List.mem_cons_of_mem _ h'))
    simpa [hne] using ih

/-- What stops a `dropWhile` fails the test, and so does everything after
it in a list along which the test can only fail once it has failed. -/
theorem of_mem_dropWhile {β : Type} {p : β → Bool} {l : List β}
    (hmono : l.Pairwise (fun a b => p a = false → p b = false)) :
    ∀ b ∈ l.dropWhile p, p b = false := by
  induction l with
  | nil => simp
  | cons a l ih =>
    obtain ⟨ha, hl⟩ := List.pairwise_cons.mp hmono
    intro b hb
    by_cases hp : p a = true
    · rw [List.dropWhile_cons_of_pos hp] at hb
      exact ih hl b hb
    · rw [List.dropWhile_cons_of_neg hp] at hb
      rcases List.mem_cons.mp hb with rfl | hb
      · simpa using hp
      · exact ha b hb (by simpa using hp)

variable {rank}

theorem raise_perm {pre post : List α} {t : α} (h : t ∉ pre) :
    (raise rank (pre ++ t :: post) t).Perm (pre ++ t :: post) := by
  obtain ⟨h1, h2⟩ := takeWhile_ne_split post h
  have hpre : (pre.reverse.dropWhile (fun b => rank b < rank t)).reverse ++
      (pre.reverse.takeWhile (fun b => rank b < rank t)).reverse = pre := by
    rw [← List.reverse_append, List.takeWhile_append_dropWhile, List.reverse_reverse]
  unfold raise
  simp only [h1, h2]
  refine List.perm_middle.trans (List.Perm.trans ?_ List.perm_middle.symm)
  refine List.Perm.cons t ?_
  rw [← List.append_assoc, hpre]

theorem lower_perm {pre post : List α} {t : α} (h : t ∉ pre) :
    (lower rank (pre ++ t :: post) t).Perm (pre ++ t :: post) := by
  obtain ⟨h1, h2⟩ := takeWhile_ne_split post h
  unfold lower
  simp only [h1, h2]
  refine List.Perm.append_left pre (List.perm_middle.trans (List.Perm.cons t ?_))
  rw [List.takeWhile_append_dropWhile]

/-- Raising an element that outranks everything after it restores the order. -/
theorem raise_ranked {pre post : List α} {t : α} (h : t ∉ pre)
    (hothers : Ranked rank (pre ++ post)) (hpost : ∀ b ∈ post, rank b ≤ rank t) :
    Ranked rank (raise rank (pre ++ t :: post) t) := by
  obtain ⟨h1, h2⟩ := takeWhile_ne_split post h
  obtain ⟨hpre, hpo, hcross⟩ := List.pairwise_append.mp hothers
  have hsplit : (pre.reverse.dropWhile (fun b => rank b < rank t)).reverse ++
      (pre.reverse.takeWhile (fun b => rank b < rank t)).reverse = pre := by
    rw [← List.reverse_append, List.takeWhile_append_dropWhile, List.reverse_reverse]
  have hfront : ∀ b ∈ (pre.reverse.dropWhile (fun b => rank b < rank t)).reverse,
      rank t ≤ rank b := by
    intro b hb
    have hmono : pre.reverse.Pairwise (fun a b =>
        decide (rank a < rank t) = false → decide (rank b < rank t) = false) := by
      refine (List.pairwise_reverse.mpr hpre).imp fun hab ha => ?_
      simp only [decide_eq_false_iff_not, not_lt] at ha ⊢
      exact le_trans ha hab
    have := of_mem_dropWhile hmono b (List.mem_reverse.mp hb)
    simpa using this
  have hmid : ∀ b ∈ (pre.reverse.takeWhile (fun b => rank b < rank t)).reverse,
      rank b ≤ rank t := by
    intro b hb
    have := List.mem_takeWhile_imp (List.mem_reverse.mp hb)
    simp only [decide_eq_true_eq] at this
    omega
  unfold raise Ranked
  simp only [h1, h2]
  rw [← hsplit, List.append_assoc] at hothers
  obtain ⟨hA, hB, hAB⟩ := List.pairwise_append.mp hothers
  refine List.pairwise_append.mpr ⟨hA, List.pairwise_cons.mpr ⟨?_, hB⟩, ?_⟩
  · intro b hb
    rcases List.mem_append.mp hb with hb | hb
    · exact hmid b hb
    · exact hpost b hb
  · intro a ha b hb
    rcases List.mem_cons.mp hb with rfl | hb
    · exact hfront a ha
    · exact hAB a ha b hb

/-- Lowering an element that everything before it outranks restores the order. -/
theorem lower_ranked {pre post : List α} {t : α} (h : t ∉ pre)
    (hothers : Ranked rank (pre ++ post)) (hpre : ∀ a ∈ pre, rank t ≤ rank a) :
    Ranked rank (lower rank (pre ++ t :: post) t) := by
  obtain ⟨h1, h2⟩ := takeWhile_ne_split post h
  have hback : ∀ b ∈ post.dropWhile (fun b => rank t < rank b), rank b ≤ rank t := by
    intro b hb
    have hmono : post.Pairwise (fun a b =>
        decide (rank t < rank a) = false → decide (rank t < rank b) = false) := by
      refine (List.pairwise_append.mp hothers).2.1.imp fun hab ha => ?_
      simp only [decide_eq_false_iff_not, not_lt] at ha ⊢
      exact le_trans hab ha
    have := of_mem_dropWhile hmono b hb
    simpa using this
  have hmid : ∀ b ∈ post.takeWhile (fun b => rank t < rank b), rank t ≤ rank b := by
    intro b hb
    have := List.mem_takeWhile_imp hb
    simp only [decide_eq_true_eq] at this
    omega
  unfold lower Ranked
  simp only [h1, h2]
  have hsplit : post.takeWhile (fun b => rank t < rank b) ++
      post.dropWhile (fun b => rank t < rank b) = post := List.takeWhile_append_dropWhile
  rw [← hsplit] at hothers
  obtain ⟨hA, hB, hAB⟩ := List.pairwise_append.mp hothers
  obtain ⟨hM, hD, hMD⟩ := List.pairwise_append.mp hB
  refine List.pairwise_append.mpr ⟨hA, List.pairwise_append.mpr
    ⟨hM, List.pairwise_cons.mpr ⟨hback, hD⟩, ?_⟩, ?_⟩
  · intro a ha b hb
    rcases List.mem_cons.mp hb with rfl | hb
    · exact hmid a ha
    · exact hMD a ha b hb
  · intro a ha b hb
    rcases List.mem_append.mp hb with hb | hb
    · exact hAB a ha b (List.mem_append_left _ hb)
    · rcases List.mem_cons.mp hb with rfl | hb
      · exact hpre a ha
      · exact hAB a ha b (List.mem_append_right _ hb)

end Move

/-! ## A maximum with its multiplicity -/

section Maximum

variable {α : Type} {f : α → Nat}

/-- `m` is the maximum of `f` over `l` (zero for an empty list) and `c`
the number of elements that attain it. -/
structure MaxCount (f : α → Nat) (l : List α) (m c : Nat) : Prop where
  le : ∀ a ∈ l, f a ≤ m
  count : c = l.countP (fun a => f a = m)
  attained : m = 0 ∨ 0 < c

/-- The maximum and its multiplicity after value `p` joins. -/
def bump (mc : Nat × Nat) (p : Nat) : Nat × Nat :=
  if p = mc.1 then (mc.1, mc.2 + 1) else if mc.1 < p then (p, 1) else mc

theorem maxCount_nil : MaxCount f [] 0 0 := ⟨by simp, by simp, .inl rfl⟩

theorem MaxCount.perm {l l' : List α} {m c : Nat} (h : MaxCount f l m c) (hp : l'.Perm l) :
    MaxCount f l' m c :=
  ⟨fun a ha => h.le a (hp.mem_iff.mp ha), by rw [hp.countP_eq]; exact h.count, h.attained⟩

theorem MaxCount.bump {l : List α} {m c : Nat} (h : MaxCount f l m c) (a : α) :
    MaxCount f (a :: l) (bump (m, c) (f a)).1 (bump (m, c) (f a)).2 := by
  unfold RankedList.bump
  split
  · rename_i heq
    simp only at heq
    refine ⟨fun b hb => ?_, by simp [heq, h.count], .inr (by simp)⟩
    rcases List.mem_cons.mp hb with rfl | hb
    · simp [heq]
    · exact h.le b hb
  · split
    · rename_i hne hlt
      simp only at hne hlt
      have hzero : l.countP (fun b => decide (f b = f a)) = 0 := by
        rw [List.countP_eq_zero]
        intro b hb
        have := h.le b hb
        simp only [decide_eq_true_eq]
        omega
      refine ⟨fun b hb => ?_, by simp [hzero], .inr (by simp)⟩
      rcases List.mem_cons.mp hb with rfl | hb
      · exact le_refl _
      · exact le_of_lt (lt_of_le_of_lt (h.le b hb) hlt)
    · rename_i hne hlt
      simp only at hne hlt
      refine ⟨fun b hb => ?_, ?_, h.attained⟩
      · rcases List.mem_cons.mp hb with rfl | hb
        · show f b ≤ m
          omega
        · exact h.le b hb
      · rw [List.countP_cons_of_neg (by simpa using hne)]
        exact h.count

/-- Running over a whole list from nothing gives its maximum and multiplicity. -/
theorem maxCount_foldl (l : List α) :
    MaxCount f l (l.foldl (fun mc a => RankedList.bump mc (f a)) (0, 0)).1
      (l.foldl (fun mc a => RankedList.bump mc (f a)) (0, 0)).2 := by
  induction l using List.reverseRecOn with
  | nil => exact maxCount_nil
  | append_singleton l a ih =>
    rw [List.foldl_append, List.foldl_cons, List.foldl_nil]
    exact (ih.bump a).perm (List.perm_append_comm.trans (List.Perm.refl _))

/-- One of several elements attaining the maximum leaves. -/
theorem MaxCount.drop {l : List α} {a : α} {m c : Nat} (h : MaxCount f (a :: l) m c)
    (ha : f a = m) (hc : c ≠ 1) : MaxCount f l m (c - 1) := by
  have hcount : c = l.countP (fun b => decide (f b = m)) + 1 := by
    have := h.count
    rwa [List.countP_cons_of_pos (by simpa using ha)] at this
  exact ⟨fun b hb => h.le b (List.mem_cons_of_mem _ hb), by omega, .inr (by omega)⟩

/-- An element below the maximum leaves. -/
theorem MaxCount.drop_of_ne {l : List α} {a : α} {m c : Nat} (h : MaxCount f (a :: l) m c)
    (ha : f a ≠ m) : MaxCount f l m c :=
  ⟨fun b hb => h.le b (List.mem_cons_of_mem _ hb),
    by have := h.count; rwa [List.countP_cons_of_neg (by simpa using ha)] at this, h.attained⟩

end Maximum

/-! ## Searching with an early exit -/

section Search

variable {τ ρ σ : Type} (bound : τ → Nat) (rank : ρ → Nat) (visit : σ → τ → σ)
  (probe : τ → Option ρ)

/-- The rest of the search once `best` is known: stop at the first element
whose bound does not exceed the rank of `best`. -/
def refine (best : ρ) (s : σ) : List τ → ρ × σ
  | [] => (best, s)
  | t :: ts =>
    if bound t ≤ rank best then (best, s)
    else
      match probe t with
      | some r => if rank best < rank r then refine r (visit s t) ts else refine best (visit s t) ts
      | none => refine best (visit s t) ts

/-- Probe the elements in order; from the first answer on, `refine` it. -/
def search (s : σ) : List τ → Option ρ × σ
  | [] => (none, s)
  | t :: ts =>
    match probe t with
    | some r => let (best, s') := refine bound rank visit probe r (visit s t) ts; (some best, s')
    | none => search (visit s t) ts

/-- The elements that `refine` probes. -/
def visitedRefine (best : ρ) : List τ → List τ
  | [] => []
  | t :: ts =>
    if bound t ≤ rank best then []
    else
      match probe t with
      | some r => t :: (if rank best < rank r then visitedRefine r ts else visitedRefine best ts)
      | none => t :: visitedRefine best ts

/-- The elements that `search` probes. -/
def visited : List τ → List τ
  | [] => []
  | t :: ts =>
    match probe t with
    | some r => t :: visitedRefine bound rank probe r ts
    | none => t :: visited ts

variable {bound rank probe}

/-- The refined answer is the old one or one of the probed answers, and
ranks at least as high as every answer in the list. -/
theorem refine_sound : ∀ (l : List τ) (best : ρ) (s : σ), Ranked bound l →
    (∀ t ∈ l, ∀ r, probe t = some r → rank r ≤ bound t) →
    let b := (refine bound rank visit probe best s l).1
    (b = best ∨ ∃ t ∈ l, probe t = some b) ∧ rank best ≤ rank b ∧
      ∀ t ∈ l, ∀ r, probe t = some r → rank r ≤ rank b
  | [], best, s, _, _ => by simp [refine]
  | t :: ts, best, s, hsorted, hb => by
      obtain ⟨htop, hts⟩ := List.pairwise_cons.mp hsorted
      have hb' : ∀ t' ∈ ts, ∀ r, probe t' = some r → rank r ≤ bound t' :=
        fun t' ht' => hb t' (List.mem_cons_of_mem _ ht')
      by_cases hstop : bound t ≤ rank best
      · simp only [refine, if_pos hstop]
        refine ⟨.inl trivial, le_refl _, fun t' ht' r hr => ?_⟩
        have hr' := hb t' ht' r hr
        rcases List.mem_cons.mp ht' with rfl | ht'
        · omega
        · have := htop t' ht'
          omega
      · simp only [refine, if_neg hstop]
        cases hp : probe t with
        | none =>
          obtain ⟨h1, h2, h3⟩ := refine_sound ts best (visit s t) hts hb'
          refine ⟨h1.imp id fun ⟨t', ht', h⟩ => ⟨t', List.mem_cons_of_mem _ ht', h⟩, h2, ?_⟩
          intro t' ht' r hr
          rcases List.mem_cons.mp ht' with rfl | ht'
          · rw [hp] at hr; exact absurd hr (by simp)
          · exact h3 t' ht' r hr
        | some r =>
          simp only
          split
          · rename_i hlt
            obtain ⟨h1, h2, h3⟩ := refine_sound ts r (visit s t) hts hb'
            refine ⟨.inr ?_, by omega, ?_⟩
            · rcases h1 with h1 | ⟨t', ht', h⟩
              · exact ⟨t, by simp, by rw [h1, hp]⟩
              · exact ⟨t', List.mem_cons_of_mem _ ht', h⟩
            · intro t' ht' r' hr'
              rcases List.mem_cons.mp ht' with rfl | ht'
              · rw [hp] at hr'; cases hr'; exact h2
              · exact h3 t' ht' r' hr'
          · rename_i hnlt
            obtain ⟨h1, h2, h3⟩ := refine_sound ts best (visit s t) hts hb'
            refine ⟨h1.imp id fun ⟨t', ht', h⟩ => ⟨t', List.mem_cons_of_mem _ ht', h⟩, h2, ?_⟩
            intro t' ht' r' hr'
            rcases List.mem_cons.mp ht' with rfl | ht'
            · rw [hp] at hr'; cases hr'; omega
            · exact h3 t' ht' r' hr'

variable {visit}

/-- The search fails exactly when no probe answers. -/
theorem search_eq_none {l : List τ} {s : σ} :
    (search bound rank visit probe s l).1 = none ↔ ∀ t ∈ l, probe t = none := by
  induction l generalizing s with
  | nil => simp [search]
  | cons t ts ih =>
    cases hp : probe t with
    | none => simp [search, hp, ih]
    | some r => simp [search, hp]

/-- What the search returns is an answer of a probe and outranks every
other answer. -/
theorem search_sound {l : List τ} {s : σ} {b : ρ} (hsorted : Ranked bound l)
    (hb : ∀ t ∈ l, ∀ r, probe t = some r → rank r ≤ bound t)
    (hs : (search bound rank visit probe s l).1 = some b) :
    (∃ t ∈ l, probe t = some b) ∧ ∀ t ∈ l, ∀ r, probe t = some r → rank r ≤ rank b := by
  induction l generalizing s with
  | nil => simp [search] at hs
  | cons t ts ih =>
    obtain ⟨-, hts⟩ := List.pairwise_cons.mp hsorted
    have hb' : ∀ t' ∈ ts, ∀ r, probe t' = some r → rank r ≤ bound t' :=
      fun t' ht' => hb t' (List.mem_cons_of_mem _ ht')
    cases hp : probe t with
    | none =>
      simp only [search, hp] at hs
      obtain ⟨⟨t', ht', h1⟩, h2⟩ := ih hts hb' hs
      refine ⟨⟨t', List.mem_cons_of_mem _ ht', h1⟩, fun t' ht' r hr => ?_⟩
      rcases List.mem_cons.mp ht' with rfl | ht'
      · rw [hp] at hr; exact absurd hr (by simp)
      · exact h2 t' ht' r hr
    | some r =>
      simp only [search, hp, Option.some.injEq] at hs
      obtain ⟨h1, h2, h3⟩ := refine_sound visit ts r (visit s t) hts hb'
      rw [hs] at h1 h2 h3
      refine ⟨?_, fun t' ht' r' hr' => ?_⟩
      · rcases h1 with h1 | ⟨t', ht', h⟩
        · exact ⟨t, by simp, by rw [h1, hp]⟩
        · exact ⟨t', List.mem_cons_of_mem _ ht', h⟩
      · rcases List.mem_cons.mp ht' with rfl | ht'
        · rw [hp] at hr'; cases hr'; exact h2
        · exact h3 t' ht' r' hr'

/-! ## What the search looks at -/

theorem refine_state : ∀ (l : List τ) (best : ρ) (s : σ),
    (refine bound rank visit probe best s l).2
      = (visitedRefine bound rank probe best l).foldl visit s
  | [], best, s => rfl
  | t :: ts, best, s => by
      by_cases hstop : bound t ≤ rank best
      · simp [refine, visitedRefine, hstop]
      · cases hp : probe t with
        | none => simp [refine, visitedRefine, hstop, hp, refine_state ts]
        | some r =>
          by_cases hlt : rank best < rank r
          · simp [refine, visitedRefine, hstop, hp, hlt, refine_state ts]
          · simp [refine, visitedRefine, hstop, hp, hlt, refine_state ts]

/-- The state collects exactly the visited elements, in order. -/
theorem search_state (l : List τ) (s : σ) :
    (search bound rank visit probe s l).2 = (visited bound rank probe l).foldl visit s := by
  induction l generalizing s with
  | nil => rfl
  | cons t ts ih =>
    cases hp : probe t with
    | none => simp [search, visited, hp, ih]
    | some r => simp [search, visited, hp, refine_state]

theorem refine_congr {probe' : τ → Option ρ} : ∀ (l : List τ) (best : ρ) (s : σ),
    (∀ t ∈ visitedRefine bound rank probe best l, probe' t = probe t) →
    refine bound rank visit probe' best s l = refine bound rank visit probe best s l
  | [], _, _, _ => rfl
  | t :: ts, best, s, h => by
      by_cases hstop : bound t ≤ rank best
      · simp [refine, hstop]
      · cases hp : probe t with
        | none =>
          simp only [visitedRefine, if_neg hstop, hp] at h
          have ht := h t (by simp)
          rw [hp] at ht
          simp only [refine, if_neg hstop, hp, ht]
          exact refine_congr ts best _ fun t' ht' => h t' (List.mem_cons_of_mem _ ht')
        | some r =>
          simp only [visitedRefine, if_neg hstop, hp] at h
          have ht := h t (by simp)
          rw [hp] at ht
          simp only [refine, if_neg hstop, hp, ht]
          split
          · rename_i hlt
            simp only [if_pos hlt] at h
            exact refine_congr ts r _ fun t' ht' => h t' (List.mem_cons_of_mem _ ht')
          · rename_i hlt
            simp only [if_neg hlt] at h
            exact refine_congr ts best _ fun t' ht' => h t' (List.mem_cons_of_mem _ ht')

/-- Two probes that agree on what the search of the first one looks at
give the same search: result and state. -/
theorem search_congr {probe' : τ → Option ρ} {l : List τ} {s : σ}
    (h : ∀ t ∈ visited bound rank probe l, probe' t = probe t) :
    search bound rank visit probe' s l = search bound rank visit probe s l := by
  induction l generalizing s with
  | nil => rfl
  | cons t ts ih =>
    cases hp : probe t with
    | none =>
      simp only [visited, hp] at h
      have ht := h t (by simp)
      rw [hp] at ht
      simp only [search, hp, ht]
      exact ih fun t' ht' => h t' (List.mem_cons_of_mem _ ht')
    | some r =>
      simp only [visited, hp] at h
      have ht := h t (by simp)
      rw [hp] at ht
      simp only [search, hp, ht]
      rw [refine_congr ts r _ fun t' ht' => h t' (List.mem_cons_of_mem _ ht')]

theorem visitedRefine_subset : ∀ (l : List τ) (best : ρ),
    visitedRefine bound rank probe best l ⊆ l
  | [], _ => by simp [visitedRefine]
  | t :: ts, best => by
      unfold visitedRefine
      split
      · simp
      · split
        · split
          · exact List.cons_subset_cons t (visitedRefine_subset ts _)
          · exact List.cons_subset_cons t (visitedRefine_subset ts best)
        · exact List.cons_subset_cons t (visitedRefine_subset ts best)

/-- A search probes elements of its list only. -/
theorem visited_subset (l : List τ) : visited bound rank probe l ⊆ l := by
  induction l with
  | nil => simp [visited]
  | cons t ts ih =>
    unfold visited
    split
    · exact List.cons_subset_cons t (visitedRefine_subset ts _)
    · exact List.cons_subset_cons t ih

/-- The answer of `refine` does not depend on the state, and on the ranks only as far as they
are compared. -/
theorem refine_fst_congr {σ' : Type} {visit' : σ' → τ → σ'} {rank' : ρ → Nat} :
    ∀ (l : List τ) (best : ρ) (s : σ) (s' : σ'), rank' best = rank best →
      (∀ t ∈ l, ∀ r, probe t = some r → rank' r = rank r) →
      (refine bound rank' visit' probe best s' l).1 = (refine bound rank visit probe best s l).1
  | [], _, _, _, _, _ => rfl
  | t :: ts, best, s, s', hbest, h => by
      have hrest : ∀ u ∈ ts, ∀ r, probe u = some r → rank' r = rank r := fun u hu =>
        h u (List.mem_cons_of_mem t hu)
      by_cases hstop : bound t ≤ rank best
      · simp [refine, hbest, hstop]
      · cases hp : probe t with
        | none =>
          simp only [refine, hbest, if_neg hstop, hp]
          exact refine_fst_congr ts best _ _ hbest hrest
        | some r =>
          have hr := h t (by simp) r hp
          simp only [refine, hbest, if_neg hstop, hp, hr]
          split
          · exact refine_fst_congr ts r _ _ hr hrest
          · exact refine_fst_congr ts best _ _ hbest hrest

/-- The same for a whole search. -/
theorem search_fst_congr {σ' : Type} {visit' : σ' → τ → σ'} {rank' : ρ → Nat} {l : List τ}
    (h : ∀ t ∈ l, ∀ r, probe t = some r → rank' r = rank r) (s : σ) (s' : σ') :
    (search bound rank' visit' probe s' l).1 = (search bound rank visit probe s l).1 := by
  induction l generalizing s s' with
  | nil => rfl
  | cons t ts ih =>
    have hrest : ∀ u ∈ ts, ∀ r, probe u = some r → rank' r = rank r := fun u hu =>
      h u (List.mem_cons_of_mem t hu)
    cases hp : probe t with
    | none =>
      simp only [search, hp]
      exact ih hrest _ _
    | some r =>
      simp only [search, hp]
      rw [refine_fst_congr ts r (visit s t) (visit' s' t) (h t (by simp) r hp) hrest]

end Search

/-! ## Scanning down to a rank -/

section Scan

variable {α : Type} {rank : α → Nat} {l : List α} {a : α}

/-- A scan that stops below `p` sees everything of rank `p` and more. -/
theorem Ranked.mem_takeWhile [DecidableEq α] (h : Ranked rank l) (ha : a ∈ l) {p : Nat}
    (hp : p ≤ rank a) : a ∈ l.takeWhile fun b => decide (p ≤ rank b) := by
  induction l with
  | nil => cases ha
  | cons b l ih =>
    obtain ⟨hb, hl⟩ := List.pairwise_cons.mp h
    cases List.mem_cons.mp ha with
    | inl hab =>
      subst hab
      simp [hp]
    | inr hal =>
      have hpb : p ≤ rank b := hp.trans (hb a hal)
      simp only [List.takeWhile_cons, hpb, decide_true, if_true]
      exact List.mem_cons_of_mem b (ih hl hal)

/-- Where all ranks differ, the first element that is not above the rank of `a` is `a`. -/
theorem find?_rank_le (h : l.Pairwise fun b c => rank c < rank b) (ha : a ∈ l) :
    (l.find? fun b => decide (rank b ≤ rank a)) = some a := by
  induction l with
  | nil => cases ha
  | cons b l ih =>
    obtain ⟨hb, hl⟩ := List.pairwise_cons.mp h
    cases List.mem_cons.mp ha with
    | inl hab =>
      subst hab
      simp
    | inr hal =>
      have hlt := hb a hal
      rw [List.find?_cons_of_neg (by simpa using hlt)]
      exact ih hl hal

end Scan

end RankedList
