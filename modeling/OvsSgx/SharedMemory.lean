/-
OvsSgx.SharedMemory — the pages that the untrusted side lends to the enclave.

Models shared-memory-trusted.c and shared-memory-untrusted.c. A page is a
block of bytes with a size and a status. `shared_memory_get_page` takes a
page that is free and big enough, the last one it meets; without one it asks
the untrusted side, which gives the page a number that has not been used or
that of a free page, whose bytes it gives back. The enclave returns a page
by the address of its bytes.

What `malloc` returns is part of a call: an address, which is not that of
another block in use, and the contents of the new memory. Pages hold arrays
of pointers of 8 bytes. `ocall_allocate_page` writes a `size_t` where
`page_n` is an `int`; a page number here is its value. The pages that are
marked for deallocation are left out; nothing marks one.
-/
import Mathlib.Data.List.Basic
import Mathlib.Data.List.Nodup
import Mathlib.Logic.Function.Basic
import Mathlib.Tactic

namespace OvsSgx

/-- `PAGE_STATUS_FREE`. -/
def PAGE_STATUS_FREE : Nat := 0

/-- `PAGE_STATUS_ALLOCATED`. -/
def PAGE_STATUS_ALLOCATED : Nat := 1

/-- `DEFAULT_PAGE_SIZE`. -/
def DEFAULT_PAGE_SIZE : Nat := 64

/-- `MAX_N_PAGES`. -/
def MAX_N_PAGES : Nat := 10

/-- `struct page`. -/
structure Page where
  bytes : Nat
  size : Nat
  status : Nat
deriving DecidableEq

/-- `shared_memory`. `words` is the contents of the memory, as an array of pointers from each
address on. -/
structure SharedMemory (α : Type) where
  pages : Nat → Page
  cap : Nat
  allocated : Nat → Bool
  defaultPageSz : Nat
  words : Nat → Nat → Option α

/-- What the calls of `malloc` for a page return: the address of its bytes, and what is in the new
memory of the bytes and of the status. -/
structure PageMalloc (α : Type) where
  bytes : Nat
  words : Nat → Option α
  status : Nat

namespace SharedMemory

variable {α : Type}

/-! ## The untrusted side -/

/-- `next_unallocated_page`. -/
def nextUnallocatedPage (m : SharedMemory α) : Option Nat :=
  (List.range m.cap).find? fun i => !m.allocated i

/-- `next_free_page`. -/
def nextFreePage (m : SharedMemory α) : Option Nat :=
  (List.range m.cap).find? fun i => m.allocated i && (m.pages i).status == PAGE_STATUS_FREE

/-- The number of the page that `shared_memory_allocate_page` allocates. -/
def nextPage (m : SharedMemory α) : Option Nat :=
  m.nextUnallocatedPage.orElse fun _ => m.nextFreePage

/-- The new page of `shared_memory_allocate_page`, with number `n`. -/
def addPage (m : SharedMemory α) (n pageSz : Nat) (a : PageMalloc α) : SharedMemory α :=
  { m with
    allocated := Function.update m.allocated n true
    pages := Function.update m.pages n
      { bytes := a.bytes
        size := if pageSz ≠ 0 then 2 * pageSz else m.defaultPageSz
        status := a.status }
    words := Function.update m.words a.bytes a.words }

/-- `shared_memory_allocate_page`. -/
def allocatePage (m : SharedMemory α) (pageSz : Nat) (a : PageMalloc α) :
    SharedMemory α × Option Nat :=
  match m.nextPage with
  | none => (m, none)
  | some n => (m.addPage n pageSz a, some n)

/-- `shared_memory_init`, from what is in the memory. -/
def init (pages : Nat → Page) (words : Nat → Nat → Option α) (answers : List (PageMalloc α)) :
    Option (SharedMemory α) :=
  answers.foldlM (fun m a =>
    match m.allocatePage 0 a with
    | (m, some _) => some m
    | (_, none) => none)
    ⟨pages, MAX_N_PAGES, fun _ => false, DEFAULT_PAGE_SIZE, words⟩

/-! ## The trusted side -/

/-- `shared_memory_index_of_allocated_page`. -/
def indexOfAllocatedPage (m : SharedMemory α) (pageAddr : Nat) : Option Nat :=
  (List.range m.cap).find? fun i => m.allocated i && (m.pages i).bytes == pageAddr

/-- `page->status = status` for page `n`. -/
def setStatus (m : SharedMemory α) (n status : Nat) : SharedMemory α :=
  { m with pages := Function.update m.pages n { m.pages n with status := status } }

/-- `shared_memory_free_page`. -/
def freePage (m : SharedMemory α) (pageAddr : Nat) : SharedMemory α :=
  match m.indexOfAllocatedPage pageAddr with
  | none => m
  | some n => m.setStatus n PAGE_STATUS_FREE

/-- The page that the first loop of `shared_memory_get_page` finds. -/
def findPage (m : SharedMemory α) (requestedSize : Nat) : Option Nat :=
  (List.range m.cap).foldl (fun n i =>
    if m.allocated i && decide (requestedSize ≤ (m.pages i).size) &&
        (m.pages i).status == PAGE_STATUS_FREE then some i else n) none

/-- `ocall_allocate_page`, which fails without an answer. -/
def ocallAllocatePage (m : SharedMemory α) (sz : Nat) (answer : Option (PageMalloc α)) :
    SharedMemory α × Option Nat :=
  match answer with
  | some a => m.allocatePage sz a
  | none => (m, none)

/-- `shared_memory_get_page`: the memory and the number of the page. -/
def getPage (m : SharedMemory α) (requestedSize pageStatus : Nat)
    (answer : Option (PageMalloc α)) : SharedMemory α × Option Nat :=
  match m.findPage requestedSize with
  | some n => (m.setStatus n pageStatus, some n)
  | none =>
    match m.ocallAllocatePage requestedSize answer with
    | (m, some n) => (m.setStatus n pageStatus, some n)
    | (m, none) => (m, none)

/-! ## Pages in use -/

/-- Page `n` is allocated. -/
def Has (m : SharedMemory α) (n : Nat) : Prop := n < m.cap ∧ m.allocated n = true

/-- No two pages share their bytes. -/
def Apart (m : SharedMemory α) : Prop :=
  ∀ j k, m.Has j → m.Has k → (m.pages j).bytes = (m.pages k).bytes → j = k

/-- `malloc` returns no address of a block in use; the bytes of the page with the number that is
used again have been given back before. -/
def Fresh (m : SharedMemory α) (a : PageMalloc α) : Prop :=
  ∀ k, m.Has k → m.nextPage ≠ some k → (m.pages k).bytes ≠ a.bytes

/-- `m'` is `m` after page `n` has been taken for `requestedSize` bytes. -/
structure Taken (m m' : SharedMemory α) (n requestedSize pageStatus : Nat) : Prop where
  has : m'.Has n
  wasFree : m.Has n → (m.pages n).status = PAGE_STATUS_FREE
  status : (m'.pages n).status = pageStatus
  size : requestedSize ≤ (m'.pages n).size
  cap : m'.cap = m.cap
  others : ∀ k ≠ n, m'.allocated k = m.allocated k ∧ m'.pages k = m.pages k
  words : ∀ addr, addr ≠ (m'.pages n).bytes → m'.words addr = m.words addr
  apart : m'.Apart

section Pages

variable {m m' : SharedMemory α} {n requestedSize pageStatus pageAddr : Nat}

/-! ## Choosing a page -/

theorem nextUnallocatedPage_some (h : m.nextUnallocatedPage = some n) :
    n < m.cap ∧ m.allocated n = false := by
  have hmem := List.mem_range.mp (List.mem_of_find?_eq_some h)
  exact ⟨hmem, by simpa using List.find?_some h⟩

theorem nextFreePage_some (h : m.nextFreePage = some n) :
    m.Has n ∧ (m.pages n).status = PAGE_STATUS_FREE := by
  have hmem := List.mem_range.mp (List.mem_of_find?_eq_some h)
  have hprop := List.find?_some h
  rw [Bool.and_eq_true, beq_iff_eq] at hprop
  exact ⟨⟨hmem, hprop.1⟩, hprop.2⟩

/-- A page is only used again if it is free. -/
theorem nextPage_some (h : m.nextPage = some n) :
    n < m.cap ∧ (m.Has n → (m.pages n).status = PAGE_STATUS_FREE) := by
  unfold nextPage at h
  cases hun : m.nextUnallocatedPage with
  | some k =>
    rw [hun] at h
    obtain rfl := Option.some.inj h
    obtain ⟨hlt, hnot⟩ := nextUnallocatedPage_some hun
    refine ⟨hlt, fun hhas => ?_⟩
    exact absurd hhas.2 (by simp [hnot])
  | none =>
    rw [hun] at h
    obtain ⟨hhas, hstatus⟩ := nextFreePage_some h
    exact ⟨hhas.1, fun _ => hstatus⟩

theorem findPage_some (h : m.findPage requestedSize = some n) :
    m.Has n ∧ requestedSize ≤ (m.pages n).size ∧ (m.pages n).status = PAGE_STATUS_FREE := by
  suffices hfold : ∀ (l : List Nat), (∀ i ∈ l, i < m.cap) → ∀ start, l.foldl (fun n i =>
      if m.allocated i && decide (requestedSize ≤ (m.pages i).size) &&
        (m.pages i).status == PAGE_STATUS_FREE then some i else n) start = some n →
      start = some n ∨ (m.Has n ∧ requestedSize ≤ (m.pages n).size ∧
        (m.pages n).status = PAGE_STATUS_FREE) by
    rcases hfold _ (fun i hi => List.mem_range.mp hi) none h with hnone | hn
    · cases hnone
    · exact hn
  intro l
  induction l with
  | nil => exact fun _ _ h => Or.inl h
  | cons i l ih =>
    intro hl start hfold
    rw [List.foldl_cons] at hfold
    rcases ih (fun j hj => hl j (List.mem_cons_of_mem _ hj)) _ hfold with hstart | hn
    · split at hstart
      · rename_i hcond
        obtain rfl := Option.some.inj hstart
        simp only [Bool.and_eq_true, decide_eq_true_eq, beq_iff_eq] at hcond
        exact Or.inr ⟨⟨hl i (List.mem_cons_self ..), hcond.1.1⟩, hcond.1.2, hcond.2⟩
      · exact Or.inl hstart
    · exact Or.inr hn

/-! ## The effect of the calls -/

theorem pages_setStatus_ne {k status : Nat} (h : k ≠ n) :
    (m.setStatus n status).pages k = m.pages k := by
  simp [setStatus, h]

theorem bytes_setStatus {k status : Nat} :
    ((m.setStatus n status).pages k).bytes = (m.pages k).bytes := by
  by_cases h : k = n
  · subst h
    simp [setStatus]
  · rw [pages_setStatus_ne h]

theorem size_setStatus {k status : Nat} :
    ((m.setStatus n status).pages k).size = (m.pages k).size := by
  by_cases h : k = n
  · subst h
    simp [setStatus]
  · rw [pages_setStatus_ne h]

theorem status_setStatus {status : Nat} : ((m.setStatus n status).pages n).status = status := by
  simp [setStatus]

theorem Apart.setStatus {status : Nat} (h : m.Apart) : (m.setStatus n status).Apart := by
  intro j k hj hk heq
  rw [bytes_setStatus, bytes_setStatus] at heq
  exact h j k hj hk heq

/-- Taking a page that is free. -/
theorem taken_setStatus (h : m.Apart) (hn : m.Has n)
    (hfree : (m.pages n).status = PAGE_STATUS_FREE) (hsize : requestedSize ≤ (m.pages n).size) :
    Taken m (m.setStatus n pageStatus) n requestedSize pageStatus where
  has := hn
  wasFree _ := hfree
  status := status_setStatus
  size := by rw [size_setStatus]; exact hsize
  cap := rfl
  others _ hk := ⟨rfl, pages_setStatus_ne hk⟩
  words _ _ := rfl
  apart := h.setStatus

/-- After page `n` has been allocated the pages do not share bytes either. -/
theorem Apart.addPage {pageSz : Nat} {a : PageMalloc α} (h : m.Apart) (hn : m.nextPage = some n)
    (hfresh : m.Fresh a) : (m.addPage n pageSz a).Apart := by
  have hnew : ((m.addPage n pageSz a).pages n).bytes = a.bytes := by simp [SharedMemory.addPage]
  have hold : ∀ k ≠ n, (m.addPage n pageSz a).pages k = m.pages k :=
    fun k hk => Function.update_of_ne hk _ _
  have hhas : ∀ k ≠ n, (m.addPage n pageSz a).Has k → m.Has k := by
    intro k hk hmem
    refine ⟨hmem.1, ?_⟩
    rw [← hmem.2]
    exact (Function.update_of_ne hk true m.allocated).symm
  have hother : ∀ k ≠ n, (m.addPage n pageSz a).Has k → (m.pages k).bytes ≠ a.bytes := by
    intro k hk hmem
    refine hfresh k (hhas k hk hmem) fun heq => hk ?_
    rw [hn] at heq
    exact (Option.some.inj heq).symm
  intro j k hj hk heq
  by_cases hjn : j = n
  · by_contra hne
    have hkn : k ≠ n := fun hkn => hne (hjn.trans hkn.symm)
    rw [hjn, hnew, hold k hkn] at heq
    exact hother k hkn hk heq.symm
  · by_cases hkn : k = n
    · rw [hkn, hnew, hold j hjn] at heq
      exact absurd heq (hother j hjn hj)
    · rw [hold j hjn, hold k hkn] at heq
      exact h j k (hhas j hjn hj) (hhas k hkn hk) heq

/-- Taking a page that the untrusted side has allocated. -/
theorem taken_addPage {a : PageMalloc α} (h : m.Apart) (hn : m.nextPage = some n)
    (hfresh : m.Fresh a) :
    Taken m ((m.addPage n requestedSize a).setStatus n pageStatus) n requestedSize pageStatus where
  has := ⟨(nextPage_some hn).1, by simp [setStatus, addPage]⟩
  wasFree := (nextPage_some hn).2
  status := status_setStatus
  size := by
    rw [size_setStatus]
    have hsize : ((m.addPage n requestedSize a).pages n).size
        = if requestedSize ≠ 0 then 2 * requestedSize else m.defaultPageSz := by simp [addPage]
    rw [hsize]
    split
    · omega
    · omega
  cap := rfl
  others k hk :=
    ⟨Function.update_of_ne hk _ _, (pages_setStatus_ne hk).trans (Function.update_of_ne hk _ _)⟩
  words addr haddr := by
    rw [bytes_setStatus] at haddr
    refine Function.update_of_ne (fun heq => haddr ?_) _ _
    simp [addPage, heq]
  apart := (h.addPage hn hfresh).setStatus

/-- What `shared_memory_get_page` does: nothing, or it takes a page. -/
theorem getPage_cases (requestedSize pageStatus : Nat) (h : m.Apart) {answer : Option (PageMalloc α)}
    (hfresh : ∀ a, answer = some a → m.Fresh a) :
    m.getPage requestedSize pageStatus answer = (m, none) ∨
    ∃ m' n, m.getPage requestedSize pageStatus answer = (m', some n) ∧
      Taken m m' n requestedSize pageStatus := by
  unfold getPage
  cases hfind : m.findPage requestedSize with
  | some n =>
    obtain ⟨hhas, hsize, hfree⟩ := findPage_some hfind
    exact Or.inr ⟨_, n, rfl, taken_setStatus h hhas hfree hsize⟩
  | none =>
    cases answer with
    | none => exact Or.inl rfl
    | some a =>
      dsimp only [ocallAllocatePage, allocatePage]
      cases hnext : m.nextPage with
      | none => exact Or.inl rfl
      | some n =>
        exact Or.inr ⟨_, n, rfl, taken_addPage h hnext (hfresh a rfl)⟩

/-- The address of a page's bytes leads to that page. -/
theorem indexOfAllocatedPage_eq (h : m.Apart) (hn : m.Has n) :
    m.indexOfAllocatedPage (m.pages n).bytes = some n := by
  cases hfind : m.indexOfAllocatedPage (m.pages n).bytes with
  | none =>
    have hnot := List.find?_eq_none.mp hfind n (List.mem_range.mpr hn.1)
    simp [hn.2] at hnot
  | some k =>
    have hlt := List.mem_range.mp (List.mem_of_find?_eq_some hfind)
    have hprop := List.find?_some hfind
    rw [Bool.and_eq_true, beq_iff_eq] at hprop
    rw [h k n ⟨hlt, hprop.1⟩ hn hprop.2]

/-- A page is freed by the address of its bytes. -/
theorem freePage_eq (h : m.Apart) (hn : m.Has n) :
    m.freePage (m.pages n).bytes = m.setStatus n PAGE_STATUS_FREE := by
  rw [freePage, indexOfAllocatedPage_eq h hn]

/-- The first pages are apart. -/
theorem apart_init {pages : Nat → Page} {words : Nat → Nat → Option α}
    {answers : List (PageMalloc α)} (hnodup : (answers.map PageMalloc.bytes).Nodup)
    (h : init pages words answers = some m) : m.Apart := by
  suffices hfold : ∀ (l : List (PageMalloc α)) (m0 : SharedMemory α), m0.Apart →
      (l.map PageMalloc.bytes).Nodup → (∀ a ∈ l, ∀ k, m0.Has k → (m0.pages k).bytes ≠ a.bytes) →
      l.foldlM (fun m a =>
        match m.allocatePage 0 a with
        | (m, some _) => some m
        | (_, none) => none) m0 = some m → m.Apart by
    refine hfold answers _ ?_ hnodup ?_ h
    · exact fun j k hj _ _ => absurd hj.2 (by simp)
    · exact fun a _ k hk => absurd hk.2 (by simp)
  intro l
  induction l with
  | nil =>
    intro m0 hm0 _ _ h
    obtain rfl := Option.some.inj h
    exact hm0
  | cons a l ih =>
    intro m0 hm0 hnd hother h
    rw [List.map_cons, List.nodup_cons] at hnd
    rw [List.foldlM_cons] at h
    unfold allocatePage at h
    cases hnext : m0.nextPage with
    | none =>
      rw [hnext] at h
      cases h
    | some n =>
      rw [hnext] at h
      have hfresh : m0.Fresh a := fun k hk _ => hother a (List.mem_cons_self ..) k hk
      refine ih (m0.addPage n 0 a) (hm0.addPage hnext hfresh) hnd.2 (fun b hb k hk => ?_) h
      by_cases hkn : k = n
      · subst hkn
        have hbytes : ((m0.addPage k 0 a).pages k).bytes = a.bytes := by simp [addPage]
        rw [hbytes]
        exact fun heq => hnd.1 (List.mem_map.mpr ⟨b, hb, heq.symm⟩)
      · have hpage : (m0.addPage n 0 a).pages k = m0.pages k := Function.update_of_ne hkn _ _
        have halloc : m0.allocated k = true := by
          rw [← hk.2]
          exact (Function.update_of_ne hkn true m0.allocated).symm
        rw [hpage]
        exact hother b (List.mem_cons_of_mem _ hb) k ⟨hk.1, halloc⟩

end Pages

end SharedMemory

end OvsSgx
