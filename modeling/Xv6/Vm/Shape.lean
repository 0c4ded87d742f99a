import Mathlib.Data.Finset.Card
import Xv6.Vm.Space

/-!
# The shape of an address space

`Shape lk tf n g t`: the table `t` maps the virtual pages below `n`, the trapframe `tf` and
the trampoline, and nothing else. User code can access the pages below `n` except `g`.
The functions of `kernel/vm.c` that create, grow, shrink, copy and free an address space
keep it.
-/

namespace Xv6.Vm

open Xv6.Lib
open Xv6.Process (Stop)
open Function (update update_of_ne update_self update_eq_self)

variable {lk : Link} {D : Set ℕ} {m c : ℕ → Page} {t t' told : Table} {h : ℕ → ℕ} {s : Ram}
  {β : Type} {v va tf n k b sz w j oldsz perm q xperm tfold : ℕ} {g : Option ℕ} {Q : β → Ram → Prop}
  {P : Ram → Prop}

/-! ## Sizes -/

/-- The number of pages for `sz` bytes. -/
def pages (sz : ℕ) : ℕ := (sz + PGSIZE - 1) / PGSIZE

lemma pages_mul (n : ℕ) : pages (n * PGSIZE) = n := by
  unfold pages PGSIZE
  omega

lemma pages_mono {a : ℕ} (hab : a ≤ b) : pages a ≤ pages b := by
  unfold pages PGSIZE
  omega

/-- Memory has fewer pages than an address space. -/
lemma UPAGES_eq : UPAGES = 2 ^ 26 - 2 := by decide

lemma pgroundup_eq (h : pages sz ≤ UPAGES) : pgroundup sz = pages sz * PGSIZE := by
  rw [UPAGES_eq] at h
  unfold pgroundup
  unfold pages PGSIZE at *
  rw [Nat.mod_eq_of_lt (by omega)]

lemma vpn_trapframe : vpn TRAPFRAME = UPAGES := rfl

lemma vpn_trampoline : vpn TRAMPOLINE = UPAGES + 1 := by decide

/-- A table cannot map more pages than there are. -/
lemma Core.pages_le (hc : Core D m t h s) (hD : D ⊆ lk.pool) (hn : n ≤ UPAGES)
    (hmapped : ∀ v < n, t.leaf v ≠ 0) : n ≤ 32768 := by
  let f : ℕ → ℕ := fun v => (pte2pa (t.leaf v) - KERNBASE) / PGSIZE
  have hpool : ∀ v < n, pte2pa (t.leaf v) ∈ lk.pool := fun v hv =>
    hD (hc.leaf_mem (by omega) (hmapped v hv))
  have hge : ∀ v < n, KERNBASE ≤ pte2pa (t.leaf v) := by
    intro v hv
    have h₁ := (hpool v hv).2.1
    have h₂ := lk.trampoline_lt
    have h₃ := lk.trampoline_ge
    omega
  have hmaps : Set.MapsTo f (Finset.range n) (Finset.range 32768) := by
    intro v hv
    have hlt := (hpool v (by simpa using hv)).2.2
    have hf : f v < 32768 := by
      simp only [f]
      unfold PHYSTOP KERNBASE at *
      unfold PGSIZE
      omega
    simpa using hf
  have hinj : Set.InjOn f (Finset.range n) := by
    intro v hv w hw heq
    have hv : v < n := by simpa using hv
    have hw : w < n := by simpa using hw
    have hpage : pte2pa (t.leaf v) = pte2pa (t.leaf w) := by
      have h₁ := (hpool v hv).1
      have h₂ := (hpool w hw).1
      have h₃ := hge v hv
      have h₄ := hge w hw
      simp only [f] at heq
      unfold KERNBASE at *
      unfold PGSIZE at *
      omega
    rw [← leaf_cell (h := h) (by omega : v < UPAGES),
      ← leaf_cell (h := h) (by omega : w < UPAGES)] at hpage
    have := hc.owned.inj _ _ (hc.leaf_cell_ne (by omega) (hmapped v hv)) hpage
    simpa using this
  simpa using Finset.card_le_card_of_injOn f hmaps hinj

/-! ## The shape -/

/-- The table maps `n` pages for the user, of which `g` is the guard page, and the
trapframe and the trampoline for the kernel. -/
structure Shape (lk : Link) (tf n : ℕ) (g : Option ℕ) (t : Table) : Prop where
  root : t.root ≠ 0
  le : n ≤ UPAGES
  mapped : ∀ v < UPAGES, t.leaf v ≠ 0 ↔ v < n
  user : ∀ v < n, some v ≠ g → pteU (t.leaf v) = true
  trapframe : t.leaf UPAGES = mkPte tf (PTE_R ||| PTE_W)
  trampoline : t.leaf (UPAGES + 1) = mkPte lk.trampoline (PTE_R ||| PTE_X)
  above : ∀ v, UPAGES + 1 < v → t.leaf v = 0

/-- The entries of the first `n` pages and those for the kernel are the same, and the
page-table pages are still there. -/
structure Keeps (n : ℕ) (t t' : Table) : Prop where
  root : t'.root = t.root
  leaf : ∀ v, v < n ∨ UPAGES ≤ v → t'.leaf v = t.leaf v
  node : ∀ l k, t.node l k ≠ 0 → t'.node l k = t.node l k

lemma Keeps.refl (n : ℕ) (t : Table) : Keeps n t t := ⟨rfl, fun _ _ => rfl, fun _ _ _ => rfl⟩

lemma Keeps.trans {t'' : Table} (h : Keeps n t t') (h' : Keeps n t' t'') : Keeps n t t'' :=
  ⟨h'.root.trans h.root, fun v hv => (h'.leaf v hv).trans (h.leaf v hv), node_trans h.node h'.node⟩

lemma Keeps.mono (h : Keeps k t t') (hn : n ≤ k) : Keeps n t t' :=
  ⟨h.root, fun v hv => h.leaf v (by omega), h.node⟩

lemma Grown.keeps (h : Grown t t') (n : ℕ) : Keeps n t t' :=
  ⟨h.root, fun _ _ => by rw [h.leaf], h.node⟩

lemma Table.unmap_keeps (t : Table) (n k : ℕ) (hk : n + k ≤ UPAGES) :
    Keeps n t (t.unmap n k) := by
  refine ⟨rfl, fun v hv => ?_, fun _ _ _ => rfl⟩
  show (if n ≤ v ∧ v < n + k then 0 else t.leaf v) = t.leaf v
  rw [if_neg (by omega)]

namespace Shape

/-- Only the root and the entries matter. -/
lemma congr (hs : Shape lk tf n g t) (hroot : t'.root = t.root) (hleaf : t'.leaf = t.leaf) :
    Shape lk tf n g t' := by
  refine ⟨hroot ▸ hs.root, hs.le, ?_, ?_, ?_, ?_, ?_⟩
  · rw [hleaf]
    exact hs.mapped
  · rw [hleaf]
    exact hs.user
  · rw [hleaf]
    exact hs.trapframe
  · rw [hleaf]
    exact hs.trampoline
  · rw [hleaf]
    exact hs.above

lemma ne_zero (hs : Shape lk tf n g t) (hv : v < n) : t.leaf v ≠ 0 :=
  (hs.mapped v (hv.trans_le hs.le)).2 hv

lemma eq_zero (hs : Shape lk tf n g t) (hn : n ≤ v) (hv : v < UPAGES) : t.leaf v = 0 := by
  by_contra hne
  have := (hs.mapped v hv).1 hne
  omega

/-- The last pages are unmapped. -/
lemma unmap (hs : Shape lk tf n g t) (hk : k ≤ n) : Shape lk tf k g (t.unmap k (n - k)) := by
  have hle := hs.le
  have hkeep : Keeps k t (t.unmap k (n - k)) := t.unmap_keeps k (n - k) (by omega)
  refine ⟨hs.root, by omega, fun v hv => ?_, fun v hv hg => ?_, ?_, ?_, fun v hv => ?_⟩
  · by_cases hvk : v < k
    · rw [hkeep.leaf v (.inl hvk)]
      simp [hvk, hs.ne_zero (by omega : v < n)]
    · show (if k ≤ v ∧ v < k + (n - k) then 0 else t.leaf v) ≠ 0 ↔ v < k
      by_cases hvn : v < n
      · rw [if_pos (by omega)]
        simp [hvk]
      · rw [if_neg (by omega), hs.eq_zero (by omega) hv]
        simp [hvk]
  · rw [hkeep.leaf v (.inl hv)]
    exact hs.user v (by omega) hg
  · rw [hkeep.leaf _ (.inr le_rfl)]
    exact hs.trapframe
  · rw [hkeep.leaf _ (.inr (by omega))]
    exact hs.trampoline
  · rw [hkeep.leaf _ (.inr (by omega))]
    exact hs.above v hv

/-- One more page is mapped. -/
lemma extend (hs : Shape lk tf n g t) (hn : n < UPAGES) (hw : w ≠ 0)
    (hu : some n ≠ g → pteU w = true) : Shape lk tf (n + 1) g (t.setLeaf n w) := by
  refine ⟨hs.root, hn, fun v hv => ?_, fun v hv hg => ?_, ?_, ?_, fun v hv => ?_⟩
  · rw [Table.setLeaf_leaf]
    by_cases hvn : v = n
    · simp [hvn, hw]
    · rw [if_neg hvn, hs.mapped v hv]
      omega
  · rw [Table.setLeaf_leaf]
    by_cases hvn : v = n
    · rw [if_pos hvn]
      exact hu (hvn ▸ hg)
    · rw [if_neg hvn]
      exact hs.user v (by omega) hg
  · rw [Table.setLeaf_leaf, if_neg (by omega)]
    exact hs.trapframe
  · rw [Table.setLeaf_leaf, if_neg (by omega)]
    exact hs.trampoline
  · rw [Table.setLeaf_leaf, if_neg (by omega)]
    exact hs.above v hv

end Shape

lemma Table.setLeaf_keeps (t : Table) (hn : n < UPAGES) : Keeps n t (t.setLeaf n w) := by
  refine ⟨rfl, fun v hv => ?_, fun _ _ _ => rfl⟩
  rw [Table.setLeaf_leaf, if_neg (by omega)]

/-! ## Contents -/

/-- `Core`, and the virtual page `v` has the contents `c v`. -/
structure Filled (c : ℕ → Page) (D : Set ℕ) (m : ℕ → Page) (t : Table) (h : ℕ → ℕ) (s : Ram) :
    Prop where
  core : Core D m t h s
  page : ∀ v < UPAGES, t.leaf v ≠ 0 → s.mem (pte2pa (t.leaf v)) = c v

/-- The pages have some contents. -/
lemma filled_pre {E : Stop → Prop} {x : VmM β} (hx : ∀ c, Triple E (Filled c D m t h) x Q) :
    Triple E (Core D m t h) x Q :=
  .of_run fun s hc => (hx fun v => s.mem (pte2pa (t.leaf v))).run ⟨hc, fun _ _ _ => rfl⟩

/-- The pages of the user. -/
def Table.userPages (t : Table) : Set ℕ :=
  {b | ∃ v, v < UPAGES ∧ t.leaf v ≠ 0 ∧ pte2pa (t.leaf v) = b}

lemma Core.guard (hc : Core D m t h s) {K : Set ℕ} (hK : K ⊆ t.userPages) :
    Guarded K s.mem D m t h s := by
  refine ⟨hc, ⟨fun _ _ => rfl, fun b hb hmem => ?_⟩, fun l k hmem => ?_⟩
  · obtain ⟨v, hv, hl, rfl⟩ := hK hmem
    have hused : t.cell h (.leaf v) ∉ s.free := hc.owned.used_cell (hc.leaf_cell_ne hv hl)
    rw [Core.leaf_cell hv] at hused
    exact hused hb
  · obtain ⟨v, hv, hl, heq⟩ := hK hmem
    exact hc.leaf_ne_node hv hl l k heq.symm

/-- No page is mapped twice. -/
lemma Core.leaf_inj (hc : Core D m t h s) (hv : v < UPAGES) (hw : w < UPAGES) (hl : t.leaf v ≠ 0)
    (heq : pte2pa (t.leaf v) = pte2pa (t.leaf w)) : v = w := by
  rw [← Core.leaf_cell (h := h) hv, ← Core.leaf_cell (h := h) hw] at heq
  simpa using hc.owned.inj _ _ (hc.leaf_cell_ne hv hl) heq

lemma Core.hand_notMem_userPages (hc : Core D m t h s) (hj : h j ≠ 0) : h j ∉ t.userPages := by
  rintro ⟨v, hv, -, heq⟩
  rw [← Core.leaf_cell (h := h) hv] at heq
  cases hc.owned.inj (.hand j) (.leaf v) hj heq.symm

namespace Filled

lemma congr {d : ℕ → Page} (hf : Filled c D m t h s)
    (hcd : ∀ v < UPAGES, t.leaf v ≠ 0 → c v = d v) : Filled d D m t h s :=
  ⟨hf.core, fun v hv hl => (hf.page v hv hl).trans (hcd v hv hl)⟩

/-- The pages of the user were kept. -/
lemma of_guarded {h' : ℕ → ℕ} {s' : Ram} (hf : Filled c D m t h s)
    (hg : Guarded t.userPages s.mem D m t h' s') : Filled c D m t h' s' :=
  ⟨hg.core, fun v hv hl => (hg.kept.mem _ ⟨v, hv, hl, rfl⟩).trans (hf.page v hv hl)⟩

/-- A page in hand is overwritten. -/
lemma touch (hf : Filled c D m t h s) (hj : h j ≠ 0) (page : Page) :
    Filled c D m t h (s.setPage (h j) page) :=
  hf.of_guarded ((hf.core.guard subset_rfl).touch hj (hf.core.hand_notMem_userPages hj) page)

end Filled

lemma kalloc_filled {f : ℕ → VmM β} (j : ℕ) (hj : h j = 0)
    (hfail : Triple NoStop (Filled c D m t h) (f 0) Q)
    (hok : ∀ q, q ≠ 0 → Triple NoStop (Filled c D m t (update h j q)) (f q) Q) :
    Triple NoStop (Filled c D m t h) (kalloc >>= f) Q := by
  refine .of_run fun s hf => ?_
  have hrun := kalloc_guarded (K := t.userPages) (c := s.mem) (f := f) (Q := Q) j hj
    (hfail.pre fun _ hg => hf.of_guarded hg)
    fun q hq _ => (hok q hq).pre fun _ hg => hf.of_guarded hg
  exact hrun.run (hf.core.guard subset_rfl)

lemma memset_filled (hj : h j = b) (hb : b ≠ 0) (x : UInt8) :
    Triple NoStop (Filled c D m t h) (memset b x)
      fun _ s => Filled c D m t h s ∧ s.mem b = Bytes.fill PGSIZE x := by
  subst hj
  exact .modify fun s hf => ⟨hf.touch hb _, update_self ..⟩

/-- The pages of the user keep their contents. -/
lemma kfree_filled (hD : D ⊆ lk.pool) (hj : h j = b) (hb : b ≠ 0) :
    Triple NoStop (Filled c D m t h) (kfree lk b)
      fun _ => Filled c D m t (update h j 0) := by
  refine .of_run fun s hf => ?_
  have hK : b ∉ t.userPages := hj ▸ hf.core.hand_notMem_userPages (hj.symm ▸ hb)
  exact ((kfree_guarded hD hj hb hK).run (hf.core.guard subset_rfl)).mono
    fun r hg => hf.of_guarded hg

/-! ## Growing and shrinking -/

/-- `uvmunmap` of the last pages of the user. -/
lemma uvmunmap_user (hD : D ⊆ lk.pool) (hhand : h 0 = 0) (hs : Shape lk tf n g t) (hk : k ≤ n) :
    Triple NoStop (Filled c D m t h) (uvmunmap lk t.root (k * PGSIZE) (n - k) true)
      fun _ => Filled c D m (t.unmap k (n - k)) h := by
  have hle := hs.le
  refine .of_run fun s hf => ?_
  -- the first pages are kept
  let K : Set ℕ := {b | ∃ v, v < k ∧ pte2pa (t.leaf v) = b}
  have hK : K ⊆ t.userPages := fun b ⟨v, hv, hb⟩ => ⟨v, by omega, hs.ne_zero (by omega), hb⟩
  have hunmap := unmapLoop_user (K := K) (c := s.mem) (m := m) hD hhand (n - k) t (k * PGSIZE)
    hs.root
  rw [vpn_mul] at hunmap
  have hrun : Triple NoStop (Guarded K s.mem D m t h)
      (uvmunmap lk t.root (k * PGSIZE) (n - k) true)
      fun _ => Guarded K s.mem D m (t.unmap k (n - k)) h := by
    refine .ite (fun hne => absurd (Nat.mul_mod_left k PGSIZE) hne) fun _ => ?_
    refine hunmap (fun v _ hlt => hs.ne_zero (by omega)) (by omega) fun v hge hlt hmem => ?_
    obtain ⟨w, hw, heq⟩ := hmem
    have := hf.core.leaf_inj (by omega) (by omega) (hs.ne_zero (by omega)) heq
    omega
  refine (hrun.run (hf.core.guard hK)).mono fun r hg => ⟨hg.core, fun v hv hl => ?_⟩
  have hvk : v < k := ((hs.unmap hk).mapped v hv).1 hl
  have hleaf := (t.unmap_keeps k (n - k) (by omega)).leaf v (.inl hvk)
  rw [hleaf, hg.kept.mem _ ⟨v, hvk, rfl⟩]
  exact hf.page v hv (hleaf ▸ hl)

/-- `uvmdealloc` leaves the pages below the new size alone. -/
lemma uvmdealloc_filled (hD : D ⊆ lk.pool) (hhand : h 0 = 0) (hs : Shape lk tf (pages oldsz) g t)
    (newsz : ℕ) :
    Triple NoStop (Filled c D m t h) (uvmdealloc lk t.root oldsz newsz) fun r s =>
      r = min oldsz newsz ∧
        Filled c D m (t.unmap (pages newsz) (pages oldsz - pages newsz)) h s := by
  have hle := hs.le
  refine .ite (fun hge => ?_) fun hlt => ?_
  · refine .pure fun s hc => ⟨(min_eq_left hge).symm, ?_⟩
    rw [Nat.sub_eq_zero_of_le (pages_mono hge), Table.unmap_zero]
    exact hc
  · have hmono : pages newsz ≤ pages oldsz := pages_mono (by omega)
    have hmin : newsz = min oldsz newsz := (min_eq_right (by omega)).symm
    rw [pgroundup_eq hle, pgroundup_eq (hmono.trans hle), ← Nat.sub_mul,
      Nat.mul_div_cancel _ (by decide)]
    refine .ite (fun hround => ?_) fun hround => ?_
    · exact (uvmunmap_user hD hhand hs hmono).bind fun _ => .pure fun s hc => ⟨hmin, hc⟩
    · have heq : pages oldsz - pages newsz = 0 := by
        unfold PGSIZE at hround
        omega
      refine .pure fun s hc => ⟨hmin, ?_⟩
      rw [heq, Table.unmap_zero]
      exact hc

/-- `uvmdealloc` unmaps the pages above the new size. -/
lemma uvmdealloc_spec (hD : D ⊆ lk.pool) (hhand : h 0 = 0) (hs : Shape lk tf (pages oldsz) g t)
    (newsz : ℕ) :
    Triple NoStop (Core D m t h) (uvmdealloc lk t.root oldsz newsz) fun r s =>
      r = min oldsz newsz ∧
        Core D m (t.unmap (pages newsz) (pages oldsz - pages newsz)) h s :=
  filled_pre fun _ => (uvmdealloc_filled hD hhand hs newsz).post fun _ _ hr => ⟨hr.1, hr.2.core⟩

/-- The entry of a readable page. -/
lemma isLeaf_mkPte {pa : ℕ} (haligned : pa % PGSIZE = 0) (hlt : pa < PHYSTOP) (h0 : pa ≠ 0)
    (hperm : perm < 1024) (hr : perm.testBit 1 = true) : IsLeaf (mkPte pa perm) where
  valid := pteV_mkPte pa hperm
  readable := by
    rw [pteR, testBit_mkPte pa hperm (by omega), Nat.testBit_or, hr]
    rfl
  page := by rwa [pte2pa_mkPte haligned hperm]
  lt := mkPte_lt (hlt.trans (by decide)) hperm

/-- A page in hand is mapped as the next page of the user. -/
lemma mappages_filled (hD : D ⊆ lk.pool) (hhand : h 1 = 0) (hs : Shape lk tf n g t) (hq : h 0 = q)
    (hq0 : q ≠ 0) (hperm : perm < 1024) (hr : perm.testBit 1 = true)
    (hu : some n ≠ g → perm.testBit 4 = true) (page : Page) :
    Triple NoStop (fun s => Filled c D m t h s ∧ s.mem q = page)
      (mappages t.root (n * PGSIZE) PGSIZE q perm) fun r s =>
        (r = -1 ∧ ∃ t', Keeps n t t' ∧ Shape lk tf n g t' ∧ Filled c D m t' h s) ∨
        (r = 0 ∧ ∃ t', Keeps n t t' ∧ Shape lk tf (n + 1) g t' ∧ t'.leaf n = mkPte q perm ∧
          Filled (update c n page) D m t' (update h 0 0) s) := by
  refine .of_run fun s₀ ⟨hf, hpage⟩ => ?_
  have hc₀ := hf.core
  have hn : n < UPAGES := by
    have := hc₀.pages_le hD hs.le fun v hv => hs.ne_zero hv
    rw [UPAGES_eq]
    omega
  have hva : n * PGSIZE < MAXVA := by
    rw [UPAGES_eq] at hn
    unfold PGSIZE MAXVA
    omega
  have hqpool : q ∈ lk.pool := hD (hq ▸ hc₀.hand_mem (hq ▸ hq0))
  have hleaf := isLeaf_mkPte hqpool.1 hqpool.2.2 hq0 hperm hr
  have hdecode := pte2pa_mkPte hqpool.1 hperm
  -- the pages of the user and the new one are kept
  have hguard := (hc₀.guard (K := t.userPages) subset_rfl).insert hq hq0
  rw [update_eq_self] at hguard
  have hmap := mappages_user (K := insert q t.userPages) (c := s₀.mem) (m := m) (n * PGSIZE) hD
    hhand hva (Nat.mul_mod_left ..) (by rwa [vpn_mul]) hs.root
    (by rw [vpn_mul]; exact hs.eq_zero le_rfl hn) hq hq0 hleaf hdecode
  rw [vpn_mul] at hmap
  refine (hmap.run hguard).mono fun r hr => ?_
  obtain ⟨t', hg, ⟨hr, hc⟩ | ⟨hr, hc⟩⟩ := hr
  · refine .inl ⟨hr, t', hg.keeps n, hs.congr hg.root hg.leaf, hc.core, fun v hv hl => ?_⟩
    rw [hg.leaf] at hl ⊢
    rw [hc.kept.mem _ (.inr ⟨v, hv, hl, rfl⟩)]
    exact hf.page v hv hl
  · refine .inr ⟨hr, _, (hg.keeps n).trans (t'.setLeaf_keeps hn), ?_, ?_, hc.core,
      fun v hv hl => ?_⟩
    · refine (hs.congr hg.root hg.leaf).extend hn hleaf.ne_zero fun hng => ?_
      rw [pteU, testBit_mkPte q hperm (by omega), Nat.testBit_or, hu hng]
      rfl
    · rw [Table.setLeaf_leaf, if_pos rfl]
    · rw [Table.setLeaf_leaf, hg.leaf] at hl ⊢
      by_cases hvn : v = n
      · rw [if_pos hvn, hdecode, hc.kept.mem _ (Set.mem_insert ..), hpage, hvn,
          update_self]
      · rw [if_neg hvn] at hl ⊢
        rw [hc.kept.mem _ (.inr ⟨v, hv, hl, rfl⟩), update_of_ne hvn]
        exact hf.page v hv hl

/-- A page in hand becomes the next one, whatever it holds. -/
lemma mappages_next (hD : D ⊆ lk.pool) (hhand : h 1 = 0) (hs : Shape lk tf n g t) (hq : h 0 = q)
    (hq0 : q ≠ 0) (hperm : perm < 1024) (hr : perm.testBit 1 = true)
    (hu : some n ≠ g → perm.testBit 4 = true) :
    Triple NoStop (Core D m t h) (mappages t.root (n * PGSIZE) PGSIZE q perm) fun r s =>
      (r = -1 ∧ ∃ t', Keeps n t t' ∧ Shape lk tf n g t' ∧ Core D m t' h s) ∨
      (r = 0 ∧ ∃ t', Keeps n t t' ∧ Shape lk tf (n + 1) g t' ∧ pte2pa (t'.leaf n) = q ∧
        Core D m t' (update h 0 0) s) := by
  refine .of_run fun s hc => ?_
  have hqpool : q ∈ lk.pool := hD (hq ▸ hc.hand_mem (hq ▸ hq0))
  refine ((mappages_filled hD hhand hs hq hq0 hperm hr hu (s.mem q)).run
    ⟨⟨hc, fun _ _ _ => rfl⟩, rfl⟩).mono fun r hr => ?_
  obtain ⟨hr, t', hkeep, hs', hf⟩ | ⟨hr, t', hkeep, hs', hleaf, hf⟩ := hr
  · exact .inl ⟨hr, t', hkeep, hs', hf.core⟩
  · exact .inr ⟨hr, t', hkeep, hs', by rw [hleaf, pte2pa_mkPte hqpool.1 hperm], hf.core⟩

/-- The contents after the `j` pages from `n` on were zeroed. -/
def zeroed (c : ℕ → Page) (n j v : ℕ) : Page :=
  if n ≤ v ∧ v < n + j then Bytes.fill PGSIZE 0 else c v

lemma zeroed_of_lt (c : ℕ → Page) (j : ℕ) (hv : v < n) : zeroed c n j v = c v :=
  if_neg (by omega)

lemma zeroed_zero (c : ℕ → Page) (n : ℕ) : zeroed c n 0 = c := by
  funext v
  exact if_neg (by omega)

lemma zeroed_succ (c : ℕ → Page) (n j : ℕ) :
    zeroed (update c n (Bytes.fill PGSIZE 0)) (n + 1) j = zeroed c n (j + 1) := by
  funext v
  unfold zeroed
  by_cases hv : v = n
  · rw [hv, if_neg (by omega), if_pos (by omega), update_self]
  · rw [update_of_ne hv]
    by_cases hin : n + 1 ≤ v ∧ v < n + 1 + j
    · rw [if_pos hin, if_pos (by omega)]
    · rw [if_neg hin, if_neg (by omega)]

/-- The loop of `uvmalloc` at page `n`: it maps all the `j` pages to go, or takes the space
back to `k` pages. -/
lemma uvmallocLoop_filled (hD : D ⊆ lk.pool) (h₀ : h 0 = 0) (h₁ : h 1 = 0) (newsz : ℕ)
    (hxperm : xperm < 1024) (j : ℕ) : ∀ t n c, k ≤ n → Shape lk tf n g t →
      Triple NoStop (Filled c D m t h)
        (uvmallocLoop lk t.root (k * PGSIZE) newsz xperm j (n * PGSIZE))
        fun r s => ∃ t', Keeps k t t' ∧ ((r = 0 ∧ Shape lk tf k g t' ∧ Filled c D m t' h s) ∨
          (r = newsz ∧ Keeps n t t' ∧ Shape lk tf (n + j) g t' ∧
            Filled (zeroed c n j) D m t' h s)) := by
  have hperm : PTE_R ||| PTE_U ||| xperm < 1024 := Nat.or_lt_two_pow (n := 10) (by decide) hxperm
  -- the undo code of both failures
  have hundo : ∀ t n c, k ≤ n → Shape lk tf n g t → Triple NoStop (Filled c D m t h) (do
      let _ ← uvmdealloc lk t.root (n * PGSIZE) (k * PGSIZE)
      return 0) fun r s => ∃ t', Keeps k t t' ∧ r = 0 ∧ Shape lk tf k g t' ∧
        Filled c D m t' h s := by
    intro t n c hk hs
    have hdealloc := uvmdealloc_filled (m := m) (c := c) (h := h) hD h₀
      (by rwa [pages_mul] : Shape lk tf (pages (n * PGSIZE)) g t) (k * PGSIZE)
    rw [pages_mul, pages_mul] at hdealloc
    have hle := hs.le
    exact hdealloc.bind fun r => .pure fun s hc =>
      ⟨_, t.unmap_keeps k (n - k) (by omega), rfl, hs.unmap hk, hc.2⟩
  induction j with
  | zero =>
    intro t n c hk hs
    refine .pure fun s hc => ⟨t, .refl k t, .inr ⟨rfl, .refl n t, hs, ?_⟩⟩
    rw [zeroed_zero]
    exact hc
  | succ j ih =>
    intro t n c hk hs
    refine kalloc_filled 0 h₀ ((hundo t n c hk hs).post fun r s hr => ?_) fun q hq => ?_
    · obtain ⟨t', hkeep, hr⟩ := hr
      exact ⟨t', hkeep, .inl hr⟩
    rw [if_neg hq]
    refine .bind (memset_filled (update_self ..) hq 0) fun _ => ?_
    have hmap := mappages_filled (m := m) (c := c) (h := update h 0 q) hD
      ((update_of_ne (by decide) ..).trans h₁) hs (update_self ..) hq hperm
      (by rw [Nat.testBit_or, show (PTE_R ||| PTE_U).testBit 1 = true from rfl, Bool.true_or])
      (fun _ => by
        rw [Nat.testBit_or, show (PTE_R ||| PTE_U).testBit 4 = true from rfl, Bool.true_or])
      (Bytes.fill PGSIZE 0)
    refine hmap.bind fun r => .or_pre (.assume fun hr => ?_) (.assume fun hr => ?_)
    · rw [hr, if_pos (by decide)]
      refine .exists_pre fun t' => .assume fun hkeep => .assume fun hs' => ?_
      refine .bind (kfree_filled hD (update_self ..) hq) fun _ => ?_
      rw [hand_restore h₀, ← hkeep.root]
      refine (hundo t' n c hk hs').post fun r s hr => ?_
      obtain ⟨t'', hkeep', hr⟩ := hr
      exact ⟨t'', (hkeep.mono hk).trans hkeep', .inl hr⟩
    · rw [hr, if_neg (by decide), hand_restore h₀]
      refine .exists_pre fun t' => .assume fun hkeep => .assume fun hs' => .assume fun _ => ?_
      have hrec := ih t' (n + 1) (update c n (Bytes.fill PGSIZE 0)) (by omega) hs'
      rw [hkeep.root, Nat.add_mul, Nat.one_mul, Nat.add_right_comm, zeroed_succ] at hrec
      refine hrec.post fun r s hr => ?_
      obtain ⟨t'', hkeep', ⟨hr, hs'', hf⟩ | ⟨hr, hkeep'', hs'', hf⟩⟩ := hr
      · refine ⟨t'', (hkeep.mono hk).trans hkeep', .inl ⟨hr, hs'', hf.congr fun v hv hl => ?_⟩⟩
        have hvk := (hs''.mapped v hv).1 hl
        exact update_of_ne (by omega) ..
      · exact ⟨t'', (hkeep.mono hk).trans hkeep',
          .inr ⟨hr, hkeep.trans (hkeep''.mono (by omega)), hs'', hf⟩⟩

/-- `uvmalloc` maps zeroed pages and leaves the others alone. -/
lemma uvmalloc_filled (newsz xperm : ℕ) (hD : D ⊆ lk.pool) (h₀ : h 0 = 0) (h₁ : h 1 = 0)
    (hxperm : xperm < 1024) (hs : Shape lk tf (pages oldsz) g t) :
    Triple NoStop (Filled c D m t h) (uvmalloc lk t.root oldsz newsz xperm) fun r s =>
      ∃ t', Keeps (pages oldsz) t t' ∧
        ((r = 0 ∧ Shape lk tf (pages oldsz) g t' ∧ Filled c D m t' h s) ∨
          (r = max oldsz newsz ∧ Shape lk tf (pages (max oldsz newsz)) g t' ∧
            Filled (zeroed c (pages oldsz) (pages newsz - pages oldsz)) D m t' h s)) := by
  have hle := hs.le
  refine .ite (fun hlt => ?_) fun hge => ?_
  · refine .pure fun s hc => ⟨t, .refl _ t, .inr ?_⟩
    rw [max_eq_left hlt.le, Nat.sub_eq_zero_of_le (pages_mono hlt.le), zeroed_zero]
    exact ⟨rfl, hs, hc⟩
  · rw [max_eq_right (by omega), pgroundup_eq hle]
    have hloop := uvmallocLoop_filled (m := m) hD h₀ h₁ newsz hxperm
      ((newsz - pages oldsz * PGSIZE + PGSIZE - 1) / PGSIZE) t (pages oldsz) c le_rfl hs
    have hcount : (newsz - pages oldsz * PGSIZE + PGSIZE - 1) / PGSIZE =
        pages newsz - pages oldsz := by
      unfold pages PGSIZE
      omega
    have hmono : pages oldsz ≤ pages newsz := pages_mono (by omega)
    rw [hcount, Nat.add_sub_of_le hmono] at hloop
    dsimp only
    rw [hcount]
    refine hloop.post fun r s hr => ?_
    obtain ⟨t', hkeep, hr | ⟨hr, -, hs', hf⟩⟩ := hr
    · exact ⟨t', hkeep, .inl hr⟩
    · exact ⟨t', hkeep, .inr ⟨hr, hs', hf⟩⟩

/-- `uvmalloc` gives the new size, or 0 and the old pages. -/
lemma uvmalloc_spec (hD : D ⊆ lk.pool) (h₀ : h 0 = 0) (h₁ : h 1 = 0) {newsz : ℕ}
    (hxperm : xperm < 1024) (hs : Shape lk tf (pages oldsz) g t) :
    Triple NoStop (Core D m t h) (uvmalloc lk t.root oldsz newsz xperm) fun r s =>
      ∃ t', Keeps (pages oldsz) t t' ∧ Core D m t' h s ∧
        (r = 0 ∧ Shape lk tf (pages oldsz) g t' ∨
          r = max oldsz newsz ∧ Shape lk tf (pages (max oldsz newsz)) g t') := by
  refine filled_pre fun c => (uvmalloc_filled _ _ hD h₀ h₁ hxperm hs).post fun r s hr => ?_
  obtain ⟨t', hkeep, ⟨hr, hs', hf⟩ | ⟨hr, hs', hf⟩⟩ := hr
  · exact ⟨t', hkeep, hf.core, .inl ⟨hr, hs'⟩⟩
  · exact ⟨t', hkeep, hf.core, .inr ⟨hr, hs'⟩⟩

/-! ## Copying -/

/-- A table that the running code only reads: its pages are outside the pool `D`. -/
structure Aside (D : Set ℕ) (m : ℕ → Page) (t : Table) : Prop where
  rep : Rep m t
  aligned : ∀ l k, t.node l k % PGSIZE = 0
  outside : ∀ l k, t.node l k ∉ D
  leaves : ∀ v, t.leaf v ≠ 0 → IsLeaf (t.leaf v)
  pages : ∀ v < UPAGES, t.leaf v ≠ 0 → pte2pa (t.leaf v) ∉ D

lemma Aside.rep_of_core (ha : Aside D m told) (hc : Core D m t h s) : Rep s.mem told :=
  ha.rep.congr fun l k _ => hc.frame _ (ha.outside l k)

lemma pteFlags_lt (w : ℕ) : pteFlags w < 1024 := Nat.mod_lt _ (by decide)

lemma testBit_pteFlags (w : ℕ) {i : ℕ} (hi : i < 10) : (pteFlags w).testBit i = w.testBit i := by
  rw [pteFlags, show 1024 = 2 ^ 10 from rfl, Nat.testBit_mod_two_pow]
  simp [hi]

/-- The flags of an entry made from the flags of a valid one. -/
lemma pteFlags_mkPte {pa : ℕ} (hw : pteV w = true) :
    pteFlags (mkPte pa (pteFlags w)) = pteFlags w := by
  refine Nat.eq_of_testBit_eq fun i => ?_
  by_cases hi : i < 10
  · rw [testBit_pteFlags _ hi, testBit_mkPte pa (pteFlags_lt w) hi, Nat.testBit_or,
      testBit_pteFlags _ hi]
    by_cases h0 : i = 0
    · subst h0
      rw [show w.testBit 0 = true from hw]
      rfl
    · rw [show PTE_V.testBit i = false by
        rw [show PTE_V = 2 ^ 0 from rfl, Nat.testBit_two_pow]
        simpa using Ne.symm h0, Bool.or_false]
  · have hge : ∀ x, (pteFlags x).testBit i = false := fun x =>
      Nat.testBit_lt_two_pow ((pteFlags_lt x).trans_le (Nat.pow_le_pow_right (n := 2) (by decide)
        (show 10 ≤ i by omega)))
    rw [hge, hge]

/-- The first `n` pages of `t` are mapped with the flags of those of `told`. -/
def SameFlags (told : Table) (n : ℕ) (t : Table) : Prop :=
  ∀ v < n, pteFlags (t.leaf v) = pteFlags (told.leaf v)

/-- The loop of `uvmcopy` at page `n`: it copies all the `j` pages to go, or takes the new
space back to nothing. -/
lemma uvmcopyLoop_filled {N : ℕ} (hD : D ⊆ lk.pool) (h₀ : h 0 = 0) (h₁ : h 1 = 0)
    (ha : Aside D m told) (hold : Shape lk tfold N g told) (j : ℕ) :
    ∀ t n, n + j = N → Shape lk tf n g t → SameFlags told n t →
      Triple NoStop (Filled (fun v => m (pte2pa (told.leaf v))) D m t h)
        (uvmcopyLoop lk told.root t.root j (n * PGSIZE)) fun r s =>
          ∃ t', Keeps 0 t t' ∧ Filled (fun v => m (pte2pa (told.leaf v))) D m t' h s ∧
            (r = -1 ∧ Shape lk tf 0 g t' ∨ r = 0 ∧ Shape lk tf N g t' ∧ SameFlags told N t') := by
  -- the undo code of both failures
  have hundo : ∀ c t n, Shape lk tf n g t → Triple NoStop (Filled c D m t h) (do
      uvmunmap lk t.root 0 (n * PGSIZE / PGSIZE) true
      return -1) fun r s => ∃ t', Keeps 0 t t' ∧ Filled c D m t' h s ∧
          (r = -1 ∧ Shape lk tf 0 g t' ∨ r = 0 ∧ Shape lk tf N g t' ∧ SameFlags told N t') := by
    intro c t n hs
    have hunmap := uvmunmap_user (c := c) (m := m) hD h₀ hs (Nat.zero_le n)
    have hle := hs.le
    rw [Nat.zero_mul, Nat.sub_zero] at hunmap
    rw [Nat.mul_div_cancel _ (by decide)]
    exact hunmap.bind fun r => .pure fun s hc =>
      ⟨_, t.unmap_keeps 0 n (by omega), hc, .inl ⟨rfl, hs.unmap (Nat.zero_le n)⟩⟩
  induction j with
  | zero =>
    intro t n hn hs hcopy
    rw [Nat.add_zero] at hn
    subst hn
    exact .pure fun s hc => ⟨t, .refl 0 t, hc, .inr ⟨rfl, hs, hcopy⟩⟩
  | succ j ih =>
    intro t n hn hs hcopy
    have hle := hold.le
    have hl : told.leaf n ≠ 0 := hold.ne_zero (by omega)
    have hleaf := ha.leaves n hl
    have hnode : told.node 0 (n / 512) ≠ 0 := ha.rep.up_leaf hl
    have hva : n * PGSIZE < MAXVA := by
      rw [UPAGES_eq] at hle
      unfold PGSIZE MAXVA
      omega
    refine .bind (walk_find (fun s hc => ha.rep_of_core (Filled.core hc)) ha.aligned hva
      hold.root) fun r => .assume fun hr => ?_
    rw [vpn_mul] at hr
    subst hr
    rw [Table.find, if_neg hnode]
    refine load_bind (w := told.leaf n) (fun s hc => ?_) ?_
    · rw [(ha.rep_of_core hc.core).low hnode (Nat.mod_lt _ (by decide)), Nat.div_add_mod]
    refine .ite (fun hv => absurd hv (by simp [hleaf.valid])) fun _ => ?_
    refine kalloc_filled 0 h₀ (hundo _ t n hs) fun q hq => ?_
    rw [if_neg hq]
    have hq' : update h 0 q 0 = q := update_self ..
    -- the page of the parent is not touched
    refine .bind (Q := fun _ s => Filled (fun v => m (pte2pa (told.leaf v))) D m t
      (update h 0 q) s ∧ s.mem q = m (pte2pa (told.leaf n))) ?_ fun _ => ?_
    · refine .modify fun s hf => ⟨?_, ?_⟩
      · have := hf.touch (j := 0) (by rwa [hq']) (s.mem (pte2pa (told.leaf n)))
        rwa [hq'] at this
      · rw [s.setPage_self]
        exact hf.core.frame _ (ha.pages n (by omega) hl)
    have hmap := mappages_filled (m := m) (c := fun v => m (pte2pa (told.leaf v)))
      (h := update h 0 q) hD
      ((update_of_ne (by decide) ..).trans h₁) hs hq' hq (pteFlags_lt (told.leaf n))
      (by rw [testBit_pteFlags _ (by omega)]; exact hleaf.readable)
      (fun hg => by rw [testBit_pteFlags _ (by omega)]; exact hold.user n (by omega) hg)
      (m (pte2pa (told.leaf n)))
    refine hmap.bind fun r => .or_pre (.assume fun hr => ?_) (.assume fun hr => ?_)
    · rw [hr, if_pos (by decide)]
      refine .exists_pre fun t' => .assume fun hkeep => .assume fun hs' => ?_
      refine .bind (kfree_filled hD hq' hq) fun _ => ?_
      rw [hand_restore h₀, ← hkeep.root]
      refine (hundo _ t' n hs').post fun r s hr => ?_
      obtain ⟨t'', hkeep', hr⟩ := hr
      exact ⟨t'', (hkeep.mono (Nat.zero_le n)).trans hkeep', hr⟩
    · rw [hr, if_neg (by decide), hand_restore h₀,
        update_eq_self n fun v => m (pte2pa (told.leaf v))]
      refine .exists_pre fun t' => .assume fun hkeep => .assume fun hs' => .assume fun hnew => ?_
      have hcopy' : SameFlags told (n + 1) t' := by
        intro v hv
        obtain hvn | rfl := Nat.lt_succ_iff_lt_or_eq.1 hv
        · rw [hkeep.leaf v (.inl hvn)]
          exact hcopy v hvn
        · rw [hnew, pteFlags_mkPte hleaf.valid]
      have hrec := ih t' (n + 1) (by omega) hs' hcopy'
      rw [hkeep.root, Nat.add_mul, Nat.one_mul] at hrec
      refine hrec.post fun r s hr => ?_
      obtain ⟨t'', hkeep', hr⟩ := hr
      exact ⟨t'', (hkeep.mono (Nat.zero_le n)).trans hkeep', hr⟩

/-- `uvmcopy` copies all pages with their flags, or takes the new space back to nothing. -/
lemma uvmcopy_filled (hD : D ⊆ lk.pool) (h₀ : h 0 = 0) (h₁ : h 1 = 0) (ha : Aside D m told)
    (hold : Shape lk tfold (pages sz) g told) (hs : Shape lk tf 0 g t) :
    Triple NoStop (Core D m t h) (uvmcopy lk told.root t.root sz) fun r s =>
      ∃ t', Keeps 0 t t' ∧ Filled (fun v => m (pte2pa (told.leaf v))) D m t' h s ∧
        (r = -1 ∧ Shape lk tf 0 g t' ∨
          r = 0 ∧ Shape lk tf (pages sz) g t' ∧ SameFlags told (pages sz) t') := by
  have hloop := uvmcopyLoop_filled (m := m) (h := h) hD h₀ h₁ ha hold (pages sz) t 0 (by omega) hs
    fun _ hv => absurd hv (by omega)
  rw [Nat.zero_mul] at hloop
  refine hloop.pre fun s hc => ⟨hc, fun v hv hl => ?_⟩
  exact absurd ((hs.mapped v hv).1 hl) (by omega)

/-- `uvmcopy` maps as many pages as the parent has, or none. -/
lemma uvmcopy_spec (hD : D ⊆ lk.pool) (h₀ : h 0 = 0) (h₁ : h 1 = 0) (ha : Aside D m told)
    (hold : Shape lk tfold (pages sz) g told) (hs : Shape lk tf 0 g t) :
    Triple NoStop (Core D m t h) (uvmcopy lk told.root t.root sz) fun r s =>
      ∃ t', Keeps 0 t t' ∧ Core D m t' h s ∧
        (r = -1 ∧ Shape lk tf 0 g t' ∨ r = 0 ∧ Shape lk tf (pages sz) g t') :=
  (uvmcopy_filled hD h₀ h₁ ha hold hs).post fun _ _ ⟨t', hkeep, hf, hr⟩ =>
    ⟨t', hkeep, hf.core, hr.imp_right fun ⟨h0, hs', _⟩ => ⟨h0, hs'⟩⟩

/-! ## Creating and freeing -/

/-- A zeroed page in hand becomes the root of a table. -/
lemma Core.plant (hc : Core D m Table.empty h s) (hj : h j = q) (hq : q ≠ 0)
    (hzero : s.mem q = Bytes.fill PGSIZE 0) :
    Core D m (Table.empty.setNode 2 0 q) (update h j 0) s := by
  refine ⟨hc.nodup, hc.sub, ?_, .plant hzero, fun v hv => absurd rfl hv, hc.frame, hc.linked⟩
  rw [Table.cell_setNode, Table.cell_hand, ← hj]
  have hjne : h j ≠ 0 := hj ▸ hq
  exact hc.owned.move (x := Cell.hand j) (y := Cell.node 2 0) (by simp) hjne rfl

/-- The new table is empty, or there is none. -/
lemma uvmcreate_spec (h₀ : h 0 = 0) :
    Triple NoStop (Core D m Table.empty h) uvmcreate fun r s =>
      (r = 0 ∧ Core D m Table.empty h s) ∨
      (r ≠ 0 ∧ Core D m (Table.empty.setNode 2 0 r) h s) := by
  refine kalloc_bind 0 h₀ ?_ fun q hq => ?_
  · exact .pure fun s hc => .inl ⟨rfl, hc⟩
  · rw [if_neg hq]
    refine .bind (memset_hand (update_self ..) hq 0) fun _ => ?_
    refine .pure fun s hc => .inr ⟨hq, ?_⟩
    have hplant := hc.1.plant (update_self ..) hq hc.2
    rwa [hand_restore h₀] at hplant

/-- `uvmfree`, when the trapframe and the trampoline are not mapped. -/
lemma uvmfree_spec (hD : D ⊆ lk.pool) (h₀ : h 0 = 0) (hroot : t.root ≠ 0) (hle : pages sz ≤ UPAGES)
    (hmapped : ∀ v, t.leaf v ≠ 0 ↔ v < pages sz) :
    Triple NoStop (Core D m t h) (uvmfree lk t.root sz) fun _ => Core D m Table.empty h := by
  have hleaf : ∀ v, (t.unmap 0 (pages sz)).leaf v = 0 := by
    intro v
    show (if 0 ≤ v ∧ v < 0 + pages sz then 0 else t.leaf v) = 0
    by_cases hv : v < pages sz
    · rw [if_pos (by omega)]
    · rw [if_neg (by omega)]
      by_contra hne
      exact hv ((hmapped v).1 hne)
  have hfree : Triple NoStop (Core D m (t.unmap 0 (pages sz)) h) (freewalk lk 3 t.root)
      fun _ => Core D m Table.empty h :=
    freewalk_spec (t := t.unmap 0 (pages sz)) hD h₀ hroot hleaf
  refine .ite (fun hpos => ?_) fun hzero => ?_
  · rw [pgroundup_eq hle, Nat.mul_div_cancel _ (by decide)]
    refine .bind (Q := fun _ => Core D m (t.unmap 0 (pages sz)) h) ?_ fun _ => hfree
    have hunmap := unmapLoop_user (K := ∅) (c := m) (m := m) hD h₀ (pages sz) t 0 hroot
    refine .ite (fun hne => absurd rfl hne) fun _ => ?_
    exact (hunmap (fun v _ hlt => (hmapped v).2 (by simpa [vpn] using hlt))
      (by simpa [vpn] using hle) fun _ _ _ => Set.notMem_empty _).conseq (fun _ hc => hc.guarded)
        fun _ _ hg => hg.core
  · have hpages : pages sz = 0 := by
      rw [Nat.eq_zero_of_not_pos hzero]
      rfl
    rw [hpages, Table.unmap_zero] at hfree
    exact hfree

/-- `uvmfree` of a table that maps nothing. -/
lemma uvmfree_bare (hD : D ⊆ lk.pool) (h₀ : h 0 = 0) {pt : ℕ} (hroot : t.root = pt) (hpt : pt ≠ 0)
    (hleaf : ∀ v, t.leaf v = 0) :
    Triple NoStop (Core D m t h) (uvmfree lk pt 0) fun _ => Core D m Table.empty h := by
  rw [← hroot] at hpt ⊢
  exact uvmfree_spec hD h₀ hpt (by decide) fun v => by simp [hleaf v, pages, PGSIZE]

lemma trampoline_leaf (lk : Link) : IsLeaf (mkPte lk.trampoline (PTE_R ||| PTE_X)) := by
  have hge := lk.trampoline_ge
  have hlt := lk.trampoline_lt
  have hend := lk.kend_le
  refine isLeaf_mkPte lk.trampoline_aligned ?_ ?_ (by decide) (by decide)
  · unfold PGSIZE at hlt
    omega
  · unfold KERNBASE at hge
    omega

lemma trapframe_leaf (htf : tf ∈ lk.pool) (htf0 : tf ≠ 0) :
    IsLeaf (mkPte tf (PTE_R ||| PTE_W)) :=
  isLeaf_mkPte htf.1 htf.2.2 htf0 (by decide) (by decide)

/-- All pages of the table are free again. -/
lemma procFreepagetable_spec (hD : D ⊆ lk.pool) (h₀ : h 0 = 0) (hs : Shape lk tf (pages sz) g t)
    (htf : tf ∈ lk.pool) (htf0 : tf ≠ 0) :
    Triple NoStop (Core D m t h) (procFreepagetable lk t.root sz)
      fun _ => Core D m Table.empty h := by
  have hle := hs.le
  have h₁ := uvmunmap_kernel (m := m) (h := h) TRAMPOLINE hD (by decide) (by decide)
    (by decide) hs.root (by rw [vpn_trampoline, hs.trampoline]; exact (trampoline_leaf lk).ne_zero)
  rw [vpn_trampoline] at h₁
  refine h₁.bind fun _ => ?_
  have h₂ := uvmunmap_kernel (m := m) (h := h) (t := t.setLeaf (UPAGES + 1) 0)
    TRAPFRAME hD (by decide) (by decide) le_rfl hs.root ?_
  · rw [vpn_trapframe] at h₂
    refine h₂.bind fun _ => ?_
    refine uvmfree_spec (t := (t.setLeaf (UPAGES + 1) 0).setLeaf UPAGES 0) hD h₀ hs.root hle ?_
    intro v
    rw [Table.setLeaf_leaf, Table.setLeaf_leaf]
    by_cases hv : v < UPAGES
    · rw [if_neg (by omega), if_neg (by omega)]
      exact hs.mapped v hv
    · by_cases h₁ : v = UPAGES
      · simp [h₁, hle]
      · by_cases h₂ : v = UPAGES + 1
        · simp [h₂]
          omega
        · rw [if_neg h₁, if_neg h₂, hs.above v (by omega)]
          simp
          omega
  · rw [Table.setLeaf_leaf, vpn_trapframe, if_neg (by omega), hs.trapframe]
    exact (trapframe_leaf htf htf0).ne_zero

/-- `proc_pagetable` makes an address space without user memory, or leaves nothing behind. -/
lemma procPagetable_spec (hD : D ⊆ lk.pool) (h₀ : h 0 = 0) (h₁ : h 1 = 0) (htf : tf ∈ lk.pool)
    (htf0 : tf ≠ 0) :
    Triple NoStop (Core D m Table.empty h) (procPagetable lk tf) fun r s =>
      (r = 0 ∧ Core D m Table.empty h s) ∨
      (r ≠ 0 ∧ ∃ t', t'.root = r ∧ Shape lk tf 0 none t' ∧ Core D m t' h s) := by
  refine (uvmcreate_spec h₀).bind fun pt => .or_pre (.assume fun hpt => ?_) (.assume fun hpt => ?_)
  · rw [if_pos hpt]
    exact .pure fun s hc => .inl ⟨rfl, hc⟩
  rw [if_neg hpt]
  let t₀ := Table.empty.setNode 2 0 pt
  have hroot₀ : t₀.root = pt := by rw [Table.root, Table.setNode_node, if_pos ⟨rfl, rfl⟩]
  have hleaf₀ : ∀ v, t₀.leaf v = 0 := fun _ => rfl
  -- the first mapping
  have hmap₁ := mappages_kernel (m := m) (h := h) (t := t₀) TRAMPOLINE hD h₁ (by decide)
    (by decide) (by decide) (hroot₀ ▸ hpt) rfl (trampoline_leaf lk)
  rw [hroot₀, vpn_trampoline] at hmap₁
  refine hmap₁.bind fun r => .exists_pre fun t₁ => .assume fun hg₁ =>
    .or_pre (.assume fun hr => ?_) (.assume fun hr => ?_)
  · rw [hr, if_pos (by decide)]
    refine .bind (uvmfree_bare hD h₀ (hg₁.root.trans hroot₀) hpt fun v => ?_) fun _ =>
      .pure fun s hc => .inl ⟨rfl, hc⟩
    rw [hg₁.leaf, hleaf₀]
  rw [hr, if_neg (by decide)]
  let t₁' := t₁.setLeaf (UPAGES + 1) (mkPte lk.trampoline (PTE_R ||| PTE_X))
  have hroot₁ : t₁'.root = pt := hg₁.root.trans hroot₀
  have hleaf₁ : ∀ v, v ≠ UPAGES + 1 → t₁'.leaf v = 0 := by
    intro v hv
    rw [Table.setLeaf_leaf, if_neg hv, hg₁.leaf, hleaf₀]
  have htramp : t₁'.leaf (UPAGES + 1) = mkPte lk.trampoline (PTE_R ||| PTE_X) := by
    rw [Table.setLeaf_leaf, if_pos rfl]
  -- the second mapping
  have hmap₂ := mappages_kernel (m := m) (h := h) (t := t₁') TRAPFRAME hD h₁ (by decide)
    (by decide) le_rfl (hroot₁ ▸ hpt) (hleaf₁ _ (by decide)) (trapframe_leaf htf htf0)
  rw [hroot₁, vpn_trapframe] at hmap₂
  refine hmap₂.bind fun r => .exists_pre fun t₂ => .assume fun hg₂ =>
    .or_pre (.assume fun hr => ?_) (.assume fun hr => ?_)
  · rw [hr, if_pos (by decide)]
    have hunmap := uvmunmap_kernel (m := m) (h := h) (t := t₂) TRAMPOLINE hD (by decide)
      (by decide) (by decide) (by rw [hg₂.root, hroot₁]; exact hpt)
      (by rw [vpn_trampoline, hg₂.leaf, htramp]; exact (trampoline_leaf lk).ne_zero)
    rw [hg₂.root, hroot₁, vpn_trampoline] at hunmap
    refine hunmap.bind fun _ => ?_
    refine .bind (uvmfree_bare hD h₀ (hg₂.root.trans hroot₁) hpt fun v => ?_) fun _ =>
      .pure fun s hc => .inl ⟨rfl, hc⟩
    rw [Table.setLeaf_leaf]
    by_cases hv : v = UPAGES + 1
    · rw [if_pos hv]
    · rw [if_neg hv, hg₂.leaf, hleaf₁ v hv]
  rw [hr, if_neg (by decide)]
  let t₂' := t₂.setLeaf UPAGES (mkPte tf (PTE_R ||| PTE_W))
  refine .pure fun s hc => .inr ⟨hpt, t₂', hg₂.root.trans hroot₁, ?_, hc⟩
  have hleaf₂ : ∀ v, v ≠ UPAGES → t₂'.leaf v = t₁'.leaf v := fun v hv => by
    rw [Table.setLeaf_leaf, if_neg hv, hg₂.leaf]
  refine ⟨?_, by decide, fun v hv => ?_, fun v hv => absurd hv (by omega), ?_, ?_, fun v hv => ?_⟩
  · rw [Table.setLeaf_root, hg₂.root, hroot₁]
    exact hpt
  · rw [hleaf₂ v (by omega), hleaf₁ v (by omega)]
    simp
  · rw [Table.setLeaf_leaf, if_pos rfl]
  · rw [hleaf₂ _ (by omega), htramp]
  · rw [hleaf₂ v (by omega), hleaf₁ v (by omega)]

/-! ## User memory -/

/-- The page that user code accesses at `va`, or `0`. -/
def Table.addr (t : Table) (va : ℕ) : ℕ :=
  if va < MAXVA ∧ pteV (t.leaf (vpn va)) && pteU (t.leaf (vpn va)) then pte2pa (t.leaf (vpn va))
  else 0

/-- `walkaddr` reads the table only. -/
lemma walkaddr_spec (hrep : ∀ s, P s → Rep s.mem t) (halign : ∀ l k, t.node l k % PGSIZE = 0)
    (hroot : t.root ≠ 0) (va : ℕ) :
    Triple NoStop P (walkaddr t.root va) fun r s => r = t.addr va ∧ P s := by
  refine .ite (fun hge => .pure fun s hp => ⟨?_, hp⟩) fun hva => ?_
  · rw [Table.addr, if_neg fun hlt => absurd hlt.1 (by omega)]
  have hlt : va < MAXVA := by omega
  refine .bind (walk_find hrep halign hlt hroot) fun r => .assume fun hr => ?_
  subst hr
  refine .of_pre fun s₀ hp₀ => ?_
  by_cases hn : t.node 0 (vpn va / 512) = 0
  · have hleaf : t.leaf (vpn va) = 0 := by
      by_contra hne
      exact (hrep s₀ hp₀).up_leaf hne hn
    rw [Table.find, if_pos hn]
    refine .pure fun s hp => ⟨?_, hp⟩
    rw [Table.addr, hleaf, if_neg fun hv => absurd hv.2 (by decide)]
  · rw [Table.find, if_neg hn]
    refine load_bind (w := t.leaf (vpn va)) (fun s hp => ?_) (.pure fun s hp => ⟨?_, hp⟩)
    · rw [(hrep s hp).low hn (Nat.mod_lt _ (by decide)), Nat.div_add_mod]
    · simp only [Table.addr, hlt, true_and]

namespace Shape

/-- User code accesses pages of the user only. -/
lemma addr_eq (hs : Shape lk tf n g t) (hne : t.addr va ≠ 0) :
    vpn va < n ∧ t.addr va = pte2pa (t.leaf (vpn va)) := by
  unfold Table.addr at hne ⊢
  by_cases hu : va < MAXVA ∧ pteV (t.leaf (vpn va)) && pteU (t.leaf (vpn va))
  · rw [if_pos hu]
    refine ⟨?_, rfl⟩
    have hU : pteU (t.leaf (vpn va)) = true := (Bool.and_eq_true_iff.1 hu.2).2
    have hne : t.leaf (vpn va) ≠ 0 := by
      intro hzero
      rw [hzero] at hU
      exact absurd hU (by decide)
    by_cases hlt : vpn va < UPAGES
    · exact (hs.mapped _ hlt).1 hne
    · -- the pages above are for the kernel only
      exfalso
      by_cases h₁ : vpn va = UPAGES
      · rw [h₁, hs.trapframe, pteU, testBit_mkPte tf (by decide) (by omega)] at hU
        exact absurd hU (by decide)
      · by_cases h₂ : vpn va = UPAGES + 1
        · rw [h₂, hs.trampoline, pteU, testBit_mkPte _ (by decide) (by omega)] at hU
          exact absurd hU (by decide)
        · exact hne (hs.above _ (by omega))
  · rw [if_neg hu] at hne
    exact absurd rfl hne

/-- Without a guard page, user code can access all pages. -/
lemma addr_of_lt (hs : Shape lk tf n none t) (hleaves : ∀ v, t.leaf v ≠ 0 → IsLeaf (t.leaf v))
    (hv : vpn va < n) : t.addr va = pte2pa (t.leaf (vpn va)) ∧ t.addr va ≠ 0 := by
  have hle := hs.le
  have hleaf := hleaves _ (hs.ne_zero hv)
  have hva : va < MAXVA := by
    rw [UPAGES_eq] at hle
    unfold vpn PGSIZE at hv
    unfold MAXVA
    omega
  have haddr : t.addr va = pte2pa (t.leaf (vpn va)) := by
    rw [Table.addr, if_pos ⟨hva, by rw [hleaf.valid, hs.user _ hv (by simp)]; rfl⟩]
  exact ⟨haddr, haddr ▸ hleaf.page⟩

end Shape

/-- A page of the user is overwritten. -/
lemma Core.touch_addr (hc : Core D m t h s) (hs : Shape lk tf n g t) (hne : t.addr va ≠ 0)
    (page : Page) : Core D m t h (s.setPage (t.addr va) page) := by
  obtain ⟨hv, haddr⟩ := hs.addr_eq hne
  have hvU := hv.trans_le hs.le
  have hl := hs.ne_zero hv
  rw [haddr]
  exact hc.touch (Core.leaf_cell hvU) (hc.leaves _ hl).page (by simp) page

/-- `copyout` writes to pages of the user only. -/
lemma copyout_spec (hD : D ⊆ lk.pool) (hs : Shape lk tf n g t) (dstva : ℕ) (src : List UInt8) :
    Triple NoStop (Core D m t h) (copyout t.root dstva src) fun _ => Core D m t h := by
  unfold copyout
  generalize src.length = fuel
  induction fuel generalizing dstva src with
  | zero => exact .skip
  | succ fuel ih =>
    refine .ite (fun _ => .skip) fun _ => ?_
    refine .of_pre fun s₀ hc₀ => ?_
    refine .bind (walkaddr_spec (fun s hc => hc.rep) (hc₀.aligned hD) hs.root _) fun pa =>
      .assume fun hpa => ?_
    subst hpa
    refine .ite (fun _ => .skip) fun hne => ?_
    exact .bind (Q := fun _ => Core D m t h) (.modify fun s hc => hc.touch_addr hs hne _)
      fun _ => ih _ _

lemma copyin_spec (hrep : ∀ s, P s → Rep s.mem t) (halign : ∀ l k, t.node l k % PGSIZE = 0)
    (hroot : t.root ≠ 0) (srcva len : ℕ) :
    Triple NoStop P (copyin t.root srcva len) fun _ => P := by
  suffices hloop : ∀ fuel srcva len, Triple NoStop P
      (copyinLoop t.root fuel srcva len) fun _ => P from hloop len srcva len
  intro fuel
  induction fuel with
  | zero => exact fun _ _ => .skip
  | succ fuel ih =>
    intro srcva len
    refine .ite (fun _ => .skip) fun _ => ?_
    refine .bind (walkaddr_spec hrep halign hroot _) fun pa => .assume fun _ => ?_
    refine .ite (fun _ => .skip) fun _ => .read_bind fun s _ => ?_
    exact (ih _ _).bind fun r => .skip

lemma copyinstr_spec (hrep : ∀ s, P s → Rep s.mem t) (halign : ∀ l k, t.node l k % PGSIZE = 0)
    (hroot : t.root ≠ 0) (srcva max : ℕ) :
    Triple NoStop P (copyinstr t.root srcva max) fun _ => P := by
  suffices hloop : ∀ fuel srcva max, Triple NoStop P
      (copyinstrLoop t.root fuel srcva max) fun _ => P from hloop max srcva max
  intro fuel
  induction fuel with
  | zero => exact fun _ _ => .skip
  | succ fuel ih =>
    intro srcva max
    refine .ite (fun _ => .skip) fun _ => ?_
    refine .bind (walkaddr_spec hrep halign hroot _) fun pa => .assume fun _ => ?_
    refine .ite (fun _ => .skip) fun _ => .read_bind fun s _ => ?_
    refine .ite (fun _ => .skip) fun _ => ?_
    exact (ih _ _).bind fun r => .skip

/-- An entry without the bit for the user maps the same page. -/
lemma clear_user (hw : IsLeaf w) :
    IsLeaf (w ^^^ (w &&& PTE_U)) ∧ pte2pa (w ^^^ (w &&& PTE_U)) = pte2pa w := by
  have hpage : pte2pa (w ^^^ (w &&& PTE_U)) = pte2pa w := by
    unfold pte2pa
    rw [show 1024 = 2 ^ 10 from rfl, Nat.xor_div_two_pow, Nat.and_div_two_pow]
    simp [PTE_U]
  have hbit : ∀ i, i ≠ 4 → (w ^^^ (w &&& PTE_U)).testBit i = w.testBit i := by
    intro i hi
    have hU : PTE_U.testBit i = false := by
      rw [show PTE_U = 2 ^ 4 from rfl, Nat.testBit_two_pow]
      simpa using hi.symm
    rw [Nat.testBit_xor, Nat.testBit_and, hU, Bool.and_false, Bool.xor_false]
  refine ⟨⟨?_, ?_, ?_, ?_⟩, hpage⟩
  · rw [pteV, hbit 0 (by omega)]
    exact hw.valid
  · rw [pteR, hbit 1 (by omega)]
    exact hw.readable
  · rw [hpage]
    exact hw.page
  · exact Nat.xor_lt_two_pow (n := 64) hw.lt (Nat.and_lt_two_pow _ (by decide))

/-- `uvmclear` makes a guard page. -/
lemma uvmclear_spec (hD : D ⊆ lk.pool) (hs : Shape lk tf n none t) (hv : v < n) :
    Triple NoStop (Core D m t h) (uvmclear t.root (v * PGSIZE)) fun _ s =>
      ∃ t', Keeps v t t' ∧ Shape lk tf n (some v) t' ∧ Core D m t' h s := by
  have hvU := hv.trans_le hs.le
  have hva : v * PGSIZE < MAXVA := by
    rw [UPAGES_eq] at hvU
    unfold PGSIZE MAXVA
    omega
  refine .of_pre fun s₀ hc₀ => ?_
  have hl := hs.ne_zero hv
  have hn : t.node 0 (v / 512) ≠ 0 := hc₀.rep.up_leaf hl
  obtain ⟨hleaf, hpage⟩ := clear_user (hc₀.leaves v hl)
  refine .bind (walk_find (fun s hc => hc.rep) (hc₀.aligned hD) hva hs.root) fun r =>
    .assume fun hr => ?_
  rw [vpn_mul] at hr
  subst hr
  rw [Table.find, if_neg hn]
  refine load_bind (fun s hc => hc.rep.word_leaf hn) (.modify fun s hc => ?_)
  refine ⟨t.setLeaf v (t.leaf v ^^^ (t.leaf v &&& PTE_U)), t.setLeaf_keeps hvU, ?_, ?_⟩
  · refine ⟨hs.root, hs.le, fun v' hv' => ?_, fun v' hv' hg => ?_, ?_, ?_, fun v' hv' => ?_⟩
    · rw [Table.setLeaf_leaf]
      by_cases heq : v' = v
      · simp [heq, hleaf.ne_zero, hv]
      · rw [if_neg heq]
        exact hs.mapped v' hv'
    · have hne : v' ≠ v := fun heq => hg (by rw [heq])
      rw [Table.setLeaf_leaf, if_neg hne]
      exact hs.user v' hv' (by simp)
    · rw [Table.setLeaf_leaf, if_neg (by omega)]
      exact hs.trapframe
    · rw [Table.setLeaf_leaf, if_neg (by omega)]
      exact hs.trampoline
    · rw [Table.setLeaf_leaf, if_neg (by omega)]
      exact hs.above v' hv'
  · have hwrite := hc.write h (i := v % 512) hn (Nat.mod_lt _ (by decide)) fun _ => hleaf
    rw [Nat.div_add_mod] at hwrite
    refine hwrite ?_
    rw [Table.cell_setLeaf, if_pos hvU, hpage, ← Core.leaf_cell hvU, update_eq_self]
    exact hc.owned

end Xv6.Vm
