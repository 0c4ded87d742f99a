import Xv6.Lib.Ownership
import Xv6.Lib.Triple
import Xv6.Vm.Memory

/-!
# Page tables as trees

`Table` is what a page table stands for: the page-table page at each level for each range
of virtual addresses, and the entry of each virtual page. `Rep mem t` says that the words
in memory spell out `t`.

`Core D m t h s` is the invariant of the code that builds and takes down one table: the
pages of the pool `D` are on the free list, in `t`, or in hand, each in one place only, and
the memory outside `D` is still `m`.
-/

namespace Xv6.Vm

open Xv6.Lib
open Xv6.Process (Stop)
open Function (update update_of_ne update_self update_apply)

/-! ## Entries -/

/-- The entry of a page with the given permissions. -/
def mkPte (pa perm : ℕ) : ℕ := pa2pte pa ||| perm ||| PTE_V

/-- The entry of a page-table page, and `0` if there is none. -/
def dirPte (pa : ℕ) : ℕ := if pa = 0 then 0 else pa2pte pa ||| PTE_V

lemma or_flags (x : ℕ) {y : ℕ} (hy : y < 1024) : x * 1024 ||| y = 2 ^ 10 * x + y := by
  rw [Nat.two_pow_add_eq_or_of_lt (by simpa using hy)]
  ring_nf

lemma perm_lt {perm : ℕ} (h : perm < 1024) : perm ||| PTE_V < 1024 :=
  Nat.or_lt_two_pow (n := 10) h (by decide)

lemma mkPte_eq (pa : ℕ) {perm : ℕ} (h : perm < 1024) :
    mkPte pa perm = 2 ^ 10 * (pa / PGSIZE) + (perm ||| PTE_V) := by
  rw [mkPte, pa2pte, Nat.or_assoc, or_flags _ (perm_lt h)]

lemma testBit_mkPte (pa : ℕ) {perm i : ℕ} (h : perm < 1024) (hi : i < 10) :
    (mkPte pa perm).testBit i = (perm ||| PTE_V).testBit i := by
  rw [mkPte_eq pa h, Nat.testBit_two_pow_mul_add _ (perm_lt h), if_pos hi]

lemma pte2pa_mkPte {pa perm : ℕ} (hpa : pa % PGSIZE = 0) (h : perm < 1024) :
    pte2pa (mkPte pa perm) = pa := by
  have hlt := perm_lt h
  rw [mkPte_eq pa h, pte2pa]
  have hdiv : (2 ^ 10 * (pa / PGSIZE) + (perm ||| PTE_V)) / 1024 = pa / PGSIZE := by omega
  rw [hdiv]
  exact Nat.div_mul_cancel (Nat.dvd_of_mod_eq_zero hpa)

lemma pteV_mkPte (pa : ℕ) {perm : ℕ} (h : perm < 1024) : pteV (mkPte pa perm) = true := by
  rw [pteV, testBit_mkPte pa h (by omega)]
  simp [PTE_V]

lemma mkPte_lt {pa perm : ℕ} (hpa : pa < 2 ^ 56) (h : perm < 1024) : mkPte pa perm < 256 ^ 8 := by
  have hlt := perm_lt h
  rw [mkPte_eq pa h]
  unfold PGSIZE
  omega

lemma dirPte_of_ne {pa : ℕ} (h : pa ≠ 0) : dirPte pa = mkPte pa 0 := by
  rw [dirPte, if_neg h, mkPte, Nat.or_zero]

lemma pteV_dirPte (pa : ℕ) : pteV (dirPte pa) = decide (pa ≠ 0) := by
  by_cases h : pa = 0
  · simp [h, dirPte, pteV]
  · rw [dirPte_of_ne h, pteV_mkPte pa (by omega)]
    simp [h]

lemma pte2pa_dirPte {pa : ℕ} (hpa : pa % PGSIZE = 0) : pte2pa (dirPte pa) = pa := by
  by_cases h : pa = 0
  · simp [h, dirPte, pte2pa]
  · rw [dirPte_of_ne h, pte2pa_mkPte hpa (by omega)]

/-- The entry of a page-table page is not a leaf. -/
lemma dirPte_not_leaf (pa : ℕ) :
    pteR (dirPte pa) = false ∧ pteW (dirPte pa) = false ∧ pteX (dirPte pa) = false := by
  by_cases h : pa = 0
  · simp [h, dirPte, pteR, pteW, pteX]
  · rw [dirPte_of_ne h]
    unfold pteR pteW pteX
    rw [testBit_mkPte pa (by omega) (by omega), testBit_mkPte pa (by omega) (by omega),
      testBit_mkPte pa (by omega) (by omega)]
    decide

/-! ## Tables -/

/-- What a page table stands for. `node ℓ k` is the page-table page at level `ℓ` for the
virtual pages whose number, divided by `512 ^ (ℓ + 1)`, is `k`; `leaf v` is the entry of
virtual page `v`. Both are `0` where there is none. -/
structure Table where
  node : ℕ → ℕ → ℕ
  leaf : ℕ → ℕ

/-- No table at all. -/
def Table.empty : Table := ⟨fun _ _ => 0, fun _ => 0⟩

/-- The page-table page that `walk` starts from. -/
def Table.root (t : Table) : ℕ := t.node 2 0

/-- Replace one page-table page. -/
def Table.setNode (t : Table) (l k q : ℕ) : Table :=
  { t with node := update t.node l (update (t.node l) k q) }

/-- Replace one entry. -/
def Table.setLeaf (t : Table) (v w : ℕ) : Table := { t with leaf := update t.leaf v w }

lemma Table.setNode_node (t : Table) (l k q l' k' : ℕ) :
    (t.setNode l k q).node l' k' = if l' = l ∧ k' = k then q else t.node l' k' := by
  unfold Table.setNode
  by_cases hl : l' = l
  · subst hl
    by_cases hk : k' = k
    · simp [hk]
    · simp [hk]
  · simp [hl]

@[simp] lemma Table.setNode_leaf (t : Table) (l k q : ℕ) : (t.setNode l k q).leaf = t.leaf := rfl

@[simp] lemma Table.setLeaf_node (t : Table) (v w : ℕ) : (t.setLeaf v w).node = t.node := rfl

@[simp] lemma Table.setLeaf_root (t : Table) (v w : ℕ) : (t.setLeaf v w).root = t.root := rfl

lemma Table.setLeaf_leaf (t : Table) (v w v' : ℕ) :
    (t.setLeaf v w).leaf v' = if v' = v then w else t.leaf v' := by
  simp [Table.setLeaf, update_apply]

/-- The word number `i` of a page. -/
def word (mem : ℕ → Page) (p i : ℕ) : ℕ := (mem p).ld 8 (8 * i)

/-- The memory spells out the table. -/
structure Rep (mem : ℕ → Page) (t : Table) : Prop where
  /-- The root is at level 2. -/
  top : ∀ {l k}, t.node l k ≠ 0 → l ≤ 2 ∧ (l = 2 → k = 0)
  dir : ∀ {l k i}, t.node (l + 1) k ≠ 0 → i < 512 →
    word mem (t.node (l + 1) k) i = dirPte (t.node l (512 * k + i))
  low : ∀ {k i}, t.node 0 k ≠ 0 → i < 512 → word mem (t.node 0 k) i = t.leaf (512 * k + i)
  /-- A page-table page hangs from one of the level above. -/
  up : ∀ {l k}, l < 2 → t.node l k ≠ 0 → t.node (l + 1) (k / 512) ≠ 0
  up_leaf : ∀ {v}, t.leaf v ≠ 0 → t.node 0 (v / 512) ≠ 0

/-- No two places of the tree share a page. -/
def Table.Inj (t : Table) : Prop :=
  ∀ {l k l' k'}, t.node l k ≠ 0 → t.node l k = t.node l' k' → l = l' ∧ k = k'

section Words

variable {mem mem' : ℕ → Page} {t : Table} {p i j w : ℕ}

lemma word_store (hi : i < 512) (hw : w < 256 ^ 8) :
    word (update mem p ((mem p).st 8 (8 * i) w)) p i = w := by
  rw [word, update_self, Bytes.ld_st (by unfold PGSIZE; omega), Nat.mod_eq_of_lt hw]

lemma word_store_of_ne {q : ℕ} (h : q ≠ p ∨ j ≠ i) :
    word (update mem p ((mem p).st 8 (8 * i) w)) q j = word mem q j := by
  unfold word
  by_cases hq : q = p
  · subst hq
    have hj : j ≠ i := h.resolve_left (by simp)
    rw [update_self, Bytes.ld_st_of_disjoint (by omega)]
  · rw [update_of_ne hq]

lemma word_congr (h : mem' p = mem p) : word mem' p i = word mem p i := by
  rw [word, word, h]

namespace Rep

/-- Only the page-table pages matter. -/
lemma congr (h : Rep mem t) (hmem : ∀ l k, t.node l k ≠ 0 → mem' (t.node l k) = mem (t.node l k)) :
    Rep mem' t where
  top := h.top
  dir hn hi := by rw [word_congr (hmem _ _ hn), h.dir hn hi]
  low hn hi := by rw [word_congr (hmem _ _ hn), h.low hn hi]
  up := h.up
  up_leaf := h.up_leaf

lemma empty (mem : ℕ → Page) : Rep mem Table.empty where
  top h := absurd rfl h
  dir h := absurd rfl h
  low h := absurd rfl h
  up _ h := absurd rfl h
  up_leaf h := absurd rfl h

lemma node_plant {q l k : ℕ} (h : (Table.empty.setNode 2 0 q).node l k ≠ 0) : l = 2 ∧ k = 0 := by
  rw [Table.setNode_node] at h
  by_contra hlk
  rw [if_neg hlk] at h
  exact h rfl

/-- A zeroed page is the root of a table. -/
lemma plant {q : ℕ} (hzero : mem q = Bytes.fill PGSIZE 0) :
    Rep mem (Table.empty.setNode 2 0 q) := by
  refine ⟨fun hne => ?_, fun {l k i} hne _ => ?_, fun {k i} hne _ => ?_, fun hl hne => ?_,
    fun hv => absurd rfl hv⟩
  · have := node_plant hne
    omega
  · obtain ⟨hl, rfl⟩ := node_plant hne
    obtain rfl : l = 1 := by omega
    rw [Table.setNode_node, if_pos ⟨rfl, rfl⟩, Table.setNode_node, if_neg (by omega), word, hzero,
      Bytes.ld_fill_zero]
    rfl
  · have := (node_plant hne).1
    omega
  · have := (node_plant hne).1
    omega

/-- An entry of the lowest level is written. -/
lemma setLeaf (h : Rep mem t) (hinj : t.Inj) {k : ℕ} (hn : t.node 0 k ≠ 0) (hi : i < 512)
    (hw : w < 256 ^ 8) :
    Rep (update mem (t.node 0 k) ((mem (t.node 0 k)).st 8 (8 * i) w))
      (t.setLeaf (512 * k + i) w) where
  top := h.top
  dir {l k' j} hn' hj := by
    rw [word_store_of_ne (.inl fun heq => ?_)]
    · exact h.dir hn' hj
    · have := hinj hn' heq
      omega
  low {k' j} hn' hj := by
    rw [Table.setLeaf_leaf]
    by_cases hkj : k' = k ∧ j = i
    · rw [if_pos (by omega), hkj.1, hkj.2]
      exact word_store hi hw
    · rw [if_neg (by omega), ← h.low hn' hj]
      apply word_store_of_ne
      by_cases hk : k' = k
      · exact .inr fun hji => hkj ⟨hk, hji⟩
      · exact .inl fun heq => hk (hinj hn' heq).2
  up := h.up
  up_leaf {v} hv := by
    rw [Table.setLeaf_leaf] at hv
    by_cases hvi : v = 512 * k + i
    · have hk : v / 512 = k := by omega
      rw [Table.setLeaf_node, hk]
      exact hn
    · rw [if_neg hvi] at hv
      exact h.up_leaf hv

/-- The page at a place with nothing below is exchanged, for a zeroed one or for none. -/
lemma replaceNode (h : Rep mem t) (hinj : t.Inj) {l k q : ℕ} (hn : t.node (l + 1) k ≠ 0)
    (hi : i < 512) (hlt : q < PHYSTOP)
    (hbelow : ∀ l' j, l' + 1 = l → j < 512 → t.node l' (512 * (512 * k + i) + j) = 0)
    (hleaf : l = 0 → ∀ j < 512, t.leaf (512 * (512 * k + i) + j) = 0)
    (hfresh : q ≠ 0 → (∀ l k, t.node l k ≠ q) ∧ mem q = Bytes.fill PGSIZE 0) :
    Rep (update mem (t.node (l + 1) k) ((mem (t.node (l + 1) k)).st 8 (8 * i) (dirPte q)))
      (t.setNode l (512 * k + i) q) := by
  have hl : l < 2 := by
    have := (h.top hn).1
    omega
  have hkdiv : (512 * k + i) / 512 = k := by omega
  have hdirlt : dirPte q < 256 ^ 8 := by
    by_cases hq : q = 0
    · rw [dirPte, if_pos hq]
      decide
    · rw [dirPte_of_ne hq]
      exact mkPte_lt (hlt.trans (by decide)) (by omega)
  have hqzero : ∀ w j, q ≠ 0 →
      word (update mem (t.node (l + 1) k) ((mem (t.node (l + 1) k)).st 8 (8 * i) w)) q j = 0 := by
    intro w j hq
    rw [word_store_of_ne (.inl ((hfresh hq).1 (l + 1) k).symm), word, (hfresh hq).2,
      Bytes.ld_fill_zero]
  refine ⟨?_, ?_, ?_, ?_, ?_⟩
  · intro l' k' hne
    rw [Table.setNode_node] at hne
    by_cases hlk : l' = l ∧ k' = 512 * k + i
    · have := h.top hn
      omega
    · rw [if_neg hlk] at hne
      exact h.top hne
  · intro l' k' j hne hj
    rw [Table.setNode_node] at hne
    rw [Table.setNode_node, Table.setNode_node]
    by_cases hnew : l' + 1 = l ∧ k' = 512 * k + i
    · -- the new page
      rw [if_pos hnew] at hne ⊢
      rw [hqzero _ j hne, if_neg (by omega), hnew.2, hbelow l' j hnew.1 hj]
      rfl
    · rw [if_neg hnew] at hne ⊢
      by_cases hslot : l' = l ∧ 512 * k' + j = 512 * k + i
      · have hk' : k' = k := by omega
        have hji : j = i := by omega
        rw [if_pos hslot, hslot.1, hk', hji]
        exact word_store hi hdirlt
      · rw [if_neg hslot, ← h.dir hne hj]
        apply word_store_of_ne
        by_cases hk : l' = l ∧ k' = k
        · refine .inr fun hji => hslot ⟨hk.1, ?_⟩
          rw [hk.2, hji]
        · refine .inl fun heq => hk ?_
          have := hinj hne heq
          omega
  · intro k' j hne hj
    rw [Table.setNode_node] at hne ⊢
    by_cases hnew : 0 = l ∧ k' = 512 * k + i
    · rw [if_pos hnew] at hne ⊢
      rw [hqzero _ j hne, hnew.2]
      exact (hleaf hnew.1.symm j hj).symm
    · rw [if_neg hnew] at hne ⊢
      rw [Table.setNode_leaf, ← h.low hne hj]
      apply word_store_of_ne
      refine .inl fun heq => ?_
      have := hinj hne heq
      omega
  · intro l' k' hl' hne
    rw [Table.setNode_node] at hne ⊢
    by_cases hlk : l' = l ∧ k' = 512 * k + i
    · rw [if_neg (by omega), hlk.1, hlk.2, hkdiv]
      exact hn
    · rw [if_neg hlk] at hne
      -- nothing is below the exchanged page
      rw [if_neg]
      · exact h.up hl' hne
      · rintro ⟨hl'', hk''⟩
        have hzero := hbelow l' (k' % 512) hl'' (Nat.mod_lt _ (by decide))
        rw [← hk'', Nat.div_add_mod] at hzero
        exact hne hzero
  · intro v hv
    rw [Table.setNode_node, if_neg]
    · exact h.up_leaf hv
    · rintro ⟨hl', hv'⟩
      have hzero := hleaf hl'.symm (v % 512) (Nat.mod_lt _ (by decide))
      rw [← hv', Nat.div_add_mod] at hzero
      exact hv hzero

/-- A zeroed page is hung into the tree. -/
lemma setNode (h : Rep mem t) (hinj : t.Inj) {l k q : ℕ} (hn : t.node (l + 1) k ≠ 0)
    (hi : i < 512) (hnone : t.node l (512 * k + i) = 0) (hq : q ≠ 0) (hlt : q < PHYSTOP)
    (hfresh : ∀ l k, t.node l k ≠ q) (hzero : mem q = Bytes.fill PGSIZE 0) :
    Rep (update mem (t.node (l + 1) k)
        ((mem (t.node (l + 1) k)).st 8 (8 * i) (pa2pte q ||| PTE_V)))
      (t.setNode l (512 * k + i) q) := by
  have hl := (h.top hn).1
  have hdiv : ∀ j < 512, (512 * (512 * k + i) + j) / 512 = 512 * k + i := by omega
  rw [show pa2pte q ||| PTE_V = dirPte q by rw [dirPte, if_neg hq]]
  refine h.replaceNode hinj hn hi hlt ?_ ?_ fun _ => ⟨hfresh, hzero⟩
  · intro l' j hl' hj
    by_contra hne
    have hup := h.up (by omega) hne
    rw [hdiv j hj, hl'] at hup
    exact hup hnone
  · rintro rfl j hj
    by_contra hne
    have hup := h.up_leaf hne
    rw [hdiv j hj] at hup
    exact hup hnone

end Rep

end Words

/-! ## Ownership of pages -/

/-- The number of virtual pages below the trapframe. -/
def UPAGES : ℕ := TRAPFRAME / PGSIZE

/-- A place where a page can be: the places of a table, and the hands of the running code. -/
inductive Cell where
  | node (l k : ℕ)
  /-- Only pages below the trapframe belong to the table. -/
  | leaf (v : ℕ)
  | hand (j : ℕ)
deriving DecidableEq

/-- The page at each place, with `h` in hand. -/
def Table.cell (t : Table) (h : ℕ → ℕ) : Cell → ℕ
  | .node l k => t.node l k
  | .leaf v => if v < UPAGES then pte2pa (t.leaf v) else 0
  | .hand j => h j

lemma Table.cell_hand (t : Table) (h : ℕ → ℕ) (j q : ℕ) :
    t.cell (update h j q) = update (t.cell h) (.hand j) q := by
  funext c
  by_cases hc : c = .hand j
  · subst hc
    simp [Table.cell]
  · rw [update_of_ne hc]
    cases c with
    | hand i =>
      have hij : i ≠ j := by
        rintro rfl
        exact hc rfl
      simp [Table.cell, hij]
    | _ => rfl

lemma Table.cell_setNode (t : Table) (h : ℕ → ℕ) (l k q : ℕ) :
    (t.setNode l k q).cell h = update (t.cell h) (.node l k) q := by
  funext c
  by_cases hc : c = .node l k
  · subst hc
    simp [Table.cell, Table.setNode]
  · rw [update_of_ne hc]
    cases c with
    | node l' k' =>
      have hlk : ¬(l' = l ∧ k' = k) := by
        rintro ⟨rfl, rfl⟩
        exact hc rfl
      simp [Table.cell, Table.setNode_node, hlk]
    | _ => rfl

lemma Table.cell_setLeaf (t : Table) (h : ℕ → ℕ) (v w : ℕ) :
    (t.setLeaf v w).cell h =
      update (t.cell h) (.leaf v) (if v < UPAGES then pte2pa w else 0) := by
  funext c
  by_cases hc : c = .leaf v
  · subst hc
    simp [Table.cell, Table.setLeaf]
  · rw [update_of_ne hc]
    cases c with
    | leaf v' =>
      have hv : v' ≠ v := by
        rintro rfl
        exact hc rfl
      simp [Table.cell, Table.setLeaf_leaf, hv]
    | _ => rfl

/-- An entry that maps a page. -/
structure IsLeaf (w : ℕ) : Prop where
  valid : pteV w = true
  readable : pteR w = true
  page : pte2pa w ≠ 0
  lt : w < 256 ^ 8

/-- The pages of the pool `D` are free, in the table `t` or in hand, and the memory outside
the pool is `m`. -/
structure Core (D : Set ℕ) (m : ℕ → Page) (t : Table) (h : ℕ → ℕ) (s : Ram) : Prop where
  nodup : s.free.Nodup
  sub : ∀ b ∈ s.free, b ∈ D
  owned : Owned D (· ∉ s.free) (t.cell h)
  rep : Rep s.mem t
  leaves : ∀ v, t.leaf v ≠ 0 → IsLeaf (t.leaf v)
  frame : ∀ b ∉ D, s.mem b = m b
  linked : s.Linked

/-- No stop at all. -/
def NoStop (_ : Stop) : Prop := False

/-- Any stop is fine. -/
def AnyStop (_ : Stop) : Prop := True

namespace Core

variable {D : Set ℕ} {m : ℕ → Page} {t : Table} {h : ℕ → ℕ} {s : Ram} {l k v j b : ℕ}

lemma inj (hc : Core D m t h s) : t.Inj := by
  intro l k l' k' hne heq
  have := hc.owned.inj (.node l k) (.node l' k') hne heq
  simpa using this

lemma node_mem (hc : Core D m t h s) (hn : t.node l k ≠ 0) : t.node l k ∈ D :=
  hc.owned.mem (.node l k) hn

lemma hand_mem (hc : Core D m t h s) (hj : h j ≠ 0) : h j ∈ D := hc.owned.mem (.hand j) hj

lemma hand_ne_node (hc : Core D m t h s) (hj : h j ≠ 0) (l k : ℕ) : t.node l k ≠ h j := by
  intro heq
  have := hc.owned.inj (.hand j) (.node l k) hj heq.symm
  cases this

/-- The page of an entry below the trapframe. -/
lemma leaf_cell (hv : v < UPAGES) : t.cell h (.leaf v) = pte2pa (t.leaf v) := by
  rw [Table.cell, if_pos hv]

section Pages

variable (hc : Core D m t h s)

include hc

lemma leaf_cell_ne (hv : v < UPAGES) (hl : t.leaf v ≠ 0) : t.cell h (.leaf v) ≠ 0 := by
  rw [leaf_cell hv]
  exact (hc.leaves v hl).page

lemma leaf_mem (hv : v < UPAGES) (hl : t.leaf v ≠ 0) : pte2pa (t.leaf v) ∈ D := by
  rw [← leaf_cell hv (h := h)]
  exact hc.owned.mem _ (hc.leaf_cell_ne hv hl)

lemma leaf_ne_node (hv : v < UPAGES) (hl : t.leaf v ≠ 0) (l k : ℕ) :
    t.node l k ≠ pte2pa (t.leaf v) := by
  intro heq
  rw [← leaf_cell hv (h := h)] at heq
  have := hc.owned.inj (.leaf v) (.node l k) (hc.leaf_cell_ne hv hl) heq.symm
  cases this

lemma node_notMem_free (hn : t.node l k ≠ 0) : t.node l k ∉ s.free :=
  hc.owned.used_cell (x := Cell.node l k) hn

/-- A page in hand, or one of the user, is overwritten. -/
lemma touch {x : Cell} (hx : t.cell h x = b) (hb : b ≠ 0) (hne : ∀ l k, x ≠ .node l k)
    (page : Page) : Core D m t h (s.setPage b page) := by
  subst hx
  refine ⟨hc.nodup, hc.sub, hc.owned, hc.rep.congr fun l k _ => update_of_ne (fun heq => ?_) ..,
    hc.leaves, fun c hcD => ?_, hc.linked.setPage (hc.owned.used_cell hb) page⟩
  · exact hne l k (hc.owned.inj x (.node l k) hb heq.symm)
  · have hcb : c ≠ t.cell h x := by
      rintro rfl
      exact hcD (hc.owned.mem x hb)
    exact (update_of_ne hcb ..).trans (hc.frame c hcD)

/-- The oracle of `kalloc` does not matter. -/
lemma deny (d : ℕ → Bool) : Core D m t h { s with deny := d } :=
  ⟨hc.nodup, hc.sub, hc.owned, hc.rep, hc.leaves, hc.frame, hc.linked⟩

/-- The first free page comes into an empty hand. -/
lemma take {r : ℕ} {rest : List ℕ} (hfree : s.free = r :: rest) (hj : h j = 0) :
    Core D m t (update h j r) { s with free := rest } := by
  have hnodup := hc.nodup
  have hsub := hc.sub
  rw [hfree] at hnodup hsub
  refine ⟨hnodup.of_cons, fun b hb => hsub b (by simp [hb]), ?_, hc.rep, hc.leaves, hc.frame,
    hc.linked.tail hfree⟩
  rw [Table.cell_hand]
  refine hc.owned.fill hj (hsub r (by simp)) (by simp [hfree]) fun c _ => ?_
  have hr : r ∉ rest := (List.nodup_cons.1 hnodup).1
  rw [hfree]
  by_cases hcr : c = r
  · simp [hcr, hr]
  · simp [hcr]

/-- A page in hand goes back to the free list. -/
lemma give (hj : h j ≠ 0) (hnext : (s.mem (h j)).ld 8 0 = s.free.headD 0) :
    Core D m t (update h j 0) { s with free := h j :: s.free } := by
  have hused : h j ∉ s.free := hc.owned.used_cell (x := Cell.hand j) hj
  refine ⟨List.nodup_cons.2 ⟨hused, hc.nodup⟩, ?_, ?_, hc.rep, hc.leaves, hc.frame,
    hc.linked.cons hnext⟩
  · intro b hb
    obtain rfl | hb := List.mem_cons.1 hb
    · exact hc.hand_mem hj
    · exact hc.sub b hb
  · rw [Table.cell_hand]
    refine hc.owned.clear hj fun c _ => ?_
    simp [Table.cell]

/-- A page in hand is hung into the tree. -/
lemma hang (hD : ∀ b ∈ D, b < PHYSTOP) {i q : ℕ} (hn : t.node (l + 1) k ≠ 0) (hi : i < 512)
    (hnone : t.node l (512 * k + i) = 0) (hj : h j = q) (hq : q ≠ 0)
    (hzero : s.mem q = Bytes.fill PGSIZE 0) :
    Core D m (t.setNode l (512 * k + i) q) (update h j 0)
      (s.setPage (t.node (l + 1) k)
        ((s.mem (t.node (l + 1) k)).st 8 (8 * i) (pa2pte q ||| PTE_V))) := by
  have hjne : h j ≠ 0 := hj ▸ hq
  refine ⟨hc.nodup, hc.sub, ?_, ?_, hc.leaves, ?_, hc.linked.setPage (hc.node_notMem_free hn) _⟩
  · rw [Table.cell_setNode, Table.cell_hand, ← hj]
    exact hc.owned.move (x := Cell.hand j) (y := Cell.node l (512 * k + i)) (by simp) hjne hnone
  · exact hc.rep.setNode hc.inj hn hi hnone hq (hD q (hj ▸ hc.hand_mem hjne))
      (fun l k => hj ▸ hc.hand_ne_node hjne l k) hzero
  · intro c hcD
    have hcn : c ≠ t.node (l + 1) k := by
      rintro rfl
      exact hcD (hc.node_mem hn)
    exact (update_of_ne hcn ..).trans (hc.frame c hcD)

/-- An entry is written, and the ownership of pages is as `howned` says. -/
lemma write (h' : ℕ → ℕ) {i w : ℕ} (hn : t.node 0 k ≠ 0) (hi : i < 512) (hw : w ≠ 0 → IsLeaf w)
    (howned : Owned D (· ∉ s.free) ((t.setLeaf (512 * k + i) w).cell h')) :
    Core D m (t.setLeaf (512 * k + i) w) h'
      (s.setPage (t.node 0 k) ((s.mem (t.node 0 k)).st 8 (8 * i) w)) := by
  have hlt : w < 256 ^ 8 := by
    by_cases h0 : w = 0
    · simp [h0]
    · exact (hw h0).lt
  refine ⟨hc.nodup, hc.sub, howned, hc.rep.setLeaf hc.inj hn hi hlt, ?_, ?_,
    hc.linked.setPage (hc.node_notMem_free hn) _⟩
  · intro v hv
    rw [Table.setLeaf_leaf] at hv ⊢
    by_cases hvi : v = 512 * k + i
    · rw [if_pos hvi] at hv ⊢
      exact hw hv
    · rw [if_neg hvi] at hv ⊢
      exact hc.leaves v hv
  · intro c hcD
    have hcn : c ≠ t.node 0 k := by
      rintro rfl
      exact hcD (hc.node_mem hn)
    exact (update_of_ne hcn ..).trans (hc.frame c hcD)

end Pages

end Core

end Xv6.Vm
