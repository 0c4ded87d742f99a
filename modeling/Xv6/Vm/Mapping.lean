import Xv6.Vm.Space

/-!
# Page tables as finite maps

A page table stands for a map from virtual pages to entries, whatever the entries are: pages
may be mapped twice, or lie outside the memory that `kalloc` manages. `Tree` is what this needs,
the table in memory and its page-table pages, none of them free.
-/

namespace Xv6.Vm

open Xv6.Lib
open Function (update update_of_ne update_self)

variable {lk : Link} {t : Table} {s : Ram} {v va pa perm b : ℕ}

/-! ## The tree -/

/-- The memory holds the table, and its page-table pages are not free. -/
structure Tree (lk : Link) (t : Table) (s : Ram) : Prop where
  nodup : s.free.Nodup
  sub : ∀ b ∈ s.free, b ∈ lk.pool
  rep : Rep s.mem t
  inj : t.Inj
  node : ∀ {l k}, t.node l k ≠ 0 → t.node l k ∈ lk.pool ∧ t.node l k ∉ s.free
  leaf : ∀ {v}, t.leaf v ≠ 0 → pteV (t.leaf v) = true

lemma Link.ne_zero_of_pool (h : b ∈ lk.pool) : b ≠ 0 := by
  have hge := lk.trampoline_ge
  have hlt := lk.trampoline_lt
  have hb := h.2.1
  unfold KERNBASE at hge
  omega

/-- A page that is not free and not in the table. -/
def Unused (lk : Link) (t : Table) (q : ℕ) (s : Ram) : Prop :=
  q ∈ lk.pool ∧ q ∉ s.free ∧ ∀ l k, t.node l k ≠ q

namespace Tree

lemma setPage (h : Tree lk t s) (hb : ∀ l k, t.node l k ≠ b) (page : Page) :
    Tree lk t (s.setPage b page) :=
  ⟨h.nodup, h.sub, h.rep.congr fun l k _ => update_of_ne (hb l k) .., h.inj, h.node, h.leaf⟩

/-- The new page is not in the table. -/
lemma kalloc : Triple NoStop (Tree lk t) kalloc fun q s =>
    (q = 0 ∨ Unused lk t q s) ∧ Tree lk t s := by
  refine .get_bind fun s h => ?_
  split
  case h_1 r rest hfree _ =>
    have hnodup := h.nodup
    have hsub := h.sub
    rw [hfree] at hnodup hsub
    have hr : ∀ l k, t.node l k ≠ r := by
      rintro l k rfl
      have hne : t.node l k ≠ 0 := Link.ne_zero_of_pool (hsub _ (by simp))
      exact (h.node hne).2 (by simp [hfree])
    have htake (d : ℕ → Bool) : Tree lk t { s with free := rest, deny := d } := by
      refine ⟨hnodup.of_cons, fun b hb => hsub b (by simp [hb]), h.rep, h.inj, fun hn => ?_, h.leaf⟩
      have := h.node hn
      rw [hfree] at this
      exact ⟨this.1, fun hmem => this.2 (by simp [hmem])⟩
    refine .bind (Q := fun _ s => s.free = rest ∧ Tree lk t s) (.set fun _ _ => ⟨rfl, htake _⟩)
      fun _ => .bind (Q := fun _ s => s.free = rest ∧ Tree lk t s)
        (.modify fun s hs => ⟨hs.1, hs.2.setPage hr _⟩) fun _ => .pure fun s hs => ?_
    have hunused : r ∉ s.free := hs.1 ▸ (List.nodup_cons.1 hnodup).1
    exact ⟨.inr ⟨hsub r (by simp), hunused, hr⟩, hs.2⟩
  case h_2 =>
    refine .bind (Q := fun _ => Tree lk t) (.set fun _ _ => ?_) fun _ =>
      .pure fun _ hs => ⟨.inl rfl, hs⟩
    exact ⟨h.nodup, h.sub, h.rep, h.inj, h.node, h.leaf⟩

lemma kfree (hb : Unused lk t b s) (h : Tree lk t s) :
    Triple NoStop (· = s) (kfree lk b) fun _ s' => Tree lk t s' ∧ s'.free = b :: s.free := by
  obtain ⟨⟨halign, hge, hlt⟩, hfree, hnode⟩ := hb
  refine .ite (fun hrange => absurd hrange (by omega)) fun _ => ?_
  refine .bind (Q := fun _ s' => Tree lk t s' ∧ s'.free = s.free)
    (.modify fun s' hs => ⟨hs ▸ h.setPage hnode _, hs ▸ rfl⟩) fun _ => ?_
  refine .bind (Q := fun _ s' => Tree lk t s' ∧ s'.free = s.free)
    (.modify fun s' hs => ⟨hs.1.setPage hnode _, hs.2⟩) fun _ => .modify fun s' hs => ?_
  refine ⟨⟨?_, ?_, hs.1.rep, hs.1.inj, fun hn => ⟨(hs.1.node hn).1, ?_⟩, hs.1.leaf⟩,
    by rw [hs.2]⟩
  · exact List.nodup_cons.2 ⟨hs.2 ▸ hfree, hs.1.nodup⟩
  · intro c hc
    obtain rfl | hc := List.mem_cons.1 hc
    · exact ⟨halign, hge, hlt⟩
    · exact hs.1.sub c hc
  · rw [List.mem_cons, not_or]
    exact ⟨hnode _ _, (hs.1.node hn).2⟩

/-- A zeroed page is hung into the tree. -/
lemma hang (h : Tree lk t s) {l k i q : ℕ} (hq : Unused lk t q s)
    (hzero : s.mem q = Bytes.fill PGSIZE 0) (hn : t.node (l + 1) k ≠ 0) (hi : i < 512)
    (hnone : t.node l (512 * k + i) = 0) :
    Tree lk (t.setNode l (512 * k + i) q) (s.setPage (t.node (l + 1) k)
      ((s.mem (t.node (l + 1) k)).st 8 (8 * i) (pa2pte q ||| PTE_V))) := by
  obtain ⟨hpool, hfree, hnode⟩ := hq
  refine ⟨h.nodup, h.sub, h.rep.setNode h.inj hn hi hnone (Link.ne_zero_of_pool hpool) hpool.2.2
    hnode hzero, ?_, ?_, h.leaf⟩
  · intro l' k' l'' k'' hne heq
    rw [Table.setNode_node] at hne heq
    rw [Table.setNode_node] at heq
    split at heq <;> split at heq
    · omega
    · exact absurd heq.symm (hnode _ _)
    · exact absurd heq (hnode _ _)
    · rename_i h1 h2
      rw [if_neg h1] at hne
      exact h.inj hne heq
  · intro l' k' hne
    rw [Table.setNode_node] at hne ⊢
    split at hne
    · rename_i h1
      rw [if_pos h1]
      exact ⟨hpool, hfree⟩
    · rename_i h1
      rw [if_neg h1]
      exact h.node hne

/-- `walk` keeps the tree. -/
lemma grows : Grows (Tree lk) where
  rep h := h.rep
  aligned {t s} h l k := by
    by_cases hn : t.node l k = 0
    · rw [hn]
      rfl
    · exact (h.node hn).1.1
  hang {t l k i f Q} hn hi hnone hfail hok := by
    refine Tree.kalloc.bind fun q => ?_
    by_cases hq : q = 0
    · rw [if_pos hq]
      exact hfail.pre fun s hs => hs.2
    rw [if_neg hq]
    refine .bind (Q := fun _ s => Unused lk t q s ∧ Tree lk t s ∧ s.mem q = Bytes.fill PGSIZE 0)
      (.modify fun s hs => ?_) fun _ => ?_
    · have hu := hs.1.resolve_left hq
      exact ⟨hu, hs.2.setPage hu.2.2 _, update_self ..⟩
    exact .bind (Q := fun _ => Tree lk (t.setNode l (512 * k + i) q))
      (.modify fun s hs => hs.2.1.hang hs.1 hs.2.2 hn hi hnone) fun _ => hok q hq

lemma setLeaf (h : Tree lk t s) {w : ℕ} (hn : t.node 0 (v / 512) ≠ 0) (hw : w < 256 ^ 8)
    (hvalid : w ≠ 0 → pteV w = true) :
    Tree lk (t.setLeaf v w) (s.setPage (t.node 0 (v / 512))
      ((s.mem (t.node 0 (v / 512))).st 8 (8 * (v % 512)) w)) := by
  have hrep := h.rep.setLeaf h.inj hn (Nat.mod_lt v (by decide)) hw
  rw [Nat.div_add_mod] at hrep
  refine ⟨h.nodup, h.sub, hrep, h.inj, h.node, fun {u} hu => ?_⟩
  rw [Table.setLeaf_leaf] at hu ⊢
  split at hu
  next huv =>
    rw [if_pos huv]
    exact hvalid hu
  next huv =>
    rw [if_neg huv]
    exact h.leaf hu

/-- A table of which only the root is there. -/
lemma uvmcreate : Triple NoStop (Tree lk Table.empty) uvmcreate fun r s =>
    r = 0 ∨ Tree lk (Table.empty.setNode 2 0 r) s := by
  refine Tree.kalloc.bind fun q => ?_
  by_cases hq : q = 0
  · rw [if_pos hq]
    exact .pure fun _ _ => .inl rfl
  rw [if_neg hq]
  refine .bind (Q := fun _ s => Unused lk Table.empty q s ∧ Tree lk Table.empty s ∧
    s.mem q = Bytes.fill PGSIZE 0) (.modify fun s hs => ?_) fun _ => .pure fun s hs => .inr ?_
  · have hu := hs.1.resolve_left hq
    exact ⟨hu, hs.2.setPage hu.2.2 _, update_self ..⟩
  · obtain ⟨hu, h, hzero⟩ := hs
    refine ⟨h.nodup, h.sub, .plant hzero, ?_, ?_, fun hv => absurd rfl hv⟩
    · intro l k l' k' hne heq
      have hlk := Rep.node_plant hne
      have hlk' := Rep.node_plant (heq ▸ hne)
      omega
    · intro l k hne
      obtain ⟨rfl, rfl⟩ := Rep.node_plant hne
      rw [Table.setNode_node, if_pos ⟨rfl, rfl⟩]
      exact ⟨hu.1, hu.2.1⟩

/-! ## Mapping and unmapping -/

/-- What `mappages` does at one page. -/
lemma map_entry (hperm : perm < 1024) (hva : va < MAXVA) (hpa : pa < 2 ^ 56) (hroot : t.root ≠ 0)
    (hnone : t.leaf (vpn va) = 0) {f : VmM ℤ} {Q : ℤ → Ram → Prop}
    (hfail : ∀ t' s, Grown t t' → Tree lk t' s → Q (-1) s)
    (hok : ∀ t', Grown t t' →
      Triple NoStop (Tree lk (t'.setLeaf (vpn va) (mkPte pa perm))) f Q) :
    Triple NoStop (Tree lk t) (do
      match ← walk t.root va true with
      | none => return -1
      | some (pt, i) =>
        let pte ← load pt i
        if pteV pte then throw (.panic "mappages: remap")
        else
          store pt i (pa2pte pa ||| perm ||| PTE_V)
          f) Q := by
  refine Tree.grows.map_entry hva hroot hnone hfail fun t' hg hn => ?_
  refine .bind (Q := fun _ => Tree lk (t'.setLeaf (vpn va) (mkPte pa perm))) ?_ fun _ => hok t' hg
  exact .modify fun s h => h.setLeaf hn (mkPte_lt hpa hperm) fun _ => pteV_mkPte pa hperm

/-- The loop of `mappages` over `n + 1` pages. -/
lemma mapLoop (lk : Link) (hperm : perm < 1024) (n : ℕ) :
    ∀ t va pa, t.root ≠ 0 → va + n * PGSIZE < MAXVA →
    pa + n * PGSIZE < 2 ^ 56 → (∀ i ≤ n, t.leaf (vpn va + i) = 0) →
    Triple NoStop (Tree lk t) (mapLoop t.root perm n va pa) fun r s =>
      ∃ t', t'.root = t.root ∧ Tree lk t' s ∧
        (∀ v, v < vpn va ∨ vpn va + n < v → t'.leaf v = t.leaf v) ∧
        (r = 0 → ∀ i ≤ n, t'.leaf (vpn va + i) = mkPte (pa + i * PGSIZE) perm) := by
  induction n with
  | zero =>
    intro t va pa hroot hva hpa hnone
    unfold Vm.mapLoop
    refine map_entry hperm (by omega) (by omega) hroot (hnone 0 le_rfl) (fun t' s hg h => ?_)
      fun t' hg => .pure fun s h => ?_
    · exact ⟨t', hg.root, h, fun v _ => by rw [hg.leaf], fun hr => absurd hr (by decide)⟩
    · refine ⟨t'.setLeaf (vpn va) (mkPte pa perm), hg.root, h, fun v hv => ?_, fun _ i hi => ?_⟩
      · rw [Table.setLeaf_leaf, if_neg (by omega), hg.leaf]
      · obtain rfl : i = 0 := by omega
        simp [Table.setLeaf_leaf]
  | succ n ih =>
    intro t va pa hroot hva hpa hnone
    rw [Nat.succ_mul] at hva hpa
    unfold Vm.mapLoop
    refine map_entry hperm (by omega) (by omega) hroot (hnone 0 (Nat.zero_le _))
      (fun t' s hg h => ?_) fun t' hg => ?_
    · exact ⟨t', hg.root, h, fun v _ => by rw [hg.leaf], fun hr => absurd hr (by decide)⟩
    have hloop := ih (t'.setLeaf (vpn va) (mkPte pa perm)) (va + PGSIZE) (pa + PGSIZE)
      (hg.root ▸ hroot) (by omega) (by omega) fun i hi => ?_
    · rw [Table.setLeaf_root, hg.root] at hloop
      refine hloop.post fun r s hs => ?_
      obtain ⟨t'', hroot'', h, hout, hin⟩ := hs
      rw [vpn_add_page] at hout hin
      refine ⟨t'', hroot'', h, fun v hv => ?_, fun hr i hi => ?_⟩
      · rw [hout v (by omega), Table.setLeaf_leaf, if_neg (by omega), hg.leaf]
      · rcases i.eq_zero_or_pos with rfl | hi0
        · rw [hout _ (by omega), Table.setLeaf_leaf]
          simp
        · obtain ⟨i, rfl⟩ := Nat.exists_eq_add_of_lt hi0
          have hi' := hin hr i (by omega)
          rw [show vpn va + (0 + i + 1) = vpn va + 1 + i by omega, hi',
            show pa + (0 + i + 1) * PGSIZE = pa + PGSIZE + i * PGSIZE by ring]
    · rw [vpn_add_page, Table.setLeaf_leaf, if_neg (by omega), hg.leaf, add_assoc]
      exact hnone (1 + i) (by omega)

lemma unmapLoop (lk : Link) (doFree : Bool) (n : ℕ) : ∀ t s va, Tree lk t s → t.root ≠ 0 →
    va + n * PGSIZE ≤ MAXVA →
    (∀ i < n, pteV (t.leaf (vpn va + i)) = true ∧ pteFlags (t.leaf (vpn va + i)) ≠ PTE_V) →
    (doFree = true → ∀ i < n, Unused lk t (pte2pa (t.leaf (vpn va + i))) s ∧
      ∀ j < i, pte2pa (t.leaf (vpn va + j)) ≠ pte2pa (t.leaf (vpn va + i))) →
    Triple NoStop (· = s) (unmapLoop lk t.root doFree n va)
      fun _ => Tree lk (t.unmap (vpn va) n) := by
  induction n with
  | zero =>
    intro t s va h _ _ _ _
    rw [Table.unmap_zero]
    exact .pure fun _ hs => hs ▸ h
  | succ n ih =>
    intro t s va h hroot hva hmapped hfree
    rw [Nat.succ_mul] at hva
    have hpage : 0 < PGSIZE := by decide
    have hfirst := hmapped 0 (Nat.zero_lt_succ _)
    have hl : t.leaf (vpn va) ≠ 0 := by
      intro h0
      rw [add_zero, h0] at hfirst
      exact absurd hfirst.1 (by decide)
    -- the rest of the range is as before
    have hrest (i : ℕ) :
        (t.setLeaf (vpn va) 0).leaf (vpn va + 1 + i) = t.leaf (vpn va + (i + 1)) := by
      rw [Table.setLeaf_leaf, if_neg (by omega), add_assoc, add_comm 1 i]
    have hgo : Triple NoStop (fun s' => Tree lk t s' ∧ ∀ b ∈ s'.free,
        b ∈ s.free ∨ doFree = true ∧ b = pte2pa (t.leaf (vpn va))) (do
          store (t.node 0 (vpn va / 512)) (vpn va % 512) 0
          Vm.unmapLoop lk t.root doFree n (va + PGSIZE))
        fun _ => Tree lk (t.unmap (vpn va) (n + 1)) := by
      refine .bind (Q := fun _ s' => Tree lk (t.setLeaf (vpn va) 0) s' ∧ ∀ b ∈ s'.free,
        b ∈ s.free ∨ doFree = true ∧ b = pte2pa (t.leaf (vpn va))) (.modify fun s' hs' => ?_)
        fun _ => .of_run fun s' hs' => ?_
      · exact ⟨hs'.1.setLeaf (h.rep.up_leaf hl) (by decide) fun h0 => absurd rfl h0, hs'.2⟩
      rw [← Table.unmap_succ, ← vpn_add_page]
      refine (ih (t.setLeaf (vpn va) 0) s' (va + PGSIZE) hs'.1 hroot (by omega) ?_ ?_).run rfl
      · intro i hi
        rw [vpn_add_page, hrest]
        exact hmapped (i + 1) (by omega)
      · intro hd i hi
        rw [vpn_add_page, hrest]
        obtain ⟨⟨hpool, hused, hnode⟩, hne⟩ := hfree hd (i + 1) (by omega)
        refine ⟨⟨hpool, fun hmem => ?_, hnode⟩, fun j hj => ?_⟩
        · obtain hmem | ⟨-, heq⟩ := hs'.2 _ hmem
          · exact hused hmem
          · exact hne 0 (by omega) heq.symm
        · rw [hrest]
          exact hne (j + 1) (by omega)
    refine unmap_entry (fun _ hs => hs ▸ h.rep) (fun _ _ => Tree.grows.aligned h) (by omega)
      hroot hfirst.1 hfirst.2 (f := fun pt i pte => do
        if doFree then Vm.kfree lk (pte2pa pte) else pure ()
        store pt i 0
        Vm.unmapLoop lk t.root doFree n (va + PGSIZE)) ?_
    refine .ite (fun hd => ?_) fun hd => hgo.pre fun _ hs => ⟨hs ▸ h, fun b hb => .inl (hs ▸ hb)⟩
    refine .bind (Tree.kfree (hfree hd 0 (Nat.zero_lt_succ _)).1 h) fun _ =>
      hgo.pre fun s' hs' => ⟨hs'.1, fun b hb => ?_⟩
    rw [hs'.2, List.mem_cons] at hb
    exact hb.symm.imp_right fun hb => ⟨hd, hb⟩

end Tree

/-! ## Lookups -/

/-- Where `walk` finds the entry of an address. -/
def slot (pagetable va : ℕ) (s : Ram) : Option (ℕ × ℕ) :=
  match (walk pagetable va false).run s with
  | .ok (r, _) => r
  | .error _ => none

/-- The entry that `walk` finds, if it is valid. -/
def lookup (pagetable va : ℕ) (s : Ram) : Option ℕ :=
  (slot pagetable va s).bind fun p =>
    if pteV (word s.mem p.1 p.2) then some (word s.mem p.1 p.2) else none

/-- The page-table pages of each level. -/
inductive TablePage (mem : ℕ → Page) (pagetable : ℕ) : ℕ → ℕ → Prop
  | root : TablePage mem pagetable 2 pagetable
  | child {l p i : ℕ} : TablePage mem pagetable (l + 1) p → i < 512 →
      pteV (word mem p i) = true → TablePage mem pagetable l (pte2pa (word mem p i))

namespace Tree

/-- `walk` finds the slot of the table. -/
lemma slot_eq (h : Tree lk t s) (hroot : t.root ≠ 0) (hva : va < MAXVA) :
    slot t.root va s = t.find (vpn va) := by
  have hwalk := walk_find (P := (· = s)) (fun _ hs => hs ▸ h.rep) (Tree.grows.aligned h) hva hroot
  obtain ⟨⟨r, s'⟩, hrun, hr⟩ := (hwalk.run rfl).exists_ok
  rw [slot, hrun]
  exact hr.1

/-- The lookup gives the leaf, if there is one. -/
lemma lookup_eq (h : Tree lk t s) (hroot : t.root ≠ 0) (hva : va < MAXVA) :
    lookup t.root va s = if t.leaf (vpn va) = 0 then none else some (t.leaf (vpn va)) := by
  rw [lookup, h.slot_eq hroot hva, Table.find]
  by_cases hn : t.node 0 (vpn va / 512) = 0
  · have hl : t.leaf (vpn va) = 0 := by
      by_contra hl
      exact h.rep.up_leaf hl hn
    simp [hn, hl]
  · rw [if_neg hn, Option.bind_some, h.rep.word_leaf hn]
    by_cases hl : t.leaf (vpn va) = 0
    · simp [hl, pteV]
    · simp [hl, h.leaf hl]

lemma tablePage (h : Tree lk t s) {l k : ℕ} (hn : t.node l k ≠ 0) :
    TablePage s.mem t.root l (t.node l k) := by
  have hstep {l k : ℕ} (hl : l < 2) (hn : t.node l k ≠ 0)
      (hup : TablePage s.mem t.root (l + 1) (t.node (l + 1) (k / 512))) :
      TablePage s.mem t.root l (t.node l k) := by
    have hi : k % 512 < 512 := Nat.mod_lt k (by decide)
    have hword := h.rep.dir (h.rep.up hl hn) hi
    rw [Nat.div_add_mod] at hword
    have hchild := hup.child hi (by rw [hword, pteV_dirPte]; simpa using hn)
    rwa [hword, pte2pa_dirPte (Tree.grows.aligned h l k)] at hchild
  have htop {k : ℕ} (hn : t.node 2 k ≠ 0) : TablePage s.mem t.root 2 (t.node 2 k) := by
    rw [(h.rep.top hn).2 rfl]
    exact .root
  have hl := (h.rep.top hn).1
  interval_cases l
  · have hn1 := h.rep.up (by decide) hn
    exact hstep (by decide) hn (hstep (by decide) hn1 (htop (h.rep.up (by decide) hn1)))
  · exact hstep (by decide) hn (htop (h.rep.up (by decide) hn))
  · exact htop hn

end Tree

/-! ## Runs -/

/-- What `mappages` asks for: an address range whose pages are not mapped, a page-aligned physical
address, and flags. -/
structure MapPre (s : Ram) (pagetable va size pa perm : ℕ) : Prop where
  size_pos : 0 < size
  va_le : va + size ≤ MAXVA
  pa_aligned : pa % PGSIZE = 0
  pa_lt : pa + (vpn (va + size - 1) - vpn va) * PGSIZE < 2 ^ 56
  perm_lt : perm < 1024
  unmapped : ∀ v, vpn va ≤ v → v ≤ vpn (va + size - 1) → lookup pagetable (v * PGSIZE) s = none

/-- What `uvmunmap` asks for: pages that are mapped, and, if they are to be freed, pages in use
that are not page-table pages, each of them mapped once in the range. -/
structure UnmapPre (lk : Link) (s : Ram) (pagetable va npages : ℕ) (doFree : Bool) : Prop where
  aligned : va % PGSIZE = 0
  va_le : va + npages * PGSIZE ≤ MAXVA
  mapped : ∀ i < npages, ∃ w, lookup pagetable (va + i * PGSIZE) s = some w ∧ pteFlags w ≠ PTE_V ∧
    (doFree = true → pte2pa w ∈ lk.pool ∧ pte2pa w ∉ s.free ∧
      (∀ l, ¬ TablePage s.mem pagetable l (pte2pa w)) ∧
      ∀ j < i, (lookup pagetable (va + j * PGSIZE) s).map pte2pa ≠ some (pte2pa w))

/-- The states after `uvmcreate` and any calls of `mappages` and `uvmunmap`. -/
inductive Reach (lk : Link) (pagetable : ℕ) : Ram → Prop
  | create {s₀ s : Ram} : s₀.free.Nodup → (∀ b ∈ s₀.free, b ∈ lk.pool) → pagetable ≠ 0 →
      uvmcreate.run s₀ = .ok (pagetable, s) → Reach lk pagetable s
  | map {s s' : Ram} {va size pa perm : ℕ} {r : ℤ} : Reach lk pagetable s →
      MapPre s pagetable va size pa perm →
      (mappages pagetable va size pa perm).run s = .ok (r, s') → Reach lk pagetable s'
  | unmap {s s' : Ram} {va npages : ℕ} {doFree : Bool} : Reach lk pagetable s →
      UnmapPre lk s pagetable va npages doFree →
      (uvmunmap lk pagetable va npages doFree).run s = .ok ((), s') → Reach lk pagetable s'

lemma vpn_add_mul (va i : ℕ) : vpn (va + i * PGSIZE) = vpn va + i :=
  Nat.add_mul_div_right va i (by decide)

namespace Tree

/-- Nothing changes outside the range, and 0 means that all of it is mapped. -/
lemma mappages {size : ℕ} (h : Tree lk t s) (hroot : t.root ≠ 0)
    (hpre : MapPre s t.root va size pa perm) :
    ∃ r s' t', (mappages t.root va size pa perm).run s = .ok (r, s') ∧ t'.root = t.root ∧
      Tree lk t' s' ∧
      (∀ v, v < vpn va ∨ vpn (va + size - 1) < v → t'.leaf v = t.leaf v) ∧
      (r = 0 → ∀ i ≤ vpn (va + size - 1) - vpn va,
        t'.leaf (vpn va + i) = mkPte (pa + i * PGSIZE) perm) := by
  have hle : vpn va ≤ vpn (va + size - 1) := Nat.div_le_div_right (by have := hpre.size_pos; omega)
  have hlast : vpn (va + size - 1) * PGSIZE < MAXVA := by
    have := Nat.div_mul_le_self (va + size - 1) PGSIZE
    have := hpre.size_pos
    have := hpre.va_le
    unfold vpn
    omega
  have hcount : (pgrounddown (va + size - 1) - pgrounddown va) / PGSIZE =
      vpn (va + size - 1) - vpn va := by
    rw [pgrounddown, pgrounddown, ← Nat.sub_mul, Nat.mul_div_cancel _ (by decide)]
    rfl
  have hstart : vpn (pgrounddown va) = vpn va := vpn_mul _
  have hloop := mapLoop lk hpre.perm_lt (vpn (va + size - 1) - vpn va) t (pgrounddown va) pa
    hroot ?_ hpre.pa_lt fun i hi => ?_
  · obtain ⟨⟨r, s'⟩, hrun, t', hr, ht, hout, hin⟩ := (hloop.run h).exists_ok
    rw [hstart] at hout hin
    refine ⟨r, s', t', ?_, hr, ht, fun v hv => hout v (by omega), hin⟩
    rw [Vm.mappages, if_neg hpre.size_pos.ne']
    dsimp only
    rw [hcount]
    exact hrun
  · show vpn va * PGSIZE + _ < _
    rwa [← Nat.add_mul, Nat.add_sub_cancel' hle]
  · have hva : (vpn va + i) * PGSIZE < MAXVA :=
      (Nat.mul_le_mul_right _ (by omega)).trans_lt hlast
    have hnone := hpre.unmapped (vpn va + i) (by omega) (by omega)
    rw [h.lookup_eq hroot hva, vpn_mul] at hnone
    rw [hstart]
    by_contra hl
    rw [if_neg hl] at hnone
    cases hnone

/-- Exactly the range is unmapped. -/
lemma uvmunmap {npages : ℕ} {doFree : Bool} (h : Tree lk t s) (hroot : t.root ≠ 0)
    (hpre : UnmapPre lk s t.root va npages doFree) :
    ∃ s', (uvmunmap lk t.root va npages doFree).run s = .ok ((), s') ∧
      Tree lk (t.unmap (vpn va) npages) s' := by
  have hleaf (i : ℕ) (hi : i < npages) : lookup t.root (va + i * PGSIZE) s =
      if t.leaf (vpn va + i) = 0 then none else some (t.leaf (vpn va + i)) := by
    have hlt : va + i * PGSIZE < MAXVA := by
      have := Nat.mul_lt_mul_of_pos_right hi (show 0 < PGSIZE by decide)
      have := hpre.va_le
      omega
    rw [h.lookup_eq hroot hlt, vpn_add_mul]
  have hne (i : ℕ) (hi : i < npages) : t.leaf (vpn va + i) ≠ 0 := by
    intro h0
    obtain ⟨w, hw, -⟩ := hpre.mapped i hi
    rw [hleaf i hi, if_pos h0] at hw
    cases hw
  have hentry (i : ℕ) (hi : i < npages) :
      lookup t.root (va + i * PGSIZE) s = some (t.leaf (vpn va + i)) := by
    rw [hleaf i hi, if_neg (hne i hi)]
  have hloop := unmapLoop lk doFree npages t s va h hroot hpre.va_le
    (fun i hi => ?_) fun hd i hi => ?_
  · obtain ⟨⟨_, s'⟩, hrun, ht⟩ := (hloop.run rfl).exists_ok
    refine ⟨s', ?_, ht⟩
    rw [Vm.uvmunmap, if_neg (by simp [hpre.aligned])]
    exact hrun
  · obtain ⟨w, hw, hflags, -⟩ := hpre.mapped i hi
    obtain rfl : t.leaf (vpn va + i) = w := by simpa [hentry i hi] using hw
    exact ⟨h.leaf (hne i hi), hflags⟩
  · obtain ⟨w, hw, -, hfree⟩ := hpre.mapped i hi
    obtain rfl : t.leaf (vpn va + i) = w := by simpa [hentry i hi] using hw
    obtain ⟨hpool, hused, htable, honce⟩ := hfree hd
    refine ⟨⟨hpool, hused, fun l k heq => ?_⟩, fun j hj heq => ?_⟩
    · have hn : t.node l k ≠ 0 := heq ▸ Link.ne_zero_of_pool hpool
      exact htable l (heq ▸ h.tablePage hn)
    · exact honce j hj (by rw [hentry j (by omega), Option.map_some, heq])

end Tree

/-- Every tree that the calls build is one. -/
lemma Reach.tree {pagetable : ℕ} (h : Reach lk pagetable s) :
    pagetable ≠ 0 ∧ ∃ t, t.root = pagetable ∧ Tree lk t s := by
  induction h with
  | create hnodup hsub hne hrun =>
    have hempty : Tree lk Table.empty _ :=
      ⟨hnodup, hsub, .empty _, fun h => absurd rfl h, fun h => absurd rfl h, fun h => absurd rfl h⟩
    have hpost := (Tree.uvmcreate.run hempty).of_ok hrun
    exact ⟨hne, _, by simp [Table.root, Table.setNode_node], hpost.resolve_left hne⟩
  | map _ hpre hrun ih =>
    obtain ⟨hne, t, rfl, ht⟩ := ih
    obtain ⟨r, s', t', hrun', hroot, ht', -⟩ := ht.mappages hne hpre
    rw [hrun'] at hrun
    cases hrun
    exact ⟨hne, t', hroot, ht'⟩
  | unmap _ hpre hrun ih =>
    obtain ⟨hne, t, rfl, ht⟩ := ih
    obtain ⟨s', hrun', ht'⟩ := ht.uvmunmap hne hpre
    rw [hrun'] at hrun
    cases hrun
    exact ⟨hne, t.unmap _ _, rfl, ht'⟩

/-! ## The finite map -/

/-- The page table as a map: `mappages` extends it by the pages of the range, `uvmunmap` removes
those of the range, and no two pages share an entry. -/
structure Refines (lk : Link) (pagetable : ℕ) (s : Ram) : Prop where
  map : ∀ {va size pa perm : ℕ}, MapPre s pagetable va size pa perm →
    ∃ r s', (mappages pagetable va size pa perm).run s = .ok (r, s') ∧
      (∀ a < MAXVA, vpn a < vpn va ∨ vpn (va + size - 1) < vpn a →
        lookup pagetable a s' = lookup pagetable a s) ∧
      (r = 0 → ∀ a < MAXVA, vpn va ≤ vpn a → vpn a ≤ vpn (va + size - 1) →
        ∃ w, lookup pagetable a s' = some w ∧ pte2pa w = pa + (vpn a - vpn va) * PGSIZE ∧
          pteFlags w = perm ||| PTE_V)
  unmap : ∀ {va npages : ℕ} {doFree : Bool}, UnmapPre lk s pagetable va npages doFree →
    ∃ s', (uvmunmap lk pagetable va npages doFree).run s = .ok ((), s') ∧
      ∀ a < MAXVA, lookup pagetable a s' =
        if vpn va ≤ vpn a ∧ vpn a < vpn va + npages then none else lookup pagetable a s
  slots : ∀ {a a' : ℕ}, a < MAXVA → a' < MAXVA → vpn a ≠ vpn a' →
    slot pagetable a s ≠ none → slot pagetable a s ≠ slot pagetable a' s

lemma pte2pa_or {f : ℕ} (hpa : pa % PGSIZE = 0) (hf : f < 1024) :
    pte2pa (pa2pte pa ||| f) = pa ∧ pteFlags (pa2pte pa ||| f) = f := by
  have hdvd := Nat.div_mul_cancel (Nat.dvd_of_mod_eq_zero hpa)
  rw [pa2pte, or_flags _ hf, pte2pa, pteFlags]
  refine ⟨?_, by omega⟩
  rw [show (2 ^ 10 * (pa / PGSIZE) + f) / 1024 = pa / PGSIZE by omega, hdvd]

/-- A page table that `uvmcreate`, `mappages` and `uvmunmap` built is a finite map, and the flags
of an entry do not disturb its address. -/
theorem reach_refines (lk : Link) (pagetable : ℕ) (s : Ram) (h : Reach lk pagetable s) :
    Refines lk pagetable s ∧ ∀ pa f, pa % PGSIZE = 0 → f < 1024 → pte2pa (pa2pte pa) = pa ∧
      pte2pa (pa2pte pa ||| f) = pa ∧ pteFlags (pa2pte pa ||| f) = f := by
  obtain ⟨hne, t, rfl, ht⟩ := h.tree
  refine ⟨⟨fun {va size pa perm} hpre => ?_, fun {va npages doFree} hpre => ?_,
    fun {a a'} ha ha' hvpn hsome => ?_⟩, fun pa f hpa hf => ?_⟩
  · obtain ⟨r, s', t', hrun, hroot, ht', hout, hin⟩ := ht.mappages hne hpre
    have hlookup {a : ℕ} (ha : a < MAXVA) := ht'.lookup_eq (hroot ▸ hne) ha
    rw [hroot] at hlookup
    refine ⟨r, s', hrun, fun a ha hv => ?_, fun hr a ha hge hle => ?_⟩
    · rw [hlookup ha, ht.lookup_eq hne ha, hout _ hv]
    · have hleaf := hin hr (vpn a - vpn va) (by omega)
      rw [Nat.add_sub_cancel' hge] at hleaf
      have hpa : (pa + (vpn a - vpn va) * PGSIZE) % PGSIZE = 0 := by
        rw [Nat.add_mul_mod_self_right, hpre.pa_aligned]
      refine ⟨_, ?_, pte2pa_mkPte hpa hpre.perm_lt, ?_⟩
      · rw [hlookup ha, hleaf, if_neg]
        intro h0
        have hv := pteV_mkPte (pa + (vpn a - vpn va) * PGSIZE) hpre.perm_lt
        rw [h0] at hv
        exact absurd hv (by decide)
      · rw [mkPte, Nat.or_assoc]
        exact (pte2pa_or hpa (perm_lt hpre.perm_lt)).2
  · obtain ⟨s', hrun, ht'⟩ := ht.uvmunmap hne hpre
    refine ⟨s', hrun, fun a ha => ?_⟩
    have hlookup := ht'.lookup_eq (show (t.unmap _ _).root ≠ 0 from hne) ha
    rw [show (t.unmap (vpn va) npages).root = t.root from rfl] at hlookup
    rw [hlookup, ht.lookup_eq hne ha]
    by_cases hv : vpn va ≤ vpn a ∧ vpn a < vpn va + npages
    · simp [Table.unmap, hv]
    · simp [Table.unmap, hv]
  · rw [ht.slot_eq hne ha] at hsome ⊢
    rw [ht.slot_eq hne ha', Table.find, Table.find]
    rw [Table.find] at hsome
    have hn : t.node 0 (vpn a / 512) ≠ 0 := by
      intro h0
      simp [h0] at hsome
    rw [if_neg hn]
    intro heq
    split at heq
    · cases heq
    · obtain ⟨hnode, hidx⟩ := Prod.mk.inj (Option.some.inj heq)
      have hk := (ht.inj hn hnode).2
      exact hvpn (by omega)
  · have h0 := pte2pa_or hpa (show 0 < 1024 by decide)
    rw [Nat.or_zero] at h0
    exact ⟨h0.1, pte2pa_or hpa hf⟩

/-- A machine with four pages of memory. -/
def fourPages : Link := .small 4 (by decide)

/-- Its memory. -/
def fourPagesRam : Ram := ⟨fun _ => Bytes.fill PGSIZE 0, fourPages.pages 4, fun _ => false⟩

/-- The pages `0` and `1` are mapped, and page `1` is unmapped again. -/
theorem reach_refines_fourPages : ∃ s₁ s₂ s₃, Reach fourPages fourPages.kend s₁ ∧
    (mappages fourPages.kend 0 (2 * PGSIZE) KERNBASE PTE_R).run s₁ = .ok (0, s₂) ∧
    (uvmunmap fourPages fourPages.kend PGSIZE 1 false).run s₂ = .ok ((), s₃) ∧
    Refines fourPages fourPages.kend s₃ ∧
    (∃ w, lookup fourPages.kend 0 s₃ = some w ∧ pte2pa w = KERNBASE) ∧
    lookup fourPages.kend PGSIZE s₃ = none := by
  obtain ⟨⟨_, s₁⟩, hcreate, rfl, hnone, hzero⟩ := Post.exists_ok (x := uvmcreate.run fourPagesRam)
    (Q := fun r => r.1 = fourPages.kend ∧
      (∀ v ≤ 1, lookup fourPages.kend (v * PGSIZE) r.2 = none) ∧
      Post (fun _ => False) (·.1 = 0)
        ((mappages fourPages.kend 0 (2 * PGSIZE) KERNBASE PTE_R).run r.2)) (by decide +kernel)
  have h₁ : Reach fourPages fourPages.kend s₁ :=
    .create (by decide) (fun _ => (mem_pages_small _).1) (by decide) hcreate
  have hpre : MapPre s₁ fourPages.kend 0 (2 * PGSIZE) KERNBASE PTE_R :=
    ⟨by decide, by decide, by decide, by decide, by decide, fun v _ hv => hnone v hv⟩
  obtain ⟨r, s₂, hmap, -, hin⟩ := (reach_refines _ _ _ h₁).1.map hpre
  obtain rfl : r = 0 := hzero.of_ok hmap
  have h₂ := h₁.map hpre hmap
  obtain ⟨w₀, hw₀, hpa, -⟩ := hin rfl 0 (by decide) (by decide) (by decide)
  obtain ⟨w, hw, -, hflags⟩ := hin rfl PGSIZE (by decide) (by decide) (by decide)
  have hpre₂ : UnmapPre fourPages s₂ fourPages.kend PGSIZE 1 false := by
    refine ⟨by decide, by decide, fun i hi => ⟨w, ?_, ?_, fun hfree => by cases hfree⟩⟩
    · rwa [show i = 0 by omega, Nat.zero_mul, Nat.add_zero]
    · rw [hflags]
      decide
  obtain ⟨s₃, hunmap, hlookup⟩ := (reach_refines _ _ _ h₂).1.unmap hpre₂
  refine ⟨s₁, s₂, s₃, h₁, hmap, hunmap, (reach_refines _ _ _ (h₂.unmap hpre₂ hunmap)).1,
    ⟨w₀, ?_, ?_⟩, ?_⟩
  · rw [hlookup 0 (by decide), if_neg (by decide), hw₀]
  · rw [hpa]
    rfl
  · rw [hlookup PGSIZE (by decide), if_pos (by decide)]

end Xv6.Vm
