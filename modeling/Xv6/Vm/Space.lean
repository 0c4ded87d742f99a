import Xv6.Vm.Table

/-!
# The functions of `kernel/vm.c`

One specification for each function, in terms of the table it works on. None of them
panics: each `panic` of the source is excluded by the specification's precondition.
-/

namespace Xv6.Vm

open Xv6.Lib
open Xv6.Process (Stop)
open Function (update update_of_ne update_self update_eq_self update_idem update_comm
  update_eq_self_iff)

variable {lk : Link} {D K : Set ℕ} {m c : ℕ → Page} {t t'' : Table} {h : ℕ → ℕ} {s : Ram}
  {α β : Type} {j b v va w pa perm : ℕ} {E : Stop → Prop} {Q : β → Ram → Prop} {f : ℕ → VmM β}
  {P : Ram → Prop}

/-! ## Pages -/

/-- `kalloc` puts a page into an empty hand, or fails. -/
lemma kalloc_spec (j : ℕ) (hj : h j = 0) :
    Triple NoStop (Core D m t h) kalloc fun q s =>
      (q = 0 ∧ Core D m t h s) ∨ (q ≠ 0 ∧ Core D m t (update h j q) s) := by
  refine .get_bind fun s hc => ?_
  split
  case h_1 r rest hfree _ =>
    have hr : r ∈ D := hc.sub r (by simp [hfree])
    have hr0 : r ≠ 0 := hc.owned.ne_zero_of_mem hr
    have htake := (hc.take hfree hj).deny fun n => s.deny (n + 1)
    have hhand : t.cell (update h j r) (.hand j) = r := update_self ..
    refine .bind (Q := fun _ => Core D m t (update h j r)) (.set fun _ _ => htake)
      fun _ => .bind (Q := fun _ => Core D m t (update h j r))
        (.modify fun s hs => hs.touch hhand hr0 (by simp) _) fun _ =>
          .pure fun _ hs => .inr ⟨hr0, hs⟩
  case h_2 =>
    refine .bind (Q := fun _ => Core D m t h) (.set fun _ _ => hc.deny _) fun _ =>
      .pure fun _ hs => .inl ⟨rfl, hs⟩

lemma kalloc_bind (j : ℕ) (hj : h j = 0) (hfail : Triple NoStop (Core D m t h) (f 0) Q)
    (hok : ∀ q, q ≠ 0 → Triple NoStop (Core D m t (update h j q)) (f q) Q) :
    Triple NoStop (Core D m t h) (kalloc >>= f) Q := by
  refine (kalloc_spec j hj).bind fun q => .or_pre (.assume fun hq => ?_) (.assume fun hq => ?_)
  · rw [hq]
    exact hfail
  · exact hok q hq

/-- A hand that was empty is empty again. -/
lemma hand_restore (hj : h j = 0) (q : ℕ) : update (update h j q) j 0 = h := by
  rw [update_idem, update_eq_self_iff]
  exact hj.symm

/-- A page in hand is overwritten. -/
lemma Core.touch_hand (hc : Core D m t h s) (hj : h j ≠ 0) (page : Page) :
    Core D m t h (s.setPage (h j) page) :=
  hc.touch (x := .hand j) rfl hj (by simp) page

/-- A page in hand is zeroed. -/
lemma memset_hand (hj : h j = b) (hb : b ≠ 0) (c : UInt8) :
    Triple NoStop (Core D m t h) (memset b c)
      fun _ s => Core D m t h s ∧ s.mem b = Bytes.fill PGSIZE c := by
  subst hj
  exact .modify fun s hc => ⟨hc.touch_hand hb _, update_self ..⟩

lemma kfree_hand (hD : D ⊆ lk.pool) (hj : h j = b) (hb : b ≠ 0) :
    Triple NoStop (Core D m t h) (kfree lk b) fun _ => Core D m t (update h j 0) := by
  subst hj
  refine .of_pre fun s hc => ?_
  obtain ⟨halign, hge, hlt⟩ := hD (hc.hand_mem hb)
  refine .ite (fun hrange => absurd hrange (by omega)) fun _ => ?_
  refine .bind (memset_hand rfl hb 1) fun _ => .pre (P := Core D m t h) ?_ fun _ hs => hs.1
  refine .bind (Q := fun _ s => Core D m t h s ∧ (s.mem (h j)).ld 8 0 = s.free.headD 0)
    (.modify fun s hc => ⟨hc.touch_hand hb _, ?_⟩) fun _ => .modify fun s hs => hs.1.give hb hs.2
  rw [s.setPage_self, Bytes.ld_st (by decide)]
  exact Nat.mod_eq_of_lt (headD_lt fun b hb => hD (hc.sub b hb))

/-! ## Pages that keep their contents -/

/-- Pages of `K` keep their contents, and none of them is free. -/
structure Kept (K : Set ℕ) (m : ℕ → Page) (s : Ram) : Prop where
  mem : ∀ b ∈ K, s.mem b = m b
  free : ∀ b ∈ s.free, b ∉ K

lemma Kept.setPage (h : Kept K m s) (hb : b ∉ K) (page : Page) : Kept K m (s.setPage b page) := by
  refine ⟨fun c hc => ?_, h.free⟩
  rw [s.setPage_of_ne (ne_of_mem_of_not_mem hc hb)]
  exact h.mem c hc

lemma kalloc_kept : Triple E (Kept K m) kalloc fun q s => (q = 0 ∨ q ∉ K) ∧ Kept K m s := by
  refine .get_bind fun s hs => ?_
  split
  case h_1 r rest hfree _ =>
    have hr : r ∉ K := hs.free r (by simp [hfree])
    refine .bind (Q := fun _ => Kept K m) (.set fun _ _ => ⟨hs.mem, fun b hb => ?_⟩) fun _ =>
      .bind (Q := fun _ => Kept K m) (.modify fun s hs => hs.setPage hr _) fun _ =>
        .pure fun s hs => ⟨.inr hr, hs⟩
    exact hs.free b (by simp [hfree, hb])
  case h_2 =>
    exact .bind (Q := fun _ => Kept K m) (.set fun _ _ => ⟨hs.mem, hs.free⟩) fun _ =>
      .pure fun s hs => ⟨.inl rfl, hs⟩

lemma kfree_kept (hb : b ∉ K) :
    Triple AnyStop (Kept K m) (kfree lk b) fun _ => Kept K m := by
  refine .ite (fun _ => .throw trivial) fun _ => ?_
  refine .bind (Q := fun _ => Kept K m) (.modify fun s hs => hs.setPage hb _) fun _ =>
    .bind (Q := fun _ => Kept K m) (.modify fun s hs => hs.setPage hb _) fun _ =>
      .modify fun s hs => ⟨hs.mem, fun c hc => ?_⟩
  rcases List.mem_cons.1 hc with rfl | hc
  · exact hb
  · exact hs.free c hc

/-- `Core`, and the pages of `K`, of which none is a page-table page, have the contents `c`. -/
structure Guarded (K : Set ℕ) (c : ℕ → Page) (D : Set ℕ) (m : ℕ → Page) (t : Table) (h : ℕ → ℕ)
    (s : Ram) : Prop where
  core : Core D m t h s
  kept : Kept K c s
  node : ∀ l k, t.node l k ∉ K

/-- With no pages to keep, there is nothing to guard. -/
lemma Core.guarded (hc : Core D m t h s) : Guarded ∅ m D m t h s :=
  ⟨hc, ⟨fun _ hb => absurd hb (Set.notMem_empty _), fun _ _ => Set.notMem_empty _⟩,
    fun _ _ => Set.notMem_empty _⟩

/-- A page in hand becomes one of those to keep. -/
lemma Guarded.insert (hg : Guarded K c D m t h s) {q : ℕ} (hj : h j = q) (hq : q ≠ 0) :
    Guarded (insert q K) (update c q (s.mem q)) D m t h s := by
  refine ⟨hg.core, ⟨fun b hb => ?_, fun b hb hmem => ?_⟩, fun l k hmem => ?_⟩
  · by_cases heq : b = q
    · rw [heq, update_self]
    · rw [update_of_ne heq]
      exact hg.kept.mem b (hb.resolve_left heq)
  · obtain rfl | hmem := hmem
    · have hne : h j ≠ 0 := hj.symm ▸ hq
      have hused : h j ∉ s.free := hg.core.owned.used_cell (x := Cell.hand j) hne
      exact hused (hj.symm ▸ hb)
    · exact hg.kept.free b hb hmem
  · obtain heq | hmem := hmem
    · exact hg.core.hand_ne_node (hj ▸ hq) l k (heq.trans hj.symm)
    · exact hg.node l k hmem

/-- `kalloc` takes none of the pages to keep. -/
lemma kalloc_guarded (j : ℕ) (hj : h j = 0) (hfail : Triple NoStop (Guarded K c D m t h) (f 0) Q)
    (hok : ∀ q, q ≠ 0 → q ∉ K → Triple NoStop (Guarded K c D m t (update h j q)) (f q) Q) :
    Triple NoStop (Guarded K c D m t h) (kalloc >>= f) Q := by
  refine .of_pre fun s₀ hg₀ => ?_
  refine .bind (((kalloc_spec j hj).and (kalloc_kept (E := NoStop))).pre fun s hg =>
    ⟨hg.core, hg.kept⟩) fun q => ?_
  refine .of_pre fun s hs => ?_
  obtain ⟨⟨rfl, -⟩ | ⟨hq, hc⟩, hK, -⟩ := hs
  · refine hfail.pre fun s hs => ?_
    obtain ⟨⟨-, hc⟩ | ⟨hq, -⟩, -, hkept⟩ := hs
    · exact ⟨hc, hkept, hg₀.node⟩
    · exact absurd rfl hq
  · refine (hok q hq (hK.resolve_left hq)).pre fun s hs => ?_
    obtain ⟨⟨hq0, -⟩ | ⟨-, hc⟩, -, hkept⟩ := hs
    · exact absurd hq0 hq
    · exact ⟨hc, hkept, hg₀.node⟩

/-- A page in hand that is not to be kept is overwritten. -/
lemma Guarded.touch (hg : Guarded K c D m t h s) (hj : h j ≠ 0) (hK : h j ∉ K) (page : Page) :
    Guarded K c D m t h (s.setPage (h j) page) :=
  ⟨hg.core.touch_hand hj page, hg.kept.setPage hK page, hg.node⟩

lemma memset_guarded (hj : h j = b) (hb : b ≠ 0) (hK : b ∉ K) (v : UInt8) :
    Triple NoStop (Guarded K c D m t h) (memset b v)
      fun _ s => Guarded K c D m t h s ∧ s.mem b = Bytes.fill PGSIZE v := by
  subst hj
  exact .modify fun s hg => ⟨hg.touch hb hK _, update_self ..⟩

lemma kfree_guarded (hD : D ⊆ lk.pool) (hj : h j = b) (hb : b ≠ 0) (hK : b ∉ K) :
    Triple NoStop (Guarded K c D m t h) (kfree lk b)
      fun _ => Guarded K c D m t (update h j 0) :=
  .of_pre fun _ hg₀ => ((kfree_hand hD hj hb).and (kfree_kept hK)).conseq
    (fun _ hg => ⟨hg.core, hg.kept⟩) fun _ _ hs => ⟨hs.1, hs.2, hg₀.node⟩

/-! ## Walking a table -/

/-- The virtual page of an address. -/
def vpn (va : ℕ) : ℕ := va / PGSIZE

lemma vpn_mul (n : ℕ) : vpn (n * PGSIZE) = n := Nat.mul_div_cancel n (by decide)

lemma px_eq (level va : ℕ) : px level va = vpn va / 512 ^ level % 512 := by
  unfold px vpn PGSIZE
  rw [pow_add, pow_mul, Nat.div_div_eq_div_mul]
  norm_num

/-- The path to a virtual page goes through the entry `px` of each level. -/
lemma px_path (level va : ℕ) :
    512 * (vpn va / 512 ^ (level + 1)) + px level va = vpn va / 512 ^ level := by
  rw [px_eq, pow_succ, ← Nat.div_div_eq_div_mul]
  exact Nat.div_add_mod _ _

lemma px_lt (level va : ℕ) : px level va < 512 := Nat.mod_lt _ (by decide)

/-- Reading an entry whose value is known. -/
lemma load_bind {pt i : ℕ} (hw : ∀ s, P s → word s.mem pt i = w) (hf : Triple NoStop P (f w) Q) :
    Triple NoStop P (load pt i >>= f) Q := by
  refine .of_run fun s hs => ?_
  show Post NoStop _ ((f (word s.mem pt i)).run s)
  rw [hw s hs]
  exact hf.run hs

/-- Where `walk` finds the entry of virtual page `v`. -/
def Table.find (t : Table) (v : ℕ) : Option (ℕ × ℕ) :=
  if t.node 0 (v / 512) = 0 then none else some (t.node 0 (v / 512), v % 512)

lemma Rep.up_iter {mem : ℕ → Page} (hr : Rep mem t) {k : ℕ} (hk : t.node 0 k ≠ 0) :
    ∀ l ≤ 2, t.node l (k / 512 ^ l) ≠ 0 := by
  intro l
  induction l with
  | zero =>
    intro _
    simpa using hk
  | succ l ih =>
    intro hl
    have := hr.up (by omega) (ih (by omega))
    rwa [Nat.div_div_eq_div_mul, ← pow_succ] at this

/-- `walk` without allocation only reads. -/
lemma walkLoop_find (va : ℕ) (hrep : ∀ s, P s → Rep s.mem t)
    (halign : ∀ l k, t.node l k % PGSIZE = 0) (level : ℕ) (hlevel : level ≤ 2)
    (hpt : t.node level (vpn va / 512 ^ (level + 1)) ≠ 0) :
    Triple NoStop P (walkLoop va false level (t.node level (vpn va / 512 ^ (level + 1))))
      fun r s => r = t.find (vpn va) ∧ P s := by
  induction level with
  | zero =>
    refine .pure fun s hs => ⟨?_, hs⟩
    rw [zero_add, pow_one] at hpt
    rw [Table.find, if_neg hpt, px_eq, zero_add, pow_one, pow_zero, Nat.div_one]
  | succ level ih =>
    refine load_bind (w := dirPte (t.node level (vpn va / 512 ^ (level + 1)))) ?_ ?_
    · intro s hs
      have hword := (hrep s hs).dir hpt (px_lt (level + 1) va)
      rwa [px_path (level + 1) va] at hword
    · rw [pteV_dirPte, pte2pa_dirPte (halign _ _)]
      refine .ite (fun hnext => ih (by omega) (by simpa using hnext)) fun hnext => ?_
      refine .pure fun s hs => ⟨?_, hs⟩
      rw [Table.find, if_pos]
      by_contra hne
      have hup := (hrep s hs).up_iter hne level (by omega)
      rw [Nat.div_div_eq_div_mul, ← pow_succ'] at hup
      exact hnext (by simpa using hup)

lemma vpn_div_root (hva : va < MAXVA) : vpn va / 512 ^ 3 = 0 := by
  unfold MAXVA at hva
  unfold vpn PGSIZE
  rw [Nat.div_eq_zero_iff]
  right
  omega

lemma walk_find (hrep : ∀ s, P s → Rep s.mem t) (halign : ∀ l k, t.node l k % PGSIZE = 0)
    (hva : va < MAXVA) (hroot : t.root ≠ 0) :
    Triple NoStop P (walk t.root va false) fun r s => r = t.find (vpn va) ∧ P s := by
  unfold walk
  rw [if_neg (by omega)]
  have h := walkLoop_find va hrep halign 2 le_rfl
  rw [vpn_div_root hva] at h
  exact h hroot

/-- Page-table pages were added, nothing else changed. -/
structure Grown (t t' : Table) : Prop where
  leaf : t'.leaf = t.leaf
  root : t'.root = t.root
  node : ∀ l k, t.node l k ≠ 0 → t'.node l k = t.node l k

lemma Grown.refl (t : Table) : Grown t t := ⟨rfl, rfl, fun _ _ _ => rfl⟩

/-- Page-table pages stay where they are, over two changes of a table. -/
lemma node_trans {t' : Table} (h : ∀ l k, t.node l k ≠ 0 → t'.node l k = t.node l k)
    (h' : ∀ l k, t'.node l k ≠ 0 → t''.node l k = t'.node l k) (l k : ℕ) (hne : t.node l k ≠ 0) :
    t''.node l k = t.node l k := by
  have hfirst := h l k hne
  rw [h' l k (by rwa [hfirst]), hfirst]

lemma Grown.trans {t' : Table} (h : Grown t t') (h' : Grown t' t'') : Grown t t'' :=
  ⟨h'.leaf.trans h.leaf, h'.root.trans h.root, node_trans h.node h'.node⟩

lemma Core.aligned (hc : Core D m t h s) (hD : D ⊆ lk.pool) (l k : ℕ) :
    t.node l k % PGSIZE = 0 := by
  by_cases hn : t.node l k = 0
  · rw [hn]
    rfl
  · exact (hD (hc.node_mem hn)).1

/-- An invariant of a table and the memory that hanging a new page into the table keeps. -/
structure Grows (P : Table → Ram → Prop) : Prop where
  rep : ∀ {t s}, P t s → Rep s.mem t
  aligned : ∀ {t s}, P t s → ∀ l k, t.node l k % PGSIZE = 0
  hang : ∀ {t l k i} {f : ℕ → VmM (Option (ℕ × ℕ))} {Q}, t.node (l + 1) k ≠ 0 → i < 512 →
    t.node l (512 * k + i) = 0 → Triple NoStop (P t) (pure none) Q →
    (∀ q, q ≠ 0 → Triple NoStop (P (t.setNode l (512 * k + i) q)) (f q) Q) →
    Triple NoStop (P t) (do
      let child ← kalloc
      if child = 0 then return none
      else
        memset child 0
        store (t.node (l + 1) k) i (pa2pte child ||| PTE_V)
        f child) Q

/-- `walk` with allocation adds page-table pages as needed. -/
lemma Grows.walkLoop {P : Table → Ram → Prop} (hP : Grows P) (va level : ℕ) (hlevel : level ≤ 2) :
    ∀ t, t.node level (vpn va / 512 ^ (level + 1)) ≠ 0 →
      Triple NoStop (P t) (walkLoop va true level (t.node level (vpn va / 512 ^ (level + 1))))
        fun r s => ∃ t', Grown t t' ∧ P t' s ∧
          (r = none ∨ t'.node 0 (vpn va / 512) ≠ 0 ∧ r = t'.find (vpn va)) := by
  induction level with
  | zero =>
    intro t hpt
    rw [zero_add, pow_one] at hpt ⊢
    refine .pure fun s hc => ⟨t, .refl t, hc, .inr ⟨hpt, ?_⟩⟩
    rw [Table.find, if_neg hpt, px_eq, pow_zero, Nat.div_one]
  | succ level ih =>
    intro t hpt
    refine .of_pre fun s₀ hc₀ => ?_
    refine load_bind (w := dirPte (t.node level (vpn va / 512 ^ (level + 1)))) ?_ ?_
    · intro s hc
      have hword := (hP.rep hc).dir hpt (px_lt (level + 1) va)
      rwa [px_path (level + 1) va] at hword
    rw [pteV_dirPte, pte2pa_dirPte (hP.aligned hc₀ _ _)]
    refine .ite (fun hnext => ih (by omega) t (by simpa using hnext)) fun hnext => ?_
    have hnone : t.node level (vpn va / 512 ^ (level + 1)) = 0 := by simpa using hnext
    refine .ite (fun _ => ?_) fun hfalse => absurd rfl hfalse
    refine hP.hang hpt (px_lt (level + 1) va) (by rwa [px_path (level + 1) va])
      (.pure fun s hc => ⟨t, .refl t, hc, .inl rfl⟩) fun q hq => ?_
    rw [px_path (level + 1) va]
    -- the page is in the tree
    let t' := t.setNode level (vpn va / 512 ^ (level + 1)) q
    have hnode : t'.node level (vpn va / 512 ^ (level + 1)) = q := by
      simp [t', Table.setNode_node]
    have hgrown : Grown t t' := by
      refine ⟨rfl, ?_, fun l k hne => ?_⟩
      · rw [Table.root, Table.setNode_node, if_neg (by omega)]
        rfl
      · rw [Table.setNode_node, if_neg]
        rintro ⟨rfl, rfl⟩
        exact hne hnone
    have hrec := ih (by omega) t' (by rwa [hnode])
    rw [hnode] at hrec
    refine hrec.post fun r s hr => ?_
    obtain ⟨t'', hg, hc, hr⟩ := hr
    exact ⟨t'', hgrown.trans hg, hc, hr⟩

lemma Grows.walk {P : Table → Ram → Prop} (hP : Grows P) (hva : va < MAXVA) (hroot : t.root ≠ 0) :
    Triple NoStop (P t) (walk t.root va true) fun r s => ∃ t', Grown t t' ∧ P t' s ∧
      (r = none ∨ t'.node 0 (vpn va / 512) ≠ 0 ∧ r = t'.find (vpn va)) := by
  unfold Vm.walk
  rw [if_neg (by omega)]
  have h := hP.walkLoop va 2 le_rfl t
  rw [vpn_div_root hva] at h
  exact h hroot

/-- The new page goes through a free hand. -/
lemma Guarded.grows (hD : D ⊆ lk.pool) (hhand : h 1 = 0) : Grows fun t => Guarded K c D m t h where
  rep hg := hg.core.rep
  aligned hg := hg.core.aligned hD
  hang {t l k i f Q} hn hi hnone hfail hok := by
    refine kalloc_guarded 1 hhand hfail fun q hq hqK => ?_
    rw [if_neg hq]
    refine .bind (memset_guarded (update_self ..) hq hqK 0) fun _ => ?_
    refine .bind (Q := fun _ => Guarded K c D m (t.setNode l (512 * k + i) q) h) ?_
      fun _ => hok q hq
    refine .modify fun s hs => ?_
    have hhang := hs.1.core.hang (fun b hb => (hD hb).2.2) hn hi hnone (update_self ..) hq hs.2
    rw [hand_restore hhand] at hhang
    refine ⟨hhang, hs.1.kept.setPage (hs.1.node _ _) _, fun l k => ?_⟩
    rw [Table.setNode_node]
    split
    · exact hqK
    · exact hs.1.node l k

/-! ## Mapping -/

lemma pgrounddown_aligned (h : va % PGSIZE = 0) : pgrounddown va = va :=
  Nat.div_mul_cancel (Nat.dvd_of_mod_eq_zero h)

/-- The word that `walk` points to. -/
lemma Rep.word_leaf {mem : ℕ → Page} (hr : Rep mem t) (hn : t.node 0 (v / 512) ≠ 0) :
    word mem (t.node 0 (v / 512)) (v % 512) = t.leaf v := by
  rw [hr.low hn (Nat.mod_lt _ (by decide)), Nat.div_add_mod]

/-- What `mappages` does at one page: `walk` fails, or it finds an entry that is not in use. -/
lemma Grows.map_entry {P : Table → Ram → Prop} (hP : Grows P) (hva : va < MAXVA)
    (hroot : t.root ≠ 0) (hnone : t.leaf (vpn va) = 0) {f : VmM ℤ} {Q : ℤ → Ram → Prop}
    (hfail : ∀ t' s, Grown t t' → P t' s → Q (-1) s)
    (hok : ∀ t', Grown t t' → t'.node 0 (vpn va / 512) ≠ 0 → Triple NoStop (P t') (do
      store (t'.node 0 (vpn va / 512)) (vpn va % 512) w
      f) Q) :
    Triple NoStop (P t) (do
      match ← Vm.walk t.root va true with
      | none => return -1
      | some (pt, i) =>
        let pte ← load pt i
        if pteV pte then throw (.panic "mappages: remap")
        else
          store pt i w
          f) Q := by
  refine (hP.walk hva hroot).bind fun r => .exists_pre fun t' => ?_
  refine .assume fun hg => ?_
  refine .of_pre fun s₀ hs₀ => ?_
  obtain rfl | ⟨hn, rfl⟩ := hs₀.2
  · exact .pure fun s hs => hfail t' s hg hs.1
  rw [Table.find, if_neg hn]
  refine .pre (P := P t') ?_ fun s hs => hs.1
  refine load_bind (w := 0) (fun s hc => ?_) ?_
  · rw [(hP.rep hc).word_leaf hn, hg.leaf, hnone]
  · exact .ite (fun hv => absurd hv (by decide)) fun _ => hok t' hg hn

/-- `mappages` of one page. Afterwards the pages are owned as `h'` says. -/
lemma mappages_page (h' : ℕ → ℕ) (hD : D ⊆ lk.pool) (hhand : h 1 = 0) (hva : va < MAXVA)
    (haligned : va % PGSIZE = 0) (hroot : t.root ≠ 0) (hnone : t.leaf (vpn va) = 0)
    (hleaf : IsLeaf (mkPte pa perm)) (howned : ∀ t' s, Grown t t' → Core D m t' h s →
      Owned D (· ∉ s.free) ((t'.setLeaf (vpn va) (mkPte pa perm)).cell h')) :
    Triple NoStop (Guarded K c D m t h) (mappages t.root va PGSIZE pa perm) fun r s =>
      ∃ t', Grown t t' ∧ ((r = -1 ∧ Guarded K c D m t' h s) ∨
        (r = 0 ∧ Guarded K c D m (t'.setLeaf (vpn va) (mkPte pa perm)) h' s)) := by
  have hlast : (pgrounddown (va + PGSIZE - 1) - pgrounddown va) / PGSIZE = 0 := by
    unfold pgrounddown
    unfold PGSIZE at haligned ⊢
    omega
  unfold mappages
  rw [if_neg (by decide)]
  dsimp only
  rw [hlast, pgrounddown_aligned haligned]
  unfold mapLoop
  refine (Guarded.grows hD hhand).map_entry hva hroot hnone
    (fun t' s hg hs => ⟨t', hg, .inl ⟨rfl, hs⟩⟩) fun t' hg hn => ?_
  refine .bind (Q := fun _ => Guarded K c D m (t'.setLeaf (vpn va) (mkPte pa perm)) h') ?_
    fun _ => .pure fun s hs => ⟨t', hg, .inr ⟨rfl, hs⟩⟩
  refine .modify fun s hc => ?_
  have hwrite := hc.core.write h' (i := vpn va % 512) (w := mkPte pa perm) hn
    (Nat.mod_lt _ (by decide)) (fun _ => hleaf)
  rw [Nat.div_add_mod] at hwrite
  exact ⟨hwrite (howned t' s hg hc.core), hc.kept.setPage (hc.node _ _) _, hc.node⟩

/-- `mappages` of a page in hand below the trapframe. -/
lemma mappages_user (va : ℕ) (hD : D ⊆ lk.pool) (hhand : h 1 = 0) (hva : va < MAXVA)
    (haligned : va % PGSIZE = 0) (hv : vpn va < UPAGES) (hroot : t.root ≠ 0)
    (hnone : t.leaf (vpn va) = 0) (hpa : h 0 = pa) (hpa0 : pa ≠ 0) (hleaf : IsLeaf (mkPte pa perm))
    (hdecode : pte2pa (mkPte pa perm) = pa) :
    Triple NoStop (Guarded K c D m t h) (mappages t.root va PGSIZE pa perm) fun r s =>
      ∃ t', Grown t t' ∧ ((r = -1 ∧ Guarded K c D m t' h s) ∨
        (r = 0 ∧ Guarded K c D m (t'.setLeaf (vpn va) (mkPte pa perm))
        (update h 0 0) s)) := by
  refine mappages_page _ hD hhand hva haligned hroot hnone hleaf fun t' s hg hc => ?_
  rw [Table.cell_setLeaf, Table.cell_hand, if_pos hv, hdecode, ← hpa]
  refine hc.owned.move (x := Cell.hand 0) (y := Cell.leaf (vpn va)) (by simp) ?_ ?_
  · rwa [Table.cell, hpa]
  · rw [Core.leaf_cell hv, hg.leaf, hnone]
    rfl

/-- `mappages` of the trapframe or the trampoline. -/
lemma mappages_kernel (va : ℕ) (hD : D ⊆ lk.pool) (hhand : h 1 = 0) (hva : va < MAXVA)
    (haligned : va % PGSIZE = 0) (hv : UPAGES ≤ vpn va) (hroot : t.root ≠ 0)
    (hnone : t.leaf (vpn va) = 0) (hleaf : IsLeaf (mkPte pa perm)) :
    Triple NoStop (Core D m t h) (mappages t.root va PGSIZE pa perm) fun r s =>
      ∃ t', Grown t t' ∧ ((r = -1 ∧ Core D m t' h s) ∨
        (r = 0 ∧ Core D m (t'.setLeaf (vpn va) (mkPte pa perm)) h s)) := by
  refine (mappages_page (K := ∅) (c := m) h hD hhand hva haligned hroot hnone hleaf
    fun t' s hg hc => ?_).conseq (fun s hc => hc.guarded) fun r s hr => ?_
  case refine_2 =>
    obtain ⟨t', hg, hr⟩ := hr
    exact ⟨t', hg, hr.imp (And.imp_right Guarded.core) (And.imp_right Guarded.core)⟩
  have hzero : t'.cell h (.leaf (vpn va)) = 0 := by rw [Table.cell, if_neg (by omega)]
  rw [Table.cell_setLeaf, if_neg (by omega), ← hzero, update_eq_self]
  exact hc.owned

/-! ## Unmapping -/

/-- The table without the entries of `n` pages from `a` on. -/
def Table.unmap (t : Table) (a n : ℕ) : Table :=
  { t with leaf := fun v => if a ≤ v ∧ v < a + n then 0 else t.leaf v }

lemma Table.unmap_zero (t : Table) (a : ℕ) : t.unmap a 0 = t := by
  unfold Table.unmap
  congr 1
  funext v
  rw [if_neg (by omega)]

lemma Table.unmap_succ (t : Table) (a n : ℕ) :
    (t.setLeaf a 0).unmap (a + 1) n = t.unmap a (n + 1) := by
  unfold Table.unmap
  congr 1
  funext v
  rw [Table.setLeaf_leaf]
  by_cases hva : v = a
  · rw [if_neg (by omega), if_pos hva, if_pos (by omega)]
  · by_cases hv : a + 1 ≤ v ∧ v < a + 1 + n
    · rw [if_pos hv, if_pos (by omega)]
    · rw [if_neg hv, if_neg hva, if_neg (by omega)]

lemma IsLeaf.flags_ne (hw : IsLeaf w) : pteFlags w ≠ PTE_V := by
  intro hflags
  have hbit : (pteFlags w).testBit 1 = true := by
    rw [pteFlags, show 1024 = 2 ^ 10 from rfl, Nat.testBit_mod_two_pow]
    simpa [pteR] using hw.readable
  rw [hflags] at hbit
  exact absurd hbit (by decide)

lemma IsLeaf.ne_zero (hw : IsLeaf w) : w ≠ 0 := by
  rintro rfl
  exact absurd hw.valid (by decide)

/-- Freeing a page and clearing the entry that mapped it can be done in either order. -/
lemma kfree_store_comm (lk : Link) {pt i : ℕ} (hb : b ≠ pt) (f : VmM β) :
    (do kfree lk b; store pt i 0; f) = (do store pt i 0; kfree lk b; f) := by
  funext s
  unfold kfree
  by_cases hrange : b % PGSIZE ≠ 0 ∨ b < lk.kend ∨ PHYSTOP ≤ b
  · rw [if_pos hrange]
    rfl
  · rw [if_neg hrange]
    show f.run _ = f.run _
    congr 1
    simp only [Ram.setPage, update_self, update_idem,
      update_of_ne hb.symm, Ram.mk.injEq, and_true]
    exact update_comm hb _ _ _

/-- What `uvmunmap` does at one page: the entry exists, and what follows finds it. -/
lemma unmap_entry {f : ℕ → ℕ → ℕ → VmM β} (hrep : ∀ s, P s → Rep s.mem t)
    (halign : ∀ s, P s → ∀ l k, t.node l k % PGSIZE = 0) (hva : va < MAXVA) (hroot : t.root ≠ 0)
    (hvalid : pteV (t.leaf (vpn va)) = true) (hflags : pteFlags (t.leaf (vpn va)) ≠ PTE_V)
    (hf : Triple NoStop P (f (t.node 0 (vpn va / 512)) (vpn va % 512) (t.leaf (vpn va))) Q) :
    Triple NoStop P (do
      match ← walk t.root va false with
      | none => throw (.panic "uvmunmap: walk")
      | some (pt, i) =>
        let pte ← load pt i
        if !pteV pte then throw (.panic "uvmunmap: not mapped")
        else if pteFlags pte = PTE_V then throw (.panic "uvmunmap: not a leaf")
        else f pt i pte) Q := by
  refine .of_pre fun s₀ hp₀ => ?_
  have hl : t.leaf (vpn va) ≠ 0 := by
    intro h0
    rw [h0] at hvalid
    exact absurd hvalid (by decide)
  have hn : t.node 0 (vpn va / 512) ≠ 0 := (hrep s₀ hp₀).up_leaf hl
  refine .bind (walk_find hrep (halign s₀ hp₀) hva hroot) fun r => .assume fun hr => ?_
  subst hr
  rw [Table.find, if_neg hn]
  refine load_bind (fun s hs => (hrep s hs).word_leaf hn) ?_
  refine .ite (fun hv => absurd hv (by simp [hvalid])) fun _ => ?_
  exact .ite (fun h => absurd h hflags) fun _ => hf

lemma vpn_add_page (va : ℕ) : vpn (va + PGSIZE) = vpn va + 1 :=
  Nat.add_div_right _ (by decide)

/-- `uvmunmap` of pages below the trapframe. It needs a free hand. -/
lemma unmapLoop_user (hD : D ⊆ lk.pool) (hhand : h 0 = 0) (n : ℕ) :
    ∀ t va, t.root ≠ 0 → (∀ v, vpn va ≤ v → v < vpn va + n → t.leaf v ≠ 0) →
      vpn va + n ≤ UPAGES → (∀ v, vpn va ≤ v → v < vpn va + n → pte2pa (t.leaf v) ∉ K) →
      Triple NoStop (Guarded K c D m t h) (unmapLoop lk t.root true n va)
        fun _ => Guarded K c D m (t.unmap (vpn va) n) h := by
  induction n with
  | zero =>
    intro t va _ _ _ _
    rw [Table.unmap_zero]
    exact .skip
  | succ n ih =>
    intro t va hroot hmapped hlt hK
    have hl : t.leaf (vpn va) ≠ 0 := hmapped _ le_rfl (by omega)
    have hv : vpn va < UPAGES := by omega
    have hva : va < MAXVA := by
      unfold UPAGES TRAPFRAME TRAMPOLINE at hv
      unfold vpn PGSIZE MAXVA at *
      omega
    refine .of_pre fun s₀ hc₀ => ?_
    have hleaf := hc₀.core.leaves _ hl
    have hn : t.node 0 (vpn va / 512) ≠ 0 := hc₀.core.rep.up_leaf hl
    refine unmap_entry (fun s hg => hg.core.rep) (fun s hg => hg.core.aligned hD) hva hroot
      hleaf.valid hleaf.flags_ne (f := fun pt i pte => do
        kfree lk (pte2pa pte)
        store pt i 0
        unmapLoop lk t.root true n (va + PGSIZE)) ?_
    have hpage := hleaf.page
    rw [kfree_store_comm lk (hc₀.core.leaf_ne_node hv hl _ _).symm]
    -- the page goes from the table into the hand, and from there to the free list
    have hstore : Triple NoStop (Guarded K c D m t h)
        (store (t.node 0 (vpn va / 512)) (vpn va % 512) 0)
        fun _ => Guarded K c D m (t.setLeaf (vpn va) 0)
          (update h 0 (pte2pa (t.leaf (vpn va)))) := by
      refine .modify fun s hc => ?_
      have hwrite := hc.core.write (update h 0 (pte2pa (t.leaf (vpn va))))
        (i := vpn va % 512) (w := 0) hn (Nat.mod_lt _ (by decide)) (fun h0 => absurd rfl h0)
      rw [Nat.div_add_mod] at hwrite
      refine ⟨hwrite ?_, hc.kept.setPage (hc.node _ _) _, hc.node⟩
      have hmove := hc.core.owned.move (x := Cell.leaf (vpn va)) (y := Cell.hand 0) (by simp)
        (hc.core.leaf_cell_ne hv hl) hhand
      rw [Table.cell_hand, Table.cell_setLeaf, if_pos hv]
      rw [Core.leaf_cell hv] at hmove
      exact hmove
    refine hstore.bind fun _ => .bind (kfree_guarded hD (update_self ..) hpage
      (hK _ le_rfl (by omega))) fun _ => ?_
    rw [hand_restore hhand, ← Table.unmap_succ, ← vpn_add_page]
    refine ih (t.setLeaf (vpn va) 0) (va + PGSIZE) hroot ?_ (by rw [vpn_add_page]; omega) ?_
    · rw [vpn_add_page]
      intro v hge hlt
      rw [Table.setLeaf_leaf, if_neg (by omega)]
      exact hmapped v (by omega) (by omega)
    · rw [vpn_add_page]
      intro v hge hlt
      rw [Table.setLeaf_leaf, if_neg (by omega)]
      exact hK v (by omega) (by omega)

/-- `uvmunmap` of the trapframe or the trampoline. -/
lemma uvmunmap_kernel (va : ℕ) (hD : D ⊆ lk.pool) (hva : va < MAXVA) (haligned : va % PGSIZE = 0)
    (hv : UPAGES ≤ vpn va) (hroot : t.root ≠ 0) (hl : t.leaf (vpn va) ≠ 0) :
    Triple NoStop (Core D m t h) (uvmunmap lk t.root va 1 false)
      fun _ => Core D m (t.setLeaf (vpn va) 0) h := by
  refine .ite (fun hne => absurd haligned hne) fun _ => ?_
  refine .of_pre fun s₀ hc₀ => ?_
  have hleaf := hc₀.leaves _ hl
  refine unmap_entry (fun s hc => hc.rep) (fun s hc => hc.aligned hD) hva hroot
    hleaf.valid hleaf.flags_ne (f := fun pt i pte => do
      pure ()
      store pt i 0
      unmapLoop lk t.root false 0 (va + PGSIZE)) ?_
  have hn : t.node 0 (vpn va / 512) ≠ 0 := hc₀.rep.up_leaf hl
  have hstore : Triple NoStop (Core D m t h) (store (t.node 0 (vpn va / 512)) (vpn va % 512) 0)
      fun _ => Core D m (t.setLeaf (vpn va) 0) h := by
    refine .modify fun s hc => ?_
    have hwrite := hc.write h (i := vpn va % 512) (w := 0) hn (Nat.mod_lt _ (by decide))
      (fun h0 => absurd rfl h0)
    rw [Nat.div_add_mod] at hwrite
    refine hwrite ?_
    have hzero : t.cell h (.leaf (vpn va)) = 0 := by rw [Table.cell, if_neg (by omega)]
    rw [Table.cell_setLeaf, if_neg (by omega), ← hzero, update_eq_self]
    exact hc.owned
  exact hstore.bind fun _ => .skip

/-! ## Freeing the page-table pages -/

/-- The loop of `freewalk`, over some of the entries. -/
def freeEntries (lk : Link) (depth pagetable : ℕ) (entries : List ℕ) : VmM Unit :=
  entries.forM fun i => do
    let pte ← load pagetable i
    if pteV pte then
      if pteR pte || pteW pte || pteX pte then throw (.panic "freewalk: leaf")
      else
        freewalk lk depth (pte2pa pte)
        store pagetable i 0
    else return

lemma freewalk_succ (lk : Link) (depth pagetable : ℕ) :
    freewalk lk (depth + 1) pagetable =
      freeEntries lk depth pagetable (List.range 512) >>= fun _ => kfree lk pagetable := rfl

/-- A page-table page without entries comes into an empty hand. -/
lemma Core.unhang (hc : Core D m t h s) {l k i : ℕ} (hn : t.node (l + 1) k ≠ 0) (hi : i < 512)
    (hq : t.node l (512 * k + i) ≠ 0) (hj : h j = 0)
    (hbelow : ∀ l' j, l' + 1 = l → j < 512 → t.node l' (512 * (512 * k + i) + j) = 0)
    (hleaf : ∀ v, t.leaf v = 0) :
    Core D m (t.setNode l (512 * k + i) 0) (update h j (t.node l (512 * k + i)))
      (s.setPage (t.node (l + 1) k) ((s.mem (t.node (l + 1) k)).st 8 (8 * i) 0)) := by
  refine ⟨hc.nodup, hc.sub, ?_, ?_, hc.leaves, ?_, hc.linked.setPage (hc.node_notMem_free hn) _⟩
  · rw [Table.cell_hand, Table.cell_setNode]
    exact hc.owned.move (x := Cell.node l (512 * k + i)) (y := Cell.hand j) (by simp) hq hj
  · have hrep := hc.rep.replaceNode (q := 0) hc.inj hn hi (by decide) hbelow
      (fun _ j _ => hleaf _) fun h0 => absurd rfl h0
    rwa [dirPte, if_pos rfl] at hrep
  · intro c hcD
    have hcn : c ≠ t.node (l + 1) k := by
      rintro rfl
      exact hcD (hc.node_mem hn)
    exact (update_of_ne hcn ..).trans (hc.frame c hcD)

/-- A table without entries of which only the levels below `l` differ from `t`. -/
structure Pruned (t : Table) (l : ℕ) (t' : Table) : Prop where
  leaf : ∀ v, t'.leaf v = 0
  node : ∀ l', l ≤ l' → t'.node l' = t.node l'

/-- `freewalk` on a subtree, but for the last `kfree`: afterwards nothing hangs from its root. -/
lemma freeEntries_spec (hD : D ⊆ lk.pool) (hhand : h 0 = 0) (l : ℕ) :
    ∀ t k entries, (∀ v, t.leaf v = 0) → t.node l k ≠ 0 → (∀ i ∈ entries, i < 512) →
      Triple NoStop (Core D m t h) (freeEntries lk l (t.node l k) entries) fun _ s =>
        ∃ t', Pruned t l t' ∧ (∀ l' i, l' + 1 = l → i ∈ entries → t'.node l' (512 * k + i) = 0) ∧
          Core D m t' h s := by
  induction l with
  | zero =>
    intro t k entries hleaf hn hlt
    unfold freeEntries
    refine .post (Q := fun _ => Core D m t h) ?_ fun _ s hc =>
      ⟨t, ⟨hleaf, fun _ _ => rfl⟩, fun l' _ hl' => absurd hl' (by omega), hc⟩
    refine .forM (I := fun _ => Core D m t h) fun done i rest hl => ?_
    have hi : i < 512 := hlt i (by simp [hl])
    refine load_bind (w := 0) (fun s hc => ?_) ?_
    · rw [hc.rep.low hn hi, hleaf]
    · exact .ite (fun hv => absurd hv (by decide)) fun _ => .skip
  | succ l ih =>
    intro t k entries hleaf hn hlt
    let I : List ℕ → Ram → Prop := fun done s => ∃ t', Pruned t (l + 1) t' ∧
      (∀ i ∈ done, t'.node l (512 * k + i) = 0) ∧ Core D m t' h s
    unfold freeEntries
    refine .conseq (P := I []) (Q := fun _ => I entries) (.forM fun done i rest hl => ?_)
      (fun s hc => ⟨t, ⟨hleaf, fun _ _ => rfl⟩, by simp, hc⟩) ?_
    · refine .exists_pre fun t' => .assume fun hp => .assume fun hdone => ?_
      have hi : i < 512 := hlt i (by simp [hl])
      have hnode : t'.node (l + 1) k = t.node (l + 1) k := by rw [hp.node _ le_rfl]
      rw [← hnode] at hn ⊢
      refine .of_pre fun s₀ hc₀ => ?_
      refine load_bind (fun s hc => hc.rep.dir hn hi) ?_
      rw [pteV_dirPte, pte2pa_dirPte (hc₀.aligned hD _ _)]
      refine .ite (fun hv => ?_) fun hv => ?_
      · have hq : t'.node l (512 * k + i) ≠ 0 := by simpa using hv
        obtain ⟨hR, hW, hX⟩ := dirPte_not_leaf (t'.node l (512 * k + i))
        rw [hR, hW, hX]
        refine .ite (fun hfalse => absurd hfalse (by decide)) fun _ => ?_
        rw [freewalk_succ, bind_assoc]
        have hrange : ∀ i ∈ List.range 512, i < 512 := fun i => List.mem_range.1
        refine .bind (ih t' (512 * k + i) _ hp.leaf hq hrange) fun _ => ?_
        refine .exists_pre fun t'' => .assume fun hp' => .assume fun hbelow => ?_
        have hbelow : ∀ l' j, l' + 1 = l → j < 512 →
            t''.node l' (512 * (512 * k + i) + j) = 0 :=
          fun l' j hl' hj => hbelow l' j hl' (List.mem_range.2 hj)
        have hroot : t''.node (l + 1) k = t'.node (l + 1) k := by rw [hp'.node _ (by omega)]
        have hchild : t''.node l (512 * k + i) = t'.node l (512 * k + i) := by
          rw [hp'.node _ le_rfl]
        rw [← hroot] at hn
        rw [← hchild] at hq
        rw [← hroot, ← hchild]
        refine .of_pre fun s₁ hc₁ => ?_
        have hne : t''.node l (512 * k + i) ≠ t''.node (l + 1) k := by
          intro heq
          have := hc₁.inj hq heq
          omega
        -- the source frees the page first; the entry may as well be cleared first
        have hcomm := kfree_store_comm lk (i := i) hne (pure ())
        simp only [bind_pure_unit] at hcomm
        rw [hcomm]
        have hstore : Triple NoStop (Core D m t'' h) (store (t''.node (l + 1) k) i 0)
            fun _ => Core D m (t''.setNode l (512 * k + i) 0)
              (update h 0 (t''.node l (512 * k + i))) :=
          .modify fun s hc => hc.unhang hn hi hq hhand hbelow hp'.leaf
        refine hstore.bind fun _ => ?_
        refine (kfree_hand hD (update_self ..) hq).post fun _ s hc => ?_
        rw [hand_restore hhand] at hc
        refine ⟨t''.setNode l (512 * k + i) 0, ⟨hp'.leaf, fun l' hl' => ?_⟩, ?_, hc⟩
        · funext k'
          rw [Table.setNode_node, if_neg (by omega), hp'.node l' (by omega), hp.node l' hl']
        · intro i' hi'
          rw [Table.setNode_node]
          by_cases heq : i' = i
          · rw [if_pos ⟨rfl, by rw [heq]⟩]
          · rw [if_neg (by omega), hp'.node l le_rfl]
            exact hdone i' (by simpa [heq] using hi')
      · have hq : t'.node l (512 * k + i) = 0 := by simpa using hv
        refine .pure fun s hc => ⟨t', hp, fun i' hi' => ?_, hc⟩
        obtain hi' | hi' := List.mem_append.1 hi'
        · exact hdone i' hi'
        · rw [List.mem_singleton.1 hi']
          exact hq
    · intro _ s hs
      obtain ⟨t', hp, hdone, hc⟩ := hs
      refine ⟨t', hp, fun l' i hl' hi => ?_, hc⟩
      obtain rfl : l' = l := by omega
      exact hdone i hi

/-- A root page without entries comes into an empty hand. -/
lemma Core.uproot (hc : Core D m t h s) (hroot : t.root ≠ 0) (hj : h j = 0)
    (hbelow : ∀ i < 512, t.node 1 i = 0) (hleaf : ∀ v, t.leaf v = 0) :
    Core D m Table.empty (update h j t.root) s := by
  have hone : ∀ k, t.node 1 k = 0 := by
    intro k
    by_contra hne
    have htop := (hc.rep.top (hc.rep.up (by omega) hne)).2 rfl
    exact hne (hbelow k (by omega))
  have hzero : ∀ k, t.node 0 k = 0 := by
    intro k
    by_contra hne
    exact hc.rep.up (by omega) hne (hone _)
  have hempty : t.setNode 2 0 0 = Table.empty := by
    unfold Table.empty
    obtain ⟨node, leaf⟩ := t
    refine congr (congrArg Table.mk ?_) (funext hleaf)
    funext l k
    by_cases hlk : l = 2 ∧ k = 0
    · obtain ⟨rfl, rfl⟩ := hlk
      simp
    · by_contra hne
      have hnode : node l k ≠ 0 := by
        have := Table.setNode_node ⟨node, leaf⟩ 2 0 0 l k
        rw [if_neg hlk] at this
        exact fun hzero => hne (this.trans hzero)
      have htop := hc.rep.top hnode
      have hl : l ≠ 0 := by
        rintro rfl
        exact hnode (hzero k)
      have hl' : l ≠ 1 := by
        rintro rfl
        exact hnode (hone k)
      omega
  refine ⟨hc.nodup, hc.sub, ?_, .empty _, fun v hv => absurd rfl hv, hc.frame, hc.linked⟩
  rw [← hempty, Table.cell_hand, Table.cell_setNode]
  exact hc.owned.move (x := Cell.node 2 0) (y := Cell.hand j) (by simp) hroot hj

/-- `freewalk` frees a table without entries. -/
lemma freewalk_spec (hD : D ⊆ lk.pool) (hhand : h 0 = 0) (hroot : t.root ≠ 0)
    (hleaf : ∀ v, t.leaf v = 0) :
    Triple NoStop (Core D m t h) (freewalk lk 3 t.root) fun _ => Core D m Table.empty h := by
  have hentries := freeEntries_spec (m := m) hD hhand 2 t 0 (List.range 512) hleaf hroot
    fun i => List.mem_range.1
  rw [freewalk_succ]
  refine .bind hentries fun _ => ?_
  refine .exists_pre fun t' => .assume fun hp => .assume fun hbelow => ?_
  have hroot' : t'.root = t.root := by rw [Table.root, hp.node 2 le_rfl, Table.root]
  rw [← hroot'] at hroot ⊢
  have hbelow' : ∀ i < 512, t'.node 1 i = 0 := fun i hi => by
    simpa using hbelow 1 i rfl (List.mem_range.2 hi)
  refine .pre (P := Core D m Table.empty (update h 0 t'.root)) ?_
    fun s hc => hc.uproot hroot hhand hbelow' hp.leaf
  refine (kfree_hand hD (update_self ..) hroot).post fun _ s hc => ?_
  rwa [hand_restore hhand] at hc

end Xv6.Vm
