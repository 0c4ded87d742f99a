import Xv6.Vm.Machine

/-!
# The owners of all pages

`Owners` says who has which page: the tables of the processes, one more table that is being
built or taken down, the hands of the running code, the trapframes, the pipes and the
kernel. `Global lk K m G s` is the invariant of physical memory: every page that `kalloc`
manages is on the free list or has one owner, the tables are as `G` says, and the pages in
`K` still have their contents `m`.

Code that works on one table is specified by `Core`. `focus_spec` turns that into what the
code does to all of memory.
-/

namespace Xv6.Vm

open Xv6.Lib
open Xv6.Process (Slot Stop)
open Function (update update_of_ne update_eq_self)

/-- Who has which page. `ends b w` says whether an end of the pipe in page `b` is open. -/
structure Owners where
  table : Option Slot → Table
  hand : ℕ → ℕ
  trapframe : Slot → ℕ
  ends : ℕ → Bool → Bool
  kernel : List ℕ

/-- A place where a page can be. The table `none` belongs to the running code. -/
inductive Place where
  | node (o : Option Slot) (l k : ℕ)
  | leaf (o : Option Slot) (v : ℕ)
  | hand (j : ℕ)
  | trapframe (p : Slot)
  | pipe (b : ℕ)
  | kernel (b : ℕ)
deriving DecidableEq

namespace Owners

/-- The pipe in page `b` is open at one end at least. -/
def pipe (G : Owners) (b : ℕ) : Bool := G.ends b false || G.ends b true

/-- The page at each place. -/
def page (G : Owners) : Place → ℕ
  | .node o l k => (G.table o).node l k
  | .leaf o v => if v < UPAGES then pte2pa ((G.table o).leaf v) else 0
  | .hand j => G.hand j
  | .trapframe p => G.trapframe p
  | .pipe b => if G.pipe b then b else 0
  | .kernel b => if b ∈ G.kernel then b else 0

/-- The running code has changed a table, and what is in hand. -/
def set (G : Owners) (o : Option Slot) (t : Table) (h : ℕ → ℕ) : Owners :=
  { G with table := update G.table o t, hand := h }

end Owners

/-- The places that code working on the table of `o` deals with. -/
def embed (o : Option Slot) : Cell → Place
  | .node l k => .node o l k
  | .leaf v => .leaf o v
  | .hand j => .hand j

lemma embed_injective (o : Option Slot) : Function.Injective (embed o) := by
  intro c c' h
  cases c <;> cases c' <;> simp_all [embed]

lemma page_embed (G : Owners) (o : Option Slot) : G.page ∘ embed o = (G.table o).cell G.hand := by
  funext c
  cases c <;> rfl

/-- The pages that code working on the table of `o` deals with. -/
def Owners.focus (lk : Link) (G : Owners) (o : Option Slot) : Set ℕ :=
  Owned.within lk.pool G.page (embed o)

/-- The invariant of physical memory. -/
structure Global (lk : Link) (K : Set ℕ) (m : ℕ → Page) (G : Owners) (s : Ram) : Prop where
  nodup : s.free.Nodup
  sub : ∀ b ∈ s.free, b ∈ lk.pool
  owned : Owned lk.pool (· ∉ s.free) G.page
  rep : ∀ o, Rep s.mem (G.table o)
  leaves : ∀ o v, (G.table o).leaf v ≠ 0 → IsLeaf ((G.table o).leaf v)
  flags : ∀ b, G.pipe b = true → ∀ w,
    (s.mem b).ld 4 (openField w) ≠ 0 ↔ G.ends b w = true
  pipe_ne : ∀ b, G.pipe b = true → b ≠ 0
  frozen : ∀ b ∈ K, s.mem b = m b
  linked : s.Linked

namespace Global

variable {lk : Link} {K : Set ℕ} {m : ℕ → Page} {G G' : Owners} {s : Ram} {o o' : Option Slot}
  {b : ℕ} {x y : Place}

/-- What is at a place that the code working on `o` does not deal with. -/
lemma notMem_focus (x : Place) (hx : ∀ c, embed o c ≠ x) (hb : G.page x = b) :
    b ∉ G.focus lk o := fun hin => hin.2 x hx hb

/-- The pages of another table are out of focus. -/
lemma node_notMem_focus (ho : o' ≠ o) (l k : ℕ) : (G.table o').node l k ∉ G.focus lk o := by
  refine notMem_focus (.node o' l k) (fun c hc => ?_) rfl
  cases c <;> simp_all [embed]

lemma aside (hg : Global lk K m G s) (ho : o' ≠ o) :
    Aside (G.focus lk o) s.mem (G.table o') where
  rep := hg.rep o'
  aligned l k := by
    by_cases hn : (G.table o').node l k = 0
    · rw [hn]
      rfl
    · exact (hg.owned.mem (.node o' l k) hn).1
  outside := node_notMem_focus ho
  leaves := hg.leaves o'
  pages v hv _ := by
    refine notMem_focus (.leaf o' v) (fun c hc => ?_) (if_pos hv)
    cases c <;> simp_all [embed]

/-- What code working on the table of `o` sees. -/
lemma core (hg : Global lk K m G s) (o : Option Slot) :
    Core (G.focus lk o) s.mem (G.table o) G.hand s where
  nodup := hg.nodup
  sub b hb := ⟨hg.sub b hb, fun x _ => hg.owned.cell_ne (hg.sub b hb) (by simpa using hb) x⟩
  owned := page_embed G o ▸ hg.owned.focus (embed_injective o)
  rep := hg.rep o
  leaves := hg.leaves o
  frame _ _ := rfl
  linked := hg.linked

/-- What the code working on the table of `o` leaves behind. -/
lemma back (hg : Global lk K m G s) (hK : ∀ b ∈ K, b ∉ G.focus lk o) {t : Table} {h : ℕ → ℕ}
    {s' : Ram} (hc : Core (G.focus lk o) s.mem t h s') : Global lk K m (G.set o t h) s' := by
  refine ⟨hc.nodup, fun b hb => (hc.sub b hb).1, ?_, ?_, ?_, ?_, hg.pipe_ne, ?_, hc.linked⟩
  · refine hg.owned.unfocus hc.owned (fun b _ hb hfree => hb (hc.sub b hfree)) ?_ ?_
    · intro c
      cases c <;> simp [embed, Owners.page, Owners.set, Table.cell]
    · intro x hx
      cases x with
      | node o' l k =>
        have ho : o' ≠ o := by
          rintro rfl
          exact hx (.node l k) rfl
        simp [Owners.page, Owners.set, ho]
      | leaf o' v =>
        have ho : o' ≠ o := by
          rintro rfl
          exact hx (.leaf v) rfl
        simp [Owners.page, Owners.set, ho]
      | hand j => exact absurd rfl (hx (.hand j))
      | _ => rfl
  · intro o'
    by_cases ho : o' = o
    · subst ho
      simpa [Owners.set] using hc.rep
    · simp only [Owners.set, update_of_ne ho]
      exact (hg.rep o').congr fun l k _ => hc.frame _ (node_notMem_focus ho l k)
  · intro o' v
    by_cases ho : o' = o
    · subst ho
      simpa [Owners.set] using hc.leaves v
    · simp only [Owners.set, update_of_ne ho]
      exact hg.leaves o' v
  · intro b hb w
    have hout : b ∉ G.focus lk o := by
      refine notMem_focus (.pipe b) (fun c hc => ?_) (if_pos hb)
      cases c <;> simp [embed] at hc
    rw [hc.frame b hout]
    exact hg.flags b hb w
  · intro b hb
    rw [hc.frame b (hK b hb)]
    exact hg.frozen b hb

/-- Only the page of each place matters, and the tables and pipes. -/
lemma congr (hg : Global lk K m G s) (howned : Owned lk.pool (· ∉ s.free) G'.page)
    (htable : ∀ o, G'.table o = Table.empty ∨ ∃ o', G'.table o = G.table o')
    (hends : ∀ b, G'.pipe b = true → G.pipe b = true ∧ G'.ends b = G.ends b) :
    Global lk K m G' s := by
  refine ⟨hg.nodup, hg.sub, howned, fun o => ?_, fun o => ?_, fun b hb w => ?_,
    fun b hb => hg.pipe_ne b (hends b hb).1, hg.frozen, hg.linked⟩
  · obtain h | ⟨o', h⟩ := htable o
    · rw [h]
      exact .empty _
    · rw [h]
      exact hg.rep o'
  · obtain h | ⟨o', h⟩ := htable o
    · rw [h]
      exact fun v hv => absurd rfl hv
    · rw [h]
      exact hg.leaves o'
  · rw [(hends b hb).2]
    exact hg.flags b (hends b hb).1 w

lemma mono {K' : Set ℕ} (hg : Global lk K m G s) (hK : K' ⊆ K) : Global lk K' m G s :=
  ⟨hg.nodup, hg.sub, hg.owned, hg.rep, hg.leaves, hg.flags, hg.pipe_ne,
    fun b hb => hg.frozen b (hK hb), hg.linked⟩

/-- Any pages can be kept from now on. -/
lemma rebase (hg : Global lk K m G s) (K' : Set ℕ) : Global lk K' s.mem G s :=
  ⟨hg.nodup, hg.sub, hg.owned, hg.rep, hg.leaves, hg.flags, hg.pipe_ne, fun _ _ => rfl, hg.linked⟩

/-- The oracle of `kalloc` does not matter. -/
lemma deny (hg : Global lk K m G s) (d : ℕ → Bool) : Global lk K m G { s with deny := d } :=
  ⟨hg.nodup, hg.sub, hg.owned, hg.rep, hg.leaves, hg.flags, hg.pipe_ne, hg.frozen, hg.linked⟩

/-- A page that is no page-table page and no pipe is overwritten. -/
lemma touch (hg : Global lk K m G s) (hx : G.page x = b) (hb : b ≠ 0)
    (hnode : ∀ o l k, x ≠ .node o l k) (hpipe : ∀ b, x ≠ .pipe b) (hK : b ∉ K) (page : Page) :
    Global lk K m G (s.setPage b page) := by
  have hne : ∀ y, y ≠ x → G.page y ≠ b := by
    intro y hyx hy
    exact hyx (hg.owned.inj y x (hy ▸ hb) (hy.trans hx.symm))
  refine ⟨hg.nodup, hg.sub, hg.owned, fun o => ?_, hg.leaves, fun c hc w => ?_, hg.pipe_ne,
    fun c hc => ?_, hg.linked.setPage (hx ▸ hg.owned.used_cell (x := x) (hx ▸ hb)) page⟩
  · exact (hg.rep o).congr fun l k _ =>
      update_of_ne (hne (.node o l k) (hnode o l k).symm) ..
  · have hcb : c ≠ b := by
      rintro rfl
      exact hne (.pipe c) (hpipe c).symm (if_pos hc)
    rw [s.setPage_of_ne hcb]
    exact hg.flags c hc w
  · have hcb : c ≠ b := by
      rintro rfl
      exact hK hc
    rw [s.setPage_of_ne hcb]
    exact hg.frozen c hc

end Global

/-! ## Rules -/

section Rules

variable {lk : Link} {K : Set ℕ} {m : ℕ → Page} {G : Owners} {α : Type} {φ : Sys → Prop}
  {E : Stop → Prop}

/-- Code that works on the table of `o`. -/
lemma focus_spec (o : Option Slot) (hK : ∀ b ∈ K, b ∉ G.focus lk o) {x : VmM α}
    {Q : α → Table → (ℕ → ℕ) → Prop}
    (hx : ∀ D m, D ⊆ lk.pool → (∀ o', o' ≠ o → Aside D m (G.table o')) →
      Triple E (Core D m (G.table o) G.hand) x fun r s => ∃ t h, Q r t h ∧ Core D m t h s) :
    Triple E (Global lk K m G) x fun r s =>
      ∃ t h, Q r t h ∧ Global lk K m (G.set o t h) s := by
  refine .of_run fun s hg => ?_
  refine ((hx _ s.mem (fun b hb => hb.1) fun o' ho => hg.aside ho).run (hg.core o)).mono
    fun r hr => ?_
  obtain ⟨t, h, hq, hc⟩ := hr
  exact ⟨t, h, hq, hg.back hK hc⟩

/-- `kalloc` puts a page into an empty hand, or fails. -/
lemma kalloc_global (hhand : G.hand 0 = 0) :
    Triple NoStop (Global lk ∅ m G) kalloc fun q s => (q = 0 ∧ Global lk ∅ m G s) ∨
      (q ≠ 0 ∧ Global lk ∅ m { G with hand := update G.hand 0 q } s) := by
  refine (focus_spec none (by simp) (Q := fun q t h => t = G.table none ∧
    (q = 0 ∧ h = G.hand ∨ q ≠ 0 ∧ h = update G.hand 0 q)) fun D m _ _ =>
      (kalloc_spec 0 hhand).post fun q s hq => ?_).post fun q s hq => ?_
  · obtain ⟨hq, hc⟩ | ⟨hq, hc⟩ := hq
    · exact ⟨_, _, ⟨rfl, .inl ⟨hq, rfl⟩⟩, hc⟩
    · exact ⟨_, _, ⟨rfl, .inr ⟨hq, rfl⟩⟩, hc⟩
  · obtain ⟨t, h, ⟨rfl, ⟨hq, rfl⟩ | ⟨hq, rfl⟩⟩, hg⟩ := hq
    · exact .inl ⟨hq, by simpa [Owners.set] using hg⟩
    · exact .inr ⟨hq, by simpa [Owners.set] using hg⟩

/-- `kfree` of a page in hand. -/
lemma kfree_global {b : ℕ} (hhand : G.hand 0 = b) (hb : b ≠ 0) :
    Triple NoStop (Global lk ∅ m G) (kfree lk b) fun _ =>
      Global lk ∅ m { G with hand := update G.hand 0 0 } := by
  refine (focus_spec none (by simp) (Q := fun _ t h => t = G.table none ∧
    h = update G.hand 0 0) fun D m hD _ =>
      (kfree_hand hD hhand hb).post fun _ s hc => ⟨_, _, ⟨rfl, rfl⟩, hc⟩).post fun _ s hg => ?_
  obtain ⟨t, h, ⟨rfl, rfl⟩, hg⟩ := hg
  simpa [Owners.set] using hg

/-- Code that works on memory leaves the kernel's data alone. -/
lemma vm_spec {P : Ram → Prop} {x : VmM α} {Q : α → Ram → Prop}
    (hx : Triple E P x Q) :
    Triple E (fun s => φ s.sys ∧ P s.ram) (vm x) fun r s => φ s.sys ∧ Q r s.ram := by
  refine .of_run fun s hs => ?_
  exact Post.bind ((hx.run hs.2).mono fun r hr => ⟨hs.1, hr⟩)

end Rules

/-! ## Assertions about the machine -/

variable {lk : Link} {K : Set ℕ} {m : ℕ → Page} {G G' : Owners} {k : Sys} {α β : Type} {p : Slot}

/-- The kernel's data are `k`, and the owners of pages are `G`. -/
def At (lk : Link) (K : Set ℕ) (m : ℕ → Page) (k : Sys) (G : Owners) (s : State) : Prop :=
  s.sys = k ∧ Global lk K m G s.ram

lemma At.owners {s : State} (h : At lk K m k G s)
    (hg : ∀ r, Global lk K m G r → Global lk K m G' r) : At lk K m k G' s := ⟨h.1, hg _ h.2⟩

section Rules

variable {E : Stop → Prop} {Q : β → State → Prop}

lemma proc_bind {f : Proc → M β} (hf : Triple E (At lk K m k G) (f (k.proc p)) Q) :
    Triple E (At lk K m k G) (proc p >>= f) Q := by
  refine .of_run fun s hs => ?_
  have hrun := hf.run hs
  rw [← hs.1] at hrun
  exact hrun

/-- Reading the state, when only the kernel's data matter. -/
lemma sys_bind {f : State → M β}
    (hf : ∀ s, s.sys = k → Triple E (At lk K m k G) (f s) Q) :
    Triple E (At lk K m k G) (get >>= f) Q := .read_bind fun s hs => hf s hs.1

lemma modifySys_spec (f : Sys → Sys) :
    Triple E (At lk K m k G) (modifySys f) fun _ => At lk K m (f k) G :=
  .modify fun s hs => ⟨by rw [hs.1], hs.2⟩

lemma vm_focus (o : Option Slot) (hK : ∀ b ∈ K, b ∉ G.focus lk o) {x : VmM α}
    {R : α → Table → (ℕ → ℕ) → Prop}
    (hx : ∀ D m, D ⊆ lk.pool → (∀ o', o' ≠ o → Aside D m (G.table o')) →
      Triple E (Core D m (G.table o) G.hand) x fun r s => ∃ t h, R r t h ∧ Core D m t h s) :
    Triple E (At lk K m k G) (vm x) fun r s =>
      ∃ t h, R r t h ∧ At lk K m k (G.set o t h) s :=
  (vm_spec (φ := (· = k)) (focus_spec o hK hx)).post fun _ s hs => by
    obtain ⟨hk, t, h, hr, hg⟩ := hs
    exact ⟨t, h, hr, hk, hg⟩

end Rules

/-! ## Moves of pages between owners -/

namespace Owners

lemma set_self (G : Owners) (o : Option Slot) : G.set o (G.table o) G.hand = G := by
  unfold Owners.set
  rw [update_eq_self]

/-- The page in hand `j` becomes the trapframe of `p`. -/
def giveTrapframe (G : Owners) (p : Slot) (j : ℕ) : Owners :=
  { G with trapframe := update G.trapframe p (G.hand j),
           hand := update G.hand j 0 }

/-- The trapframe of `p` comes into hand `j`. -/
def takeTrapframe (G : Owners) (p : Slot) (j : ℕ) : Owners :=
  { G with trapframe := update G.trapframe p 0,
           hand := update G.hand j (G.trapframe p) }

lemma page_giveTrapframe (G : Owners) (p : Slot) (j : ℕ) :
    (G.giveTrapframe p j).page = update (update G.page (.hand j) 0)
      (.trapframe p) (G.page (.hand j)) := by
  funext x
  cases x with
  | hand i =>
    by_cases hi : i = j
    · subst hi
      simp [page, giveTrapframe]
    · simp [page, giveTrapframe, hi]
  | trapframe q =>
    by_cases hq : q = p
    · subst hq
      simp [page, giveTrapframe]
    · simp [page, giveTrapframe, hq]
  | _ =>
    rw [update_of_ne (by simp), update_of_ne (by simp)]
    rfl

lemma page_takeTrapframe (G : Owners) (p : Slot) (j : ℕ) :
    (G.takeTrapframe p j).page = update (update G.page (.trapframe p) 0)
      (.hand j) (G.page (.trapframe p)) := by
  funext x
  cases x with
  | hand i =>
    by_cases hi : i = j
    · subst hi
      simp [page, takeTrapframe]
    · simp [page, takeTrapframe, hi]
  | trapframe q =>
    by_cases hq : q = p
    · subst hq
      simp [page, takeTrapframe]
    · simp [page, takeTrapframe, hq]
  | _ =>
    rw [update_of_ne (by simp), update_of_ne (by simp)]
    rfl

end Owners

namespace Global

variable {s : Ram} {j : ℕ}

lemma giveTrapframe (hg : Global lk K m G s) (hj : G.hand j ≠ 0) (hp : G.trapframe p = 0) :
    Global lk K m (G.giveTrapframe p j) s := by
  refine hg.congr ?_ (fun o => .inr ⟨o, rfl⟩) fun b hb => ⟨hb, rfl⟩
  rw [Owners.page_giveTrapframe]
  exact hg.owned.move (x := Place.hand j) (y := Place.trapframe p) (by simp) hj hp

lemma takeTrapframe (hg : Global lk K m G s) (hj : G.hand j = 0) (hp : G.trapframe p ≠ 0) :
    Global lk K m (G.takeTrapframe p j) s := by
  refine hg.congr ?_ (fun o => .inr ⟨o, rfl⟩) fun b hb => ⟨hb, rfl⟩
  rw [Owners.page_takeTrapframe]
  exact hg.owned.move (x := Place.trapframe p) (y := Place.hand j) (by simp) hp hj

end Global

end Xv6.Vm
