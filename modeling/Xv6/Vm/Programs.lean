import Xv6.Vm.Calls

/-!
# `exec` and `sys_exec`

`exec` builds the new address space in the table that belongs to the running code, swaps it
with the table of the process, and frees the old one. The pages of `K` keep their contents
throughout; `Frozen` says that they are elsewhere.
-/

namespace Xv6.Vm

open Xv6.Lib
open Xv6.Process (Slot ProcState Stop)
open Function (update update_of_ne update_eq_self comp_apply)

variable {lk : Link} {K : Set ℕ} {m : ℕ → Page} {G G' : Owners} {k : Sys} {P : Slot → Proc}
  {p : Slot} {t : Table} {tf b : ℕ} {s : Ram} {img : Image}

/-! ## Pages out of the way -/

/-- A place that `exec` in process `p` has nothing to do with. -/
def Away (p : Slot) : Place → Prop
  | .node o _ _ => o ≠ none ∧ o ≠ some p
  | .leaf o _ => o ≠ none ∧ o ≠ some p
  | .hand _ => False
  | .trapframe q => q ≠ p
  | .pipe _ => True
  | .kernel _ => True

/-- The pages of `K` are out of the way of process `p`. -/
def Frozen (lk : Link) (G : Owners) (p : Slot) (K : Set ℕ) : Prop :=
  ∀ b ∈ K, b ∈ lk.pool → ∃ x, Away p x ∧ G.page x = b

lemma Frozen.congr (hK : Frozen lk G p K) (h : ∀ x, Away p x → G'.page x = G.page x) :
    Frozen lk G' p K := by
  intro b hb hpool
  obtain ⟨x, hx, hpage⟩ := hK b hb hpool
  exact ⟨x, hx, (h x hx).trans hpage⟩

lemma Frozen.notMem_focus (hK : Frozen lk G p K) : ∀ b ∈ K, b ∉ G.focus lk none := by
  intro b hb hfocus
  obtain ⟨x, hx, hpage⟩ := hK b hb hfocus.1
  refine hfocus.2 x (fun c hc => ?_) hpage
  subst hc
  cases c <;> simp [embed, Away] at hx

lemma Frozen.trapframe_notMem (hK : Frozen lk G p K) (hg : Global lk K m G s)
    (htf : G.trapframe p ≠ 0) : G.trapframe p ∉ K := by
  intro hmem
  obtain ⟨x, hx, hpage⟩ := hK _ hmem (hg.owned.mem (.trapframe p) htf)
  have := hg.owned.inj (.trapframe p) x htf hpage.symm
  subst this
  exact hx rfl

/-- The trapframe of a process is a page of the pool. -/
lemma Global.trapframe_mem (hg : Global lk K m G s) (htf : G.trapframe p = tf) (hne : tf ≠ 0) :
    tf ∈ lk.pool := by
  subst htf
  exact hg.owned.mem (.trapframe p) hne

lemma Frozen.set (hK : Frozen lk G p K) (t : Table) (h : ℕ → ℕ) :
    Frozen lk (G.set none t h) p K := by
  refine hK.congr fun x hx => ?_
  cases x with
  | node o l k => simp [Owners.page, Owners.set, hx.1]
  | leaf o v => simp [Owners.page, Owners.set, hx.1]
  | hand j => exact absurd hx id
  | _ => rfl

/-! ## Swapping tables -/

/-- The places when the tables of `none` and `p` are swapped. -/
def Place.swap (p : Slot) : Place → Place
  | .node o l k => .node (Equiv.swap none (some p) o) l k
  | .leaf o v => .leaf (Equiv.swap none (some p) o) v
  | x => x

lemma Place.swap_involutive (p : Slot) : Function.Involutive (Place.swap p) := by
  intro x
  cases x <;> simp [Place.swap]

/-- The running code and process `p` swap their tables. -/
def Owners.swap (G : Owners) (p : Slot) : Owners :=
  { G with table := fun o => G.table (Equiv.swap none (some p) o) }

lemma Owners.page_swap (G : Owners) (p : Slot) : (G.swap p).page = G.page ∘ Place.swap p := by
  funext x
  cases x <;> rfl

lemma Global.swap (hg : Global lk K m G s) (p : Slot) : Global lk K m (G.swap p) s := by
  refine hg.congr ?_ (fun o => .inr ⟨_, rfl⟩) fun b hb => ⟨hb, rfl⟩
  rw [Owners.page_swap]
  exact hg.owned.rename (Place.swap_involutive p).toPerm

/-- A new table, swapped with that of `p`, which is then taken down. -/
lemma Owners.set_swap_set (hspare : G.table none = Table.empty) :
    ((G.set none t G.hand).swap p).set none Table.empty G.hand =
      G.setSlot p t (G.trapframe p) := by
  have htable : update (fun o => update G.table none t
      (Equiv.swap none (some p) o)) none Table.empty = update G.table (some p) t := by
    funext o
    by_cases hnone : o = none
    · subst hnone
      simp [hspare]
    · rw [update_of_ne hnone]
      by_cases hsome : o = some p
      · subst hsome
        simp
      · rw [Equiv.swap_apply_of_ne_of_ne hnone hsome, update_of_ne hnone,
          update_of_ne hsome]
  simp only [Owners.set, Owners.swap, Owners.setSlot, htable, update_eq_self]

lemma Frozen.swap (hK : Frozen lk G p K) : Frozen lk (G.swap p) p K := by
  refine hK.congr fun x hx => ?_
  rw [Owners.page_swap, comp_apply]
  cases x with
  | node o l k => rw [Place.swap, Equiv.swap_apply_of_ne_of_ne hx.1 hx.2]
  | leaf o v => rw [Place.swap, Equiv.swap_apply_of_ne_of_ne hx.1 hx.2]
  | _ => rfl

/-! ## `exec` -/

lemma setTrapframe_spec (htf : G.trapframe p = tf) (hne : tf ≠ 0) (hK : tf ∉ K) (off v : ℕ) :
    Triple NoStop (At lk K m k G) (vm (setTrapframe tf off v)) fun _ => At lk K m k G :=
  vm_spec (φ := (· = k)) (.modify fun s hg =>
    hg.touch (x := .trapframe p) htf hne (by simp) (by simp) hK _)

/-- The process after `exec`. -/
def Proc.become (pr : Proc) (img : Image) (name : List UInt8) : Proc :=
  { pr with name := name, pagetable := img.pagetable, sz := img.sz }

/-- The commit replaces the address space and frees the old one. -/
lemma execCommit_spec {path : List UInt8} (h₀ : G.hand 0 = 0) (hspare : G.table none = Table.empty)
    (hlive : Live lk (k.proc p) (G.table (some p)) (G.trapframe p)) (hK : Frozen lk G p K) :
    Triple NoStop (At lk K m k (G.set none t G.hand)) (execCommit lk p path img) fun r s =>
      r = img.argc ∧ At lk K m (k.setProc p (·.become img (execName path)))
        (G.setSlot p t (G.trapframe p)) s := by
  obtain ⟨htf, htf0, hroot', g, hshape⟩ := hlive
  refine proc_bind (.of_pre fun s₀ hs₀ => ?_)
  have hnotMem : (k.proc p).trapframe ∉ K := by
    have := (hK.set t G.hand).trapframe_notMem (p := p) hs₀.2 (htf ▸ htf0)
    rwa [← htf]
  have hpool : (k.proc p).trapframe ∈ lk.pool := hs₀.2.trapframe_mem (p := p) htf htf0
  have hset : ∀ k' off v, Triple NoStop (At lk K m k' (G.set none t G.hand))
      (vm (setTrapframe (k.proc p).trapframe off v)) fun _ => At lk K m k' (G.set none t G.hand) :=
    fun k' off v => setTrapframe_spec (p := p) (G := G.set none t G.hand) htf htf0 hnotMem off v
  refine (hset _ _ _).bind fun _ => (modifySys_spec _).bind fun _ => (hset _ _ _).bind fun _ =>
    (hset _ _ _).bind fun _ => ?_
  -- the old table
  let G₂ := (G.set none t G.hand).swap p
  refine .pre (P := At lk K m (k.setProc p (·.become img (execName path))) G₂) ?_
    fun s hs => hs.owners fun r hg => hg.swap p
  have hold : G₂.table none = G.table (some p) := by simp [G₂, Owners.swap, Owners.set]
  refine .bind (vm_focus none (hK.set t G.hand).swap.notMem_focus
    (R := fun _ t h => t = Table.empty ∧ h = G.hand) fun D m hD _ => ?_) fun _ =>
      .pure fun s hs => ⟨rfl, ?_⟩
  · rw [hold, ← hroot']
    exact (procFreepagetable_spec hD h₀ hshape hpool htf0).post fun _ s hc =>
      ⟨_, _, ⟨rfl, rfl⟩, hc⟩
  obtain ⟨t', h, ⟨rfl, rfl⟩, hs⟩ := hs
  rwa [Owners.set_swap_set hspare] at hs

/-- `exec` commits a well-shaped address space, or leaves nothing behind. Until the commit it
writes to no page in use, so that all of `K` is unchanged if it fails. -/
lemma exec_spec {K' : Set ℕ} (h₀ : G.hand 0 = 0) (h₁ : G.hand 1 = 0)
    (hspare : G.table none = Table.empty)
    (hlive : Live lk (k.proc p) (G.table (some p)) (G.trapframe p))
    (hK : ∀ b ∈ K, b ∉ G.focus lk none) (hsub : K' ⊆ K) (hK' : Frozen lk G p K')
    (path : List UInt8) (content : Option (List UInt8)) (argv : List ℕ) :
    Triple NoStop (At lk K m k G) (exec lk p path content argv) fun r s =>
      (r = -1 ∧ At lk K m k G s) ∨
      ∃ (img : Image) (t : Table) (g : Option ℕ), r = img.argc ∧ t.root = img.pagetable ∧
        Shape lk (k.proc p).trapframe (pages img.sz) g t ∧
        At lk K' m (k.setProc p (·.become img (execName path)))
          (G.setSlot p t (G.trapframe p)) s := by
  cases content with
  | none => exact .pure fun s hs => .inl ⟨rfl, hs⟩
  | some content =>
    refine proc_bind (.of_pre fun s₀ hs₀ => ?_)
    have hpool : (k.proc p).trapframe ∈ lk.pool :=
      hs₀.2.trapframe_mem hlive.trapframe hlive.trapframe_ne
    refine (vm_focus none hK (R := fun r t h => h = G.hand ∧
      (r = none ∧ t = Table.empty ∨ ∃ (img : Image) (g : Option ℕ), r = some img ∧
        t.root = img.pagetable ∧ Shape lk (k.proc p).trapframe (pages img.sz) g t))
      fun D m hD _ => ?_).bind fun r => ?_
    · rw [hspare]
      refine (execLoad_spec hD h₀ h₁ hpool hlive.trapframe_ne content argv).post fun r s hr => ?_
      obtain ⟨hr, hc⟩ | ⟨img, t, g, hr, hroot, hshape, hc⟩ := hr
      · exact ⟨_, _, ⟨rfl, .inl ⟨hr, rfl⟩⟩, hc⟩
      · exact ⟨_, _, ⟨rfl, .inr ⟨img, g, hr, hroot, hshape⟩⟩, hc⟩
    refine .exists_pre fun t => .exists_pre fun h => .assume fun ht => ?_
    obtain ⟨rfl, ⟨rfl, rfl⟩ | ⟨img, g, rfl, hroot, hshape⟩⟩ := ht
    · refine .pure fun s hs => .inl ⟨rfl, ?_⟩
      rwa [← hspare, G.set_self] at hs
    · refine .pre (P := At lk K' m k (G.set none t G.hand)) ?_ fun s hs => ⟨hs.1, hs.2.mono hsub⟩
      exact (execCommit_spec h₀ hspare hlive hK').post fun r s hs =>
        .inr ⟨img, t, g, hs.1, hroot, hshape, hs.2⟩

/-! ## `sys_exec` -/

lemma Proc.become_settled {name : List UInt8} {g : Option ℕ} {pr : Proc} (hp : pr.state = .runnable)
    (htf : tf = pr.trapframe) (htf0 : pr.trapframe ≠ 0) (hroot : t.root = img.pagetable)
    (hshape : Shape lk pr.trapframe (pages img.sz) g t) : Settled lk (pr.become img name) t tf :=
  .of_shape (by simp [Proc.become, hp]) (by simp [Proc.become, hp]) htf htf0 hroot hshape

/-- The argument pages `argv` are in hand. -/
def Owners.hold (G : Owners) (argv : List ℕ) : Owners := { G with hand := argHands argv }

lemma Slots.hold_nil (hs : Slots lk P G) : G.hold [] = G := by
  have hhand : argHands [] = G.hand := by
    funext j
    simp [hs.hand, argHands]
  rw [Owners.hold, hhand]

lemma freeArgs_at {argv : List ℕ} (hargv : ∀ a ∈ argv, a ≠ 0) :
    Triple NoStop (At lk ∅ m k (G.hold argv)) (vm (argv.forM (kfree lk))) fun _ =>
      At lk ∅ m k (G.hold []) := by
  refine (vm_focus none (by simp) (R := fun _ t h => t = G.table none ∧ h = argHands [])
    fun D m hD _ => (freeArgs_spec hD hargv).post fun _ s hc => ?_).post fun _ s hs => ?_
  · refine ⟨_, _, ⟨rfl, ?_⟩, hc⟩
    funext j
    simp [argHands]
  · obtain ⟨t, h, ⟨rfl, rfl⟩, hs⟩ := hs
    rw [Owners.set, Owners.hold, update_eq_self] at hs
    exact hs

/-- `sys_exec` gives the argument pages back in any case. -/
lemma sysExec_at (hs : Slots lk k.proc G) (hp : (k.proc p).state = .runnable) (upath uargv : ℕ)
    (files : List UInt8 → Option (List UInt8)) :
    Triple NoStop (At lk ∅ m k G) (sysExec lk p upath uargv files) fun _ s =>
      At lk ∅ m k G s ∨
      ∃ (img : Image) (name : List UInt8) (t : Table),
        Settled lk ((k.proc p).become img name) t (G.trapframe p) ∧
        At lk ∅ m (k.setProc p (·.become img name)) (G.setSlot p t (G.trapframe p)) s := by
  have hlive := hs.live (p := p) (by simp [hp])
  obtain ⟨g, hshape⟩ := hlive.shape
  rw [← hs.hold_nil]
  refine proc_bind ?_
  rw [← hlive.root]
  refine (vm_focus none (by simp) (R := fun _ t h => t = G.table none ∧ h = argHands [])
    fun D m hD haside => ?_).bind fun r => ?_
  · have ha := haside (some p) (by simp)
    exact (copyinstr_spec (fun s hc => ha.rep_of_core hc) ha.aligned hshape.root _ _).post
      fun r s hc => ⟨_, _, ⟨rfl, rfl⟩, hc⟩
  refine .exists_pre fun t => .exists_pre fun h => .assume fun ht => ?_
  rw [ht.1, ht.2, show (G.hold []).set none (G.table none) (argHands []) = G.hold [] from
    (G.hold []).set_self none]
  obtain ⟨path, r⟩ := r
  refine .ite (fun _ => .pure fun s h => .inl h) fun _ => ?_
  refine (vm_focus none (by simp) (R := fun r t h => t = G.table none ∧ h = argHands r.2 ∧
    ∀ a ∈ r.2, a ≠ 0) fun D m hD haside => ?_).bind fun r => ?_
  · have ha := haside (some p) (by simp)
    exact (fetchArgs_spec ha hshape.root _ _ _ [] (by simp)).post
      fun r s hc => ⟨_, _, ⟨rfl, rfl, hc.1⟩, hc.2⟩
  refine .exists_pre fun t => .exists_pre fun h => .assume fun ht => ?_
  obtain ⟨ok, argv⟩ := r
  obtain ⟨rfl, rfl, hargv⟩ := ht
  rw [show (G.hold []).set none (G.table none) (argHands argv) = G.hold argv by
    simp [Owners.set, Owners.hold]]
  -- the program is loaded or not
  have hexec : Triple NoStop (At lk ∅ m k (G.hold argv))
      (if ok then exec lk p path (files path) argv else pure (-1)) fun _ s =>
        At lk ∅ m k (G.hold argv) s ∨
        ∃ (img : Image) (t : Table),
          Settled lk ((k.proc p).become img (execName path)) t (G.trapframe p) ∧
          At lk ∅ m (k.setProc p (·.become img (execName path)))
            ((G.setSlot p t (G.trapframe p)).hold argv) s := by
    refine .ite (fun _ => ?_) fun _ => .pure fun s h => .inl h
    refine (exec_spec (G := G.hold argv) (K := ∅) rfl rfl hs.spare hlive (by simp)
      (Set.Subset.refl ∅) (by simp [Frozen]) path _ argv).post fun r s h => ?_
    obtain ⟨-, h⟩ | ⟨img, t, g, -, hroot, hshape, h⟩ := h
    · exact .inl h
    · exact .inr ⟨img, t, Proc.become_settled hp hlive.trapframe hlive.trapframe_ne hroot hshape, h⟩
  refine hexec.bind fun ret => .or_pre ?_ (.exists_pre fun img => .exists_pre fun t =>
    .assume fun hset => ?_)
  · exact (freeArgs_at hargv).bind fun _ => .pure fun s h => .inl h
  · exact (freeArgs_at hargv).bind fun _ => .pure fun s h => .inr ⟨img, _, t, hset, h⟩

lemma sysExec_spec (hs : Slots lk P G) (hp : (P p).state = .runnable) (upath uargv : ℕ)
    (files : List UInt8 → Option (List UInt8)) :
    Triple NoStop (Run lk m P G 0) (sysExec lk p upath uargv files) fun _ => Inv lk := by
  refine run_of_at fun k e hproc hkernel hfiles => ?_
  subst hproc
  refine (sysExec_at (G := { G with ends := e }) ⟨hs.slot, hs.spare, hs.hand⟩ hp upath uargv
    files).post fun _ s h => ?_
  obtain h | ⟨img, name, t, hset, h⟩ := h
  · exact ⟨_, _, _, hs, At.run h hfiles hkernel⟩
  · have hfiles' : Files (k.setProc p (·.become img name)).proc k.file 0 e :=
      hfiles.proc (ofiles_update rfl)
    exact ⟨_, _, _, hs.update hset, At.run (k := k.setProc p (·.become img name))
      (G := G.setSlot p t (G.trapframe p)) h hfiles' hkernel⟩

end Xv6.Vm
