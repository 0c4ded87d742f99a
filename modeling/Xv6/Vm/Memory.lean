import Xv6.Lib.Bytes
import Xv6.Lib.Triple
import Xv6.Process.Machine

/-!
# Physical memory and page tables (`kernel/kalloc.c`, `kernel/vm.c`)

`Ram` is the physical memory, page by page, with the list of free pages. Page tables are
words in it: `walk` and the functions built on it read and write page-table entries there.

Calls run one after the other, so `kalloc` finds the list empty only when all memory is in
use. In the real kernel other calls in progress hold pages, too: `Ram.deny` says which
calls of `kalloc` return `0` for that reason.
-/

namespace Xv6.Vm

open Xv6.Lib
open Xv6.Process (Slot Stop)

/-! ## Addresses and page-table entries (`kernel/riscv.h`, `kernel/memlayout.h`) -/

/-- Bytes per page. -/
def PGSIZE : ℕ := 4096

/-- One beyond the highest virtual address that `walk` accepts. -/
def MAXVA : ℕ := 2 ^ 38

def KERNBASE : ℕ := 0x80000000

/-- The end of physical memory. -/
def PHYSTOP : ℕ := KERNBASE + 128 * 1024 * 1024

def TRAMPOLINE : ℕ := MAXVA - PGSIZE

def TRAPFRAME : ℕ := TRAMPOLINE - PGSIZE

/-- `PGROUNDUP`. -/
def pgroundup (sz : ℕ) : ℕ := (sz + PGSIZE - 1) % 2 ^ 64 / PGSIZE * PGSIZE

/-- `PGROUNDDOWN`. -/
def pgrounddown (a : ℕ) : ℕ := a / PGSIZE * PGSIZE

def PTE_V : ℕ := 1

def PTE_R : ℕ := 2

def PTE_W : ℕ := 4

def PTE_X : ℕ := 8

def PTE_U : ℕ := 16

/-- `PA2PTE`. -/
def pa2pte (pa : ℕ) : ℕ := pa / PGSIZE * 1024

/-- `PTE2PA`. -/
def pte2pa (pte : ℕ) : ℕ := pte / 1024 * PGSIZE

/-- `PTE_FLAGS`. -/
def pteFlags (pte : ℕ) : ℕ := pte % 1024

/-- `pte & PTE_V`. -/
def pteV (pte : ℕ) : Bool := pte.testBit 0

/-- `pte & PTE_R`. -/
def pteR (pte : ℕ) : Bool := pte.testBit 1

/-- `pte & PTE_W`. -/
def pteW (pte : ℕ) : Bool := pte.testBit 2

/-- `pte & PTE_X`. -/
def pteX (pte : ℕ) : Bool := pte.testBit 3

/-- `pte & PTE_U`. -/
def pteU (pte : ℕ) : Bool := pte.testBit 4

/-- `PX`: the 9-bit index into the page table at a level. -/
def px (level va : ℕ) : ℕ := va / 2 ^ (12 + 9 * level) % 512

/-! ## Memory -/

/-- The contents of a page. -/
abbrev Page := Bytes PGSIZE

/-- What the linker decides: where the kernel ends, and the page of the trampoline code. -/
structure Link where
  kend : ℕ
  trampoline : ℕ
  kend_le : kend ≤ PHYSTOP
  trampoline_ge : KERNBASE ≤ trampoline
  trampoline_lt : trampoline + PGSIZE ≤ kend
  trampoline_aligned : trampoline % PGSIZE = 0

/-- The pages that `kalloc` manages, by address. -/
def Link.pool (lk : Link) : Set ℕ := {pa | pa % PGSIZE = 0 ∧ lk.kend ≤ pa ∧ pa < PHYSTOP}

/-- A machine with `n` pages for `kalloc`. -/
def Link.small (n : ℕ) (hn : n < 1024) : Link where
  kend := PHYSTOP - n * PGSIZE
  trampoline := PHYSTOP - (n + 1) * PGSIZE
  kend_le := Nat.sub_le ..
  trampoline_ge := by
    unfold PHYSTOP KERNBASE PGSIZE
    omega
  trampoline_lt := by
    unfold PHYSTOP KERNBASE PGSIZE
    omega
  trampoline_aligned := by
    unfold PHYSTOP KERNBASE PGSIZE
    omega

/-- The first `n` pages behind the kernel. -/
def Link.pages (lk : Link) (n : ℕ) : List ℕ := (List.range n).map fun i => lk.kend + i * PGSIZE

lemma mem_pages_small {n b : ℕ} (hn : n < 1024) :
    b ∈ (Link.small n hn).pages n ↔ b ∈ (Link.small n hn).pool := by
  rw [Link.pages, List.mem_map]
  show _ ↔ b % PGSIZE = 0 ∧ PHYSTOP - n * PGSIZE ≤ b ∧ b < PHYSTOP
  unfold Link.small PHYSTOP KERNBASE PGSIZE
  constructor
  · rintro ⟨i, hi, rfl⟩
    rw [List.mem_range] at hi
    dsimp only
    omega
  · intro h
    refine ⟨b / 4096 - (557056 - n), List.mem_range.2 (by omega), ?_⟩
    dsimp only
    omega

/-- Physical memory: the page at each page address, and `kmem.freelist`. -/
structure Ram where
  mem : ℕ → Page
  free : List ℕ
  deny : ℕ → Bool

/-- Code that works on physical memory. -/
abbrev VmM := StateT Ram (Except Stop)

/-- Overwrite the page at `pa`. -/
def Ram.setPage (s : Ram) (pa : ℕ) (b : Page) : Ram :=
  { s with mem := Function.update s.mem pa b }

@[simp] lemma Ram.setPage_self (s : Ram) (pa : ℕ) (b : Page) : (s.setPage pa b).mem pa = b :=
  Function.update_self ..

lemma Ram.setPage_of_ne (s : Ram) {pa c : ℕ} (h : c ≠ pa) (b : Page) :
    (s.setPage pa b).mem c = s.mem c :=
  Function.update_of_ne h ..

/-- `pagetable[i]`. -/
def load (pagetable i : ℕ) : VmM ℕ := do return ((← get).mem pagetable).ld 8 (8 * i)

/-- `pagetable[i] = v`. -/
def store (pagetable i v : ℕ) : VmM Unit :=
  modify fun s => s.setPage pagetable ((s.mem pagetable).st 8 (8 * i) v)

/-- `memset(pa, c, PGSIZE)`. -/
def memset (pa : ℕ) (c : UInt8) : VmM Unit := modify fun s => s.setPage pa (Bytes.fill PGSIZE c)

/-- `memmove(pa + off, src, n)`, within a page. -/
def memmove (pa off : ℕ) (src : List UInt8) : VmM Unit :=
  modify fun s => s.setPage pa ((s.mem pa).put off src)

/-- `kalloc`. -/
def kalloc : VmM ℕ := do
  let s ← get
  match s.free, s.deny 0 with
  | r :: rest, false =>
    set { s with free := rest, deny := fun n => s.deny (n + 1) }
    memset r 5
    return r
  | _, _ =>
    set { s with deny := fun n => s.deny (n + 1) }
    return 0

/-- `kfree`. The first word of a free page points to the next one. -/
def kfree (lk : Link) (pa : ℕ) : VmM Unit :=
  if pa % PGSIZE ≠ 0 ∨ pa < lk.kend ∨ PHYSTOP ≤ pa then throw (.panic "kfree")
  else do
    memset pa 1
    modify fun s => s.setPage pa ((s.mem pa).st 8 0 (s.free.headD 0))
    modify fun s => { s with free := pa :: s.free }

/-- The list of free pages is the one in memory: `r->next` is the first word of a page. -/
def Ram.Linked (s : Ram) : Prop :=
  ∀ r rest, r :: rest <:+ s.free → (s.mem r).ld 8 0 = rest.headD 0

namespace Ram.Linked

variable {s : Ram} {rest : List ℕ}

/-- Only free pages have links. -/
lemma setPage (h : s.Linked) {b : ℕ} (hb : b ∉ s.free) (page : Page) :
    (s.setPage b page).Linked := by
  intro r rest hsuf
  have hr : r ≠ b := by
    rintro rfl
    exact hb (hsuf.subset List.mem_cons_self)
  rw [s.setPage_of_ne hr]
  exact h r rest hsuf

/-- What `kmem.freelist = r->next` assigns. -/
lemma next (h : s.Linked) {r : ℕ} (hfree : s.free = r :: rest) : (s.mem r).ld 8 0 = rest.headD 0 :=
  h r rest (hfree ▸ List.suffix_rfl)

lemma tail (h : s.Linked) {r : ℕ} (hfree : s.free = r :: rest) :
    ({ s with free := rest } : Ram).Linked :=
  fun r' rest' hsuf => h r' rest' (hfree ▸ hsuf.trans (List.suffix_cons r rest))

/-- `r->next = kmem.freelist` makes the page the first one. -/
lemma cons (h : s.Linked) {b : ℕ} (hb : (s.mem b).ld 8 0 = s.free.headD 0) :
    ({ s with free := b :: s.free } : Ram).Linked := by
  intro r rest hsuf
  obtain heq | hsuf := List.suffix_cons_iff.1 hsuf
  · cases heq
    exact hb
  · exact h r rest hsuf

end Ram.Linked

/-- `kalloc` returns `kmem.freelist` and follows the link in that page. -/
lemma kalloc_run {s : Ram} (h : s.Linked) (hne : s.free ≠ []) (hdeny : s.deny 0 = false) :
    ∃ s', kalloc.run s = .ok (s.free.headD 0, s') ∧
      s'.free.headD 0 = (s.mem (s.free.headD 0)).ld 8 0 := by
  obtain ⟨r, rest, hfree⟩ := List.exists_cons_of_ne_nil hne
  obtain ⟨mem, free, deny⟩ := s
  dsimp only at hfree hdeny
  subst hfree
  have hrun : kalloc.run ⟨mem, r :: rest, deny⟩ = .ok (r, Ram.setPage
      ⟨mem, rest, fun n => deny (n + 1)⟩ r (Bytes.fill PGSIZE 5)) := by
    rw [kalloc, run_get_bind]
    dsimp only
    rw [hdeny]
    rfl
  exact ⟨_, hrun, (h.next rfl).symm⟩

/-- `freerange`, for these pages. -/
def freerange (lk : Link) (pages : List ℕ) : VmM Unit := pages.forM (kfree lk)

/-- The memory that `freerange` leaves: junk with links. -/
def freed (mem : ℕ → Page) : List ℕ → ℕ → Page
  | [] => mem
  | b :: free =>
    Function.update (freed mem free) b ((Bytes.fill PGSIZE 1).st 8 0 (free.headD 0))

variable {lk : Link} {mem : ℕ → Page} {free : List ℕ}

/-- The address of a page fits into a word. -/
lemma headD_lt (hpool : ∀ b ∈ free, b ∈ lk.pool) : free.headD 0 < 256 ^ 8 := by
  cases free with
  | nil => decide
  | cons b free =>
    have hlt := (hpool b List.mem_cons_self).2.2
    unfold PHYSTOP KERNBASE at hlt
    rw [List.headD_cons]
    omega

lemma freerange_run (d : ℕ → Bool) (hpool : ∀ b ∈ free, b ∈ lk.pool) :
    (freerange lk free.reverse).run ⟨mem, [], d⟩ = .ok ((), ⟨freed mem free, free, d⟩) := by
  induction free with
  | nil => rfl
  | cons b free ih =>
    obtain ⟨halign, hge, hlt⟩ := hpool b List.mem_cons_self
    have hfree : (kfree lk b).run ⟨freed mem free, free, d⟩ =
        .ok ((), ⟨freed mem (b :: free), b :: free, d⟩) := by
      rw [kfree, if_neg (by omega)]
      show Except.ok ((), Ram.mk (Function.update (Function.update _ b _) b _) _ d) = _
      rw [Function.update_idem]
      dsimp only
      rw [Ram.setPage_self]
      rfl
    show (forM (b :: free).reverse (kfree lk)).run _ = _
    rw [List.reverse_cons, List.forM_append, StateT.run_bind]
    show ((freerange lk free.reverse).run _ >>= _) = _
    rw [ih fun c hc => hpool c (List.mem_cons_of_mem b hc)]
    show (kfree lk b >>= fun _ => pure PUnit.unit).run _ = _
    rw [StateT.run_bind, hfree]
    rfl

/-- `freerange` links the pages that it frees. -/
lemma freed_linked (d : ℕ → Bool) (hnodup : free.Nodup) (hpool : ∀ b ∈ free, b ∈ lk.pool) :
    (⟨freed mem free, free, d⟩ : Ram).Linked := by
  induction free with
  | nil => exact fun r rest hsuf => absurd (hsuf.subset List.mem_cons_self) List.not_mem_nil
  | cons b free ih =>
    obtain ⟨hb, hnodup⟩ := List.nodup_cons.1 hnodup
    have hrest := ih hnodup fun c hc => hpool c (List.mem_cons_of_mem b hc)
    refine (hrest.setPage hb _).cons ?_
    rw [Ram.setPage_self, Bytes.ld_st (by decide)]
    exact Nat.mod_eq_of_lt (headD_lt fun c hc => hpool c (List.mem_cons_of_mem b hc))

/-! ## Page tables -/

/-- The loop of `walk`. A pointer to an entry is given by its page and its index there. -/
def walkLoop (va : ℕ) (alloc : Bool) : ℕ → ℕ → VmM (Option (ℕ × ℕ))
  | 0, pagetable => return some (pagetable, px 0 va)
  | level + 1, pagetable => do
    let pte ← load pagetable (px (level + 1) va)
    if pteV pte then walkLoop va alloc level (pte2pa pte)
    else if alloc then
      let child ← kalloc
      if child = 0 then return none
      else
        memset child 0
        store pagetable (px (level + 1) va) (pa2pte child ||| PTE_V)
        walkLoop va alloc level child
    else return none

/-- `walk`. -/
def walk (pagetable va : ℕ) (alloc : Bool) : VmM (Option (ℕ × ℕ)) :=
  if MAXVA ≤ va then throw (.panic "walk") else walkLoop va alloc 2 pagetable

/-- `walkaddr`. -/
def walkaddr (pagetable va : ℕ) : VmM ℕ := do
  if MAXVA ≤ va then return 0
  else
    match ← walk pagetable va false with
    | none => return 0
    | some (pt, i) =>
      let pte ← load pt i
      return if pteV pte && pteU pte then pte2pa pte else 0

/-- The loop of `mappages`, for `n + 1` pages. -/
def mapLoop (pagetable perm : ℕ) : ℕ → ℕ → ℕ → VmM ℤ
  | n, a, pa => do
    match ← walk pagetable a true with
    | none => return -1
    | some (pt, i) =>
      let pte ← load pt i
      if pteV pte then throw (.panic "mappages: remap")
      else
        store pt i (pa2pte pa ||| perm ||| PTE_V)
        match n with
        | 0 => return 0
        | n + 1 => mapLoop pagetable perm n (a + PGSIZE) (pa + PGSIZE)

/-- `mappages`. -/
def mappages (pagetable va size pa perm : ℕ) : VmM ℤ :=
  if size = 0 then throw (.panic "mappages: size")
  else
    let a := pgrounddown va
    let last := pgrounddown (va + size - 1)
    mapLoop pagetable perm ((last - a) / PGSIZE) a pa

/-- The loop of `uvmunmap`. -/
def unmapLoop (lk : Link) (pagetable : ℕ) (doFree : Bool) : ℕ → ℕ → VmM Unit
  | 0, _ => return
  | n + 1, a => do
    match ← walk pagetable a false with
    | none => throw (.panic "uvmunmap: walk")
    | some (pt, i) =>
      let pte ← load pt i
      if !pteV pte then throw (.panic "uvmunmap: not mapped")
      else if pteFlags pte = PTE_V then throw (.panic "uvmunmap: not a leaf")
      else
        if doFree then kfree lk (pte2pa pte) else pure ()
        store pt i 0
        unmapLoop lk pagetable doFree n (a + PGSIZE)

/-- `uvmunmap`. -/
def uvmunmap (lk : Link) (pagetable va npages : ℕ) (doFree : Bool) : VmM Unit :=
  if va % PGSIZE ≠ 0 then throw (.panic "uvmunmap: not aligned")
  else unmapLoop lk pagetable doFree npages va

/-- `uvmcreate`. -/
def uvmcreate : VmM ℕ := do
  let pagetable ← kalloc
  if pagetable = 0 then return 0
  else
    memset pagetable 0
    return pagetable

/-- `uvmdealloc`. -/
def uvmdealloc (lk : Link) (pagetable oldsz newsz : ℕ) : VmM ℕ :=
  if oldsz ≤ newsz then return oldsz
  else do
    if pgroundup newsz < pgroundup oldsz then
      uvmunmap lk pagetable (pgroundup newsz) ((pgroundup oldsz - pgroundup newsz) / PGSIZE) true
    else pure ()
    return newsz

/-- The loop of `uvmalloc`, with `n` pages to go. -/
def uvmallocLoop (lk : Link) (pagetable oldsz newsz xperm : ℕ) : ℕ → ℕ → VmM ℕ
  | 0, _ => return newsz
  | n + 1, a => do
    let mem ← kalloc
    if mem = 0 then
      let _ ← uvmdealloc lk pagetable a oldsz
      return 0
    else
      memset mem 0
      if (← mappages pagetable a PGSIZE mem (PTE_R ||| PTE_U ||| xperm)) ≠ 0 then
        kfree lk mem
        let _ ← uvmdealloc lk pagetable a oldsz
        return 0
      else uvmallocLoop lk pagetable oldsz newsz xperm n (a + PGSIZE)

/-- `uvmalloc`. -/
def uvmalloc (lk : Link) (pagetable oldsz newsz xperm : ℕ) : VmM ℕ :=
  if newsz < oldsz then return oldsz
  else
    let oldsz := pgroundup oldsz
    uvmallocLoop lk pagetable oldsz newsz xperm ((newsz - oldsz + PGSIZE - 1) / PGSIZE) oldsz

/-- `freewalk`, for a table of at most `depth` levels. -/
def freewalk (lk : Link) : ℕ → ℕ → VmM Unit
  | 0, _ => throw .disabled
  | depth + 1, pagetable => do
    (List.range 512).forM fun i => do
      let pte ← load pagetable i
      if pteV pte then
        if pteR pte || pteW pte || pteX pte then throw (.panic "freewalk: leaf")
        else
          freewalk lk depth (pte2pa pte)
          store pagetable i 0
      else return
    kfree lk pagetable

/-- `uvmfree`. -/
def uvmfree (lk : Link) (pagetable sz : ℕ) : VmM Unit := do
  if 0 < sz then uvmunmap lk pagetable 0 (pgroundup sz / PGSIZE) true else pure ()
  freewalk lk 3 pagetable

/-- The loop of `uvmcopy`, with `n` pages to go. -/
def uvmcopyLoop (lk : Link) (old new : ℕ) : ℕ → ℕ → VmM ℤ
  | 0, _ => return 0
  | n + 1, i => do
    match ← walk old i false with
    | none => throw (.panic "uvmcopy: pte should exist")
    | some (pt, j) =>
      let pte ← load pt j
      if !pteV pte then throw (.panic "uvmcopy: page not present")
      else
        let mem ← kalloc
        if mem = 0 then
          uvmunmap lk new 0 (i / PGSIZE) true
          return -1
        else
          modify fun s => s.setPage mem (s.mem (pte2pa pte))
          if (← mappages new i PGSIZE mem (pteFlags pte)) ≠ 0 then
            kfree lk mem
            uvmunmap lk new 0 (i / PGSIZE) true
            return -1
          else uvmcopyLoop lk old new n (i + PGSIZE)

/-- `uvmcopy`. -/
def uvmcopy (lk : Link) (old new sz : ℕ) : VmM ℤ :=
  uvmcopyLoop lk old new ((sz + PGSIZE - 1) / PGSIZE) 0

/-- `uvmclear`. In `pte & ~PTE_U` the bits of `pte & PTE_U` are switched off. -/
def uvmclear (pagetable va : ℕ) : VmM Unit := do
  match ← walk pagetable va false with
  | none => throw (.panic "uvmclear")
  | some (pt, i) =>
    let pte ← load pt i
    store pt i (pte ^^^ (pte &&& PTE_U))

/-- The loop of `copyout`. It copies at least one byte a round, so `len` rounds are enough. -/
def copyoutLoop (pagetable : ℕ) : ℕ → ℕ → List UInt8 → VmM ℤ
  | 0, _, _ => return 0
  | fuel + 1, dstva, src =>
    if src = [] then return 0
    else do
      let va0 := pgrounddown dstva
      let pa0 ← walkaddr pagetable va0
      if pa0 = 0 then return -1
      else
        let n := min (PGSIZE - (dstva - va0)) src.length
        memmove pa0 (dstva - va0) (src.take n)
        copyoutLoop pagetable fuel ((va0 + PGSIZE) % 2 ^ 64) (src.drop n)

/-- `copyout`. -/
def copyout (pagetable dstva : ℕ) (src : List UInt8) : VmM ℤ :=
  copyoutLoop pagetable src.length dstva src

/-- The loop of `copyin`. It returns the bytes copied to `dst`, also if it fails. -/
def copyinLoop (pagetable : ℕ) : ℕ → ℕ → ℕ → VmM (List UInt8 × ℤ)
  | 0, _, _ => return ([], 0)
  | fuel + 1, srcva, len =>
    if len = 0 then return ([], 0)
    else do
      let va0 := pgrounddown srcva
      let pa0 ← walkaddr pagetable va0
      if pa0 = 0 then return ([], -1)
      else
        let n := min (PGSIZE - (srcva - va0)) len
        let bytes := ((← get).mem pa0).slice (srcva - va0) n
        let (rest, r) ← copyinLoop pagetable fuel ((va0 + PGSIZE) % 2 ^ 64) (len - n)
        return (bytes ++ rest, r)

/-- `copyin`. -/
def copyin (pagetable srcva len : ℕ) : VmM (List UInt8 × ℤ) := copyinLoop pagetable len srcva len

/-- The loop of `copyinstr`. It returns the bytes copied to `dst`, also if it fails. -/
def copyinstrLoop (pagetable : ℕ) : ℕ → ℕ → ℕ → VmM (List UInt8 × ℤ)
  | 0, _, _ => return ([], -1)
  | fuel + 1, srcva, max =>
    if max = 0 then return ([], -1)
    else do
      let va0 := pgrounddown srcva
      let pa0 ← walkaddr pagetable va0
      if pa0 = 0 then return ([], -1)
      else
        let n := min (PGSIZE - (srcva - va0)) max
        let bytes := ((← get).mem pa0).slice (srcva - va0) n
        if 0 ∈ bytes then return (bytes.takeWhile (· ≠ 0) ++ [0], 0)
        else
          let (rest, r) ← copyinstrLoop pagetable fuel ((va0 + PGSIZE) % 2 ^ 64) (max - n)
          return (bytes ++ rest, r)

/-- `copyinstr`. -/
def copyinstr (pagetable srcva max : ℕ) : VmM (List UInt8 × ℤ) :=
  copyinstrLoop pagetable max srcva max

/-! ## Page tables of processes (`kernel/proc.c`) -/

/-- `proc_pagetable`. -/
def procPagetable (lk : Link) (trapframe : ℕ) : VmM ℕ := do
  let pagetable ← uvmcreate
  if pagetable = 0 then return 0
  else if (← mappages pagetable TRAMPOLINE PGSIZE lk.trampoline (PTE_R ||| PTE_X)) < 0 then
    uvmfree lk pagetable 0
    return 0
  else if (← mappages pagetable TRAPFRAME PGSIZE trapframe (PTE_R ||| PTE_W)) < 0 then
    uvmunmap lk pagetable TRAMPOLINE 1 false
    uvmfree lk pagetable 0
    return 0
  else return pagetable

/-- `proc_freepagetable`. -/
def procFreepagetable (lk : Link) (pagetable sz : ℕ) : VmM Unit := do
  uvmunmap lk pagetable TRAMPOLINE 1 false
  uvmunmap lk pagetable TRAPFRAME 1 false
  uvmfree lk pagetable sz

end Xv6.Vm
